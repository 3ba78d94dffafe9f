import Mathlib.Data.List.Nodup
import Wireframe.Text.Order

/-! The order of texts is total, and sorting by it forgets in which order entries with different
keys came. -/
namespace Wireframe.Text

variable {α : Type} {a b c : List Char}

theorem atMost_total (a b : List Char) : (atMost a b || atMost b a) = true := by
  induction a generalizing b with
  | nil => simp [atMost]
  | cons x a ih =>
    cases b with
    | nil => simp [atMost]
    | cons y b =>
      by_cases h : x = y
      · subst y
        simpa [atMost] using ih b
      · have hne : x.toNat ≠ y.toNat := fun he => h (Char.toNat_inj.mp he)
        simp [atMost, h, Ne.symm h]
        omega

theorem atMost_trans (hab : atMost a b = true) (hbc : atMost b c = true) : atMost a c = true := by
  induction a generalizing b c with
  | nil => simp [atMost]
  | cons x a ih =>
    cases b with
    | nil => simp [atMost] at hab
    | cons y b =>
      cases c with
      | nil => simp [atMost] at hbc
      | cons z c =>
        by_cases hxy : x = y <;> by_cases hyz : y = z <;> simp_all [atMost]
        · exact ih hab hbc
        · have hxz : x ≠ z := by
            rintro rfl
            omega
          simp [hxz]
          omega

theorem atMost_antisymm (hab : atMost a b = true) (hba : atMost b a = true) : a = b := by
  induction a generalizing b with
  | nil => cases b <;> simp_all [atMost]
  | cons x a ih =>
    cases b with
    | nil => simp [atMost] at hab
    | cons y b =>
      by_cases hxy : x = y
      · subst y
        simp only [atMost, if_true] at hab hba
        rw [ih hab hba]
      · simp [atMost, hxy, Ne.symm hxy] at hab hba
        omega

/-- Entries sorted by their keys. -/
def sortByText (key : α → List Char) (xs : List α) : List α :=
  xs.mergeSort fun x y => atMost (key x) (key y)

theorem sortByText_perm (key : α → List Char) (xs : List α) : (sortByText key xs).Perm xs :=
  List.mergeSort_perm xs _

theorem sortByText_pairwise (key : α → List Char) (xs : List α) :
    (sortByText key xs).Pairwise fun x y => atMost (key x) (key y) = true :=
  List.pairwise_mergeSort
    (fun x y z => atMost_trans (a := key x) (b := key y) (c := key z))
    (fun x y => atMost_total (key x) (key y)) xs

/-- With different keys there is only one sorted order. -/
theorem sortByText_eq_of_perm {key : α → List Char} {xs ys : List α} (hp : xs.Perm ys)
    (hk : (xs.map key).Nodup) : sortByText key xs = sortByText key ys := by
  have hx := sortByText_perm key xs
  have hy := sortByText_perm key ys
  apply List.Perm.eq_of_pairwise ?_ (sortByText_pairwise key xs) (sortByText_pairwise key ys)
    (hx.trans (hp.trans hy.symm))
  intro x y hxm hym hxy hyx
  have hxs : x ∈ xs := hx.mem_iff.mp hxm
  have hys : y ∈ xs := hp.mem_iff.mpr (hy.mem_iff.mp hym)
  exact List.inj_on_of_nodup_map hk hxs hys (atMost_antisymm hxy hyx)

/-- Sorting does not look at what it does not compare. -/
theorem map_sortByText {β : Type} (key : α → List Char) (other : β → List Char)
    (f : α → β) (h : ∀ x, other (f x) = key x) (xs : List α) :
    (sortByText key xs).map f = sortByText other (xs.map f) :=
  List.map_mergeSort fun x _ y _ => by rw [h, h]

end Wireframe.Text
