import Wireframe.Proofs.Text.Order
import Wireframe.Proofs.Value.Faults

/-! When two values that props can hold are the same JSON value. -/
namespace Wireframe.Value

variable {k v w : Value} {xs ys zs : List (Value × Value)}

/-- No two entries have the same key. -/
def keysDiffer : List (Value × Value) → Bool
  | [] => true
  | (k, _) :: rest => !(rest.any fun e => same k e.1) && keysDiffer rest

mutual

/-- No dictionary in a value has a key twice, as is the case for every dictionary that was built. -/
def isProper : Value → Bool
  | list items | tuple items | set items => areProper items
  | dict entries => keysDiffer entries && areProperEntries entries
  | _ => true

def areProper : List Value → Bool
  | [] => true
  | x :: rest => isProper x && areProper rest

def areProperEntries : List (Value × Value) → Bool
  | [] => true
  | (_, v) :: rest => isProper v && areProperEntries rest

end

theorem areProper_iff {items : List Value} :
    areProper items = true ↔ ∀ x ∈ items, x.isProper = true := by
  induction items with
  | nil => simp [areProper]
  | cons x rest ih => simp [areProper, ih]

theorem areProperEntries_iff {entries : List (Value × Value)} :
    areProperEntries entries = true ↔ ∀ e ∈ entries, e.2.isProper = true := by
  induction entries with
  | nil => simp [areProperEntries]
  | cons e rest ih => simp [areProperEntries, ih]

/-- The text of a key. -/
def keyChars (k : Value) : List Char := (k.text?.getD "").toList

theorem keyChars_inj (hv : v.isText = true) (hw : w.isText = true) (h : keyChars v = keyChars w) :
    v = w := by
  cases v <;> cases w <;> simp_all [isText, keyChars, text?]
  exact String.toList_inj.mp h

theorem same_self_of_isText (h : v.isText = true) : same v v = true := by
  cases v with
  | text s => simp [same]
  | _ => cases h

theorem nodup_keyChars (hk : ∀ e ∈ xs, e.1.isText = true) (h : keysDiffer xs = true) :
    (xs.map fun e => keyChars e.1).Nodup := by
  induction xs with
  | nil => simp
  | cons e rest ih =>
    obtain ⟨k, v⟩ := e
    simp only [keysDiffer, Bool.and_eq_true, Bool.not_eq_true', List.any_eq_false] at h
    have hrest : ∀ e ∈ rest, e.1.isText = true := fun e he => hk e (List.mem_cons_of_mem _ he)
    rw [List.map_cons, List.nodup_cons]
    refine ⟨?_, ih hrest h.2⟩
    intro hmem
    obtain ⟨e, he, heq⟩ := List.mem_map.mp hmem
    have hkey := keyChars_inj (hrest e he) (hk (k, v) List.mem_cons_self) heq
    have hsame := h.1 e he
    rw [hkey, same_self_of_isText (hk (k, v) List.mem_cons_self)] at hsame
    exact hsame rfl

mutual

/-- Equal as JSON: numbers of different kinds differ, binary64 numbers are compared by their texts,
and the order of entries does not matter. -/
def Alike : Value → Value → Prop
  | .bool a, .bool b => a = b
  | .int m, .int n => m = n
  | .float x, .float y => x.text .plain = y.text .plain
  | .text s, .text t => s = t
  | .list xs, .list ys => ItemsAlike xs ys
  | .dict xs, .dict ys => EntriesAlike xs ys
  | _, _ => False

def ItemsAlike : List Value → List Value → Prop
  | [], [] => True
  | x :: xs, y :: ys => Alike x y ∧ ItemsAlike xs ys
  | _, _ => False

/-- Each entry has a partner with the same key among the others, and no entry is left over. -/
def EntriesAlike : List (Value × Value) → List (Value × Value) → Prop
  | [], ys => ys = []
  | (k, x) :: xs, ys => ∃ y rest, ys.Perm ((k, y) :: rest) ∧ Alike x y ∧ EntriesAlike xs rest

end

theorem EntriesAlike.perm_right (hp : ys.Perm zs) (h : EntriesAlike xs ys) :
    EntriesAlike xs zs := by
  cases xs with
  | nil =>
    have hy : ys = [] := h
    subst hy
    exact hp.nil_eq.symm
  | cons e xs =>
    obtain ⟨y, rest, hy, hxy, hrest⟩ := h
    exact ⟨y, rest, hp.symm.trans hy, hxy, hrest⟩

theorem EntriesAlike.perm_left (hp : xs.Perm ys) (h : EntriesAlike xs zs) : EntriesAlike ys zs := by
  induction hp generalizing zs with
  | nil => exact h
  | cons e _ ih =>
    obtain ⟨y, rest, hy, hxy, hrest⟩ := h
    exact ⟨y, rest, hy, hxy, ih hrest⟩
  | swap e f xs =>
    obtain ⟨y, rest, hy, hxy, z, rest', hz, hxz, hrest⟩ := h
    refine ⟨z, (f.1, y) :: rest', ?_, hxz, y, rest', List.Perm.refl _, hxy, hrest⟩
    exact hy.trans ((hz.cons _).trans (List.Perm.swap _ _ _))
  | trans _ _ ih₁ ih₂ => exact ih₂ (ih₁ h)

/-- Entries that are alike pair by pair are alike. -/
theorem EntriesAlike.of_forall₂
    (h : List.Forall₂ (fun a b => a.1 = b.1 ∧ Alike a.2 b.2) xs ys) : EntriesAlike xs ys := by
  induction h with
  | nil => rfl
  | @cons a b as bs hab _ ih =>
    refine ⟨b.2, bs, ?_, hab.2, ih⟩
    rw [hab.1]

end Wireframe.Value
