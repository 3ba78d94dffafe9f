import Mathlib.Data.List.Basic
import Wireframe.Text.Search

/-! Texts that fall apart in one way only. -/
namespace Wireframe.Text

variable {p : Char → Bool} {a b r s : List Char}

/-- A fixed text is checked character by character. -/
theorem forall_of_all {q : Char → Prop} [DecidablePred q] (h : s.all (fun c => q c) = true) :
    ∀ c ∈ s, q c := by
  simpa using h

/-- The longest front of characters of a class is determined by the whole text. -/
theorem append_cut (ha : ∀ c ∈ a, p c = true) (hb : ∀ c ∈ b, p c = true)
    (hr : ∀ c ∈ r.head?, p c = false) (hs : ∀ c ∈ s.head?, p c = false)
    (h : a ++ r = b ++ s) : a = b ∧ r = s := by
  induction a generalizing b with
  | nil =>
    cases b with
    | nil => exact ⟨rfl, h⟩
    | cons y b =>
      have hy : p y = false := hr y (by simp [show r = y :: (b ++ s) from h])
      simp [hb y List.mem_cons_self] at hy
  | cons x a ih =>
    cases b with
    | nil =>
      have hx : p x = false := hs x (by simp [← show x :: (a ++ r) = s from h])
      simp [ha x List.mem_cons_self] at hx
    | cons y b =>
      obtain ⟨rfl, htail⟩ : x = y ∧ a ++ r = b ++ s := by simpa using h
      obtain ⟨rfl, hrs⟩ := ih (fun c hc => ha c (List.mem_cons_of_mem _ hc))
        (fun c hc => hb c (List.mem_cons_of_mem _ hc)) htail
      exact ⟨rfl, hrs⟩

theorem joined_cons (sep : List Char) (x : List Char) (xs : List (List Char)) :
    joined sep (x :: xs) = x ++ xs.flatMap (sep ++ ·) := by
  induction xs generalizing x with
  | nil => simp [joined]
  | cons y ys ih => simp [joined, ih y]

theorem flatMap_joined (f : Char → List Char) (sep : List Char) (xs : List (List Char)) :
    (joined sep xs).flatMap f = joined (sep.flatMap f) (xs.map (·.flatMap f)) := by
  cases xs with
  | nil => rfl
  | cons x xs => simp [joined_cons, List.flatMap_append, List.flatMap_assoc, List.flatMap_map]

theorem mem_joined {c : Char} {sep : List Char} {xs : List (List Char)} (h : c ∈ joined sep xs) :
    c ∈ sep ∨ ∃ x ∈ xs, c ∈ x := by
  cases xs with
  | nil => simp [joined] at h
  | cons x xs =>
    rw [joined_cons, List.mem_append, List.mem_flatMap] at h
    rcases h with h | ⟨y, hy, h⟩
    · exact .inr ⟨x, List.mem_cons_self, h⟩
    · rcases List.mem_append.mp h with h | h
      · exact .inl h
      · exact .inr ⟨y, List.mem_cons_of_mem _ hy, h⟩

end Wireframe.Text
