import Mathlib.Data.List.Nodup

/-! Lists without their repetitions: of what occurs more than once, the first stays. -/
namespace Wireframe

variable {α β : Type} [DecidableEq α] [DecidableEq β] {xs : List α}

theorem nodup_eraseDups (xs : List α) : xs.eraseDups.Nodup := by
  induction hn : xs.length using Nat.strongRecOn generalizing xs with
  | ind n ih =>
    cases xs with
    | nil => exact List.nodup_nil
    | cons a as =>
      have hshorter := List.length_filter_le (fun b => !b == a) as
      rw [List.length_cons] at hn
      rw [List.eraseDups_cons, List.nodup_cons]
      refine ⟨by simp [List.mem_eraseDups], ih _ (by omega) _ rfl⟩

theorem eraseDups_of_nodup (h : xs.Nodup) : xs.eraseDups = xs := by
  induction xs with
  | nil => rfl
  | cons a as ih =>
    rw [List.nodup_cons] at h
    rw [List.eraseDups_cons, List.filter_eq_self.mpr, ih h.2]
    intro b hb
    have hne : b ≠ a := fun heq => h.1 (heq ▸ hb)
    simpa using hne

/-- What tells the items of a list apart may be applied before repetitions are left out. -/
theorem eraseDups_map {f : α → β} (hf : ∀ a ∈ xs, ∀ b ∈ xs, f a = f b → a = b) :
    (xs.map f).eraseDups = xs.eraseDups.map f := by
  induction hn : xs.length using Nat.strongRecOn generalizing xs with
  | ind n ih =>
    cases xs with
    | nil => rfl
    | cons a as =>
      have hshorter := List.length_filter_le (fun b => !b == a) as
      rw [List.length_cons] at hn
      have hsame : as.filter ((fun y => !y == f a) ∘ f) = as.filter fun b => !b == a := by
        apply List.filter_congr
        intro b hb
        have hiff : f b = f a ↔ b = a :=
          ⟨hf b (List.mem_cons_of_mem _ hb) a List.mem_cons_self, fun heq => heq ▸ rfl⟩
        simp only [Function.comp_apply, beq_eq_decide, hiff]
      have hrest : ∀ b ∈ as.filter fun b => !b == a, b ∈ a :: as :=
        fun b hb => List.mem_cons_of_mem _ (List.mem_of_mem_filter hb)
      rw [List.map_cons, List.eraseDups_cons, List.eraseDups_cons, List.map_cons, List.filter_map, hsame,
        ih _ (by omega) (fun b hb c hc => hf b (hrest b hb) c (hrest c hc)) rfl]

end Wireframe
