import Mathlib.Data.List.TakeWhile
import Wireframe.Proofs.Text.Blanks
import Wireframe.Proofs.Text.Scanning

/-! A newline at the end of a text. What is found in the text is found with it as well, and it adds
nothing. -/
namespace Wireframe.Text

variable {α β : Type} {f g : List Char → Option (α × List Char)} {r : Recogniser α}
variable {k : List Char → Option (α × List Char)} {a s : List Char} {before : Option Char} {p : Char → Bool}

/-- What is found, with a newline at the end of the text behind it. -/
def ended (found : α × List Char) : α × List Char := (found.1, found.2 ++ ['\n'])

/-- A step in reading a text that leaves a newline at the end of the text where it is. -/
def Level (f : List Char → Option (α × List Char)) : Prop := ∀ s, f (s ++ ['\n']) = (f s).map ended

/-- Such a step that finds nothing at the end of the text. -/
structure Steady (f : List Char → Option (α × List Char)) : Prop where
  level : Level f
  nil : f [] = none

theorem level_some (x : α) : Level fun s => some (x, s) := fun _ => rfl

/-- A step after another one. -/
theorem Steady.bind {k : α → List Char → Option (β × List Char)} (hf : Steady f) (hk : ∀ x, Level (k x)) :
    Steady fun s => f s >>= fun found => k found.1 found.2 where
  level s := by
    dsimp only
    rw [hf.level]
    cases f s with
    | none => rfl
    | some found => exact hk found.1 found.2
  nil := by
    rw [hf.nil]
    rfl

theorem Steady.orElse (hf : Steady f) (hg : Steady g) : Steady fun s => f s <|> g s where
  level s := by
    dsimp only
    rw [hf.level, hg.level]
    cases f s <;> rfl
  nil := by
    rw [hf.nil, hg.nil]
    rfl

/-- A step for which the next character has to be of a class. -/
theorem Level.ahead (hf : Level f) (hp : p '\n' = false) :
    Steady fun s => if s.head?.any p then f s else none where
  level s := by
    dsimp only
    rw [hf]
    cases s with
    | nil => simp [hp]
    | cons c s =>
      rw [List.cons_append, List.head?_cons, List.head?_cons]
      split <;> rfl
  nil := rfl

/-- A step for which the next character may not be of a class. -/
theorem Level.unless (hf : Level f) (hp : p '\n' = false) :
    Level fun s => if s.head?.any p then none else f s := by
  intro s
  dsimp only
  rw [hf]
  cases s with
  | nil => simp [hp]
  | cons c s =>
    rw [List.cons_append, List.head?_cons, List.head?_cons]
    split <;> rfl

/-! Fixed texts. -/

theorem Steady.behind {g : List Char → Option (List Char)}
    (hg : ∀ s, g (s ++ ['\n']) = (g s).map (· ++ ['\n'])) (hnil : g [] = none) (hk : Level k) :
    Steady fun s => g s >>= k where
  level s := by
    dsimp only
    rw [hg]
    cases g s with
    | none => rfl
    | some rest => exact hk rest
  nil := by
    rw [hnil]
    rfl

theorem after?_newline (h : '\n' ∉ a) (s : List Char) :
    after? a (s ++ ['\n']) = (after? a s).map (· ++ ['\n']) := by
  induction a generalizing s with
  | nil => rfl
  | cons c a ih =>
    have hc : c ≠ '\n' := fun hc => h (hc ▸ List.mem_cons_self)
    have ha : '\n' ∉ a := fun hmem => h (List.mem_cons_of_mem c hmem)
    cases s with
    | nil => simp [after?, hc]
    | cons d s =>
      rw [List.cons_append, after?, after?, ih ha]
      split <;> rfl

theorem Steady.after {c : Char} (h : '\n' ∉ c :: a) (hk : Level k) :
    Steady fun s => after? (c :: a) s >>= k := .behind (after?_newline h) rfl hk

theorem afterFolded?_newline (h : a.any (foldsTo · '\n') = false) (s : List Char) :
    afterFolded? a (s ++ ['\n']) = (afterFolded? a s).map (· ++ ['\n']) := by
  induction a generalizing s with
  | nil => rfl
  | cons c a ih =>
    rw [List.any_cons, Bool.or_eq_false_iff] at h
    cases s with
    | nil => simp [afterFolded?, h.1]
    | cons d s =>
      rw [List.cons_append, afterFolded?, afterFolded?, ih h.2]
      split <;> rfl

theorem Steady.afterFolded {c : Char} (h : (c :: a).any (foldsTo · '\n') = false) (hk : Level k) :
    Steady fun s => afterFolded? (c :: a) s >>= k := .behind (afterFolded?_newline h) rfl hk

/-- A word behind which no further word character stands. -/
theorem steady_wholeWord {c : Char} (h : '\n' ∉ c :: a) :
    Steady fun s => wholeWord? (c :: a) s >>= fun rest => some ((), rest) := by
  have hrest : Level fun s => if s.head?.any isWord then none else some ((), s) :=
    (level_some ()).unless (by decide)
  have hsame : (fun s => wholeWord? (c :: a) s >>= fun rest => some ((), rest))
      = fun s => after? (c :: a) s >>= fun s => if s.head?.any isWord then none else some ((), s) := by
    funext s
    rw [wholeWord?, Option.bind_eq_bind, Option.bind_eq_bind, Option.bind_assoc]
    congr 1
    funext rest
    split <;> rfl
  rw [hsame]
  exact Steady.after h hrest

/-! Runs of characters. -/

/-- A run that ends before the text does ends there still. -/
theorem span_newline (h : p '\n' = false ∨ (s.span p).2 ≠ []) :
    (s ++ ['\n']).span p = ((s.span p).1, (s.span p).2 ++ ['\n']) := by
  rw [List.span_eq_takeWhile_dropWhile (p := p) (l := s)] at h ⊢
  have hfront : ∀ c ∈ s.takeWhile p, p c = true := fun c hc => List.mem_takeWhile_imp hc
  have hrest : ∀ c ∈ (s.dropWhile p ++ ['\n']).head?, p c = false := by
    cases hs : s.dropWhile p with
    | nil =>
      rw [hs] at h
      simpa using h
    | cons d rest =>
      have hhead := List.head?_dropWhile_not p s
      rw [hs] at hhead
      intro c hc
      obtain rfl : d = c := Option.some.inj hc
      simpa using hhead
  have hspan := span_append hfront hrest
  rwa [← List.append_assoc, List.takeWhile_append_dropWhile] at hspan

/-- A run up to the end of the text takes the newline with it. -/
theorem span_newline_of_nil (h : (s.span p).2 = []) (hp : p '\n' = true) :
    (s ++ ['\n']).span p = (s ++ ['\n'], []) := by
  rw [List.span_eq_takeWhile_dropWhile] at h
  have hall : ∀ c ∈ s ++ ['\n'], p c = true :=
    List.forall_mem_append.mpr ⟨List.dropWhile_eq_nil_iff.mp h, by simpa using hp⟩
  have hspan := span_append hall (List.head?_nil ▸ nofun : ∀ c ∈ ([] : List Char).head?, p c = false)
  rwa [List.append_nil] at hspan

/-- A step behind a run of characters, of which a newline is none. -/
theorem Level.run {k : List Char → List Char → Option (α × List Char)} (hk : ∀ front, Level (k front))
    (hp : p '\n' = false) : Level fun s => k (s.span p).1 (s.span p).2 := by
  intro s
  dsimp only
  rw [span_newline (.inl hp)]
  exact hk _ _

/-- A step behind a run of any characters. -/
theorem Steady.run {k : List Char → List Char → Option (α × List Char)} (hk : ∀ front, Steady (k front)) :
    Steady fun s => k (s.span p).1 (s.span p).2 where
  level s := by
    dsimp only
    by_cases h : p '\n' = false ∨ (s.span p).2 ≠ []
    · rw [span_newline h]
      exact (hk _).level _
    · simp only [Bool.not_eq_false, ne_eq, not_or, not_not] at h
      rw [span_newline_of_nil h.2 h.1, (hk _).nil, h.2, (hk _).nil]
      rfl
  nil := (hk []).nil

theorem Steady.trimStart (hk : Steady k) : Steady fun s => k (Text.trimStart s) := by
  have hrun : Steady fun s => k (s.span isBlank).2 := Steady.run (k := fun _ => k) fun _ => hk
  simpa only [List.span_eq_takeWhile_dropWhile, Text.trimStart] using hrun

theorem Steady.blanks (hk : Steady k) : Steady fun s => blanks? s >>= k where
  level s := by
    cases s with
    | nil =>
      show k [] = Option.map ended none
      rw [hk.nil]
      rfl
    | cons c s =>
      dsimp only
      rw [List.cons_append, blanks?, blanks?]
      split
      · exact hk.trimStart.level s
      · rfl
  nil := rfl

/-! Whole texts. -/

/-- Behind the text of a steady recogniser nothing is found. -/
theorem Steady.last (hf : Steady f) : f ['\n'] = none := by
  have hlast := hf.level []
  rwa [hf.nil] at hlast

theorem findFrom_newline (hr : ∀ before, Steady (r before)) (before : Option Char) (skip : Nat)
    (s : List Char) : findFrom r before skip (s ++ ['\n']) = findFrom r before skip s := by
  induction s generalizing before skip with
  | nil =>
    cases skip with
    | zero =>
      rw [List.nil_append, findFrom_miss (hr before).last]
      rfl
    | succ skip => rfl
  | cons c s ih =>
    cases skip with
    | succ skip => exact ih (some c) skip
    | zero =>
      have hnext : r before (c :: (s ++ ['\n'])) = (r before (c :: s)).map ended :=
        (hr before).level (c :: s)
      rw [List.cons_append, findFrom, findFrom, hnext]
      cases r before (c :: s) with
      | none => exact ih (some c) 0
      | some found =>
        obtain ⟨x, rest⟩ := found
        simp only [Option.map_some, ended, List.length_append, List.length_singleton,
          Nat.add_sub_add_right, ih]

theorem findAll_newline (hr : ∀ before, Steady (r before)) (s : List Char) :
    findAll r (s ++ ['\n']) = findAll r s := findFrom_newline hr none 0 s

theorem search_newline (hr : ∀ before, Steady (r before)) (before : Option Char) (s : List Char) :
    search r before (s ++ ['\n'])
      = (search r before s).map fun (front, x, rest) => (front, x, rest ++ ['\n']) := by
  induction s generalizing before with
  | nil =>
    rw [List.nil_append, search, search, search, (hr before).last, (hr _).nil, (hr _).nil]
    rfl
  | cons c s ih =>
    have hnext : r before (c :: (s ++ ['\n'])) = (r before (c :: s)).map ended :=
      (hr before).level (c :: s)
    rw [List.cons_append, search, search, hnext, ih]
    cases r before (c :: s) with
    | some found => rfl
    | none => cases search r (some c) s <;> rfl

theorem occurs_newline (hr : ∀ before, Steady (r before)) (s : List Char) :
    occurs r (s ++ ['\n']) = occurs r s := by
  rw [occurs, occurs, search_newline hr, Option.isSome_map]

end Wireframe.Text
