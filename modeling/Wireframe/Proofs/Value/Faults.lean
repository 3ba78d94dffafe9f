import Mathlib.Data.List.Flatten
import Wireframe.Prop

/-! Values that props can hold, and which fault of a value is reported where it has several. The check of prop
values finds none in closed data only. Of the faults that stand in no other it reports the last. -/
namespace Wireframe.Value

variable {place : String} {v : Value} {e : String × Value} {fault : PropFault}
variable {todo : List (String × Value)} {entries : List (Value × Value)}

/-- Closed data, the values that props can hold. -/
inductive Closed : Value → Prop
  | bool (b : Bool) : Closed (.bool b)
  | int (n : Int) : Closed (.int n)
  | float {x : Double} (h : x.IsFinite) : Closed (.float x)
  | text (s : String) : Closed (.text s)
  | list {items : List Value} (h : ∀ x ∈ items, Closed x) : Closed (.list items)
  | dict {entries : List (Value × Value)} (hk : ∀ e ∈ entries, e.1.isText = true)
      (h : ∀ e ∈ entries, Closed e.2) : Closed (.dict entries)

theorem Closed.items {items : List Value} (h : Closed (.list items)) : ∀ x ∈ items, Closed x := by
  cases h with
  | list h => exact h

theorem Closed.keys (h : Closed (.dict entries)) : ∀ e ∈ entries, e.1.isText = true := by
  cases h with
  | dict hk _ => exact hk

theorem Closed.values (h : Closed (.dict entries)) : ∀ e ∈ entries, Closed e.2 := by
  cases h with
  | dict _ h => exact h

/-! What stands in a value. -/

theorem mem_inside_list {items : List Value} {x : Value} :
    (∃ p, (p, x) ∈ (list items).inside place) ↔ x ∈ items := by
  simp only [inside, List.mem_mapIdx, Prod.mk.injEq]
  constructor
  · rintro ⟨_, i, hi, -, rfl⟩
    exact List.getElem_mem hi
  · intro hx
    obtain ⟨i, hi, rfl⟩ := List.getElem_of_mem hx
    exact ⟨_, i, hi, rfl, rfl⟩

theorem mem_inside_dict {x : Value} :
    (∃ p, (p, x) ∈ (dict entries).inside place) ↔ ∃ e ∈ entries, e.2 = x := by
  simp only [inside, List.mem_map, Prod.mk.injEq]
  constructor
  · rintro ⟨_, e, he, -, rfl⟩
    exact ⟨e, he, rfl⟩
  · rintro ⟨e, he, rfl⟩
    exact ⟨_, e, he, rfl, rfl⟩

theorem weight_lt_of_mem_inside (h : e ∈ v.inside place) : e.2.weight < v.weight := by
  obtain ⟨front, back, hsplit⟩ := List.append_of_mem h
  have hload : workload (v.inside place)
      = workload front + (e.2.weight + workload back) := by
    rw [hsplit, workload_append]
    rfl
  have hlt := workload_inside_lt place v
  omega

/-- Closed data is what has no fault by itself and in which closed data stands. -/
theorem closed_iff (place : String) :
    v.Closed ↔ v.ownFault? place = none ∧ ∀ e ∈ v.inside place, e.2.Closed := by
  constructor
  · intro h
    cases h with
    | float hx => exact ⟨if_pos hx, nofun⟩
    | list hitems => exact ⟨rfl, fun e he => hitems e.2 (mem_inside_list.mp ⟨e.1, he⟩)⟩
    | dict hk hvalues =>
      refine ⟨if_pos (List.all_eq_true.mpr hk), fun e he => ?_⟩
      obtain ⟨f, hf, hfe⟩ := mem_inside_dict.mp ⟨e.1, he⟩
      exact hfe ▸ hvalues f hf
    | _ => exact ⟨rfl, nofun⟩
  · rintro ⟨hown, hinside⟩
    cases v with
    | bool b => exact .bool b
    | int n => exact .int n
    | text s => exact .text s
    | float x =>
      rw [ownFault?] at hown
      split at hown
      · exact .float ‹_›
      · cases hown
    | list items =>
      refine .list fun x hx => ?_
      obtain ⟨p, hp⟩ := mem_inside_list.mpr hx
      exact hinside _ hp
    | dict entries =>
      rw [ownFault?] at hown
      split at hown
      · rename_i hk
        refine .dict (List.all_eq_true.mp hk) fun e he => ?_
        obtain ⟨p, hp⟩ := mem_inside_dict.mpr ⟨e, he, rfl⟩
        exact hinside _ hp
      · cases hown
    | _ => cases hown

/-- What holds of a value wherever it holds of all that stands in it holds of every value. -/
theorem inside_induction {P : String → Value → Prop}
    (step : ∀ place v, (∀ e ∈ v.inside place, P e.1 e.2) → P place v) (place : String) (v : Value) :
    P place v :=
  step place v fun e _he => inside_induction step e.1 e.2
termination_by v.weight
decreasing_by exact weight_lt_of_mem_inside _he

/-! Faults in the order of the document. -/

/-- All values in a value with their places in the order of the document: a value stands before what it
holds. -/
def walk (place : String) (v : Value) : List (String × Value) :=
  (place, v) :: (v.inside place).attach.flatMap fun e => walk e.1.1 e.1.2
termination_by v.weight
decreasing_by exact weight_lt_of_mem_inside e.2

/-- The faults of all values in a value in the order of the document. -/
def faults (place : String) (v : Value) : List PropFault :=
  (v.walk place).filterMap fun e => e.2.ownFault? e.1

/-- The faults that stand in no other one. -/
def outermost (place : String) (v : Value) : List PropFault :=
  match v.ownFault? place with
  | some fault => [fault]
  | none => (v.inside place).attach.flatMap fun e => outermost e.1.1 e.1.2
termination_by v.weight
decreasing_by exact weight_lt_of_mem_inside e.2

theorem flatMap_attach {α β : Type} (xs : List α) (f : α → List β) :
    (xs.attach.flatMap fun x => f x.1) = xs.flatMap f := by
  rw [List.flatMap_subtype fun _ _ => rfl, List.unattach_attach]

theorem faults_eq (place : String) (v : Value) :
    v.faults place
      = (v.ownFault? place).toList ++ (v.inside place).flatMap fun e => e.2.faults e.1 := by
  rw [faults, walk, flatMap_attach (v.inside place) fun e => e.2.walk e.1, List.filterMap_cons,
    List.filterMap_flatMap]
  cases v.ownFault? place <;> rfl

theorem outermost_of_some (h : v.ownFault? place = some fault) : v.outermost place = [fault] := by
  rw [outermost, h]

theorem outermost_of_none (h : v.ownFault? place = none) :
    v.outermost place = (v.inside place).flatMap fun e => e.2.outermost e.1 := by
  rw [outermost, h]
  exact flatMap_attach (v.inside place) fun e => e.2.outermost e.1

theorem head?_flatMap_congr {α β : Type} {xs : List α} {f g : α → List β}
    (h : ∀ x ∈ xs, (f x).head? = (g x).head?) : (xs.flatMap f).head? = (xs.flatMap g).head? := by
  induction xs with
  | nil => rfl
  | cons x xs ih =>
    rw [List.forall_mem_cons] at h
    rw [List.flatMap_cons, List.flatMap_cons, List.head?_append, List.head?_append, h.1, ih h.2]

/-- The first fault stands in no other one. -/
theorem head?_faults (place : String) (v : Value) :
    (v.faults place).head? = (v.outermost place).head? := by
  induction place, v using inside_induction with
  | step place v ih =>
    rw [faults_eq]
    cases hown : v.ownFault? place with
    | some fault => rw [outermost_of_some hown]; rfl
    | none => rw [outermost_of_none hown]; exact head?_flatMap_congr ih

theorem outermost_sublist (place : String) (v : Value) :
    (v.outermost place).Sublist (v.faults place) := by
  induction place, v using inside_induction with
  | step place v ih =>
    rw [faults_eq]
    cases hown : v.ownFault? place with
    | some fault => rw [outermost_of_some hown]; exact List.sublist_append_left _ _
    | none => rw [outermost_of_none hown]; exact List.Sublist.flatMap_right _ ih

theorem outermost_eq_nil_iff (place : String) (v : Value) : v.outermost place = [] ↔ v.Closed := by
  induction place, v using inside_induction with
  | step place v ih =>
    rw [closed_iff place]
    cases hown : v.ownFault? place with
    | some fault => simp [outermost_of_some hown]
    | none =>
      rw [outermost_of_none hown, List.flatMap_eq_nil_iff]
      exact ⟨fun h => ⟨rfl, fun e he => (ih e he).mp (h e he)⟩, fun h e he => (ih e he).mpr (h.2 e he)⟩

/-! The search. -/

/-- A search comes to the values in front first, and reports the last outermost fault of the rest in the order
of the document. -/
theorem search?_eq_getLast? (todo : List (String × Value)) :
    search? todo = (todo.reverse.flatMap fun e => e.2.outermost e.1).getLast? := by
  fun_induction search? todo with
  | case1 => rfl
  | case2 place v rest fault hown => simp [outermost_of_some hown]
  | case3 place v rest hown ih => simp [ih, outermost_of_none hown]

theorem propFault?_eq_getLast? (place : String) (v : Value) :
    v.propFault? place = (v.outermost place).getLast? := by
  rw [propFault?, search?_eq_getLast?, List.reverse_singleton, List.flatMap_singleton]

/-- The check of prop values lets closed data pass and nothing else. -/
theorem propFault?_eq_none_iff : v.propFault? place = none ↔ v.Closed := by
  rw [propFault?_eq_getLast?, List.getLast?_eq_none_iff, outermost_eq_nil_iff]

/-- The fault of a value that is reported is the last of those that stand in no other, and the first of all
faults is the first of these; so the first fault is reported just where the two agree. -/
theorem propFault?_is_last_outermost (place : String) (v : Value) :
    v.propFault? place = (v.outermost place).getLast?
      ∧ (v.faults place).head? = (v.outermost place).head?
      ∧ (v.outermost place).Sublist (v.faults place)
      ∧ (v.propFault? place = none ↔ v.Closed)
      ∧ (v.propFault? place = (v.faults place).head?
          ↔ (v.outermost place).getLast? = (v.outermost place).head?) := by
  refine ⟨propFault?_eq_getLast? place v, head?_faults place v, outermost_sublist place v,
    propFault?_eq_none_iff, ?_⟩
  rw [propFault?_eq_getLast?, head?_faults]

/-- Of two items at fault the second is reported. -/
theorem propFault?_ne_first_of_nulls :
    (list [null, null]).propFault? "value" = some (.null "value[1]")
      ∧ ((list [null, null]).faults "value").head? = some (.null "value[0]")
      ∧ (list [null, null]).propFault? "value" ≠ ((list [null, null]).faults "value").head? := by
  have hreported : (list [null, null]).propFault? "value" = some (.null "value[1]") := rfl
  have hfirst : ((list [null, null]).faults "value").head? = some (.null "value[0]") := by
    have hinside : (list [null, null]).inside "value" = [("value[0]", null), ("value[1]", null)] := rfl
    rw [head?_faults, outermost_of_none rfl, hinside, List.flatMap_cons, outermost_of_some rfl]
    rfl
  refine ⟨hreported, hfirst, ?_⟩
  rw [hreported, hfirst]
  decide

end Wireframe.Value
