import Wireframe.History.Call
import Wireframe.Proofs.Outcome
import Wireframe.Proofs.History.Rows

/-! A history in memory and one in a database cannot be told apart by calls that a database can bind. Another
call the database refuses, and stays as it is. -/
namespace Wireframe.Storage
open Outcome Memory

variable {τ : Type} {d : Database τ} {vs front back : List (Version τ)} {v : Version τ} {id : τ}
variable {c : Call τ} {steps : List (Step τ)}

/-- A version whose plan can be written out. -/
def Storable (v : Version τ) : Prop := ∃ text, v.plan.toText = .ok text

/-- The texts of a call that a database has to bind. -/
def Call.texts : Call τ → List τ
  | .append v => [v.id, v.userIntent, v.code] ++ v.parentId.toList
  | .truncateAfter id => [id]
  | _ => []

/-- An open database with the rows of these versions. -/
structure Mirrors (d : Database τ) (vs : List (Version τ)) : Prop where
  isOpen : d.isOpen = true
  lists : d.table.Lists vs
  distinct : Distinct vs

theorem Mirrors.ready (h : Mirrors d vs) : d.ready = .ok d.table := by
  rw [Database.ready, if_pos h.isOpen]

theorem Mirrors.with_table (h : Mirrors d vs) {t : Table τ} {ws : List (Version τ)} (ht : t.Lists ws)
    (hw : Distinct ws) : Mirrors { d with table := t } ws := ⟨h.isOpen, ht, hw⟩

/-- A database that is kept in a file is the same after it was closed and opened. -/
theorem Mirrors.opened_closed (h : Mirrors d vs) (hfile : d.file.isSome = true) :
    d.closed.opened = d := by
  obtain ⟨file, table, isOpen⟩ := d
  obtain ⟨path, rfl⟩ := Option.isSome_iff_exists.mp hfile
  obtain rfl : isOpen = true := h.isOpen
  rfl

/-- Steps that put in versions that can be written out, and reopen only what is kept in a file. -/
structure Allowed (d : Database τ) (steps : List (Step τ)) : Prop where
  storable : ∀ v, .call (.append v) ∈ steps → Storable v
  file : .reopen ∈ steps → d.file.isSome = true

theorem Allowed.of_append {e : Database τ} (steps : List (Step τ)) {back : List (Step τ)}
    (h : Allowed d (steps ++ back))
    (he : e.file = d.file) : Allowed d steps ∧ Allowed e back :=
  ⟨⟨fun v hv => h.storable v (List.mem_append_left _ hv),
      fun hmem => h.file (List.mem_append_left _ hmem)⟩,
    fun v hv => h.storable v (List.mem_append_right _ hv),
    fun hmem => he ▸ h.file (List.mem_append_right _ hmem)⟩

theorem Allowed.call (h : Allowed d (.call c :: steps)) : ∀ v, c = .append v → Storable v := by
  rintro v rfl
  exact h.storable v List.mem_cons_self

theorem ofVersion_of_storable (position : Nat) (hv : Storable v) :
    ∃ r, Row.ofVersion position v = .ok r ∧ r.position = position ∧ r.summary = v.summary
      ∧ r.texts = (Call.append v).texts := by
  obtain ⟨text, htext⟩ := hv
  exact ⟨_, by rw [Row.ofVersion, htext]; rfl, rfl, rfl, rfl⟩

theorem Mirrors.ids (h : Mirrors d vs) :
    (database d).ids = (memory (.ofVersions vs)).ids := by
  simp only [Storage.ids, h.ready, ok_bind, ofVersions, ← h.lists.ids]
  rfl

/-- A call that puts in a version whose name is taken. -/
def Clashes (s : Storage τ) (c : Call τ) : Prop := ∃ v ids, c = .append v ∧ s.ids = .ok ids ∧ v.id ∈ ids

theorem not_clashes {s : Storage τ} (hc : ∀ v, c ≠ .append v) : ¬ Clashes s c := by
  rintro ⟨v, _, heq, _⟩
  exact hc v heq

theorem not_clashes_append {s : Storage τ} {ids : List τ} (hids : s.ids = .ok ids)
    (hid : v.id ∉ ids) : ¬ Clashes s (.append v) := by
  rintro ⟨w, ids', heq, hids', hmem⟩
  cases heq
  rw [hids] at hids'
  cases hids'
  exact hid hmem

theorem mirrors_create (path : String) :
    ∃ d : Database τ, create (some path) = .database d
      ∧ d.file = (Database.atPath path (.empty : Table τ)).file ∧ Mirrors d [] := by
  refine ⟨(Database.atPath path .empty).opened, rfl, rfl, rfl, ?_, List.nodup_nil⟩
  have htable : (Database.atPath path (.empty : Table τ)).opened.table = .empty := by
    simp only [Database.atPath, Database.opened]
    split <;> split <;> rfl
  rw [htable]
  exact Table.lists_empty

variable [Bindable τ]

/-- A call whose texts can be bound. -/
def Call.Binds (c : Call τ) : Prop := Bindable.firstRefusal? c.texts = none

theorem exists_bind_error {ts : List τ} (h : Bindable.firstRefusal? ts ≠ none) :
    ∃ fault, bind ts = .error (.unbindable fault) := by
  obtain ⟨fault, hfault⟩ := Option.ne_none_iff_exists'.mp h
  exact ⟨fault, by rw [bind, hfault]⟩

variable [DecidableEq τ]

theorem memory_append (hid : v.id ∉ vs.map (·.id)) :
    (memory (.ofVersions vs)).append v = .ok (.memory (.ofVersions (vs ++ [v]))) := by
  rw [Storage.append, append?_ofVersions hid]

theorem memory_append_taken (hid : v.id ∈ vs.map (·.id)) :
    (memory (.ofVersions vs)).append v = .error (.duplicateVersion v.id) := by
  rw [Storage.append, append?_taken hid]

theorem memory_truncateAfter (h : Distinct (front ++ v :: back)) :
    (memory (.ofVersions (front ++ v :: back))).truncateAfter v.id
      = .ok (some (back.map (·.id)), .memory (.ofVersions (front ++ [v]))) := by
  rw [Storage.truncateAfter, truncateAfter?_ofVersions h]

theorem memory_truncateAfter_absent (hid : id ∉ vs.map (·.id)) :
    (memory (.ofVersions vs)).truncateAfter id = .ok (none, .memory (.ofVersions vs)) := by
  rw [Storage.truncateAfter, truncateAfter?_of_notMem hid]

theorem Mirrors.append (h : Mirrors d vs) (hv : Storable v) (hb : (Call.append v).Binds)
    (hid : v.id ∉ vs.map (·.id)) :
    ∃ t, (database d).append v = .ok (.database { d with table := t }) ∧ t.Lists (vs ++ [v]) := by
  obtain ⟨r, hr, hposition, hsummary, htexts⟩ := ofVersion_of_storable d.table.nextPosition hv
  obtain ⟨t, hinsert, hlists⟩ := h.lists.insert? hsummary hposition hid
  refine ⟨t, ?_, hlists⟩
  simp only [Storage.append, h.ready, ok_bind, hr, Except.mapError, htexts, bind_of_unrefused hb, hinsert]
  rfl

theorem Mirrors.append_taken (h : Mirrors d vs) (hv : Storable v) (hb : (Call.append v).Binds)
    (hid : v.id ∈ vs.map (·.id)) : (database d).append v = .error .duplicateRow := by
  obtain ⟨r, hr, -, hsummary, htexts⟩ := ofVersion_of_storable d.table.nextPosition hv
  have hinsert := h.lists.insert?_taken hsummary hid
  simp only [Storage.append, h.ready, ok_bind, hr, Except.mapError, htexts, bind_of_unrefused hb, hinsert]
  rfl

theorem Mirrors.truncateAfter (h : Mirrors d (front ++ v :: back)) (hb : (Call.truncateAfter v.id).Binds) :
    ∃ t, (database d).truncateAfter v.id
        = .ok (some (back.map (·.id)), .database { d with table := t })
      ∧ t.Lists (front ++ [v]) := by
  obtain ⟨t, htruncate, hlists⟩ := h.lists.truncateAfter? h.distinct
  have hbind : bind [v.id] = .ok () := bind_of_unrefused hb
  refine ⟨t, ?_, hlists⟩
  simp only [Storage.truncateAfter, h.ready, ok_bind, hbind, htruncate]
  rfl

theorem Mirrors.truncateAfter_absent (h : Mirrors d vs) (hb : (Call.truncateAfter id).Binds)
    (hid : id ∉ vs.map (·.id)) : (database d).truncateAfter id = .ok (none, .database d) := by
  have hbind : bind [id] = .ok () := bind_of_unrefused hb
  simp only [Storage.truncateAfter, h.ready, ok_bind, hbind, h.lists.truncateAfter?_of_notMem hid]
  rfl

/-- What a database cannot bind it refuses. -/
theorem Mirrors.refused (h : Mirrors d vs) (hc : ∀ v, c = .append v → Storable v) (hb : ¬ c.Binds) :
    ∃ fault, (database d).perform c = (.error (.unbindable fault), .database d) := by
  obtain ⟨fault, hfault⟩ := exists_bind_error hb
  refine ⟨fault, ?_⟩
  cases c with
  | append v =>
    obtain ⟨r, hr, -, -, htexts⟩ := ofVersion_of_storable d.table.nextPosition (hc v rfl)
    have happend : (database d).append v = .error (.unbindable fault) := by
      simp only [Storage.append, h.ready, ok_bind, hr, Except.mapError, htexts, hfault]
      rfl
    rw [perform, happend]
  | truncateAfter id =>
    have htruncate : (database d).truncateAfter id = .error (.unbindable fault) := by
      simp only [Storage.truncateAfter, h.ready, ok_bind, show bind [id] = _ from hfault]
      rfl
    rw [perform, htruncate]
  | clear | ids | count | summaries => exact (hb rfl).elim

/-- What a call makes of a database and of a memory that hold the same versions. -/
structure Agree (d : Database τ) (vs : List (Version τ)) (c : Call τ) (e : Database τ)
    (ws : List (Version τ)) : Prop where
  database : ((database d).perform c).2 = .database e
  memory : ((memory (.ofVersions vs)).perform c).2 = .memory (.ofVersions ws)
  file : e.file = d.file
  mirrors : Mirrors e ws
  answer : ((Storage.database d).perform c).1.toOption
    = ((Storage.memory (.ofVersions vs)).perform c).1.toOption

/-- A database and a memory with the same versions answer a call that binds in the same way. -/
theorem Mirrors.perform (h : Mirrors d vs) (hc : ∀ v, c = .append v → Storable v) (hb : c.Binds) :
    ∃ e ws, Agree d vs c e ws := by
  cases c with
  | append v =>
    by_cases hid : v.id ∈ vs.map (·.id)
    · have hdatabase := h.append_taken (hc v rfl) hb hid
      have hmemory := memory_append_taken hid
      refine ⟨d, vs, ?_, ?_, rfl, h, ?_⟩
      · simp only [Storage.perform, hdatabase]
      · simp only [Storage.perform, hmemory]
      · simp only [Storage.perform, hdatabase, hmemory]
        rfl
    · obtain ⟨t, hdatabase, hlists⟩ := h.append (hc v rfl) hb hid
      have hmemory := memory_append hid
      refine ⟨{ d with table := t }, vs ++ [v], ?_, ?_, rfl,
        h.with_table hlists (h.distinct.concat hid), ?_⟩
      · simp only [Storage.perform, hdatabase]
      · simp only [Storage.perform, hmemory]
      · simp only [Storage.perform, hdatabase, hmemory]
  | truncateAfter id =>
    by_cases hid : id ∈ vs.map (·.id)
    · obtain ⟨v, hv, rfl⟩ := List.mem_map.mp hid
      obtain ⟨front, back, rfl⟩ := List.append_of_mem hv
      obtain ⟨t, hdatabase, hlists⟩ := h.truncateAfter hb
      have hmemory := memory_truncateAfter h.distinct
      have hcut : front ++ v :: back = (front ++ [v]) ++ back := by simp
      refine ⟨{ d with table := t }, front ++ [v], ?_, ?_, rfl,
        h.with_table hlists (hcut ▸ h.distinct).of_append, ?_⟩
      · simp only [Storage.perform, hdatabase]
      · simp only [Storage.perform, hmemory]
      · simp only [Storage.perform, hdatabase, hmemory]
    · have hdatabase := h.truncateAfter_absent hb hid
      have hmemory := memory_truncateAfter_absent hid
      refine ⟨d, vs, ?_, ?_, rfl, h, ?_⟩
      · simp only [Storage.perform, hdatabase]
      · simp only [Storage.perform, hmemory]
      · simp only [Storage.perform, hdatabase, hmemory]
  | clear =>
    have hdatabase : (Storage.database d).clear = .ok (.database { d with table := .empty }) := by
      simp only [Storage.clear, h.ready, ok_bind]
      rfl
    refine ⟨{ d with table := .empty }, [], ?_, rfl, rfl,
      h.with_table Table.lists_empty List.nodup_nil, ?_⟩
    · simp only [Storage.perform, hdatabase]
    · simp only [Storage.perform, hdatabase]
      rfl
  | ids =>
    refine ⟨d, vs, rfl, rfl, rfl, h, ?_⟩
    simp only [Storage.perform, h.ids]
  | count =>
    refine ⟨d, vs, rfl, rfl, rfl, h, ?_⟩
    simp only [Storage.perform, Storage.count, h.ready, ok_bind, ofVersions, List.length_map,
      ← h.lists.length]
    rfl
  | summaries =>
    refine ⟨d, vs, rfl, rfl, rfl, h, ?_⟩
    simp only [Storage.perform, Storage.summaries, h.ready, ok_bind, all_ofVersions h.distinct,
      ← h.lists.summaries]
    rfl

/-- A call that fails changes nothing. -/
theorem unchanged_of_error {s : Storage τ} {fault : HistoryError τ}
    (h : (s.perform c).1 = .error fault) : (s.perform c).2 = s := by
  cases c with
  | append _ | truncateAfter _ | clear =>
    simp only [Storage.perform] at h ⊢
    split at h
    · cases h
    · rfl
  | ids | count | summaries => rfl

/-- Whether a call fails exactly where it clashes. -/
def Sharp (s : Storage τ) (c : Call τ) : Prop := (s.perform c).1.toOption = none ↔ Clashes s c

theorem Sharp.of_answer {s : Storage τ} {a : Answer τ} (ha : (s.perform c).1 = .ok a)
    (hc : ¬ Clashes s c) : Sharp s c := by
  rw [Sharp, ha]
  exact ⟨nofun, fun h => absurd h hc⟩

/-- A memory fails just where a call clashes, and holds distinct versions after any call. -/
theorem memory_perform (h : Distinct vs) (c : Call τ) : Sharp (.memory (.ofVersions vs)) c
    ∧ ∃ ws, ((memory (.ofVersions vs)).perform c).2 = .memory (.ofVersions ws) ∧ Distinct ws := by
  cases c with
  | append v =>
    by_cases hid : v.id ∈ vs.map (·.id)
    · rw [Sharp]
      simp only [Storage.perform, memory_append_taken hid]
      exact ⟨⟨fun _ => ⟨v, _, rfl, rfl, hid⟩, fun _ => rfl⟩, vs, rfl, h⟩
    · refine ⟨.of_answer (a := .done) ?_ (not_clashes_append rfl hid), vs ++ [v], ?_, h.concat hid⟩
      · simp only [Storage.perform, memory_append hid]
      · simp only [Storage.perform, memory_append hid]
  | truncateAfter id =>
    by_cases hid : id ∈ vs.map (·.id)
    · obtain ⟨v, hv, rfl⟩ := List.mem_map.mp hid
      obtain ⟨front, back, rfl⟩ := List.append_of_mem hv
      have hcut : front ++ v :: back = (front ++ [v]) ++ back := by simp
      refine ⟨.of_answer (a := .removed (some (back.map (·.id)))) ?_ (not_clashes nofun), front ++ [v], ?_,
        (hcut ▸ h).of_append⟩
      · simp only [Storage.perform, memory_truncateAfter h]
      · simp only [Storage.perform, memory_truncateAfter h]
    · refine ⟨.of_answer (a := .removed none) ?_ (not_clashes nofun), vs, ?_, h⟩
      · simp only [Storage.perform, memory_truncateAfter_absent hid]
      · simp only [Storage.perform, memory_truncateAfter_absent hid]
  | clear => exact ⟨.of_answer rfl (not_clashes nofun), [], rfl, List.nodup_nil⟩
  | ids | count | summaries => exact ⟨.of_answer rfl (not_clashes nofun), vs, rfl, h⟩

/-- A database fails where the memory with the same versions does, if the call binds. -/
theorem Mirrors.sharp (h : Mirrors d vs) (hc : ∀ v, c = .append v → Storable v) (hb : c.Binds) :
    Sharp (.database d) c := by
  obtain ⟨e, ws, hagree⟩ := h.perform hc hb
  have hmemory := (memory_perform h.distinct c).1
  rw [Sharp, Clashes, ← h.ids, ← hagree.answer] at hmemory
  exact hmemory

/-! Steps, one after the other. -/

/-- A database holds distinct versions after any step. -/
theorem Mirrors.step (h : Mirrors d vs) {x : Step τ} (hx : Allowed d [x]) :
    ∃ e ws, (database d).step x = .database e ∧ e.file = d.file ∧ Mirrors e ws := by
  cases x with
  | call c =>
    by_cases hb : c.Binds
    · obtain ⟨e, ws, hagree⟩ := h.perform hx.call hb
      exact ⟨e, ws, hagree.database, hagree.file, hagree.mirrors⟩
    · obtain ⟨fault, hrefused⟩ := h.refused hx.call hb
      exact ⟨d, vs, congrArg Prod.snd hrefused, rfl, h⟩
  | reopen => exact ⟨d, vs, congrArg Storage.database (h.opened_closed (hx.file List.mem_cons_self)), rfl, h⟩

theorem Mirrors.after (h : Mirrors d vs) (hs : Allowed d steps) :
    ∃ e ws, after steps (.database d) = .database e ∧ e.file = d.file ∧ Mirrors e ws := by
  induction steps generalizing d vs with
  | nil => exact ⟨d, vs, rfl, rfl, h⟩
  | cons x steps ih =>
    obtain ⟨e, ws, hstep, hfile, hmirrors⟩ := h.step (Allowed.of_append [x] hs rfl).1
    obtain ⟨f, us, hafter, hlast⟩ := ih hmirrors (Allowed.of_append [x] hs hfile).2
    refine ⟨f, us, ?_, hlast.1.trans hfile, hlast.2⟩
    rw [Storage.after, List.foldl_cons, hstep]
    exact hafter

theorem memory_after (h : Distinct vs) (steps : List (Step τ)) :
    ∃ ws, after steps (.memory (.ofVersions vs)) = .memory (.ofVersions ws) ∧ Distinct ws := by
  induction steps generalizing vs with
  | nil => exact ⟨vs, rfl, h⟩
  | cons x steps ih =>
    obtain ⟨ws, hstep, hws⟩ : ∃ ws, (memory (.ofVersions vs)).step x = .memory (.ofVersions ws) ∧ Distinct ws := by
      cases x with
      | call c => exact (memory_perform h c).2
      | reopen => exact ⟨vs, rfl, h⟩
    obtain ⟨us, hafter, hus⟩ := ih hws
    refine ⟨us, ?_, hus⟩
    rw [Storage.after, List.foldl_cons, hstep]
    exact hafter

/-- Calls that bind are all answered in the same way. -/
theorem Mirrors.answers (h : Mirrors d vs) (hs : Allowed d steps) (hb : ∀ c, .call c ∈ steps → c.Binds) :
    (answers steps (.database d)).map Except.toOption
      = (answers steps (.memory (.ofVersions vs))).map Except.toOption := by
  induction steps generalizing d vs with
  | nil => rfl
  | cons x steps ih =>
    have hrest : ∀ c, .call c ∈ steps → c.Binds := fun c hc => hb c (List.mem_cons_of_mem _ hc)
    cases x with
    | call c =>
      obtain ⟨e, ws, hagree⟩ := h.perform hs.call (hb c List.mem_cons_self)
      have hlast := ih hagree.mirrors (Allowed.of_append [.call c] hs hagree.file).2 hrest
      simp only [Storage.answers, List.map_cons, hagree.answer, hagree.database, hagree.memory, hlast]
    | reopen =>
      have hsame := h.opened_closed (hs.file List.mem_cons_self)
      have hlast := ih h (Allowed.of_append [.reopen] hs rfl).2 hrest
      simp only [Storage.answers, closed, opened, hsame, hlast]

/-- Closing and opening in between changes no answer. -/
theorem Mirrors.answers_calls (h : Mirrors d vs) (hs : Allowed d steps) :
    Storage.answers steps (.database d) = Storage.answers (steps.filter Step.isCall) (.database d) := by
  induction steps generalizing d vs with
  | nil => rfl
  | cons x steps ih =>
    cases x with
    | call c =>
      obtain ⟨e, ws, hstep, hfile, hmirrors⟩ := h.step (Allowed.of_append [.call c] hs rfl).1
      have hstep : ((database d).perform c).2 = .database e := hstep
      have hlast := ih hmirrors (Allowed.of_append [.call c] hs hfile).2
      rw [List.filter_cons_of_pos rfl, Storage.answers, Storage.answers, hstep, hlast]
    | reopen =>
      have hsame := h.opened_closed (hs.file List.mem_cons_self)
      have hlast := ih h (Allowed.of_append [.reopen] hs rfl).2
      rw [List.filter_cons_of_neg (by simp [Step.isCall]), Storage.answers, closed, opened, hsame, hlast]

/-- A database and a memory that start empty answer the same calls in the same way if all of them bind, and
however often the database is closed and opened again. Wherever they are, a call fails where it puts in a
version whose name is taken and nowhere else, but that the database also refuses each call that does not bind;
and a call that fails leaves both as they are. -/
theorem answers_create (path : String) (steps : List (Step τ))
    (hstorable : ∀ v, .call (.append v) ∈ steps → Storable v)
    (hfile : .reopen ∈ steps → (Database.atPath path (.empty : Table τ)).file.isSome = true) :
    ((∀ c, .call c ∈ steps → c.Binds) →
        (answers steps (create (some path))).map Except.toOption = (answers steps empty).map Except.toOption)
      ∧ answers steps (create (some path)) = answers (steps.filter Step.isCall) (create (some path))
      ∧ ∀ front c back, steps = front ++ .call c :: back →
        Sharp (after front empty) c
          ∧ (c.Binds → Sharp (after front (create (some path))) c)
          ∧ (¬ c.Binds → ∃ fault, ((after front (create (some path))).perform c).1 = .error (.unbindable fault))
          ∧ ∀ s ∈ [after front (create (some path)), after front empty],
            (s.perform c).1.toOption = none → (s.perform c).2 = s := by
  obtain ⟨d, hcreate, hd, hmirrors⟩ := mirrors_create (τ := τ) path
  have hallowed : Allowed d steps := ⟨hstorable, hd ▸ hfile⟩
  rw [hcreate]
  refine ⟨hmirrors.answers hallowed, hmirrors.answers_calls hallowed, ?_⟩
  rintro front c back rfl
  obtain ⟨e, vs, hdatabase, -, hafter⟩ := hmirrors.after (Allowed.of_append front hallowed rfl).1
  have hnone : Distinct ([] : List (Version τ)) := List.nodup_nil
  obtain ⟨ws, hmemory, hdistinct⟩ := memory_after hnone front
  have hmemory : after front empty = memory (.ofVersions ws) := hmemory
  have hcall := (Allowed.of_append (e := d) front hallowed rfl).2.call
  rw [hdatabase, hmemory]
  refine ⟨(memory_perform hdistinct c).1, hafter.sharp hcall, fun hb => ?_, fun s _ hfails => ?_⟩
  · obtain ⟨fault, hrefused⟩ := hafter.refused hcall hb
    exact ⟨fault, congrArg Prod.fst hrefused⟩
  · obtain ⟨fault, hfault⟩ := exists_error_of_toOption hfails
    exact unchanged_of_error hfault

/-- A version of a plan with one button. -/
def buttonVersion (id intent code : τ) : Version τ :=
  ⟨⟨intent, .ofTree "a button" (.node "Button" none none), code, none, false, none⟩, id, Mint.ticking 0⟩

theorem answers_of_reused_name :
    let append (id : String) : Step := .call (.append (buttonVersion id "a button" ""))
    let steps := [append "v1", append "v2", append "v1", .call (.truncateAfter "v1"), .reopen, append "v2",
      .call .ids]
    (∀ v, .call (.append v) ∈ steps → Storable v)
      ∧ (Database.atPath "versions.db" (.empty : Table)).file.isSome = true
      ∧ (∀ c, .call c ∈ steps → c.Binds)
      ∧ (answers steps (create (some "versions.db"))).map Except.toOption
        = [some .done, some .done, none, some (.removed (some ["v2"])), some .done,
          some (.ids ["v1", "v2"])]
      ∧ answers steps (create (some "versions.db"))
        = answers (steps.filter Step.isCall) (create (some "versions.db")) := by
  intro append steps
  have hstorable : ∀ v, .call (.append v) ∈ steps → Storable v := by
    intro v hv
    have hbutton : ∃ id, v = buttonVersion id "a button" "" := by
      simp only [steps, append, List.mem_cons, Step.call.injEq, Call.append.injEq, reduceCtorEq, false_or,
        List.not_mem_nil, or_false] at hv
      rcases hv with rfl | rfl | rfl | rfl <;> exact ⟨_, rfl⟩
    obtain ⟨id, rfl⟩ := hbutton
    exact ⟨_, rfl⟩
  have hfile : (Database.atPath "versions.db" (.empty : Table)).file.isSome = true := by decide +kernel
  have hbinds : ∀ c, .call c ∈ steps → c.Binds := fun c _ => Bindable.firstRefusal?_string _
  obtain ⟨hanswers, hcalls, -⟩ := answers_create "versions.db" steps hstorable fun _ => hfile
  refine ⟨hstorable, hfile, hbinds, ?_, hcalls⟩
  rw [hanswers hbinds]
  rfl

/-- Memory takes a version whose intent is half a surrogate pair, and a database refuses it. -/
theorem refused_of_half :
    let steps : List (Step RawText) := [.call (.append (buttonVersion ⟨[118, 49]⟩ ⟨[0xd800]⟩ ⟨[]⟩)), .call .count]
    (∀ v, .call (.append v) ∈ steps → Storable v)
      ∧ (answers steps empty).map Except.toOption = [some .done, some (.count 1)]
      ∧ (answers steps (create (some ":memory:"))).map Except.toOption = [none, some (.count 0)] := by
  intro steps
  refine ⟨fun v hv => ?_, rfl, rfl⟩
  simp only [steps, List.mem_cons, Step.call.injEq, Call.append.injEq, reduceCtorEq, List.not_mem_nil,
    or_false] at hv
  subst hv
  exact ⟨_, rfl⟩

end Wireframe.Storage
