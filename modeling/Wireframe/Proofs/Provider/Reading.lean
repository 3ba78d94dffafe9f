import Mathlib
import Wireframe.Proofs.Json.Enclosed
import Wireframe.Proofs.Json.Recovery
import Wireframe.Proofs.Json.Wrapping
import Wireframe.Provider.Backend

/-! What providers read in a reply that is JSON. A provider that looks for fences reads what stands between
them where that looks like an object or a list, also where the fences stand between quotes. -/
namespace Wireframe.Json
open Text (trim trimStart splitAt? dropEndWhile)

variable {s t a b front rest z : List Char} {c : Char} {v w : Value}
variable {p : Part} {room : Room}

/-- The first text between fences that starts like an object or a list. -/
def fencedContainer? (s : List Char) : Option (List Char) :=
  ((betweenFences s).map fun inner => trim (unlabelled inner)).find? looksLikeContainer

theorem trim_trimStart (s : List Char) : trim (trimStart s) = trim s := by
  rw [trim, trim, trimStart, trimStart, List.dropWhile_idempotent]

theorem block_eq (s : List Char) :
    block s = (fencedContainer? (trim s)).getD (trim (dropClosingFence (dropOpeningFence (trim s)))) := by
  have hfound : (Text.findAll fencedText (trim s)).map trim
      = (betweenFences (trim s)).map fun inner => trim (unlabelled inner) := by
    rw [findAll_fencedText, List.map_map]
    exact List.map_congr_left fun inner _ => trim_trimStart _
  simp only [block, hfound, fencedContainer?]
  cases List.find? looksLikeContainer _ <;> rfl

/-! The ends of a JSON text. -/

theorem isOpening_ne_tick (h : isOpening c = true) : c ≠ '\x60' := by
  rintro rfl
  exact absurd h (by decide)

theorem isClosingEnd_ne_tick (h : isClosingEnd c = true) : c ≠ '\x60' := by
  rintro rfl
  exact absurd h (by decide)

theorem isBlank_of_isClosingEnd (h : isClosingEnd c = true) : Text.isBlank c = false := by
  simp only [isClosingEnd, Bool.or_eq_true, decide_eq_true_eq] at h
  rcases h with ((h | rfl) | rfl) | rfl
  · exact not_isBlank_text_of_isOpening (by simp [isOpening, h])
  all_goals decide

theorem Spells.last (h : Spells room p t v []) : ∀ c ∈ t.getLast?, isClosingEnd c = true := by
  obtain ⟨m, d, rfl, hd⟩ := h.exists_end
  intro c hc
  rw [List.getLast?_concat] at hc
  exact Option.some.inj hc ▸ hd

/-- No fence is at the ends of a JSON text. -/
theorem Spells.dropFences_eq (h : Spells room .value t v []) : dropClosingFence (dropOpeningFence t) = t := by
  have hopen (label : List Char) : Text.after? (fence ++ label) t = none := by
    obtain ⟨c, cs, rfl, hc⟩ := h.opens
    exact if_neg (isOpening_ne_tick hc).symm
  have hclose : Text.after? fence t.reverse = none := by
    obtain ⟨m, c, rfl, hc⟩ := h.exists_end
    rw [List.reverse_append]
    exact if_neg (isClosingEnd_ne_tick hc).symm
  have hbare : Text.after? fence t = none := hopen []
  rw [dropOpeningFence, hopen, hbare, Option.getD_none, Option.getD_none, dropClosingFence, hclose]
  rfl

/-- What stands in blanks is what is left when they are trimmed. -/
theorem Spells.trim_eq (h : Spells room .value t v []) (hb : ∀ c ∈ b, Text.isBlank c = true)
    (ha : ∀ c ∈ a, Text.isBlank c = true) : trim (b ++ (t ++ a)) = t :=
  Text.trim_around hb ha (h.not_isBlank a) fun c hc => isBlank_of_isClosingEnd (h.last c hc)

/-- A text that is read is that of a value between blanks. -/
theorem exists_spells_of_read (h : readWithin room s = .ok v) :
    ∃ b a, Gap b ∧ Gap a ∧ s = b ++ (trim s ++ a) ∧ Spells room .value (trim s) v [] := by
  obtain ⟨b, t, a, hb, ha, rfl, ht⟩ := readWithin_eq_ok_iff.mp h
  have htrim := ht.trim_eq (fun c hc => isBlank_text (hb c hc)) fun c hc => isBlank_text (ha c hc)
  rw [htrim]
  exact ⟨b, a, hb, ha, rfl, ht⟩

theorem lexed_of_read (h : readWithin room s = .ok v) : Lexed s := by
  obtain ⟨b, t, a, hb, ha, rfl, ht⟩ := readWithin_eq_ok_iff.mp h
  obtain ⟨front, rfl, -, hfront⟩ := ht.exists_front
  have hgap : Lexed a := List.append_nil a ▸ Lexed.nil.gap ha
  rw [List.append_nil]
  exact ((hfront a).lexed hgap).gap hb

/-- In an answer that is JSON a text between fences is read, or all of it. -/
theorem block_of_read (h : readWithin room s = .ok v) : block s = (fencedContainer? (trim s)).getD (trim s) := by
  obtain ⟨b, a, -, -, -, ht⟩ := exists_spells_of_read h
  have htrim := ht.trim_eq (b := []) (a := []) nofun nofun
  rw [List.nil_append, List.append_nil] at htrim
  rw [block_eq, ht.dropFences_eq, htrim]

theorem read_block_iff (h : readWithin room s = .ok v) :
    readWithin room (block s) = .ok v ↔ ∀ d ∈ fencedContainer? (trim s), readWithin room d = .ok v := by
  obtain ⟨b, a, -, -, -, ht⟩ := exists_spells_of_read h
  have htrim : readWithin room (trim s) = .ok v := by simpa using readWithin_around ht (a := []) (b := []) nofun nofun
  rw [block_of_read h]
  cases fencedContainer? (trim s) with
  | none => exact iff_of_true htrim nofun
  | some d => simp

/-- A fence stands between the quotes of a text. -/
def QuotesFence (s : List Char) : Prop := ∃ q ∈ quotedTexts s, fence <:+: q

theorem fence_infix_iff_of_read (h : readWithin room s = .ok v) : fence <:+: s ↔ QuotesFence s :=
  (lexed_of_read h).fence_infix_iff

/-- Without fences between quotes all of the answer is read. -/
theorem read_block_of_free (h : readWithin room s = .ok v) (hq : ¬ QuotesFence s) :
    readWithin room (block s) = .ok v := by
  have hfree : ¬ fence <:+: s := mt (fence_infix_iff_of_read h).mp hq
  have htrim : ¬ fence <:+: trim s := fun hfence => hfree (hfence.trans (Text.isInfix_trim s))
  have hnone : fencedContainer? (trim s) = none := by
    rw [fencedContainer?, betweenFences_of_free htrim]
    rfl
  rw [read_block_iff h, hnone]
  exact nofun

/-! A JSON text in a fence of its own. -/

/-- A list or an object. -/
def IsContainer (v : Value) : Prop := (∃ xs, v = .list xs) ∨ ∃ es, v = .dict es

/-- Lists and objects start with their brackets. -/
theorem Spells.exists_bracket (h : Spells room .value t v rest) (hv : IsContainer v) :
    ∃ c cs, t = c :: cs ∧ (c = '[' ∨ c = '\x7b') := by
  cases h with
  | word hw => rcases hv with ⟨xs, rfl⟩ | ⟨es, rfl⟩ <;> cases hw.isPlain
  | text _ => rcases hv with ⟨_, hv⟩ | ⟨_, hv⟩ <;> cases hv
  | emptyList _ _ | list _ _ _ => exact ⟨_, _, rfl, .inl rfl⟩
  | emptyDict _ _ | dict _ _ _ => exact ⟨_, _, rfl, .inr rfl⟩

theorem looksLikeContainer_cons (hc : c = '[' ∨ c = '\x7b') : looksLikeContainer (c :: s) = true := by
  rcases hc with rfl | rfl <;> rfl

/-- A text is read in one way only. -/
theorem Spells.rest_unique {rest' : List Char} (h : Spells room .value s v rest) (hr : Stops rest)
    (h' : Spells room .value s w rest') (hr' : Stops rest') : rest = rest' := by
  have hread : readValue (2 * s.length) room s = .ok (v, rest) := h.reads (fun _ => hr) (by omega)
  have hread' : readValue (2 * s.length) room s = .ok (w, rest') := h'.reads (fun _ => hr') (by omega)
  rw [hread] at hread'
  cases hread'
  rfl

theorem isPlainChar_of_isBlank_text (h : Text.isBlank c = true) : isPlainChar c = false := by
  refine Bool.eq_false_iff.mpr fun hplain => ?_
  rw [not_isBlank_text_of_isOpening (by simp [isOpening, hplain])] at h
  cases h

theorem Spells.append (h : Spells room p t v []) (s : List Char) : Spells room p (t ++ s) v s := by
  obtain ⟨front, rfl, -, hfront⟩ := h.exists_front
  rw [List.append_nil]
  exact hfront s

/-- What is left of a JSON text when it is cut off at a fence is none. -/
theorem Spells.not_read_cut (h : Spells room .value t v []) (ha : Gap a)
    (hcut : t ++ a = front ++ (z ++ (fence ++ rest))) (hz : ∀ c ∈ z, Text.isBlank c = true) :
    readWithin room front ≠ .ok w := by
  intro hread
  obtain ⟨b, u, c, hb, hc, rfl, hu⟩ := readWithin_eq_ok_iff.mp hread
  obtain rfl : b = [] := by
    cases b with
    | nil => rfl
    | cons d b =>
      obtain ⟨e, es, rfl, he⟩ := h.opens
      obtain rfl : e = d := (List.cons.inj hcut).1
      have hd := hb e List.mem_cons_self
      rw [isBlank_of_isOpening he] at hd
      cases hd
  have htext : t ++ a = u ++ (c ++ (z ++ (fence ++ rest))) := by
    rw [hcut]
    simp
  have hplain : ∀ d ∈ c ++ z, isPlainChar d = false := List.forall_mem_append.mpr
    ⟨fun d hd => isPlainChar_of_isBlank (hc d hd), fun d hd => isPlainChar_of_isBlank_text (hz d hd)⟩
  have hstops : Stops (c ++ (z ++ (fence ++ rest))) := by
    rw [← List.append_assoc]
    intro d hd
    cases hblanks : c ++ z with
    | nil =>
      rw [hblanks] at hd
      obtain rfl : '\x60' = d := Option.some.inj hd
      decide
    | cons e es =>
      rw [hblanks] at hd hplain
      obtain rfl : e = d := Option.some.inj hd
      exact hplain e List.mem_cons_self
  have hend : Stops a := fun d hd => isPlainChar_of_isBlank (ha d (List.mem_of_mem_head? hd))
  have hsame := (h.append a).rest_unique hend (htext ▸ hu.append _) hstops
  have htick : '\x60' ∈ a := by
    rw [hsame]
    simp [fence]
  exact absurd (ha _ htick) (by decide)

/-- An answer with a label and with fences on lines of their own around it. -/
def inFence (s : List Char) : List Char := fence ++ ("json".toList ++ '\n' :: (s ++ '\n' :: fence))

theorem trim_inFence (s : List Char) : trim (inFence s) = inFence s := by
  have htick : ∀ c ∈ some '\x60', Text.isBlank c = false := by
    intro c hc
    obtain rfl : '\x60' = c := Option.some.inj hc
    decide
  have hlast : (inFence s).getLast? = some '\x60' := by
    have htext : inFence s
        = (fence ++ ("json".toList ++ '\n' :: (s ++ ['\n', '\x60', '\x60']))) ++ ['\x60'] := by
      simp [inFence, fence]
    rw [htext, List.getLast?_concat]
  exact Text.trim_eq_self htick (hlast ▸ htick)

/-- What stands in the fence is the answer up to the first fence in it. -/
theorem fencedPair?_inFence (h : splitAt? fence (s ++ '\n' :: fence) = some (front, rest)) :
    fencedPair? (inFence s) = some ("json".toList ++ '\n' :: front, rest) := by
  have hopen : splitAt? fence (inFence s) = some ([], "json".toList ++ '\n' :: (s ++ '\n' :: fence)) := rfl
  have hclose : splitAt? fence (("json".toList ++ ['\n']) ++ (s ++ '\n' :: fence))
      = some (("json".toList ++ ['\n']) ++ front, rest) := by
    have hne : ∀ c ∈ "json".toList ++ ['\n'], c ≠ '\x60' :=
      List.forall_mem_append.mpr ⟨label_ne_tick, List.forall_mem_singleton.mpr (by decide)⟩
    rw [fence, Text.splitAt?_of_ne hne]
    exact congrArg (Option.map _) h
  rw [fencedPair?, hopen]
  simpa using hclose

/-- That is the JSON of the answer if it starts like an object or a list. -/
theorem block_inFence (h : splitAt? fence (s ++ '\n' :: fence) = some (front, rest))
    (hlooks : looksLikeContainer (trim front) = true) : block (inFence s) = trim front := by
  have hlabel : trim (unlabelled ("json".toList ++ '\n' :: front)) = trim front := by
    rw [unlabelled, Text.after?_append]
    rfl
  rw [block_eq, trim_inFence, fencedContainer?, betweenFences_of_some (fencedPair?_inFence h), List.map_cons,
    hlabel, List.find?_cons_of_pos hlooks]
  rfl

theorem read_block_inFence_of_free (h : readWithin room s = .ok v) (hv : IsContainer v)
    (hfree : ¬ fence <:+: s) : readWithin room (block (inFence s)) = .ok v := by
  have hsplit : splitAt? fence (s ++ '\n' :: fence) = some (s ++ ['\n'], []) :=
    Text.splitAt?_last hfree (by decide)
  obtain ⟨b, t, a, hb, ha, rfl, ht⟩ := readWithin_eq_ok_iff.mp h
  have hblank : ∀ c ∈ a ++ ['\n'], Text.isBlank c = true :=
    List.forall_mem_append.mpr ⟨fun c hc => isBlank_text (ha c hc), List.forall_mem_singleton.mpr (by decide)⟩
  have htrim : trim (b ++ (t ++ a) ++ ['\n']) = t := by
    rw [List.append_assoc, List.append_assoc]
    exact ht.trim_eq (fun c hc => isBlank_text (hb c hc)) hblank
  obtain ⟨c, cs, hbracket, hc⟩ := ht.exists_bracket hv
  rw [block_inFence hsplit (by rw [htrim, hbracket]; exact looksLikeContainer_cons hc), htrim]
  simpa using readWithin_around ht (a := []) (b := []) nofun nofun

/-- A fence in the answer ends what is read of it. -/
theorem not_read_block_inFence (h : readWithin room s = .ok v) (hv : IsContainer v)
    (hfence : fence <:+: s) : readWithin room (block (inFence s)) ≠ .ok w := by
  obtain ⟨⟨front, rest⟩, hsplit⟩ := Option.ne_none_iff_exists'.mp fun hnone =>
    Text.splitAt?_eq_none_iff.mp hnone hfence
  obtain ⟨b, t, a, hb, ha, rfl, ht⟩ := readWithin_eq_ok_iff.mp h
  obtain ⟨c, cs, hbracket, hc⟩ := ht.exists_bracket hv
  have hblank : ∀ d ∈ b, Text.isBlank d = true := fun d hd => isBlank_text (hb d hd)
  have hlater := Text.splitAt?_append hsplit ('\n' :: fence)
  obtain ⟨front, rfl, hcut⟩ := splitAt?_fence_of_ne (hb.ne (by decide)) hsplit
  obtain ⟨htext, -⟩ := Text.of_splitAt?_eq_some hcut
  -- the fence does not stand at the start of the value, so its bracket is still there
  obtain ⟨front, rfl⟩ : ∃ ds, front = c :: ds := by
    rw [hbracket] at htext
    cases front with
    | nil =>
      obtain rfl : c = '\x60' := (List.cons.inj htext).1
      exact absurd hc (by decide)
    | cons d ds => exact ⟨ds, by rw [(List.cons.inj htext).1]⟩
  have hopen : Text.isBlank c = false := by rcases hc with rfl | rfl <;> decide
  obtain ⟨ds, hhead⟩ := List.head?_eq_some_iff.mp (Text.head?_trim (v := front) hblank hopen)
  rw [block_inFence hlater (by rw [hhead]; exact looksLikeContainer_cons hc)]
  have hstart : trimStart (b ++ c :: front) = c :: front :=
    Text.trimStart_append hblank fun d hd => Option.some.inj hd ▸ hopen
  have hend := Text.trim_append_rtakeWhile (b ++ c :: front)
  rw [hstart] at hend
  have hcut' : t ++ a = trim (b ++ c :: front)
      ++ ((c :: front).rtakeWhile Text.isBlank ++ (fence ++ rest)) := by
    rw [← List.append_assoc, hend]
    exact htext
  exact ht.not_read_cut ha hcut' fun d hd => List.mem_rtakeWhile_imp hd

end Wireframe.Json

namespace Wireframe.Backend
open Json

variable {b o a : Backend} {content : String} {v : Value} {r : Reply}
variable {room : Room}

theorem readJson_eq_ok_iff :
    b.readJson room content = .ok v ↔ Json.readWithin room (b.jsonText content.toList) = .ok v := by
  rw [readJson]
  dsimp only
  split
  · rename_i w hread
    rw [hread]
    simp
  · rename_i stop hread
    rw [hread]
    refine iff_of_false ?_ nofun
    split <;> exact nofun

/-- A provider with a mode for JSON reads the content as it is. -/
theorem readJson_openai_iff (ho : o.provider = .openai) :
    o.readJson room content = .ok v ↔ Json.readWithin room content.toList = .ok v := by
  rw [readJson_eq_ok_iff, jsonText, ho]

theorem readJson_anthropic_iff (ha : a.provider = .anthropic) :
    a.readJson room content = .ok v ↔ Json.readWithin room (block content.toList) = .ok v := by
  rw [readJson_eq_ok_iff, jsonText, ha]

theorem exists_readJson_error (h : ∀ v, b.readJson room content ≠ .ok v) :
    ∃ fault, b.readJson room content = .error fault := by
  cases hread : b.readJson room content with
  | ok v => exact (h v hread).elim
  | error fault => exact ⟨fault, rfl⟩

theorem generation_content (hr : r.content = some content) : (b.generation r).content = content := by
  rw [generation, hr]
  rfl

/-- The content of a reply in a fence. -/
def fenced (content : String) : String := "```json\n" ++ content ++ "\n```"

theorem toList_fenced (content : String) : (fenced content).toList = inFence content.toList := by
  simp [fenced, inFence, fence]

/-- What the two providers read in a reply that is JSON. The one with a mode for JSON reads its value. The other
one reads the same value unless a text between two fences starts like an object or a list, which is then read
in its place; so they agree where no fence stands between quotes. The same decides whether the other one reads
the value of an object or a list in a fence. -/
theorem readJson_of_read (ho : o.provider = .openai) (ha : a.provider = .anthropic)
    (h : Json.readWithin room content.toList = .ok v) (hr : r.content = some content) :
    o.readJson room (o.generation r).content = .ok v
      ∧ (a.readJson room (a.generation r).content = .ok v
        ↔ ∀ inner ∈ fencedContainer? (Text.trim content.toList), Json.readWithin room inner = .ok v)
      ∧ (¬ QuotesFence content.toList → a.readJson room (a.generation r).content = .ok v)
      ∧ (IsContainer v → ∀ r' : Reply, r'.content = some (fenced content) →
        (¬ QuotesFence content.toList → a.readJson room (a.generation r').content = .ok v)
        ∧ (QuotesFence content.toList → ∃ fault, a.readJson room (a.generation r').content = .error fault)) := by
  have hfence := fence_infix_iff_of_read h
  rw [generation_content hr, generation_content hr, readJson_openai_iff ho, readJson_anthropic_iff ha]
  refine ⟨h, read_block_iff h, read_block_of_free h, fun hv r' hr' => ?_⟩
  rw [generation_content hr']
  refine ⟨fun hq => ?_, fun hq => exists_readJson_error fun w => ?_⟩
  · rw [readJson_anthropic_iff ha, toList_fenced]
    exact read_block_inFence_of_free h hv (mt hfence.mp hq)
  · rw [Ne, readJson_anthropic_iff ha, toList_fenced]
    exact not_read_block_inFence h hv (hfence.mpr hq)

/-- An object with inline code between its quotes. -/
def inlineCode : String := "\x7b\"a\": \"`[1]`\"\x7d"

def plain (p : Provider) : Backend := ⟨p, p.defaultModel, .null, .null⟩

def replyOf (s : String) : Reply := ⟨some s, none, none, ""⟩

/-- Both providers read it, also in a fence. -/
theorem readJson_of_inlineCode :
    Json.read inlineCode.toList = .ok (.dict [(.text "a", .text "`[1]`")])
      ∧ ¬ QuotesFence inlineCode.toList
      ∧ (plain .openai).readJson .unbounded inlineCode = .ok (.dict [(.text "a", .text "`[1]`")])
      ∧ (plain .anthropic).readJson .unbounded inlineCode = .ok (.dict [(.text "a", .text "`[1]`")])
      ∧ (plain .anthropic).readJson .unbounded (fenced inlineCode) = .ok (.dict [(.text "a", .text "`[1]`")]) := by
  have hread : Json.read inlineCode.toList = .ok (.dict [(.text "a", .text "`[1]`")]) := by cbv
  have hquoted : ¬ QuotesFence inlineCode.toList := by
    rw [QuotesFence]
    decide +kernel
  obtain ⟨hopenai, -, hanthropic, hfenced⟩ :=
    readJson_of_read (o := plain .openai) (a := plain .anthropic) (r := replyOf inlineCode) rfl rfl hread rfl
  obtain ⟨hfenced, -⟩ := hfenced (.inr ⟨_, rfl⟩) (replyOf (fenced inlineCode)) rfl
  rw [generation_content rfl] at hopenai hanthropic hfenced
  exact ⟨hread, hquoted, hopenai, hanthropic hquoted, hfenced hquoted⟩

/-- A list in fences between the quotes of an object is read in place of the object. -/
theorem not_readJson_of_read :
    ¬ ∀ (o a : Backend) (s : String) (v : Value), o.provider = .openai → a.provider = .anthropic →
      Json.read s.toList = .ok v → a.readJson .unbounded s = o.readJson .unbounded s := by
  intro h
  have hread : Json.read "\x7b\"a\": \"```[1]```\"\x7d".toList
      = .ok (.dict [(.text "a", .text "```[1]```")]) := by cbv
  have hblock : Json.read (block "\x7b\"a\": \"```[1]```\"\x7d".toList) = .ok (.list [.int 1]) := by cbv
  have hsame := h (plain .openai) (plain .anthropic) _ _ rfl rfl hread
  rw [(readJson_anthropic_iff rfl).mpr hblock, (readJson_openai_iff rfl).mpr hread] at hsame
  cases hsame

end Wireframe.Backend
