import Wireframe.Proofs.Lint.Lines
import Wireframe.Proofs.Text.Letter

/-! The tags of a generated module, as the check finds them. -/
namespace Wireframe.Lint
open Markup Text

variable {t : Tree} {level : Nat} {s r : List Char} {before : Option Char} {type : String}

/-- The tags found behind what comes `before`. -/
def tagsFrom (before : Option Char) (s : List Char) : List (List Char) :=
  findFrom openingTag before 0 s

theorem openingTag_eq_none (before : Option Char) {c : Char} (h : c ≠ '<') :
    openingTag before (c :: s) = none := by
  simp [openingTag, after?, Ne.symm h]

/-- Tags are found without a look at what comes before. -/
theorem findFrom_openingTag (a b : Option Char) (n : Nat) (s : List Char) :
    findFrom openingTag a n s = findFrom openingTag b n s := by
  cases s with
  | nil => cases n <;> rfl
  | cons c s =>
    cases n with
    | zero => rfl
    | succ n => rfl

theorem tagsFrom_of_free (h : ∀ c ∈ s, c ≠ '<') : tagsFrom before (s ++ r) = tagsFrom none r := by
  induction s generalizing before with
  | nil => exact findFrom_openingTag before none 0 r
  | cons c s ih =>
    have hc : openingTag before (c :: (s ++ r)) = none :=
      openingTag_eq_none before (h c List.mem_cons_self)
    rw [tagsFrom, List.cons_append, findFrom_miss hc]
    exact ih fun d hd => h d (List.mem_cons_of_mem _ hd)

theorem tagsFrom_closing : tagsFrom before ('<' :: '/' :: r) = tagsFrom none r := by
  have hopen : openingTag before ('<' :: '/' :: r) = none := rfl
  have hslash : openingTag (some '<') ('/' :: r) = none := rfl
  rw [tagsFrom, findFrom_miss hopen, findFrom_miss hslash]
  exact findFrom_openingTag _ none 0 r

/-- A character that can stand inside the name of a tag. -/
def isTagChar (c : Char) : Bool := isWord c || c = '.'

theorem isTagChar_of_isAlpha {c : Char} (h : c.isAlpha = true) : isTagChar c = true := by
  have hsmall : c.toNat < 128 := by
    have := toNat_of_isAlpha h
    omega
  simp [isTagChar, isWord, isAlphanumeric, hsmall, Char.isAlphanum, h]

theorem tagsFrom_opening (ht : Component.isRegistered type = true)
    (hr : ∀ c ∈ r.head?, isTagChar c = false) :
    tagsFrom before ('<' :: (type.toList ++ r)) = type.toList :: tagsFrom none r := by
  have halpha : ∀ c ∈ type.toList, c.isAlpha = true :=
    fun c hc => (Source.of_mem_registered ht hc).1
  obtain ⟨c, cs, htype⟩ := List.exists_cons_of_ne_nil (Source.registered_ne_nil ht)
  have hspan : (type.toList ++ r).span isTagChar = (type.toList, r) :=
    span_append (fun c hc => isTagChar_of_isAlpha (halpha c hc)) hr
  have hletter : (type.toList ++ r).head?.any isLetter = true := by
    simp [htype, isLetter, halpha c (htype ▸ List.mem_cons_self)]
  have hfind : openingTag before ('<' :: (type.toList ++ r)) = some (type.toList, r) := by
    show (if (type.toList ++ r).head?.any isLetter then
      some ((type.toList ++ r).span isTagChar) else none) = _
    rw [if_pos hletter, hspan]
  rw [tagsFrom, findFrom_hit hfind]
  exact congrArg _ (findFrom_openingTag _ none 0 r)

theorem not_isTagChar_head {tail : List Char} {props : Option Props} (h : Closes tail) :
    ∀ c ∈ (attributesOf props ++ tail).head?, isTagChar c = false := by
  intro c hc
  rcases head_attributesOf h c hc with rfl | rfl <;> decide

theorem ne_opening_of_mem_name (h : Component.isRegistered type = true) :
    ∀ c ∈ type.toList ++ ['>'], c ≠ '<' := by
  intro c hc
  rcases List.mem_append.mp hc with hc | hc
  · rintro rfl
    exact absurd (Source.of_mem_registered h hc).1 (by decide)
  · rw [List.mem_singleton.mp hc]
    decide

theorem tagsFrom_closingOf (h : Component.isRegistered type = true) :
    tagsFrom before (closingOf level type ++ r) = tagsFrom none r := by
  have hfree : ∀ c ∈ '\n' :: Line.indent level, c ≠ '<' := by
    intro c hc
    rcases List.mem_cons.mp hc with rfl | hc
    · decide
    · rw [of_mem_indent hc]
      decide
  have hsplit : closingOf level type ++ r
      = ('\n' :: Line.indent level) ++ ('<' :: '/' :: ((type.toList ++ ['>']) ++ r)) := by
    simp [closingOf]
  rw [hsplit, tagsFrom_of_free hfree, tagsFrom_closing,
    tagsFrom_of_free (ne_opening_of_mem_name h)]

theorem tagsFrom_contentOf {text : String} {c : Char} (hc : c ≠ '<') :
    tagsFrom before (c :: (contentOf text ++ r)) = tagsFrom none r := by
  have hfree : ∀ d ∈ c :: contentOf text, d ≠ '<' := by
    intro d hd
    rcases List.mem_cons.mp hd with rfl | hd
    · exact hc
    · exact (of_mem_contentOf hd).1
  exact tagsFrom_of_free hfree

theorem tagsFrom_children {ts : List Tree}
    (ih : ∀ c ∈ ts, ∀ r, tagsFrom none (markupOf level c ++ r)
      = c.types.map String.toList ++ tagsFrom none r) :
    tagsFrom none ((ts.flatMap fun c => '\n' :: markupOf level c) ++ r)
      = (ts.flatMap Tree.types).map String.toList ++ tagsFrom none r := by
  induction ts with
  | nil => rfl
  | cons t ts ihs =>
    have hnewline (r : List Char) : tagsFrom none ('\n' :: r) = tagsFrom none r :=
      tagsFrom_of_free (s := ['\n']) (by simp)
    rw [List.flatMap_cons, List.cons_append, List.cons_append, hnewline, List.append_assoc,
      ih t List.mem_cons_self, ihs fun c hc => ih c (List.mem_cons_of_mem _ hc), List.flatMap_cons,
      List.map_append, List.append_assoc]

theorem tagsFrom_tail {tail : List Char} (hreg : Registered t) (h : Tail level t tail)
    (ih : ∀ c ∈ t.childList, ∀ r, tagsFrom none (markupOf (level + 1) c ++ r)
      = c.types.map String.toList ++ tagsFrom none r) :
    tagsFrom none (tail ++ r)
      = (t.childList.flatMap Tree.types).map String.toList ++ tagsFrom none r := by
  cases h with
  | single hc _ =>
    rw [hc]
    exact tagsFrom_of_free (forall_of_all (by decide))
  | wrapped hc _ =>
    rw [hc, List.cons_append, List.append_assoc, tagsFrom_contentOf (by decide), List.cons_append,
      List.cons_append, tagsFrom_closing, tagsFrom_of_free (ne_opening_of_mem_name hreg.type)]
    rfl
  | opening hc =>
    simp only [List.cons_append, List.append_assoc]
    rw [tagsFrom_contentOf (by decide), tagsFrom_children ih, tagsFrom_closingOf hreg.type]

/-- The tags in the markup of a tree are the types of its nodes. -/
theorem tagsFrom_markupOf (t : Tree) : ∀ level r, t.Accepted → Registered t →
    tagsFrom none (markupOf level t ++ r) = t.types.map String.toList ++ tagsFrom none r := by
  induction t using Tree.induction_on_children with
  | h t ih =>
    intro level r ht hreg
    obtain ⟨tail, htail, hmarkup⟩ := exists_tail level t
    have hchildren : ∀ c ∈ t.childList, ∀ r, tagsFrom none (markupOf (level + 1) c ++ r)
        = c.types.map String.toList ++ tagsFrom none r :=
      fun c hc r => ih c hc (level + 1) r (ht.children c hc) (hreg.children c hc)
    have hindent : ∀ c ∈ Line.indent level, c ≠ '<' := by
      intro c hc
      rw [of_mem_indent hc]
      decide
    rw [hmarkup, List.append_assoc, tagsFrom_of_free hindent, List.cons_append, List.append_assoc,
      List.append_assoc, tagsFrom_opening hreg.type (not_isTagChar_head (htail.closes r)),
      tagsFrom_of_free fun c hc => (of_mem_attributesOf ht.props hc).1,
      tagsFrom_tail hreg htail hchildren, Tree.types_eq]
    rfl

/-- The tags of a module are the types of its nodes. -/
theorem findAll_openingTag_sourceOf (ht : t.Accepted) (hreg : Registered t) :
    findAll openingTag (sourceOf t).code = t.types.map String.toList := by
  have hnames := registered_eraseDups hreg
  have himports : ∀ c ∈ Source.importsOf t.types.eraseDups, c ≠ '<' := by
    rintro c hc rfl
    rcases Source.not_isAbsent_of_mem_importsOf hnames hc with h | h <;> revert h <;> decide
  have hheader : ∀ c ∈ Source.signature ++ '\x7b' :: Source.returning, c ≠ '<' :=
    forall_of_all (by decide)
  have hending : ∀ c ∈ Source.ending, c ≠ '<' := forall_of_all (by decide)
  have hcode : (sourceOf t).code = Source.importsOf t.types.eraseDups
      ++ ((Source.signature ++ '\x7b' :: Source.returning)
        ++ (markupOf 0 t ++ (Source.ending ++ []))) := by
    rw [sourceOf, Source.assemble_eq, markupOf]
    simp
  show tagsFrom none _ = _
  rw [hcode, tagsFrom_of_free himports, tagsFrom_of_free hheader, tagsFrom_markupOf t 0 _ ht hreg,
    tagsFrom_of_free hending]
  exact List.append_nil _

/-- The tags of a module are let pass. -/
theorem tagViolations_sourceOf (ht : t.Accepted) (hreg : Registered t) :
    tagViolations (sourceOf t).code = [] := by
  rw [tagViolations, findAll_openingTag_sourceOf ht hreg, List.filterMap_eq_nil_iff]
  intro name hname
  obtain ⟨type, htype, rfl⟩ := List.mem_map.mp hname
  simp only [String.ofList_toList, hreg type htype, Bool.or_true, if_true]

/-- No prop and no text opens a tag: the tags that are found are the types of the nodes, the
components are these types without repetitions, and there is one import for each of them in that
order. -/
theorem tags_of_generate {bounds : Json.Bounds} {plan : Plan} {limit : Quantity} {source : Source}
    (hp : plan.layout.Accepted) (h : Source.generate bounds plan limit = .ok source) :
    ∃ t, plan.layout.Unfolds t
      ∧ (findAll openingTag source.code).map String.ofList = t.types
      ∧ source.components = t.types.eraseDups
      ∧ (splitNewlines source.code).filter isImportLine
        = source.components.map Source.importLine := by
  obtain ⟨t, hunfolds, ht, hreg, rfl⟩ := exists_tree_of_generate hp h
  refine ⟨t, hunfolds, ?_, rfl, filter_isImportLine_sourceOf ht hreg⟩
  rw [findAll_openingTag_sourceOf ht hreg, List.map_map]
  simp [Function.comp_def]

theorem tags_of_hostile_text :
    let t := Tree.node "Card"
      (some [("title", .text "</Card><Modal>"), ("children", .text "<Input />")])
      (some [.node "Button" none none, .node "Card" none none])
    ∃ source, Source.generate .none (.ofTree "" t) (.whole 2) = .ok source
      ∧ (findAll openingTag source.code).map String.ofList = ["Card", "Button", "Card"]
      ∧ source.components = ["Card", "Button"] := by
  intro t
  have ht : t.Accepted := by
    refine .node ⟨by decide, by decide, by decide⟩ ?_
    intro c hc
    have hc : c = .node "Button" none none ∨ c = .node "Card" none none := by
      simpa [t, Tree.childList, Tree.children] using hc
    rcases hc with rfl | rfl <;> exact .node .nil (List.forall_mem_nil _)
  have hp := Layout.accepted_ofTree ht
  have h : Source.generate .none (.ofTree "" t) (.whole 2) = .ok (sourceOf t) :=
    generate_of_tree? hp (Layout.fits_unbounded _) rfl (by decide)
  obtain ⟨u, hu, htags, hcomponents, _⟩ := tags_of_generate hp h
  obtain rfl := hu.unique (Layout.unfolds_ofTree t)
  exact ⟨_, h, htags, hcomponents⟩

end Wireframe.Lint
