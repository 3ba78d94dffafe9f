import Wireframe.Proofs.Json.Unambiguous
import Wireframe.Proofs.Layout.Alike
import Wireframe.Proofs.Markup.Lines
import Wireframe.Proofs.Source.Frame

/-! Markup says everything about a tree that can be seen, and nothing else. -/
namespace Wireframe.Markup
open Value

variable {t u : Tree} {v w : Value} {c : Char} {level : Nat} {r q name : List Char}
variable {as bs : Props} {props qs : Option Props}

theorem of_mem_propName (h : isPropName name = true) (hc : c ∈ name) :
    isNameChar c = true ∨ c = '\n' := by
  cases name with
  | nil => cases h
  | cons x xs =>
    simp only [isPropName, Bool.and_eq_true] at h
    obtain ⟨hx, hrest⟩ := h
    rcases List.mem_cons.mp hc with rfl | hc
    · left
      simp only [isNameStart, isNameChar, Char.isAlphanum, Bool.or_eq_true] at hx ⊢
      tauto
    · rw [← List.takeWhile_append_dropWhile (p := isNameChar) (l := xs)] at hc
      rcases List.mem_append.mp hc with hc | hc
      · exact .inl (List.mem_takeWhile_imp hc)
      · split at hrest
        · simp_all
        · simp_all
        · cases hrest

theorem ne_equals_of_mem_propName (h : isPropName name = true) (hc : c ∈ name) : c ≠ '=' := by
  rcases of_mem_propName h hc with hn | rfl
  · rintro rfl
    revert hn
    decide
  · decide

theorem propName_front (h : isPropName name = true) : ∃ x xs, name = x :: xs ∧ x ≠ '/' := by
  cases name with
  | nil => cases h
  | cons x xs =>
    refine ⟨x, xs, rfl, ?_⟩
    rintro rfl
    simp only [isPropName, Bool.and_eq_true] at h
    exact absurd h.1 (by decide)

/-- A plain text ends at the first character that is not safe. -/
theorem plain_cut {s t : List Char} (hs : isPlainAttribute s = true)
    (ht : isPlainAttribute t = true)
    (hr : ∀ c ∈ r.head?, isUnsafe c = true) (hq : ∀ c ∈ q.head?, isUnsafe c = true)
    (h : s ++ r = t ++ q) : s = t ∧ r = q := by
  have hplain {s : List Char} (h : isPlainAttribute s = true) : ∀ c ∈ s, (!isUnsafe c) = true := by
    simpa [isPlainAttribute] using h
  refine Text.append_cut (p := fun c => !isUnsafe c) (hplain hs) (hplain ht) ?_ ?_ h
  · intro c hc; simp [hr c hc]
  · intro c hc; simp [hq c hc]

theorem braced_spellText_cut {s t : List Char}
    (h : braced (spellText s) ++ r = braced (spellText t) ++ q) : s = t ∧ r = q := by
  simp only [braced, List.cons_append, List.append_assoc, List.nil_append, List.cons.injEq,
    true_and] at h
  obtain ⟨hst, hrest⟩ := spellText_cut h
  exact ⟨hst, by simpa using hrest⟩

theorem braced_spell_cut (hv : v.Closed) (hw : w.Closed)
    (h : braced (spell v) ++ r = braced (spell w) ++ q) : v.Alike w ∧ r = q := by
  simp only [braced, List.cons_append, List.append_assoc, List.nil_append, List.cons.injEq,
    true_and] at h
  obtain ⟨hvw, hrest⟩ := recognised_of_closed hv w hw _ _ (.inr (.inr rfl)) (.inr (.inr rfl)) h
  exact ⟨hvw, by simpa using hrest⟩

/-- A value is either quoted as it is or a literal in braces. -/
theorem valueText_cases (v : Value) :
    (∃ s, v = .text s ∧ isPlainAttribute s.toList = true ∧ valueText v = '"' :: (s.toList ++ ['"']))
      ∨ valueText v = braced (spell v) := by
  cases v with
  | text s =>
    by_cases hs : isPlainAttribute s.toList = true
    · exact .inl ⟨s, rfl, hs, by rw [valueText, if_pos hs]⟩
    · exact .inr (by rw [valueText, if_neg hs, spell])
  | _ => exact .inr rfl

theorem valueText_cut (hv : v.Closed) (hw : w.Closed) (h : valueText v ++ r = valueText w ++ q) :
    v.Alike w ∧ r = q := by
  rcases valueText_cases v with ⟨s, rfl, hs, hvs⟩ | hvs <;>
    rcases valueText_cases w with ⟨t, rfl, ht, hwt⟩ | hwt <;> rw [hvs, hwt] at h
  · simp only [List.cons_append, List.append_assoc, List.nil_append, List.cons.injEq, true_and] at h
    obtain ⟨hst, hrest⟩ := plain_cut hs ht (by simp [isUnsafe]) (by simp [isUnsafe]) h
    exact ⟨String.toList_inj.mp hst, by simpa using hrest⟩
  · simp [braced] at h
  · simp [braced] at h
  · exact braced_spell_cut hv hw h

/-- An attribute ends at its equals sign and then at its closing quote or brace. -/
theorem attributeOf_cut {a b : String × Value} (ha : as.Accepted) (hb : bs.Accepted) (hma : a ∈ as)
    (hmb : b ∈ bs) (h : attributeOf a ++ r = attributeOf b ++ q) :
    (a.1 = b.1 ∧ a.2.Alike b.2) ∧ r = q := by
  simp only [attributeOf, List.append_assoc, List.cons_append] at h
  obtain ⟨hname, hrest⟩ := Text.append_cut (p := fun c => c ≠ '=')
    (fun c hc => by simpa using ne_equals_of_mem_propName (ha.name hma) hc)
    (fun c hc => by simpa using ne_equals_of_mem_propName (hb.name hmb) hc)
    (by simp) (by simp) h
  obtain ⟨hval, hrq⟩ := valueText_cut (ha.closed hma) (hb.closed hmb) (by simpa using hrest)
  exact ⟨⟨String.toList_inj.mp hname, hval⟩, hrq⟩

/-- What may stand after the attributes of a tag. -/
def Closes (r : List Char) : Prop := r.head? = some '>' ∨ ∃ s, r = ' ' :: '/' :: s

theorem Closes.not_attribute {b : String × Value} (hr : Closes r)
    (hb : isPropName b.1.toList = true) :
    r ≠ ' ' :: (attributeOf b ++ q) := by
  rintro rfl
  obtain ⟨x, xs, hx, hslash⟩ := propName_front hb
  rcases hr with h | ⟨s, h⟩
  · simp at h
  · simp [attributeOf, hx] at h
    exact hslash h.1

theorem attributes_cut (ha : as.Accepted) (hb : bs.Accepted) (hr : Closes r) (hq : Closes q)
    (h : (as.flatMap fun e => ' ' :: attributeOf e) ++ r
      = (bs.flatMap fun e => ' ' :: attributeOf e) ++ q) :
    List.Forall₂ (fun a b => a.1 = b.1 ∧ a.2.Alike b.2) as bs ∧ r = q := by
  induction as generalizing bs with
  | nil =>
    cases bs with
    | nil => exact ⟨.nil, by simpa using h⟩
    | cons b bs =>
      exact (hr.not_attribute (hb.name List.mem_cons_self) (by simpa using h)).elim
  | cons a as ih =>
    cases bs with
    | nil => exact (hq.not_attribute (ha.name List.mem_cons_self) (by simpa using h.symm)).elim
    | cons b bs =>
      simp only [List.flatMap_cons, List.cons_append, List.append_assoc, List.cons.injEq,
        true_and] at h
      obtain ⟨hab, hrest⟩ := attributeOf_cut ha hb List.mem_cons_self List.mem_cons_self h
      obtain ⟨htail, hrq⟩ := ih (ha.of_sublist (List.sublist_cons_self a as))
        (hb.of_sublist (List.sublist_cons_self b bs)) hrest
      exact ⟨.cons hab htail, hrq⟩

/-- The entry of a prop in a dictionary. -/
def entryOf (e : String × Value) : Value × Value := (.text e.1, e.2)

theorem toValue_eq (as : Props) : as.toValue = .dict (as.map entryOf) := rfl

theorem alike_of_sorted
    (h : List.Forall₂ (fun a b => a.1 = b.1 ∧ a.2.Alike b.2) (sortedAttributes props)
      (sortedAttributes qs)) :
    (Props.attributes props).toValue.Alike (Props.attributes qs).toValue := by
  have hentries : List.Forall₂ (fun a b => a.1 = b.1 ∧ a.2.Alike b.2)
      ((sortedAttributes props).map entryOf) ((sortedAttributes qs).map entryOf) := by
    rw [List.forall₂_map_left_iff, List.forall₂_map_right_iff]
    exact h.imp fun a b hab => ⟨congrArg Value.text hab.1, hab.2⟩
  have hsorted := EntriesAlike.of_forall₂ hentries
  have hp (ps : Option Props) :
      ((sortedAttributes ps).map entryOf).Perm ((Props.attributes ps).map entryOf) :=
    (Text.sortByText_perm _ _).map _
  exact (hsorted.perm_left (hp props)).perm_right (hp qs)

theorem attributesOf_cut (hp : Props.Accepted (props.getD [])) (hq' : Props.Accepted (qs.getD []))
    (hr : Closes r) (hq : Closes q) (h : attributesOf props ++ r = attributesOf qs ++ q) :
    (Props.attributes props).toValue.Alike (Props.attributes qs).toValue ∧ r = q := by
  have hsorted {ps : Option Props} (h : Props.Accepted (ps.getD [])) :
      (sortedAttributes ps).Accepted := by
    have hperm := Text.sortByText_perm (fun e : String × Value => e.1.toList) (Props.attributes ps)
    refine ⟨?_, (hperm.map _).nodup_iff.mpr h.attributes.names, ?_⟩
    · exact List.findSome?_eq_none_iff.mpr fun e he =>
        List.findSome?_eq_none_iff.mp h.attributes.fault e (hperm.mem_iff.mp he)
    · exact fun e he => h.attributes.proper e (hperm.mem_iff.mp he)
  obtain ⟨halike, hrq⟩ := attributes_cut (hsorted hp) (hsorted hq') hr hq h
  exact ⟨alike_of_sorted halike, hrq⟩

/-- Text content ends at the next tag or at the end of its line. -/
theorem contentOf_cut {s t : String} (hr : r.head? = some '<' ∨ r.head? = some '\n')
    (hq : q.head? = some '<' ∨ q.head? = some '\n') (h : contentOf s ++ r = contentOf t ++ q) :
    s = t ∧ r = q := by
  have hend {r : List Char} (hr : r.head? = some '<' ∨ r.head? = some '\n') :
      ∀ c ∈ r.head?, isUnsafe c = true := by
    intro c hc
    rcases hr with hr | hr <;> rw [hr] at hc <;> obtain rfl := Option.some.inj hc <;> decide
  -- A plain text never starts with a brace, nor does what follows it.
  have hmixed {s t r q : List Char} (hs : isPlainContent s = true)
      (hr : r.head? = some '<' ∨ r.head? = some '\n') : s ++ r ≠ braced (spellText t) ++ q := by
    intro h
    cases s with
    | nil => rcases hr with hr | hr <;> simp_all [braced]
    | cons c s =>
      have hc : c = '\x7b' := by simpa [braced] using congrArg List.head? h
      subst hc
      simp [isPlainContent, isPlainAttribute, isUnsafe] at hs
  unfold contentOf at h
  by_cases hs : isPlainContent s.toList = true <;> by_cases ht : isPlainContent t.toList = true <;>
    simp only [hs, ht, if_true] at h
  · simp only [isPlainContent, Bool.and_eq_true] at hs ht
    obtain ⟨hst, hrq⟩ := plain_cut hs.1 ht.1 (hend hr) (hend hq) h
    exact ⟨String.toList_inj.mp hst, hrq⟩
  · exact (hmixed hs hr h).elim
  · exact (hmixed ht hq h.symm).elim
  · obtain ⟨hst, hrq⟩ := braced_spellText_cut h
    exact ⟨String.toList_inj.mp hst, hrq⟩

/-- The text of a tree at a level. -/
def markupOf (level : Nat) (t : Tree) : List Char := text (linesOf level t)

/-- The text of a closing tag on a line of its own. -/
def closingOf (level : Nat) (type : String) : List Char :=
  '\n' :: (Line.indent level ++ '<' :: '/' :: (type.toList ++ ['>']))

/-- What stands behind the attributes of a node's first tag. -/
inductive Tail (level : Nat) (t : Tree) : List Char → Prop
  | single (hc : t.childList = []) (hs : Props.text? t.props = none) : Tail level t [' ', '/', '>']
  | wrapped {s : String} (hc : t.childList = []) (hs : Props.text? t.props = some s) :
      Tail level t ('>' :: (contentOf s ++ '<' :: '/' :: (t.type.toList ++ ['>'])))
  | opening (hc : t.childList ≠ []) :
      Tail level t ('>' :: (contentOf ((Props.text? t.props).getD "")
        ++ ((t.childList.flatMap fun c => '\n' :: markupOf (level + 1) c) ++ closingOf level t.type)))

theorem text_cons (line : Line) (lines : List Line) :
    text (line :: lines) = line.text ++ lines.flatMap fun line => '\n' :: line.text := by
  rw [text, List.map_cons, Text.joined_cons, List.flatMap_map]
  rfl

theorem linesOf_ne_nil (level : Nat) (t : Tree) : linesOf level t ≠ [] := by
  by_cases hc : t.childList = []
  · rw [linesOf_leaf level hc]; simp
  · rw [linesOf_inner level hc]; simp [nodeLines]

/-- The lines of children, each behind a newline, are their texts, each behind a newline. -/
theorem flatMap_linesOf (level : Nat) (ts : List Tree) :
    ((ts.flatMap (linesOf level)).flatMap fun line => '\n' :: line.text)
      = ts.flatMap fun c => '\n' :: markupOf level c := by
  rw [List.flatMap_assoc]
  apply List.flatMap_congr
  intro c _
  obtain ⟨line, lines, hlines⟩ := List.exists_cons_of_ne_nil (linesOf_ne_nil level c)
  rw [markupOf, hlines, text_cons, List.flatMap_cons]
  rfl

theorem getD_map_contentOf (s : Option String) :
    (s.map contentOf).getD [] = contentOf (s.getD "") := by
  cases s <;> rfl

theorem exists_tail (level : Nat) (t : Tree) :
    ∃ tail, Tail level t tail ∧ markupOf level t
      = Line.indent level ++ '<' :: (t.type.toList ++ (attributesOf t.props ++ tail)) := by
  by_cases hc : t.childList = []
  · rw [markupOf, linesOf_leaf level hc, text_cons, leafLine]
    cases hs : Props.text? t.props with
    | none => exact ⟨_, .single hc hs, by simp [Line.text]⟩
    | some s => exact ⟨_, .wrapped hc hs, by simp [Line.text]⟩
  · refine ⟨_, .opening hc, ?_⟩
    rw [markupOf, linesOf_inner level hc, nodeLines, text_cons, List.flatMap_append, flatMap_linesOf,
      getD_map_contentOf]
    simp [Line.text, closingOf]

theorem Tail.closes {tail : List Char} (h : Tail level t tail) (r : List Char) :
    Closes (tail ++ r) := by
  cases h with
  | single _ _ => exact .inr ⟨_, rfl⟩
  | wrapped _ _ => exact .inl rfl
  | opening _ => exact .inl rfl

theorem type_cut {a b : String} (ha : Component.isRegistered a = true)
    (hb : Component.isRegistered b = true) (hr : ∀ c ∈ r.head?, c.isAlpha = false)
    (hq : ∀ c ∈ q.head?, c.isAlpha = false) (h : a.toList ++ r = b.toList ++ q) :
    a = b ∧ r = q := by
  obtain ⟨hab, hrq⟩ := Text.append_cut (p := Char.isAlpha)
    (fun _ hc => (Source.of_mem_registered ha hc).1)
    (fun _ hc => (Source.of_mem_registered hb hc).1) hr hq h
  exact ⟨String.toList_inj.mp hab, hrq⟩

theorem head_attributesOf (hr : Closes r) :
    ∀ c ∈ (attributesOf props ++ r).head?, c = ' ' ∨ c = '>' := by
  unfold attributesOf
  cases sortedAttributes props with
  | nil => rcases hr with hr | ⟨s, rfl⟩ <;> simp_all
  | cons e es => simp

theorem not_isAlpha_head (hr : Closes r) :
    ∀ c ∈ (attributesOf props ++ r).head?, c.isAlpha = false := by
  intro c hc
  rcases head_attributesOf hr c hc with rfl | rfl <;> decide

/-- A child starts one level further in than the closing tag of its parent. -/
theorem closingOf_ne_child {type : String} (level : Nat) (c : Tree) :
    closingOf level type ++ r ≠ '\n' :: (markupOf (level + 1) c ++ q) := by
  intro h
  obtain ⟨tail, _, hc⟩ := exists_tail (level + 1) c
  have hindent : Line.indent (level + 1) = Line.indent level ++ [' ', ' '] := by
    rw [Line.indent, Line.indent, show 4 + 2 * (level + 1) = (4 + 2 * level) + 2 by omega,
      List.replicate_add]
    rfl
  rw [hc, hindent, closingOf] at h
  simp at h

theorem head_children (level : Nat) (ts : List Tree) (type : String) (r : List Char) :
    ((ts.flatMap fun c => '\n' :: markupOf (level + 1) c)
      ++ (closingOf level type ++ r)).head? = some '\n' := by
  cases ts <;> rfl

/-- Children are told from the closing tag by their indentation. -/
theorem children_cut {ts us : List Tree} {a b : String}
    (hcut : ∀ t ∈ ts, ∀ u ∈ us, ∀ r q, r.head? = some '\n' → q.head? = some '\n' →
      markupOf (level + 1) t ++ r = markupOf (level + 1) u ++ q → t.Alike u ∧ r = q)
    (h : (ts.flatMap fun c => '\n' :: markupOf (level + 1) c) ++ (closingOf level a ++ r)
      = (us.flatMap fun c => '\n' :: markupOf (level + 1) c) ++ (closingOf level b ++ q)) :
    List.Forall₂ Tree.Alike ts us ∧ closingOf level a ++ r = closingOf level b ++ q := by
  induction ts generalizing us with
  | nil =>
    cases us with
    | nil => exact ⟨.nil, by simpa using h⟩
    | cons u us => exact (closingOf_ne_child level u (by simpa using h)).elim
  | cons t ts ih =>
    cases us with
    | nil => exact (closingOf_ne_child level t (by simpa using h.symm)).elim
    | cons u us =>
      simp only [List.flatMap_cons, List.cons_append, List.append_assoc, List.cons.injEq,
        true_and] at h
      obtain ⟨htu, hrest⟩ := hcut t List.mem_cons_self u List.mem_cons_self _ _
        (head_children level ts a r) (head_children level us b q) h
      obtain ⟨htail, hrq⟩ := ih (fun t ht u hu => hcut t (List.mem_cons_of_mem _ ht) u
        (List.mem_cons_of_mem _ hu)) hrest
      exact ⟨.cons htu htail, hrq⟩

/-- What stands behind the attributes says which text shows and which children there are. -/
theorem tail_cut {x y : List Char} (hx : Tail level t x) (hy : Tail level u y)
    (htype : t.type = u.type)
    (hcut : ∀ c ∈ t.childList, ∀ d ∈ u.childList, ∀ r q, r.head? = some '\n' → q.head? = some '\n' →
      markupOf (level + 1) c ++ r = markupOf (level + 1) d ++ q → c.Alike d ∧ r = q)
    (h : x ++ r = y ++ q) :
    (t.shownText? = u.shownText? ∧ List.Forall₂ Tree.Alike t.childList u.childList) ∧ r = q := by
  cases hx with
  | single hct hst =>
    cases hy with
    | single hcu hsu =>
      refine ⟨⟨?_, by rw [hct, hcu]; exact .nil⟩, by simpa using h⟩
      rw [Tree.shownText?, Tree.shownText?, hst, hsu]
      rfl
    | wrapped => simp at h
    | opening => simp at h
  | @wrapped s hct hst =>
    cases hy with
    | single => simp at h
    | @wrapped s' hcu hsu =>
      simp only [List.cons_append, List.append_assoc, List.cons.injEq, true_and] at h
      obtain ⟨rfl, hrest⟩ := contentOf_cut (.inl rfl) (.inl rfl) h
      refine ⟨⟨?_, by rw [hct, hcu]; exact .nil⟩, by simpa [htype] using hrest⟩
      simp [Tree.shownText?, hst, hsu, hct, hcu]
    | opening hcu =>
      simp only [List.cons_append, List.append_assoc, List.cons.injEq, true_and] at h
      have hhead := head_children level u.childList u.type q
      obtain ⟨_, hrest⟩ := contentOf_cut (.inl rfl) (.inr hhead) h
      rw [← hrest] at hhead
      simp at hhead
  | opening hct =>
    have hhead := head_children level t.childList t.type r
    cases hy with
    | single => simp at h
    | wrapped hcu hsu =>
      simp only [List.cons_append, List.append_assoc, List.cons.injEq, true_and] at h
      obtain ⟨_, hrest⟩ := contentOf_cut (.inr hhead) (.inl rfl) h
      rw [hrest] at hhead
      simp at hhead
    | opening hcu =>
      simp only [List.cons_append, List.append_assoc, List.cons.injEq, true_and] at h
      obtain ⟨htext, hrest⟩ :=
        contentOf_cut (.inr hhead) (.inr (head_children level u.childList u.type q)) h
      obtain ⟨hchildren, hrq⟩ := children_cut hcut hrest
      refine ⟨⟨?_, hchildren⟩, ?_⟩
      · exact (Tree.shownText?_inner_inj hct hcu).mpr htext
      · rw [htype] at hrq
        exact List.append_cancel_left hrq

/-- The markup of a tree says which tree it is, up to what cannot be seen, and where it ends. -/
theorem markupOf_cut (t : Tree) :
    ∀ level u r q, t.Accepted → u.Accepted → Registered t → Registered u →
    r.head? = some '\n' → q.head? = some '\n' → markupOf level t ++ r = markupOf level u ++ q →
    t.Alike u ∧ r = q := by
  induction t using Tree.induction_on_children with
  | h t ih =>
    intro level u r q ht hu hrt hru hr hq h
    obtain ⟨x, hx, htx⟩ := exists_tail level t
    obtain ⟨y, hy, huy⟩ := exists_tail level u
    rw [htx, huy] at h
    simp only [List.append_assoc, List.cons_append, List.append_cancel_left_eq, List.cons.injEq,
      true_and] at h
    obtain ⟨htype, h⟩ := type_cut hrt.type hru.type (not_isAlpha_head (hx.closes r))
      (not_isAlpha_head (hy.closes q)) h
    obtain ⟨hattributes, h⟩ := attributesOf_cut ht.props hu.props (hx.closes r) (hy.closes q) h
    have hcut : ∀ c ∈ t.childList, ∀ d ∈ u.childList, ∀ r q, r.head? = some '\n' →
        q.head? = some '\n' → markupOf (level + 1) c ++ r = markupOf (level + 1) d ++ q →
        c.Alike d ∧ r = q :=
      fun c hc d hd r q => ih c hc (level + 1) d r q (ht.children c hc) (hu.children d hd)
        (hrt.children c hc) (hru.children d hd)
    obtain ⟨⟨htext, hchildren⟩, hrq⟩ := tail_cut hx hy htype hcut h
    exact ⟨Tree.alike_iff.mpr ⟨⟨htype, hattributes, htext⟩, hchildren⟩, hrq⟩

/-! Trees that agree have the same lines. -/

theorem valueText_eq_of_alike (h : v.Alike w) (hv : v.Closed) (hp : v.isProper = true) :
    valueText v = valueText w := by
  have hs := spell_eq_of_alike h hv hp
  cases v <;> cases w <;> simp only [Value.Alike] at h
  case text.text => rw [h]
  all_goals simp only [valueText, hs]

/-- The name and the text of each attribute. -/
def spellProps (entries : List (Value × Value)) : List (List Char × List Char) :=
  entries.map fun e => (keyChars e.1, valueText e.2)

theorem spellProps_perm_of_alike {xs ys : List (Value × Value)} (h : EntriesAlike xs ys)
    (hc : ∀ e ∈ xs, e.2.Closed) (hp : ∀ e ∈ xs, e.2.isProper = true) :
    (spellProps xs).Perm (spellProps ys) := by
  induction xs generalizing ys with
  | nil =>
    obtain rfl : ys = [] := h
    exact .refl _
  | cons e xs ih =>
    obtain ⟨y, rest, hy, hxy, hrest⟩ := h
    have hval := valueText_eq_of_alike hxy (hc e List.mem_cons_self) (hp e List.mem_cons_self)
    have htail := ih hrest (fun f hf => hc f (List.mem_cons_of_mem _ hf))
      (fun f hf => hp f (List.mem_cons_of_mem _ hf))
    have hys : (spellProps ys).Perm (spellProps ((e.1, y) :: rest)) := hy.map _
    rw [spellProps, List.map_cons, hval]
    exact (htail.cons _).trans hys.symm

theorem attributesOf_eq_spellProps (props : Option Props) :
    attributesOf props
      = (Text.sortByText (·.1) (spellProps ((Props.attributes props).map entryOf))).flatMap
          fun p => ' ' :: (p.1 ++ '=' :: p.2) := by
  have hsort := Text.map_sortByText (fun e => e.1.toList) (·.1)
    (fun e : String × Value => (e.1.toList, valueText e.2)) (fun _ => rfl) (Props.attributes props)
  have hspell : spellProps ((Props.attributes props).map entryOf)
      = (Props.attributes props).map fun e => (e.1.toList, valueText e.2) := by
    rw [spellProps, List.map_map]
    rfl
  rw [hspell, ← hsort, List.flatMap_map]
  rfl

theorem attributesOf_eq_of_alike (ha : Props.Accepted (props.getD []))
    (h : (Props.attributes props).toValue.Alike (Props.attributes qs).toValue) :
    attributesOf props = attributesOf qs := by
  rw [toValue_eq, toValue_eq] at h
  have hmem : ∀ e ∈ (Props.attributes props).map entryOf, e.2.Closed ∧ e.2.isProper = true := by
    intro e he
    obtain ⟨f, hf, rfl⟩ := List.mem_map.mp he
    exact ⟨ha.attributes.closed hf, ha.attributes.proper f hf⟩
  have hperm := spellProps_perm_of_alike h (fun e he => (hmem e he).1) fun e he => (hmem e he).2
  have hnodup : ((spellProps ((Props.attributes props).map entryOf)).map (·.1)).Nodup := by
    have hnames := ha.attributes.names.map fun _ _ h => String.toList_injective h
    simpa [spellProps, entryOf, keyChars, Value.text?, Function.comp_def] using hnames
  rw [attributesOf_eq_spellProps, attributesOf_eq_spellProps, Text.sortByText_eq_of_perm hperm hnodup]

theorem flatMap_linesOf_eq {ts us : List Tree}
    (ih : ∀ t ∈ ts, ∀ u, t.Alike u → linesOf level t = linesOf level u)
    (h : List.Forall₂ Tree.Alike ts us) :
    ts.flatMap (linesOf level) = us.flatMap (linesOf level) := by
  induction h with
  | nil => rfl
  | cons htu _ ihs =>
    rw [List.flatMap_cons, List.flatMap_cons, ih _ List.mem_cons_self _ htu,
      ihs fun t ht => ih t (List.mem_cons_of_mem _ ht)]

theorem linesOf_eq_of_alike (t : Tree) : ∀ level u, t.Accepted → t.Alike u →
    linesOf level t = linesOf level u := by
  induction t using Tree.induction_on_children with
  | h t ih =>
    intro level u ht h
    obtain ⟨hagrees, hchildren⟩ := Tree.alike_iff.mp h
    have hattributes := attributesOf_eq_of_alike ht.props hagrees.attributes
    by_cases hc : t.childList = []
    · have hcu : u.childList = [] := by
        rw [hc] at hchildren
        exact List.forall₂_nil_left_iff.mp hchildren
      have htext := hagrees.text
      rw [Tree.shownText?_leaf hc, Tree.shownText?_leaf hcu] at htext
      rw [linesOf_leaf level hc, linesOf_leaf level hcu, leafLine, leafLine, htext, hattributes,
        hagrees.type]
    · have hcu : u.childList ≠ [] := by
        intro hcu
        rw [hcu] at hchildren
        exact hc (List.forall₂_nil_right_iff.mp hchildren)
      have htext := (Tree.shownText?_inner_inj hc hcu).mp hagrees.text
      have hinner : t.childList.flatMap (linesOf (level + 1))
          = u.childList.flatMap (linesOf (level + 1)) :=
        flatMap_linesOf_eq (fun c hmem d hd => ih c hmem (level + 1) d (ht.children c hmem) hd)
          hchildren
      rw [linesOf_inner level hc, linesOf_inner level hcu, nodeLines, nodeLines, getD_map_contentOf,
        getD_map_contentOf, htext, hinner, hattributes, hagrees.type]

theorem registered_eraseDups (h : Registered t) :
    ∀ name ∈ t.types.eraseDups, Component.isRegistered name = true :=
  fun name hname => h name (List.mem_eraseDups.mp hname)

/-- The sources of two trees are the same just when the trees agree. -/
theorem code_sourceOf_eq_iff (ht : t.Accepted) (hu : u.Accepted) (hrt : Registered t)
    (hru : Registered u) : (sourceOf t).code = (sourceOf u).code ↔ t.Alike u := by
  constructor
  · intro h
    have hmarkup := Source.assemble_cut (registered_eraseDups hrt) (registered_eraseDups hru) h
    exact (markupOf_cut t 0 u _ _ ht hu hrt hru rfl rfl hmarkup).1
  · intro h
    have hlines := linesOf_eq_of_alike t 0 u ht h
    have htypes : t.types = u.types := by
      rw [← filterMap_opens?_linesOf t 0, hlines, filterMap_opens?_linesOf]
    rw [sourceOf, sourceOf, hlines, htypes]

/-- Generating is lossless and canonical: two plans get the same code just when their layouts unfold
to trees that agree. -/
theorem code_eq_iff_alike {p q : Plan} {x y : Json.Bounds} {a b : Quantity} {r s : Source}
    (hp : p.layout.Accepted) (hq : q.layout.Accepted) (hr : Source.generate x p a = .ok r)
    (hs : Source.generate y q b = .ok s) :
    ∃ t u, p.layout.Unfolds t ∧ q.layout.Unfolds u ∧ (r.code = s.code ↔ t.Alike u) := by
  obtain ⟨t, hpt, ht, hrt, rfl⟩ := exists_tree_of_generate hp hr
  obtain ⟨u, hqu, hu, hru, rfl⟩ := exists_tree_of_generate hq hs
  exact ⟨t, u, hpt, hqu, code_sourceOf_eq_iff ht hu hrt hru⟩

theorem code_eq_of_swapped_props :
    let t := Tree.node "Card" (some [("title", .text "<b>"), ("width", .int 3)]) none
    let u := Tree.node "Card" (some [("width", .int 3), ("title", .text "<b>")]) (some [])
    ∃ r s, Source.generate .none (.ofTree "one" t) (.whole 4) = .ok r
      ∧ Source.generate .none (.ofTree "two" u) (.whole 4) = .ok s ∧ r.code = s.code := by
  intro t u
  have ht : t.Accepted := .node ⟨by decide, by decide, by decide⟩ (List.forall_mem_nil _)
  have hu : u.Accepted := .node ⟨by decide, by decide, by decide⟩ (List.forall_mem_nil _)
  have hr : Source.generate .none (.ofTree "one" t) (.whole 4) = .ok (sourceOf t) :=
    generate_of_tree? (Layout.accepted_ofTree ht) (Layout.fits_unbounded _) rfl (by decide)
  have hs : Source.generate .none (.ofTree "two" u) (.whole 4) = .ok (sourceOf u) :=
    generate_of_tree? (Layout.accepted_ofTree hu) (Layout.fits_unbounded _) rfl (by decide)
  obtain ⟨t', u', ht', hu', h⟩ :=
    code_eq_iff_alike (Layout.accepted_ofTree ht) (Layout.accepted_ofTree hu) hr hs
  obtain rfl := ht'.unique (Layout.unfolds_ofTree t)
  obtain rfl := hu'.unique (Layout.unfolds_ofTree u)
  refine ⟨_, _, hr, hs, h.mpr ?_⟩
  refine ⟨⟨rfl, ?_, rfl⟩, rfl⟩
  exact ⟨_, _, List.Perm.swap _ _ _, rfl, _, _, .refl _, rfl, rfl⟩

end Wireframe.Markup
