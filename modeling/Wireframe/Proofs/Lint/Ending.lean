import Wireframe.Lint.Check
import Wireframe.Proofs.Text.Ending

/-! A newline at the end of a module. The check reports the same with it as without it. -/
namespace Wireframe.Lint
open Text

variable {α : Type} {f : List Char → Option (α × List Char)} {before : Option Char} {s : List Char}

theorem steady_atEdge (hf : Steady f) (before : Option Char) : Steady (atEdge f before) where
  level s := by
    rw [atEdge, atEdge, hf.level]
    cases s with
    | nil =>
      rw [hf.nil, ite_self, Option.map_none, ite_self]
    | cons c s =>
      rw [List.cons_append, List.head?_cons, List.head?_cons]
      split <;> rfl
  nil := by rw [atEdge, hf.nil, ite_self]

/-- What a fixed text leaves behind. -/
theorem steady_sign {c : Char} {a : List Char} (h : '\n' ∉ c :: a) (x : α) :
    Steady fun s => after? (c :: a) s >>= fun rest => some (x, rest) := .after h (level_some x)

theorem steady_wrapperOpening (before : Option Char) : Steady (wrapperOpening before) := by
  have hclose := (steady_sign (a := []) (c := '\x7b') (by decide) ()).trimStart
  have hparen := (Steady.after (c := ')') (a := []) (by decide) hclose.level).trimStart
  have hname := Steady.after (c := 'G') (a := "eneratedUI".toList) (by decide)
    (Steady.after (c := '(') (a := []) (by decide) hparen.level).trimStart.level
  have hfunction := Steady.after (c := 'f') (a := "unction".toList) (by decide) hname.blanks.level
  have hdefault := Steady.after (c := 'd') (a := "efault".toList) (by decide) hfunction.blanks.level
  exact Steady.after (c := 'e') (a := "xport".toList) (by decide) hdefault.blanks.level

theorem steady_innerHtmlWord (before : Option Char) : Steady (innerHtmlWord before) :=
  steady_atEdge (steady_wholeWord (c := 'd') (a := "angerouslySetInnerHTML".toList) (by decide)) before

theorem steady_openingTag (before : Option Char) : Steady (openingTag before) := by
  have hname : Level fun s => some (s.span fun c => isWord c || c = '.') :=
    Level.run (k := fun name rest => some (name, rest)) level_some (by decide)
  exact Steady.after (c := '<') (a := []) (by decide) (hname.ahead (p := isLetter) (by decide)).level

theorem steady_callOf {c : Char} {a : List Char} (h : '\n' ∉ c :: a) : Steady (callOf (c :: a)) :=
  .after h (steady_sign (a := []) (c := '(') (by decide) _).trimStart.level

theorem steady_dynamicCall (before : Option Char) : Steady (dynamicCall before) :=
  steady_atEdge ((steady_callOf (c := 'i') (a := "mport".toList) (by decide)).orElse
    (steady_callOf (c := 'r') (a := "equire".toList) (by decide))) before

/-! An inline style, in parts. -/

/-- The sign behind the word. -/
def styleSign? : List Char → Option (Char × List Char)
  | c :: rest => if c = '=' ∨ c = ':' then some (c, rest) else none
  | [] => none

/-- What opens the style behind the sign and some blanks. -/
def styleOpening? (sign : Char) (space : List Char) : List Char → Option (List Char × List Char)
  | c :: rest =>
    if c = '\x7b' ∨ (sign = '=' ∧ (c = '\'' ∨ c = '"')) then some (sign :: (space ++ [c]), rest) else none
  | [] => none

theorem inlineStyle_eq : inlineStyle = atEdge fun s => after? "style".toList s >>= fun rest =>
    styleSign? (trimStart rest) >>= fun found =>
      styleOpening? found.1 (found.2.span isBlank).1 (found.2.span isBlank).2 := by
  unfold inlineStyle
  refine congrArg atEdge (funext fun s => ?_)
  cases after? "style".toList s with
  | none => rfl
  | some rest =>
    rw [Option.bind_eq_bind, Option.bind_some, Option.bind_eq_bind, Option.bind_some]
    rcases trimStart rest with _ | ⟨c, rest⟩
    · rfl
    · rw [styleSign?]
      split
      · rename_i heq
        cases heq
        rfl
      · rename_i heq
        cases heq
        rfl
      · rename_i hequals hcolon
        have hc : ¬ (c = '=' ∨ c = ':') := by
          rintro (rfl | rfl)
          · exact hequals rest rfl
          · exact hcolon rest rfl
        rw [if_neg hc]
        rfl

theorem steady_styleSign : Steady styleSign? where
  level s := by
    cases s with
    | nil => rfl
    | cons c s =>
      rw [List.cons_append, styleSign?, styleSign?]
      split <;> rfl
  nil := rfl

theorem steady_styleOpening (sign : Char) (space : List Char) : Steady (styleOpening? sign space) where
  level s := by
    cases s with
    | nil =>
      rw [List.nil_append, styleOpening?, if_neg (by simp)]
      rfl
    | cons c s =>
      rw [List.cons_append, styleOpening?, styleOpening?]
      split <;> rfl
  nil := rfl

theorem steady_inlineStyle (before : Option Char) : Steady (inlineStyle before) := by
  rw [inlineStyle_eq]
  have hsign := steady_styleSign.bind fun sign => (Steady.run (p := isBlank) (steady_styleOpening sign)).level
  exact steady_atEdge (Steady.after (c := 's') (a := "tyle".toList) (by decide) hsign.trimStart.level) before

/-! Declarations of components. -/

theorem level_componentName : Level componentName? := by
  refine Level.run (p := isWord) (k := fun name rest =>
    if name.length - 9 = 0 then none
    else afterFolded? "component".toList (name.drop (name.length - 9)) >>= fun tail =>
      if tail.isEmpty then some (name, rest) else none) (fun name s => ?_) (by decide)
  dsimp only
  split
  · rfl
  · cases afterFolded? "component".toList (name.drop (name.length - 9)) with
    | none => rfl
    | some tail =>
      simp only [Option.bind_eq_bind, Option.bind_some]
      split <;> rfl

theorem steady_componentName : Steady componentName? := ⟨level_componentName, rfl⟩

theorem steady_declaredBy {c : Char} {a : List Char} (sign : Char)
    (h : (c :: a).any (foldsTo · '\n') = false) (hsign : sign ≠ '\n') : Steady (declaredBy (c :: a) sign) := by
  have hbehind (name : List Char) : Level fun rest =>
      after? [sign] (trimStart rest) >>= fun rest => some (name, rest) :=
    (steady_sign (a := []) (by simpa using hsign.symm) name).trimStart.level
  exact .afterFolded h (steady_componentName.bind hbehind).blanks.level

theorem steady_declaredClass : Steady declaredClass :=
  Steady.afterFolded (c := 'c') (a := "lass".toList) (by decide) steady_componentName.blanks.level

theorem steady_componentDeclaration (before : Option Char) : Steady (componentDeclaration before) := by
  refine steady_atEdge ?_ before
  have hconst := steady_declaredBy (c := 'c') (a := "onst".toList) '=' (by decide) (by decide)
  have hlet := steady_declaredBy (c := 'l') (a := "et".toList) '=' (by decide) (by decide)
  have hvar := steady_declaredBy (c := 'v') (a := "ar".toList) '=' (by decide) (by decide)
  have hfunction :=
    steady_declaredBy (c := 'f') (a := "unction".toList) '(' (by decide) (by decide)
  exact hconst.orElse (hlet.orElse (hvar.orElse (hfunction.orElse steady_declaredClass)))

/-! Class names that are put together. -/

theorem steady_dynamicClass (before : Option Char) : Steady (dynamicClass before) := by
  have hend (template : List Char) : Steady fun rest => after? ['\x60'] rest >>= fun rest =>
      if contains ['$', '\x7b'] template then some (template, rest) else none := by
    refine .after (by decide) fun s => ?_
    split <;> rfl
  have htemplate := Steady.run (p := fun c => decide (c ≠ '\x60')) hend
  have hquote := Steady.after (c := '\x60') (a := []) (by decide) htemplate.level
  have hbrace := Steady.after (c := '\x7b') (a := []) (by decide) hquote.trimStart.level
  have hequals := Steady.after (c := '=') (a := []) (by decide) hbrace.trimStart.level
  exact Steady.after (c := 'c') (a := "lassName".toList) (by decide) hequals.trimStart.level

/-! The parts of a module. -/

/-- What stands on the line behind its closing brace. -/
def closingTail (rest : List Char) : List Char :=
  ((after? [';'] (rest.dropWhile isSpaceOrTab)).getD (rest.dropWhile isSpaceOrTab)).dropWhile isSpaceOrTab

theorem dropWhile_isSpaceOrTab_newline (s : List Char) :
    (s ++ ['\n']).dropWhile isSpaceOrTab = s.dropWhile isSpaceOrTab ++ ['\n'] := by
  have hspan := span_newline (p := isSpaceOrTab) (s := s) (.inl (by decide))
  rw [List.span_eq_takeWhile_dropWhile, List.span_eq_takeWhile_dropWhile] at hspan
  exact congrArg Prod.snd hspan

theorem closingTail_newline (rest : List Char) :
    closingTail (rest ++ ['\n']) = closingTail rest ++ ['\n'] := by
  have hmark : '\n' ∉ [';'] := by decide
  rw [closingTail, dropWhile_isSpaceOrTab_newline, after?_newline hmark, closingTail]
  cases after? [';'] (rest.dropWhile isSpaceOrTab) <;> exact dropWhile_isSpaceOrTab_newline _

theorem steady_closingLine (before : Option Char) : Steady (closingLine before) := by
  refine Steady.after (c := '\x7d') (a := []) (by decide) fun rest => ?_
  show (if before = some '\n' ∧ (closingTail (rest ++ ['\n']) = []
      ∨ (closingTail (rest ++ ['\n'])).head? = some '\n') then some ((), rest ++ ['\n']) else none)
    = Option.map ended (if before = some '\n' ∧ (closingTail rest = []
      ∨ (closingTail rest).head? = some '\n') then some ((), rest) else none)
  rw [closingTail_newline]
  cases closingTail rest with
  | nil =>
    simp only [List.nil_append, List.head?_cons, or_true, true_or]
    split <;> rfl
  | cons c tail =>
    simp only [List.cons_append, List.head?_cons, reduceCtorEq, false_or]
    split <;> rfl

theorem splitLastBrace?_newline (s : List Char) : splitLastBrace? (s ++ ['\n'])
    = (splitLastBrace? s).map fun (body, after) => (body, after ++ ['\n']) := by
  rw [splitLastBrace?, splitLastBrace?, List.reverse_concat, List.dropWhile_cons_of_pos (by decide),
    List.takeWhile_cons_of_pos (by decide), List.reverse_cons]
  cases s.reverse.dropWhile fun c => decide (c ≠ '\x7d') <;> rfl

theorem parts?_newline (s : List Char) :
    parts? (s ++ ['\n']) = (parts? s).map fun p => { p with after := p.after ++ ['\n'] } := by
  rw [parts?, parts?, search_newline steady_wrapperOpening]
  cases search wrapperOpening none s with
  | none => rfl
  | some found =>
    obtain ⟨front, _, inner⟩ := found
    simp only [Option.map_some, Option.bind_eq_bind, Option.bind_some,
      search_newline steady_closingLine, splitLastBrace?_newline]
    cases search closingLine (some '\x7b') inner with
    | some closed => rfl
    | none => cases splitLastBrace? inner <;> rfl

/-- A newline at the end opens at most an empty line. -/
theorem linesFrom_newline (current s : List Char) :
    linesFrom current (s ++ ['\n']) = linesFrom current s
      ∨ linesFrom current (s ++ ['\n']) = linesFrom current s ++ [[]] := by
  have hlast (current : List Char) : linesFrom current ['\n'] = [current.reverse] := rfl
  fun_induction linesFrom current s with
  | case1 current h =>
    obtain rfl := List.isEmpty_iff.mp h
    exact .inr rfl
  | case2 current h => exact .inl (hlast current)
  | case3 current rest ih =>
    rw [List.cons_append, List.cons_append, linesFrom]
    exact ih.imp (congrArg _) (congrArg _)
  | case4 current c rest hc hend ih =>
    by_cases hreturn : c = '\r' ∧ rest = []
    · obtain ⟨rfl, rfl⟩ := hreturn
      exact .inl rfl
    · rw [List.cons_append, linesFrom, if_pos hend]
      · exact ih.imp (congrArg _) (congrArg _)
      · intro rest' hcr hnext
        cases rest with
        | nil => exact hreturn ⟨hcr, rfl⟩
        | cons d rest => exact hc rest hcr (by rw [(List.cons.inj hnext).1])
  | case5 current c rest hc hend ih =>
    rw [List.cons_append, linesFrom, if_neg hend]
    · exact ih
    · rintro _ rfl
      exact (hend (by decide)).elim

theorem outsideViolations_newline (p : Parts) :
    outsideViolations { p with after := p.after ++ ['\n'] } = outsideViolations p := by
  rw [outsideViolations, outsideViolations]
  rcases linesFrom_newline [] p.after with hlines | hlines
  · rw [lines, lines, hlines]
    rfl
  · rw [lines, lines, hlines, ← List.append_assoc, List.filterMap_append]
    exact List.append_nil _

/-- A newline at the end changes nothing in what is reported on a module. -/
theorem violations_newline (s : List Char) : violations (s ++ ['\n']) = violations s := by
  have hwrapper : wrapperViolations (s ++ ['\n']) = wrapperViolations s := by
    rw [wrapperViolations, wrapperViolations, parts?_newline]
    cases parts? s with
    | none => rfl
    | some p =>
      simp only [Option.map_some, outsideViolations_newline]
  have himports : allImportViolations (s ++ ['\n']) = allImportViolations s := by
    rw [allImportViolations, allImportViolations, splitNewlines_append, List.filter_append,
      findAll_newline steady_dynamicCall, splitNewlines, List.filter_cons_of_neg (by decide),
      List.filter_nil, List.append_nil]
  have hstyle : styleViolations (s ++ ['\n']) = styleViolations s := by
    rw [styleViolations, styleViolations, whereOccurs, whereOccurs, findAll_newline steady_inlineStyle,
      occurs_newline steady_innerHtmlWord]
  have hdeclarations : declarationViolations (s ++ ['\n']) = declarationViolations s := by
    rw [declarationViolations, declarationViolations, findAll_newline steady_componentDeclaration]
  have htags : tagViolations (s ++ ['\n']) = tagViolations s := by
    rw [tagViolations, tagViolations, findAll_newline steady_openingTag]
  rw [violations, violations, hwrapper, himports, hstyle, hdeclarations, htags]

theorem check_newline (s : List Char) : check (s ++ ['\n']) = check s := by
  rw [check, check, violations_newline, findAll_newline steady_dynamicClass]

end Wireframe.Lint
