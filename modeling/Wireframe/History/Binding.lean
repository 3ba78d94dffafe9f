import Wireframe.Text.Quoted

/-!
Texts that a database takes as the parameters of a statement. It keeps them as UTF-8, which has no form for
half a surrogate pair. A text of characters holds no such half, a text of code points may.
-/

namespace Wireframe

/-- Halves of surrogate pairs in a text: the first of them, and the places of the first and the last. -/
structure EncodeFault where
  half : Nat
  first : Nat
  last : Nat
deriving DecidableEq, Repr

def EncodeFault.message (e : EncodeFault) : String :=
  let what :=
    if e.first = e.last then s!"character '\\u{String.ofList (Text.hex 4 e.half)}' in position {e.first}"
    else s!"characters in position {e.first}-{e.last}"
  s!"'utf-8' codec can't encode {what}: surrogates not allowed"

/-- Texts, each of which a database takes or refuses. -/
class Bindable (τ : Type) where
  refusal? : τ → Option EncodeFault

namespace Bindable

variable {τ : Type} [Bindable τ]

/-- Why a database refuses one of some texts; the first one that it refuses counts. -/
def firstRefusal? (ts : List τ) : Option EncodeFault := ts.findSome? refusal?

end Bindable

instance : Bindable String := ⟨fun _ => none⟩

theorem Bindable.firstRefusal?_string (ts : List String) : firstRefusal? ts = none :=
  List.findSome?_eq_none_iff.mpr fun _ _ => rfl

/-- A text of code points. -/
structure RawText where
  points : List (Fin 0x110000)
deriving DecidableEq, Repr

namespace RawText

/-- Whether a code point is half a surrogate pair. -/
def isHalf (p : Fin 0x110000) : Bool := 0xd800 ≤ p.val && p.val < 0xe000

/-- The first halves in a text that follow each other. -/
def halves? (t : RawText) : Option EncodeFault :=
  let front := t.points.takeWhile fun p => !isHalf p
  match (t.points.drop front.length).takeWhile isHalf with
  | [] => none
  | p :: more => some ⟨p.val, front.length, front.length + more.length⟩

instance : Bindable RawText := ⟨halves?⟩

end RawText

end Wireframe
