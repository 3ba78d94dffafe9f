/-!
The order of texts, by the code point of the first character that differs; the front of a text comes
before the text.
-/

namespace Wireframe.Text

/-- Whether a text comes before another or is the same. -/
def atMost : List Char → List Char → Bool
  | [], _ => true
  | _ :: _, [] => false
  | a :: as, b :: bs => if a = b then atMost as bs else decide (a.toNat < b.toNat)

end Wireframe.Text
