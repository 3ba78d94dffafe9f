import Wireframe.Proofs.Json.Literal
import Wireframe.Proofs.Json.Numbers
import Wireframe.Proofs.Json.Units

/-! Closed data on one line, the entries of objects in their own order, and what reading it gives. -/
namespace Wireframe

namespace Json
open Value Outcome

variable {style : Style} {v : Value} {s rest : List Char}
variable {items : List Value} {e : Value × Value} {entries : List (Value × Value)}

/-- A style without bounds that takes no line breaks, sorts nothing and tells binary64 numbers from
integers. -/
structure Style.IsCompact (style : Style) : Prop where
  unbounded : style.bounds = .none
  unsorted : style.sorted = false
  unspread : style.spread = false
  marked : style.number.markWhole = true

theorem Style.isCompact_stored : stored.IsCompact := ⟨rfl, rfl, rfl, rfl⟩

theorem Style.isCompact_line : line.IsCompact := ⟨rfl, rfl, rfl, rfl⟩

mutual

/-- The text of closed data on one line. -/
def compact (style : Style) : Value → List Char
  | .bool b => (if b then "true" else "false").toList
  | .int n => Text.integer n
  | .float x => x.text style.number
  | .text s => quotedText style.ascii s.toList
  | .list items => Markup.enclosed '[' ']' (compactItems style items)
  | .dict entries => Markup.enclosed '\x7b' '\x7d' (compactEntries style entries)
  | _ => []

def compactItems (style : Style) : List Value → List (List Char)
  | [] => []
  | x :: rest => compact style x :: compactItems style rest

def compactEntries (style : Style) : List (Value × Value) → List (List Char)
  | [] => []
  | (k, v) :: rest =>
    (quotedText style.ascii (keyChars k) ++ ':' :: compact style v) :: compactEntries style rest

end

def compactEntry (style : Style) (e : Value × Value) : List Char :=
  quotedText style.ascii (keyChars e.1) ++ ':' :: compact style e.2

theorem compact_list (style : Style) (items : List Value) :
    compact style (.list items) = Markup.enclosed '[' ']' (items.map (compact style)) := by
  rw [compact]
  congr 1
  induction items with
  | nil => rfl
  | cons x rest ih => rw [compactItems, ih, List.map_cons]

theorem compact_dict (style : Style) (entries : List (Value × Value)) :
    compact style (.dict entries) = Markup.enclosed '\x7b' '\x7d' (entries.map (compactEntry style)) := by
  rw [compact]
  congr 1
  induction entries with
  | nil => rfl
  | cons e rest ih => rw [compactEntries, ih, List.map_cons]; rfl

theorem Style.IsCompact.checkRoom_eq (hs : style.IsCompact) (level : Nat) : checkRoom style level = .ok () :=
  Markup.checkRoom_eq_ok.mpr (by rw [hs.unbounded]; trivial)

/-- Closed data is written on one line. -/
theorem write_eq_compact (hs : style.IsCompact) (h : v.Closed) :
    ∀ level, write style level v = .ok (compact style v) := by
  induction h with
  | bool _ | text _ =>
    intro level
    rw [write, compact]
  | int n =>
    intro level
    rw [write, compact]
    exact Markup.integerText_eq_ok.mpr ⟨rfl, by simp [hs.unbounded, Bounds.none]⟩
  | float hx =>
    intro level
    rw [Markup.write_float style hx, compact]
  | @list items _ ih =>
    intro level
    have hitems : writeItems style (level + 1) items = .ok (items.map (compact style)) := by
      rw [Markup.writeItems_eq_mapM]
      exact mapM_eq_ok fun x hx => ih x hx (level + 1)
    rw [write, hs.checkRoom_eq, ok_bind, hitems, compact_list, ← Markup.enclosed_of_not_spread hs.unspread]
    rfl
  | @dict entries hk _ ih =>
    intro level
    have harranged : arranged style (writeValues style (level + 1) entries)
        = .ok (entries.map fun e => (e.1, write style (level + 1) e.2)) := by
      rw [Markup.writeValues_eq_map, arranged, hs.unsorted]
      rfl
    have hentry : ∀ e ∈ entries, entryText style e.1 (write style (level + 1) e.2)
        = .ok (compactEntry style e) := by
      intro e he
      rw [ih e he (level + 1)]
      exact Markup.entryText_of_isText hs.unspread (hk e he) _
    rw [write, hs.checkRoom_eq, ok_bind, harranged, ok_bind, List.mapM_map, Function.comp_def, mapM_eq_ok hentry,
      compact_dict, ← Markup.enclosed_of_not_spread hs.unspread]
    rfl

end Json

end Wireframe
