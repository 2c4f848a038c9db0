import Highlight.Text.Basic

/-!
# The edit between two texts

Two texts that differ are compared byte by byte: `Edit.between` keeps the longest common front, then the
longest common back of what is left, and reports the one region in between. Offsets are bytes, so an edit
may start or end inside a character.
-/

namespace Highlight

/-! ## Points -/

/-- A place in a text by row and by bytes since the row began. -/
structure Point where
  row : Nat
  column : Nat
  deriving DecidableEq, Repr, Inhabited

namespace Point

/-- The place after one more byte: a newline starts a row. -/
def advance (p : Point) (b : UInt8) : Point :=
  if b = 0x0a then ⟨p.row + 1, 0⟩ else ⟨p.row, p.column + 1⟩

/-- The place of byte offset `n`, or of the end for an offset beyond it. -/
def atByte (bytes : List UInt8) (n : Nat) : Point := (bytes.take n).foldl advance ⟨0, 0⟩

end Point

/-! ## Edits -/

/-- The replacement of the bytes `start..oldEnd` of one text by the bytes `start..newEnd` of another. -/
structure Edit where
  start : Nat
  oldEnd : Nat
  newEnd : Nat
  startPoint : Point
  oldEndPoint : Point
  newEndPoint : Point
  deriving DecidableEq, Repr

namespace Edit

/-- How many leading items two lists share. -/
def commonFront : List UInt8 → List UInt8 → Nat
  | a :: as, b :: bs => if a = b then commonFront as bs + 1 else 0
  | _, _ => 0

/-- The edit that leads from `old` to `new`, if they differ. -/
def between (old new : Text) : Option Edit :=
  if old = new then none
  else
    let oldBytes := Text.bytes old
    let newBytes := Text.bytes new
    let start := commonFront oldBytes newBytes
    let back := commonFront (oldBytes.drop start).reverse (newBytes.drop start).reverse
    let oldEnd := oldBytes.length - back
    let newEnd := newBytes.length - back
    some
      { start, oldEnd, newEnd
        startPoint := Point.atByte oldBytes start
        oldEndPoint := Point.atByte oldBytes oldEnd
        newEndPoint := Point.atByte newBytes newEnd }

theorem between_eq_none_iff {old new : Text} : between old new = none ↔ old = new := by
  by_cases h : old = new <;> simp [between, h]

end Edit

end Highlight
