import Highlight.Text.Edit

/-!
# Offsets between a parsed text and its live text

The live text may have moved on since it was parsed. The difference is one edited region, so offsets
before it stay, offsets behind it shift, and offsets inside it have no counterpart.
-/

namespace Highlight

/-- The region that differs: `start..oldEnd` of the parsed text became `start..newEnd`. -/
structure Region where
  start : Nat
  oldEnd : Nat
  newEnd : Nat
  deriving DecidableEq, Repr

/-- How byte offsets of a parsed text and of the live one belong together. -/
structure Mapping where
  region : Option Region
  deriving DecidableEq, Repr

namespace Mapping

/-- The mapping between equal texts. -/
def identity : Mapping := ⟨none⟩

/-- The mapping from `parsed` to `live`. -/
def between (parsed live : Text) : Mapping :=
  ⟨(Edit.between parsed live).map fun e => ⟨e.start, e.oldEnd, e.newEnd⟩⟩

/-- The texts are the same. -/
def isIdentity (m : Mapping) : Bool := m.region.isNone

/-- An offset before `start` stays and one from `fromEnd` on moves with it to `toEnd`. The sum is meant for
offsets where it fits into a machine word, as it does for those of a text. -/
def shift (byte start fromEnd toEnd : Nat) : Option Nat :=
  if byte < start then some byte
  else if fromEnd ≤ byte then some (byte - fromEnd + toEnd)
  else none

/-- The live offset of a parsed offset. -/
def toLive (m : Mapping) (byte : Nat) : Option Nat :=
  match m.region with
  | none => some byte
  | some r => shift byte r.start r.oldEnd r.newEnd

/-- The parsed offset of a live offset. -/
def toParsed (m : Mapping) (byte : Nat) : Option Nat :=
  match m.region with
  | none => some byte
  | some r => shift byte r.start r.newEnd r.oldEnd

/-- An offset moved by a signed distance, as a machine word of 64 bits. -/
def moved (byte : Nat) (distance : Int) : Nat := (((byte : Int) + distance) % UInt64.size).toNat

/-- The live range of a parsed range, which must end before the edited region or begin behind it. -/
def rangeToLive (m : Mapping) (range : ByteRange) : Option ByteRange :=
  match m.region with
  | none => some range
  | some r =>
    if range.stop ≤ r.start then some range
    else if r.oldEnd ≤ range.start then
      let distance : Int := (r.newEnd : Int) - r.oldEnd
      some ⟨moved range.start distance, moved range.stop distance⟩
    else none

end Mapping

end Highlight
