import Highlight.Snapshot

/-!
# Documents

The live text of an open file. Edits speak of characters and count up the revision.
-/

namespace Highlight

/-- An open document. -/
structure Document where
  id : Option DocumentId := none
  text : Text := []
  path : Option Path := none
  language : Language := .plainText
  /-- The number of edits so far. -/
  revision : Nat := 0
  deriving DecidableEq, Repr, Inhabited

/-- Why an edit was refused. -/
inductive EditError where
  | offsetOutside (offset length : Nat)
  | rangeOutside (start stop length : Nat)
  | rangeReversed (start stop : Nat)
  deriving DecidableEq, Repr

/-- The refusal in words. -/
def EditError.message : EditError → String
  | offsetOutside offset length =>
    s!"Char index out of bounds: char index {offset}, Rope/RopeSlice char length {length}"
  | rangeOutside start stop length =>
    s!"Char range out of bounds: char range {start}..{stop}, Rope/RopeSlice char length {length}"
  | rangeReversed start stop => s!"Invalid char range {start}..{stop}: start must be <= end"

namespace Document

/-- The document after its text has been changed. -/
def edited (d : Document) (text : Text) : Document :=
  { d with text, revision := d.revision + 1 }

/-- Insert a text at a character offset. -/
def insert (d : Document) (offset : Nat) (inserted : Text) : Except EditError Document :=
  if offset ≤ d.text.length then
    .ok (d.edited (d.text.take offset ++ inserted ++ d.text.drop offset))
  else .error (.offsetOutside offset d.text.length)

/-- Remove a range of characters. A bound outside the text is refused before bounds in disorder. -/
def remove (d : Document) (start stop : Nat) : Except EditError Document :=
  if start ≤ d.text.length ∧ stop ≤ d.text.length then
    if start ≤ stop then .ok (d.edited (d.text.take start ++ d.text.drop stop))
    else .error (.rangeReversed start stop)
  else .error (.rangeOutside start stop d.text.length)

end Document

end Highlight
