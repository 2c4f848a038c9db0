/-!
# Selections

A view reports what is selected in it. Only text is of interest: a caret is a selection of no length, and a
longer selection picks an identifier by its start or by all of it.
-/

namespace Highlight

/-- The number of an editor view. -/
abbrev ViewId := Nat

/-- What a view reports as selected, in characters. -/
inductive Selection where
  /-- A caret or a range of text. -/
  | text (offset length : Nat)
  /-- Anything that is no text. -/
  | other
  deriving DecidableEq, Repr, Inhabited

namespace Selection

/-- The offset at which a selection of text begins. -/
def caret? : Selection → Option Nat
  | text offset _ => some offset
  | other => none

end Selection

/-- How a range of text picks its identifier. -/
inductive SelectionMode where
  /-- The identifier at the start of the range. -/
  | start
  /-- The identifier around the whole range. -/
  | enclosing
  deriving DecidableEq, Repr, Inhabited

end Highlight
