import Highlight.Tree.Basic

/-!
# Outlines

An outline is a tree written as the list of its labels in pre-order, each with its depth.
-/

namespace Highlight

/-- Labels in pre-order, each with its depth. -/
abbrev Outline := List (Nat × Label)

namespace Outline

/-- Put one line of an outline before the trees of the lines behind it: the trees one level deeper that
follow it directly become its children. -/
def attach (line : Nat × Label) (behind : List (Nat × Tree)) : List (Nat × Tree) :=
  let (below, rest) := behind.span fun item => item.1 == line.1 + 1
  (line.1, Tree.node line.2 (below.map (·.2))) :: rest

/-- The tree of an outline, which must have exactly one root. -/
def tree? (lines : Outline) : Option Tree :=
  match lines.foldr attach [] with
  | [(0, t)] => some t
  | _ => none

end Outline

end Highlight
