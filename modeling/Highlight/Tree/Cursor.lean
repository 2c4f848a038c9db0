import Highlight.Tree.Basic

/-!
# Cursors

A cursor stands on one node of a tree and moves to the first child, to the next sibling or back to the
parent. It keeps the siblings still to the right of its node and of each node above.

Main statements: `remaining_firstChild?` and `remaining_nextSibling?` count the nodes behind the cursor in
pre-order after a step onto a new node, and `right_parent?` says that a step back from a last child keeps
the nodes to the right.
-/

namespace Highlight

/-- A tree with its siblings to the right. -/
structure Frame where
  tree : Tree
  right : List Tree

/-- A node of a tree on which one stands, with the frames of the nodes above, the nearest first. -/
structure Cursor where
  here : Frame
  above : List Frame

namespace Cursor

/-- A cursor on the root. -/
def ofTree (t : Tree) : Cursor := ⟨⟨t, []⟩, []⟩

/-- The label of the node one stands on. -/
def label (c : Cursor) : Label := c.here.tree.label

/-- Step to the first child. -/
def firstChild? (c : Cursor) : Option Cursor :=
  match c.here.tree.children with
  | [] => none
  | t :: ts => some ⟨⟨t, ts⟩, c.here :: c.above⟩

/-- Step to the next sibling. -/
def nextSibling? (c : Cursor) : Option Cursor :=
  match c.here.right with
  | [] => none
  | t :: ts => some ⟨⟨t, ts⟩, c.above⟩

/-- Step back to the parent. -/
def parent? (c : Cursor) : Option Cursor :=
  match c.above with
  | [] => none
  | f :: fs => some ⟨f, fs⟩

/-- The number of nodes to the right of some frames. -/
def rightSize : List Frame → Nat
  | [] => 0
  | f :: fs => Tree.sizeAll f.right + rightSize fs

/-- The number of nodes that lie to the right of the way from the root to this node. -/
def right (c : Cursor) : Nat := rightSize (c.here :: c.above)

/-- The number of nodes that come behind this one in pre-order. -/
def remaining (c : Cursor) : Nat := Tree.sizeAll c.here.tree.children + c.right

theorem remaining_firstChild? {c d : Cursor} (h : c.firstChild? = some d) :
    d.remaining + 1 = c.remaining := by
  unfold firstChild? at h
  split at h
  · simp at h
  · rename_i t ts e
    cases h
    simp [remaining, right, rightSize, e, Tree.sizeAll, Tree.size_eq t]
    omega

theorem remaining_nextSibling? {c d : Cursor} (h : c.nextSibling? = some d) :
    d.remaining + 1 = c.right := by
  unfold nextSibling? at h
  split at h
  · simp at h
  · rename_i t ts e
    cases h
    simp [remaining, right, rightSize, e, Tree.sizeAll, Tree.size_eq t]
    omega

theorem right_parent? {c d : Cursor} (h : c.parent? = some d) (last : c.nextSibling? = none) :
    d.right = c.right := by
  unfold nextSibling? at last
  unfold parent? at h
  split at last
  · rename_i e
    split at h
    · simp at h
    · rename_i f fs e'
      cases h
      simp [right, rightSize, e, e', Tree.sizeAll]
  · simp at last

end Cursor

end Highlight
