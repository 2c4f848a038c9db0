import Highlight.Text.Basic

/-!
# Syntax trees

A syntax tree is an ordered tree of labels. Its nodes are numbered in pre-order, and the number is what
makes two nodes the same node. `Tree.places` lists the nodes in that order, each with the nodes above it.

Main statements: `length_places` counts the places, and `index_places` says that the list is in the order
of the numbers.
-/

namespace Highlight

/-- What a tree says of one node: its kind, where it stands in the text, and the name of the edge to it. -/
structure Label where
  kind : String
  range : ByteRange
  field : Option String
  deriving DecidableEq, Repr, Inhabited

/-- An ordered tree of labels. -/
inductive Tree where
  | node (label : Label) (children : List Tree)
  deriving Repr, Inhabited

/-- A label together with its number in pre-order. -/
structure Node extends Label where
  index : Nat
  deriving DecidableEq, Repr, Inhabited

/-- A node and the nodes above it, the nearest first. -/
structure Place where
  node : Node
  above : List Node
  deriving DecidableEq, Repr, Inhabited

namespace Place

/-- The node right above. -/
def parent? (p : Place) : Option Node := p.above.head?

/-- The kind of the node right above. -/
def parentKind? (p : Place) : Option String := p.parent?.map (·.kind)

/-- The deepest of the places of a tree that covers byte `b`, or its root where none does: the last
covering node in pre-order is the deepest one. -/
def deepestAt? (places : List Place) (b : Nat) : Option Place :=
  (places.findRev? fun p => p.node.range.contains b).or places.head?

end Place

namespace Tree

/-- The label of the root. -/
def label : Tree → Label
  | .node l _ => l

/-- The trees right below the root. -/
def children : Tree → List Tree
  | .node _ ts => ts

/-! ## Size -/

mutual

/-- The number of nodes. -/
def size : Tree → Nat
  | .node _ ts => sizeAll ts + 1

/-- The number of nodes of some trees together. -/
def sizeAll : List Tree → Nat
  | [] => 0
  | t :: ts => t.size + sizeAll ts

end

theorem size_eq (t : Tree) : t.size = sizeAll t.children + 1 := by
  cases t; simp [size, children]

/-! ## Places -/

mutual

/-- The places of a tree below the nodes `above`, numbered from `n`. -/
def placesFrom (above : List Node) (n : Nat) : Tree → List Place
  | .node l ts => ⟨⟨l, n⟩, above⟩ :: placesFromAll (⟨l, n⟩ :: above) (n + 1) ts

/-- The places of neighbouring trees below the nodes `above`, numbered from `n`. -/
def placesFromAll (above : List Node) (n : Nat) : List Tree → List Place
  | [] => []
  | t :: ts => t.placesFrom above n ++ placesFromAll above (n + t.size) ts

end

/-- The nodes of a tree in pre-order, each with the nodes above it. -/
def places (t : Tree) : List Place := t.placesFrom [] 0

mutual

theorem length_placesFrom (above : List Node) (n : Nat) :
    (t : Tree) → (t.placesFrom above n).length = t.size
  | .node l ts => by simp [placesFrom, size, length_placesFromAll _ _ ts]

theorem length_placesFromAll (above : List Node) (n : Nat) :
    (ts : List Tree) → (placesFromAll above n ts).length = sizeAll ts
  | [] => rfl
  | t :: ts => by
    simp [placesFromAll, sizeAll, length_placesFrom _ _ t, length_placesFromAll _ _ ts]

end

@[simp] theorem length_places (t : Tree) : t.places.length = t.size := length_placesFrom [] 0 t

mutual

theorem index_placesFrom (above : List Node) (n : Nat) :
    (t : Tree) → (t.placesFrom above n).map (·.node.index) = List.range' n t.size
  | .node l ts => by
    simp [placesFrom, size, List.range'_succ, index_placesFromAll _ _ ts]

theorem index_placesFromAll (above : List Node) (n : Nat) :
    (ts : List Tree) → (placesFromAll above n ts).map (·.node.index) = List.range' n (sizeAll ts)
  | [] => rfl
  | t :: ts => by
    simp [placesFromAll, sizeAll, index_placesFrom _ _ t, index_placesFromAll _ _ ts,
      List.range'_append_1]

end

theorem index_places (t : Tree) : t.places.map (·.node.index) = List.range t.size := by
  rw [places, index_placesFrom, List.range_eq_range']

end Tree

end Highlight
