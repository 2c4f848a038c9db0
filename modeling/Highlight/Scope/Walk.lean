import Highlight.Scope.Index
import Highlight.Tree.Cursor

/-!
# Building the scope index

One walk over the tree with a cursor enters every node in pre-order. It keeps the nodes above and the
scopes still open on two stacks, so it needs no recursion along the depth of the tree.

* `ScopeIndex.enter` is what one node adds to the index.
* `ScopeIndex.walk` is the walk with the cursor.
* `ScopeIndex.ofTree` is the index of a tree.
* `ScopeIndex.build` is what comes of building it: reading a declared name crashes if it ends behind the source.
-/

namespace Highlight

/-- A scope that is open during a walk, and the number of the node that opened it. -/
structure OpenScope where
  scope : Nat
  node : Nat
  deriving DecidableEq, Repr, Inhabited

namespace ScopeIndex

/-! ## One node -/

/-- The open scope that a rule binds its name in, of those open at an identifier below `parent`, the
innermost first. A rule that binds outside skips the scope that the parent itself opened, unless it is
the only one. -/
def bindingScope? (rule : DeclarationRule) (parent : Node) : List OpenScope → Option OpenScope
  | [] => none
  | top :: below =>
    if rule.bindsOutside && top.node == parent.index then some (below.head?.getD top)
    else some top

/-- The namespace in which an identifier below `parent` declares its name, and the rule for it. -/
def declaring? (g : Grammar) (parent node : Node) : Option (Namespace × DeclarationRule) := do
  let space ← g.classify node.kind (some parent.kind) node.field
  if space = .member || node.range.isEmpty then none
  else
    let rule ← g.declarationRule? parent.kind node.field
    return (space, rule)

/-- What an identifier below `parent` declares. Its name stands in the source, see `build`. -/
def declaration? (x : ScopeIndex) (g : Grammar) (source : Text) (opened : List OpenScope)
    (parent node : Node) : Option Declaration := do
  let (space, rule) ← declaring? g parent node
  let name ← Text.slice? source node.range
  let binding ← bindingScope? rule parent opened
  let visibleFrom := match rule.visibility with
    | .hoisted => ((x.scopes[binding.scope]?).map (·.range.start)).getD 0
    | .afterDeclaration => parent.range.stop
  return { space, name, range := node.range, scope := binding.scope, visibleFrom }

/-- The root and the nodes of scope kinds open a scope. -/
def opensScope (g : Grammar) (parent : Option Node) (node : Node) : Bool :=
  parent.isNone || g.isScope node.kind

/-- The index and the open scopes after the node has opened a scope, if it does. -/
def openScope (x : ScopeIndex) (g : Grammar) (opened : List OpenScope) (parent : Option Node)
    (node : Node) : ScopeIndex × List OpenScope :=
  if opensScope g parent node then
    (x.addScope ⟨node.range, opened.head?.map (·.scope), opened.length⟩,
      ⟨x.scopes.length, node.index⟩ :: opened)
  else (x, opened)

/-- The index and the open scopes after a node has been entered. -/
def enter (x : ScopeIndex) (g : Grammar) (source : Text) (opened : List OpenScope)
    (parent : Option Node) (node : Node) : ScopeIndex × List OpenScope :=
  let (x, opened) := x.openScope g opened parent node
  match parent.bind fun parent => x.declaration? g source opened parent node with
  | none => (x, opened)
  | some d => (x.addDeclaration d, opened)

/-- The open scopes after a node has been left. -/
def leave (node : Node) : List OpenScope → List OpenScope
  | [] => []
  | top :: below => if top.node == node.index then below else top :: below

/-! ## The walk -/

/-- The stacks of a walk: the nodes above the cursor and the open scopes, the nearest first. -/
structure Trail where
  above : List Node
  opened : List OpenScope
  deriving DecidableEq, Repr, Inhabited

/-- The trail one level up: the node right above has been left. -/
def Trail.up (trail : Trail) : Trail :=
  match trail.above with
  | [] => trail
  | node :: above => ⟨above, leave node trail.opened⟩

/-- Go to the next node to the right, leaving nodes upward as far as it takes; without a cursor the tree
has been walked. -/
def climb : Frame → List Frame → Trail → Option Cursor × Trail
  | here, [], trail => (Cursor.nextSibling? ⟨here, []⟩, trail)
  | here, up :: above, trail =>
    match Cursor.nextSibling? ⟨here, up :: above⟩ with
    | some c => (some c, trail)
    | none => climb up above trail.up

theorem remaining_climb (here : Frame) (above : List Frame) (trail : Trail) {c : Cursor}
    (h : (climb here above trail).1 = some c) :
    c.remaining + 1 = Cursor.right ⟨here, above⟩ := by
  induction above generalizing here trail with
  | nil => exact Cursor.remaining_nextSibling? h
  | cons up above ih =>
    unfold climb at h
    split at h
    · rename_i e
      cases h
      exact Cursor.remaining_nextSibling? e
    · rename_i e
      rw [ih up trail.up h]
      exact Cursor.right_parent? (c := ⟨here, up :: above⟩) rfl e

/-- Enter the cursor's node, with `n` nodes entered before it, and then all nodes behind it. The result
has the scopes left open, of which none is left in the end. -/
def walk (g : Grammar) (source : Text) (x : ScopeIndex) (n : Nat) (trail : Trail) (c : Cursor) :
    ScopeIndex × List OpenScope :=
  let node : Node := ⟨c.label, n⟩
  let (x, opened) := x.enter g source trail.opened trail.above.head? node
  match _h : c.firstChild? with
  | some child => walk g source x (n + 1) ⟨node :: trail.above, opened⟩ child
  | none =>
    match _h : climb c.here c.above ⟨trail.above, leave node opened⟩ with
    | (some next, trail) => walk g source x (n + 1) trail next
    | (none, trail) => (x, trail.opened)
termination_by c.remaining
decreasing_by
  · have := Cursor.remaining_firstChild? _h
    omega
  · rename_i next _
    have : next.remaining + 1 = c.right := remaining_climb c.here c.above _ (congrArg Prod.fst _h)
    have : c.right ≤ c.remaining := Nat.le_add_left ..
    omega

/-- The scopes and declarations of a tree over its text. -/
def ofTree (g : Grammar) (source : Text) (t : Tree) : ScopeIndex :=
  (walk g source { rebinding := some g.rebinding } 0 ⟨[], []⟩ (Cursor.ofTree t)).1

/-! ## Reading the names -/

/-- A node crashes a walk that enters it, over a source of `size` bytes: it declares a name, which is read, and
ends behind the source. -/
def crashesAt (g : Grammar) (size : Nat) (parent : Option Node) (node : Node) : Bool :=
  decide (size < node.range.stop) && (parent.bind (declaring? g · node)).isSome

/-- A walk over the places crashes. -/
def crashes (g : Grammar) (source : Text) (places : List Place) : Bool :=
  let size := Text.byteLength source
  places.any fun p => crashesAt g size p.parent? p.node

/-- Build the index of a tree. -/
def build (g : Grammar) (source : Text) (t : Tree) : Except Crash ScopeIndex :=
  if crashes g source t.places then .error .crash else .ok (ofTree g source t)

end ScopeIndex

end Highlight
