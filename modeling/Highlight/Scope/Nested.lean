import Highlight.Scope.Walk

/-!
# The scope index by recursion

The same index read off the tree directly: every tree is entered with the scopes around it, and its
neighbours are entered with the same scopes again, so no scope has to be closed.
-/

namespace Highlight.ScopeIndex

mutual

/-- The index after a tree below `parent`, inside the open scopes, with its nodes numbered from `n`. -/
def nested (g : Grammar) (source : Text) (opened : List OpenScope) (parent : Option Node)
    (x : ScopeIndex) (n : Nat) : Tree → ScopeIndex
  | .node l ts =>
    let (x, opened) := x.enter g source opened parent ⟨l, n⟩
    nestedAll g source opened (some ⟨l, n⟩) x (n + 1) ts

/-- The index after neighbouring trees below `parent`. -/
def nestedAll (g : Grammar) (source : Text) (opened : List OpenScope) (parent : Option Node)
    (x : ScopeIndex) (n : Nat) : List Tree → ScopeIndex
  | [] => x
  | t :: ts =>
    nestedAll g source opened parent (nested g source opened parent x n t) (n + t.size) ts

end

/-- The scopes and declarations of a tree, by recursion. -/
def ofTreeNested (g : Grammar) (source : Text) (t : Tree) : ScopeIndex :=
  nested g source [] none { rebinding := some g.rebinding } 0 t

end Highlight.ScopeIndex
