import Highlight.Scope.Nested

/-!
# The walk and the recursion

The walk with a cursor and the recursion over the tree build the same index, and the walk closes every
scope that it opens (`ScopeIndex.ofTree_eq_nested`). What is still to do at a cursor is the rest of the
recursion: the trees to the right of the cursor and of every node above it (`ScopeIndex.resume`).
-/

namespace Highlight

/-! ## Cursors -/

namespace Cursor

variable {c d : Cursor}

theorem firstChild?_eq_some (h : c.firstChild? = some d) :
    ∃ t ts, c.here.tree.children = t :: ts ∧ d = ⟨⟨t, ts⟩, c.here :: c.above⟩ := by
  unfold firstChild? at h
  split at h
  · cases h
  · rename_i t ts children
    exact ⟨t, ts, children, (Option.some.inj h).symm⟩

theorem firstChild?_eq_none (h : c.firstChild? = none) : c.here.tree.children = [] := by
  unfold firstChild? at h
  split at h
  · assumption
  · cases h

end Cursor

namespace ScopeIndex

variable {g : Grammar} {source : Text}

/-! ## One node -/

/-- The scopes open in a node are those open around it, and its own if it opens one. -/
theorem enter_opened (g : Grammar) (source : Text) (x : ScopeIndex) (opened : List OpenScope)
    (parent : Option Node) (node : Node) :
    (x.enter g source opened parent node).2 =
      if opensScope g parent node then ⟨x.scopes.length, node.index⟩ :: opened else opened := by
  have keeps : (x.enter g source opened parent node).2 = (x.openScope g opened parent node).2 := by
    unfold enter
    dsimp only
    split <;> rfl
  rw [keeps, openScope]
  split <;> rfl

section Entered

variable {x x' : ScopeIndex} {opened opened' : List OpenScope} {parent : Option Node} {node : Node}

/-- Leaving a node undoes what entering it did to the open scopes. -/
theorem leave_of_enter (entered : x.enter g source opened parent node = (x', opened'))
    (older : ∀ o ∈ opened, o.node < node.index) : leave node opened' = opened := by
  have inner := enter_opened g source x opened parent node
  rw [entered] at inner
  subst inner
  split
  · rw [leave, if_pos (by rw [beq_self_eq_true])]
  · cases opened with
    | nil => rfl
    | cons top below =>
      have : top.node ≠ node.index := Nat.ne_of_lt (older top (List.mem_cons_self ..))
      rw [leave, if_neg (by rw [beq_iff_eq]; exact this)]

theorem older_of_enter (entered : x.enter g source opened parent node = (x', opened'))
    (older : ∀ o ∈ opened, o.node < node.index) : ∀ o ∈ opened', o.node < node.index + 1 := by
  intro o ho
  have inner := enter_opened g source x opened parent node
  rw [entered] at inner
  rw [show opened' = _ from inner] at ho
  split at ho
  · rcases List.mem_cons.1 ho with rfl | ho
    · exact Nat.lt_succ_self _
    · exact Nat.lt_succ_of_lt (older o ho)
  · exact Nat.lt_succ_of_lt (older o ho)

theorem nested_of_enter {t : Tree} {n : Nat}
    (entered : x.enter g source opened parent ⟨t.label, n⟩ = (x', opened')) :
    nested g source opened parent x n t =
      nestedAll g source opened' (some ⟨t.label, n⟩) x' (n + 1) t.children := by
  obtain ⟨l, ts⟩ := t
  change (x.enter g source opened parent ⟨l, n⟩) = _ at entered
  simp only [nested, entered, Tree.label, Tree.children]

end Entered

/-! ## What is left to do -/

/-- Go on with the trees `right` of a cursor below the nodes of a trail, with `n` nodes entered, and then
with what is to the right of the nodes above. -/
def resume (g : Grammar) (source : Text) (x : ScopeIndex) (n : Nat) (right : List Tree) :
    List Frame → Trail → ScopeIndex × List OpenScope
  | [], trail => (nestedAll g source trail.opened trail.above.head? x n right, trail.opened)
  | f :: fs, trail =>
    resume g source (nestedAll g source trail.opened trail.above.head? x n right)
      (n + Tree.sizeAll right) f.right fs trail.up

theorem resume_cons (x : ScopeIndex) (n : Nat) (t : Tree) (right : List Tree) (frames : List Frame)
    (trail : Trail) :
    resume g source x n (t :: right) frames trail =
      resume g source (nested g source trail.opened trail.above.head? x n t) (n + t.size) right
        frames trail := by
  cases frames with
  | nil => rfl
  | cons f fs => simp only [resume, nestedAll, Tree.sizeAll, Nat.add_assoc]

theorem mem_leave {node : Node} {opened : List OpenScope} {o : OpenScope}
    (h : o ∈ leave node opened) : o ∈ opened := by
  unfold leave at h
  split at h
  · exact h
  · split at h
    · exact List.mem_cons_of_mem _ h
    · exact h

theorem mem_up {trail : Trail} {o : OpenScope} (h : o ∈ trail.up.opened) : o ∈ trail.opened := by
  unfold Trail.up at h
  split at h
  · exact h
  · exact mem_leave h

/-- Climbing opens no scope. -/
theorem mem_climb {here : Frame} {above : List Frame} {trail : Trail} {o : OpenScope}
    (h : o ∈ (climb here above trail).2.opened) : o ∈ trail.opened := by
  induction above generalizing here trail with
  | nil => exact h
  | cons up above ih =>
    unfold climb at h
    split at h
    · exact h
    · exact mem_up (ih h)

/-- Climbing to the next tree leaves the same to do, and where there is none nothing was left. -/
theorem resume_climb (g : Grammar) (source : Text) (x : ScopeIndex) (n : Nat) (here : Frame)
    (above : List Frame) (trail : Trail) :
    resume g source x n here.right above trail =
      match climb here above trail with
      | (some c, trail) =>
        resume g source (nested g source trail.opened trail.above.head? x n c.here.tree)
          (n + c.here.tree.size) c.here.right c.above trail
      | (none, trail) => (x, trail.opened) := by
  induction above generalizing here trail with
  | nil =>
    unfold climb Cursor.nextSibling?
    cases hr : here.right with
    | nil => rfl
    | cons t ts => exact resume_cons x n t ts [] trail
  | cons up above ih =>
    unfold climb Cursor.nextSibling?
    cases hr : here.right with
    | nil => exact ih up trail.up
    | cons t ts => exact resume_cons x n t ts (up :: above) trail

/-! ## The walk -/

/-- A walk enters the tree at its cursor as the recursion does, and then what is left to do. -/
theorem walk_eq (x : ScopeIndex) (n : Nat) (trail : Trail) (c : Cursor)
    (older : ∀ o ∈ trail.opened, o.node < n) :
    walk g source x n trail c =
      resume g source (nested g source trail.opened trail.above.head? x n c.here.tree)
        (n + c.here.tree.size) c.here.right c.above trail := by
  fun_induction walk g source x n trail c with
  | case1 x n trail c node x' opened entered child first ih =>
    have left := leave_of_enter entered older
    obtain ⟨t, ts, children, rfl⟩ := Cursor.firstChild?_eq_some first
    rw [ih (older_of_enter entered older), nested_of_enter entered, Tree.size_eq c.here.tree, children]
    simp only [resume, nestedAll, Tree.sizeAll, Trail.up, left]
    congr 1
    omega
  | case2 x n trail c node x' opened entered leaf next trail' climbed ih =>
    have left := leave_of_enter entered older
    have children := Cursor.firstChild?_eq_none leaf
    rw [left] at climbed
    have still : ∀ o ∈ trail'.opened, o.node < n + 1 := by
      intro o ho
      have ho : o ∈ (climb c.here c.above trail).2.opened := by rw [climbed]; exact ho
      exact Nat.lt_succ_of_lt (older o (mem_climb ho))
    have rest := resume_climb g source x' (n + 1) c.here c.above trail
    rw [climbed] at rest
    rw [ih still, nested_of_enter entered, Tree.size_eq c.here.tree, children, nestedAll, Tree.sizeAll,
      Nat.zero_add, rest]
  | case3 x n trail c node x' opened entered leaf trail' climbed =>
    have left := leave_of_enter entered older
    have children := Cursor.firstChild?_eq_none leaf
    rw [left] at climbed
    rw [nested_of_enter entered, children, nestedAll, resume_climb, climbed]

/-- The walk over a tree builds the same index as the recursion, and no scope is left open. -/
theorem walk_ofTree (x : ScopeIndex) (t : Tree) :
    walk g source x 0 ⟨[], []⟩ (Cursor.ofTree t) = (nested g source [] none x 0 t, []) :=
  walk_eq x 0 ⟨[], []⟩ (Cursor.ofTree t) nofun

theorem ofTree_eq_nested (t : Tree) : ofTree g source t = ofTreeNested g source t := by
  rw [ofTree, walk_ofTree, ofTreeNested]

end ScopeIndex

end Highlight
