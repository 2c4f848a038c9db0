import Highlight.Proofs.ScopeTables

/-!
# The rounds of the walk

Each round of the walk enters one node, and between two rounds the walk is at a `Station`. The rounds of a
walk are finitely many (`Rounds.exists`), and along them the two stacks stay in step with the cursor
(`Station.InStep`): the nodes above and the open scopes are those of the place at the cursor, and the
places still ahead are the rest of the tree in pre-order.

The main statement is `walk_is_recursion`.
-/

namespace Highlight

/-! ## Scopes on a path -/

namespace Grammar

variable {g : Grammar} {t : Tree}

/-- A scope around a node is opened before it. -/
theorem index_lt_of_mem_scopesOn {node a : Node} {above : List Node} (hp : ⟨node, above⟩ ∈ t.places)
    (ha : a ∈ g.scopesOn above) : a.index < node.index := by
  cases above with
  | nil => cases ha
  | cons b above =>
    obtain ⟨hb, below⟩ := Tree.parent_place hp
    obtain ⟨-, -, -, le⟩ := place_of_mem_scopesOn hb ha
    exact Nat.lt_of_le_of_lt le below

/-- A rule that binds outside takes the nearest scope but for the one that the node right above opens,
which it takes only where there is no other; any other rule takes the nearest. -/
theorem scopeOf?_eq_skip {p : Place} {parent : Node} (hp : p ∈ t.places) (above : p.parent? = some parent)
    (rule : DeclarationRule) : g.scopeOf? rule p =
      if rule.bindsOutside then
        ((g.scopesOn p.path).filter (· ≠ parent)).head?.or (g.scopesOn p.path).head?
      else (g.scopesOn p.path).head? := by
  unfold scopeOf?
  rw [above]
  cases scopes : g.scopesOn p.path with
  | nil => cases rule.bindsOutside <;> rfl
  | cons nearest around =>
    cases rule.bindsOutside with
    | false => rfl
    | true =>
      by_cases direct : parent = nearest
      · subst direct
        obtain ⟨outer, place, -, rest, -⟩ := place_of_scopesOn hp
          (show g.scopesOn (p.node :: p.above) = [] ++ parent :: around from scopes)
        have others : around.filter (· ≠ parent) = around := by
          refine List.filter_eq_self.2 fun a ha => decide_eq_true ?_
          rintro rfl
          rw [← rest] at ha
          exact Nat.lt_irrefl _ (index_lt_of_mem_scopesOn place ha)
        rw [List.filter_cons_of_neg (by simp), others]
        cases around <;> simp
      · rw [List.filter_cons_of_pos (by simpa using Ne.symm direct)]
        simp [direct]

end Grammar

namespace ScopeIndex

variable {g : Grammar} {source : Text} {t : Tree}

/-- Leaving a node closes the scope that it opened and no other. -/
theorem leave_openedOn {node : Node} {above : List Node} (hp : ⟨node, above⟩ ∈ t.places) :
    leave node (openedOn g t (node :: above)) = openedOn g t above := by
  rw [openedOn, openedOn, Grammar.scopesOn_cons]
  split
  · simp [leave]
  · cases scopes : g.scopesOn above with
    | nil => rfl
    | cons a further =>
      have around : a ∈ g.scopesOn above := by rw [scopes]; exact List.mem_cons_self ..
      have earlier : a.index < node.index := Grammar.index_lt_of_mem_scopesOn hp around
      simp [leave, Nat.ne_of_lt earlier]

/-! ## Stations -/

/-- Where a walk is when it is about to enter a node: the index so far, how many nodes have been entered,
the two stacks, and the cursor. -/
structure Station where
  index : ScopeIndex
  entered : Nat
  trail : Trail
  cursor : Cursor

namespace Station

/-- Where the walk over a tree begins. -/
def start (g : Grammar) (t : Tree) : Station :=
  ⟨{ rebinding := some g.rebinding }, 0, ⟨[], []⟩, Cursor.ofTree t⟩

/-- The node at the cursor. -/
def node (s : Station) : Node := ⟨s.cursor.label, s.entered⟩

/-- The node at the cursor with the nodes that the walk takes to be above it. -/
def place (s : Station) : Place := ⟨s.node, s.trail.above⟩

/-- The index and the open scopes after the node at the cursor has been entered. -/
def enter (g : Grammar) (source : Text) (s : Station) : ScopeIndex × List OpenScope :=
  s.index.enter g source s.trail.opened s.place.parent? s.node

/-- One round of the walk: enter the node, and go on to its first child or else to the next node to the
right, or end with the index and the scopes left open. -/
def round (g : Grammar) (source : Text) (s : Station) : Station ⊕ (ScopeIndex × List OpenScope) :=
  let (x, opened) := s.enter g source
  match s.cursor.firstChild? with
  | some child => .inl ⟨x, s.entered + 1, ⟨s.node :: s.trail.above, opened⟩, child⟩
  | none =>
    match climb s.cursor.here s.cursor.above ⟨s.trail.above, leave s.node opened⟩ with
    | (some next, trail) => .inl ⟨x, s.entered + 1, trail, next⟩
    | (none, trail) => .inr (x, trail.opened)

end Station

/-- The stations that a walk passes from one station on, and how it ends. -/
inductive Rounds (g : Grammar) (source : Text) :
    Station → List Station → ScopeIndex × List OpenScope → Prop
  | last {s : Station} {result : ScopeIndex × List OpenScope} (round : s.round g source = .inr result) :
    Rounds g source s [s] result
  | next {s s' : Station} {behind : List Station} {result : ScopeIndex × List OpenScope}
    (round : s.round g source = .inl s') (rest : Rounds g source s' behind result) :
    Rounds g source s (s :: behind) result

/-- A walk ends after finitely many rounds with the result of `walk`. -/
theorem Rounds.exists (g : Grammar) (source : Text) (x : ScopeIndex) (n : Nat) (trail : Trail) (c : Cursor) :
    ∃ stations, Rounds g source ⟨x, n, trail, c⟩ stations (walk g source x n trail c) := by
  fun_induction walk g source x n trail c with
  | case1 x n trail c node x' opened entered child first ih =>
    obtain ⟨behind, rest⟩ := ih
    refine ⟨_, .next ?_ rest⟩
    have here : Station.enter g source ⟨x, n, trail, c⟩ = (x', opened) := entered
    simp only [Station.round, here, first]
    rfl
  | case2 x n trail c node x' opened entered leaf next trail' climbed ih =>
    obtain ⟨behind, rest⟩ := ih
    refine ⟨_, .next ?_ rest⟩
    have here : Station.enter g source ⟨x, n, trail, c⟩ = (x', opened) := entered
    have climbed : climb c.here c.above ⟨trail.above, leave (Station.node ⟨x, n, trail, c⟩) opened⟩ =
      (some next, trail') := climbed
    simp only [Station.round, here, leaf, climbed]
  | case3 x n trail c node x' opened entered leaf trail' climbed =>
    refine ⟨_, .last ?_⟩
    have here : Station.enter g source ⟨x, n, trail, c⟩ = (x', opened) := entered
    have climbed : climb c.here c.above ⟨trail.above, leave (Station.node ⟨x, n, trail, c⟩) opened⟩ =
      (none, trail') := climbed
    simp only [Station.round, here, leaf, climbed]

/-! ## Places ahead -/

/-- The places of the trees `right` of a cursor, numbered from `n`, and then of those to the right of the
nodes above. -/
def placesBehind (above : List Node) (n : Nat) (right : List Tree) : List Frame → List Place
  | [] => Tree.placesFromAll above n right
  | f :: fs => Tree.placesFromAll above n right ++
      placesBehind above.tail (n + Tree.sizeAll right) f.right fs

theorem placesBehind_cons (above : List Node) (n : Nat) (t : Tree) (right : List Tree)
    (frames : List Frame) : placesBehind above n (t :: right) frames =
      t.placesFrom above n ++ placesBehind above (n + t.size) right frames := by
  cases frames with
  | nil => rfl
  | cons f fs => simp only [placesBehind, Tree.placesFromAll, Tree.sizeAll, Nat.add_assoc, List.append_assoc]

/-- The places from a cursor on, below the nodes `above` and numbered from `n`. -/
def placesAhead (above : List Node) (n : Nat) (c : Cursor) : List Place :=
  c.here.tree.placesFrom above n ++ placesBehind above (n + c.here.tree.size) c.here.right c.above

/-- First comes the place at the cursor, then those below it, then those to the right. -/
theorem placesAhead_eq (above : List Node) (n : Nat) (c : Cursor) :
    placesAhead above n c = ⟨⟨c.label, n⟩, above⟩ ::
      (Tree.placesFromAll (⟨c.label, n⟩ :: above) (n + 1) c.here.tree.children ++
        placesBehind above (n + c.here.tree.size) c.here.right c.above) := by
  obtain ⟨⟨⟨l, ts⟩, right⟩, frames⟩ := c
  simp only [placesAhead, Tree.placesFrom, Tree.children, List.cons_append]
  rfl

/-- What lies below a node and to the right of it lies ahead of its first child. -/
theorem placesAhead_firstChild {c child : Cursor} (first : c.firstChild? = some child) (node : Node)
    (above : List Node) (n : Nat) : placesAhead (node :: above) (n + 1) child =
      Tree.placesFromAll (node :: above) (n + 1) c.here.tree.children ++
        placesBehind above (n + c.here.tree.size) c.here.right c.above := by
  obtain ⟨t, others, children, rfl⟩ := Cursor.firstChild?_eq_some first
  have size : n + 1 + t.size + Tree.sizeAll others = n + c.here.tree.size := by
    rw [Tree.size_eq c.here.tree, children, Tree.sizeAll]
    omega
  rw [placesAhead, placesBehind, children, Tree.placesFromAll, List.append_assoc, size, List.tail_cons]

/-- The stacks of a trail belong together: the nodes above are a path of the tree, and the open scopes are
those that its nodes open. -/
structure Trail.OnPath (g : Grammar) (t : Tree) (trail : Trail) : Prop where
  path : ∀ node above, trail.above = node :: above → ⟨node, above⟩ ∈ t.places
  opened : trail.opened = openedOn g t trail.above

theorem Trail.above_up (trail : Trail) : trail.up.above = trail.above.tail := by
  obtain ⟨above, opened⟩ := trail
  cases above <;> rfl

theorem Trail.OnPath.up {trail : Trail} (h : trail.OnPath g t) : trail.up.OnPath g t := by
  obtain ⟨above, opened⟩ := trail
  cases above with
  | nil => exact h
  | cons node above =>
    have here : ⟨node, above⟩ ∈ t.places := h.path node above rfl
    have scopes : opened = openedOn g t (node :: above) := h.opened
    refine ⟨?_, ?_⟩
    · rintro node' above' rfl
      exact (Tree.parent_place here).1
    · change leave node opened = openedOn g t above
      rw [scopes, leave_openedOn here]

/-- Climbing keeps the stacks together, and what lies behind begins where it ends. -/
theorem climb_inStep (n : Nat) (here : Frame) (frames : List Frame) {trail : Trail}
    (h : trail.OnPath g t) :
    match climb here frames trail with
    | (some c, trail') => trail'.OnPath g t ∧
        placesBehind trail.above n here.right frames = placesAhead trail'.above n c
    | (none, _) => placesBehind trail.above n here.right frames = [] := by
  induction frames generalizing here trail with
  | nil =>
    unfold climb Cursor.nextSibling?
    cases here.right with
    | nil => rfl
    | cons t ts => exact ⟨h, placesBehind_cons _ _ _ _ []⟩
  | cons f frames ih =>
    unfold climb Cursor.nextSibling?
    cases here.right with
    | nil =>
      have further := ih f h.up
      rw [Trail.above_up] at further
      exact further
    | cons t ts => exact ⟨h, placesBehind_cons _ _ _ _ (f :: frames)⟩

/-! ## Steps and runs -/

/-- What holds at every station of the walk over a tree. -/
structure Station.InStep (g : Grammar) (source : Text) (t : Tree) (s : Station) : Prop where
  built : Built g source t s.entered s.index
  trail : s.trail.OnPath g t
  ahead : placesAhead s.trail.above s.entered s.cursor = t.places.drop s.entered

namespace Station

variable {s s' : Station} {result : ScopeIndex × List OpenScope}

theorem inStep_start (g : Grammar) (source : Text) (t : Tree) : (start g t).InStep g source t where
  built := ⟨rfl, rfl, rfl, faithful_empty _⟩
  trail := ⟨nofun, rfl⟩
  ahead := List.append_nil _

namespace InStep

variable (h : s.InStep g source t)

include h

theorem mem_places : s.place ∈ t.places := by
  have here := h.ahead
  rw [placesAhead_eq] at here
  apply List.mem_of_mem_drop
  rw [← here]
  exact List.mem_cons_self ..

/-- The scopes open at the cursor are those that the nodes above it open. -/
theorem opened : s.trail.opened = openedOn g t s.place.above := h.trail.opened

/-- Entering the node at the cursor opens its own scope, if it has one. -/
theorem enter_opened : (s.enter g source).2 = openedOn g t s.place.path := by
  rw [enter, h.opened]
  exact congrArg Prod.snd (h.built.enter_eq (p := s.place) h.mem_places)

theorem built_enter : Built g source t (s.entered + 1) (s.enter g source).1 := by
  rw [enter, h.opened]
  exact h.built.enter (p := s.place) h.mem_places

/-- Behind the place at the cursor come those below it and those to the right. -/
theorem drop_succ : t.places.drop (s.entered + 1) =
    Tree.placesFromAll (s.node :: s.trail.above) (s.entered + 1) s.cursor.here.tree.children ++
      placesBehind s.trail.above (s.entered + s.cursor.here.tree.size) s.cursor.here.right
        s.cursor.above := by
  rw [← List.tail_drop, ← h.ahead, placesAhead_eq, List.tail_cons]
  rfl

/-- The stacks in the node at the cursor. -/
theorem onPath_below : Trail.OnPath g t ⟨s.node :: s.trail.above, (s.enter g source).2⟩ where
  path := by
    rintro node above same
    cases same
    exact h.mem_places
  opened := h.enter_opened

theorem climb_leaf (leaf : s.cursor.firstChild? = none) :
    match climb s.cursor.here s.cursor.above ⟨s.trail.above, leave s.node (s.enter g source).2⟩ with
    | (some c, trail) => trail.OnPath g t ∧
        t.places.drop (s.entered + 1) = placesAhead trail.above (s.entered + 1) c
    | (none, _) => t.places.drop (s.entered + 1) = [] := by
  have children := Cursor.firstChild?_eq_none leaf
  have left : Trail.OnPath g t ⟨s.trail.above, leave s.node (s.enter g source).2⟩ := h.onPath_below.up
  have behind := climb_inStep (s.entered + 1) s.cursor.here s.cursor.above left
  rw [h.drop_succ, Tree.size_eq, children]
  simpa only [Tree.placesFromAll, Tree.sizeAll, List.nil_append, Nat.zero_add] using behind

/-- A round that goes on stays in step. -/
theorem next (round : s.round g source = .inl s') :
    s'.InStep g source t ∧ s'.entered = s.entered + 1 := by
  unfold Station.round at round
  dsimp only at round
  split at round
  · rename_i child first
    cases round
    refine ⟨⟨h.built_enter, h.onPath_below, ?_⟩, rfl⟩
    rw [h.drop_succ]
    exact placesAhead_firstChild first s.node s.trail.above s.entered
  · rename_i leaf
    have behind := h.climb_leaf leaf
    split at round
    · rename_i c trail climbed
      rw [climbed] at behind
      cases round
      exact ⟨⟨h.built_enter, behind.1, behind.2.symm⟩, rfl⟩
    · cases round

/-- The last round enters the last node. -/
theorem last (round : s.round g source = .inr result) : t.places.drop (s.entered + 1) = [] := by
  unfold Station.round at round
  dsimp only at round
  split at round
  · cases round
  · rename_i leaf
    have behind := h.climb_leaf leaf
    split at round
    · cases round
    · rename_i trail climbed
      rw [climbed] at behind
      exact behind

theorem drop_eq : t.places.drop s.entered = s.place :: t.places.drop (s.entered + 1) := by
  rw [← h.ahead, placesAhead_eq, h.drop_succ]
  rfl

end InStep

end Station

/-- All stations are in step, and their places are what was ahead. -/
theorem Rounds.inStep {s : Station} {stations : List Station} {result : ScopeIndex × List OpenScope}
    (rounds : Rounds g source s stations result) (h : s.InStep g source t) :
    (∀ s' ∈ stations, s'.InStep g source t) ∧
      stations.map Station.place = t.places.drop s.entered := by
  induction rounds with
  | last round =>
    rw [h.drop_eq, h.last round]
    exact ⟨by simpa using h, rfl⟩
  | next round rest ih =>
    obtain ⟨h', entered⟩ := h.next round
    obtain ⟨all, places⟩ := ih h'
    rw [h.drop_eq, List.map_cons, places, entered]
    exact ⟨List.forall_mem_cons.2 ⟨h, all⟩, rfl⟩

/-- The walk with a cursor and two stacks is the recursion over the tree. It ends, enters every node once in
pre-order with its own nodes above it, has open at each entry the scopes that those open, the nearest on top,
and leaves none open. It gives the index of the recursion that hands the enclosing scopes down the tree: the
scopes of the nodes that open one and the bindings of the tree, where a rule that binds outside skips the
scope of the node right above unless there is no other. The walk crashes exactly if it enters an identifier that
declares a name and ends behind the source. -/
theorem walk_is_recursion (g : Grammar) (source : Text) (t : Tree) :
    (∃ stations,
      Rounds g source (Station.start g t) stations (ofTreeNested g source t, []) ∧
      stations.map Station.place = t.places ∧
      stations.map Station.entered = List.range t.size ∧
      (∀ s ∈ stations,
        s.trail.opened = openedOn g t s.place.above ∧
        (s.enter g source).2 = openedOn g t s.place.path) ∧
      ((∃ s ∈ stations, DeclaresOutside g source s.place) ∧ build g source t = .error .crash ∨
        (∀ s ∈ stations, ¬ DeclaresOutside g source s.place) ∧
          build g source t = .ok (ofTreeNested g source t))) ∧
    walk g source { rebinding := some g.rebinding } 0 ⟨[], []⟩ (Cursor.ofTree t) =
      (ofTreeNested g source t, []) ∧
    ofTree g source t = ofTreeNested g source t ∧
    (ofTreeNested g source t).scopes = (t.places.filter (·.opens g)).map (scopeAt g t) ∧
    (ofTreeNested g source t).declarations = (Binding.all g source t).map (declarationOf g t) ∧
    ∀ p ∈ t.places, ∀ parent, p.parent? = some parent → ∀ rule : DeclarationRule,
      bindingScope? rule parent (openedOn g t p.path) =
        (g.scopeOf? rule p).map (fun a => ⟨scopeNumber g t a.index, a.index⟩) ∧
      g.scopeOf? rule p =
        if rule.bindsOutside then
          ((g.scopesOn p.path).filter (· ≠ parent)).head?.or (g.scopesOn p.path).head?
        else (g.scopesOn p.path).head? := by
  refine ⟨?_, walk_ofTree _ t, ofTree_eq_nested t, ?_, ?_, ?_⟩
  · obtain ⟨stations, rounds⟩ := Rounds.exists g source { rebinding := some g.rebinding } 0 ⟨[], []⟩
      (Cursor.ofTree t)
    obtain ⟨inStep, places⟩ := rounds.inStep (Station.inStep_start g source t)
    have places : stations.map Station.place = t.places := places
    have entered : stations.map Station.entered = (stations.map Station.place).map (·.node.index) := by
      rw [List.map_map]
      rfl
    rw [walk_ofTree] at rounds
    refine ⟨stations, rounds, places, ?_,
      fun s hs => ⟨(inStep s hs).opened, (inStep s hs).enter_opened⟩, ?_⟩
    · rw [entered, places, Tree.index_places]
    · rcases build_cases g source t with ⟨⟨p, hp, outside⟩, crash⟩ | ⟨all, done⟩
      · rw [← places] at hp
        obtain ⟨s, hs, rfl⟩ := List.mem_map.1 hp
        exact .inl ⟨⟨s, hs, outside⟩, crash⟩
      · rw [← places, List.forall_mem_map] at all
        rw [ofTree_eq_nested] at done
        exact .inr ⟨all, done⟩
  · rw [← ofTree_eq_nested, scopes_ofTree]
  · rw [← ofTree_eq_nested, declarations_ofTree]
  · intro p hp parent above rule
    exact ⟨bindingScope?_eq rule hp above, Grammar.scopeOf?_eq_skip hp above rule⟩

end ScopeIndex

end Highlight
