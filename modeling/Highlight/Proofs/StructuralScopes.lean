import Highlight.Proofs.TreeGeometry
import Highlight.Symbol

/-!
# Scopes as nodes of the tree

The scoping rules read off the tree itself, without numbers of scopes and without byte offsets of them. A
scope is the node that opens it, the scopes around a place are nodes of the path from it to the root, and
every place makes at most one binding. `Symbol.structural` is what an identifier means by these rules:

1. an identifier that makes a binding means that binding, or the first one of its name in the same scope
   where a name may be rebound;
2. any other one means, in the nearest scope that has one, the last binding visible at its start, or the
   first binding at all where a name may be rebound;
3. or else the first binding in the nearest scope that has any;
4. or else nothing that is declared.
-/

namespace Highlight

/-! ## Paths -/

/-- The nodes from a place to the root. -/
def Place.path (p : Place) : List Node := p.node :: p.above

/-- The nodes of a path to the root that open a scope; the root itself always does. -/
def Grammar.scopesOn (g : Grammar) : List Node → List Node
  | [] => []
  | node :: above =>
    if above.isEmpty || g.isScope node.kind then node :: g.scopesOn above else g.scopesOn above

/-- The node whose scope a rule binds the name of a place in: the nearest one, or the next one outward
where that is the node right above and the rule binds outside of it. -/
def Grammar.scopeOf? (g : Grammar) (rule : DeclarationRule) (p : Place) : Option Node :=
  match g.scopesOn p.path with
  | [] => none
  | nearest :: around =>
    if rule.bindsOutside && decide (p.parent? = some nearest) then some (around.head?.getD nearest)
    else some nearest

/-! ## Bindings -/

/-- How an identifier of a tree binds its name, whatever the name is. -/
structure BindingSite where
  space : Namespace
  /-- The node in whose scope the name is bound. -/
  scope : Node
  /-- The first byte at which references see the binding. -/
  visibleFrom : Nat
  deriving DecidableEq, Repr

/-- How a place binds its name, if it does. -/
def BindingSite.of? (g : Grammar) (p : Place) : Option BindingSite := do
  let parent ← p.parent?
  let space ← g.classify p.node.kind (some parent.kind) p.node.field
  if space = .member || p.node.range.isEmpty then none
  else
    let rule ← g.declarationRule? parent.kind p.node.field
    let scope ← g.scopeOf? rule p
    let visibleFrom := match rule.visibility with
      | .hoisted => scope.range.start
      | .afterDeclaration => parent.range.stop
    return { space, scope, visibleFrom }

/-- A name bound by an identifier of a tree. -/
structure Binding extends BindingSite where
  name : Text
  /-- The identifier. -/
  node : Node
  deriving DecidableEq, Repr

namespace Binding

/-- The binding that a place makes. -/
def of? (g : Grammar) (source : Text) (p : Place) : Option Binding := do
  let site ← BindingSite.of? g p
  let name ← Text.slice? source p.node.range
  return { site with name, node := p.node }

/-- The bindings of a tree in pre-order. -/
def all (g : Grammar) (source : Text) (t : Tree) : List Binding := t.places.filterMap (of? g source)

/-- The bindings of a name in one scope. -/
def within (bs : List Binding) (space : Namespace) (name : Text) (scope : Node) : List Binding :=
  bs.filter fun b => b.space = space ∧ b.name = name ∧ b.scope = scope

/-- The binding that stands for the symbol which `b` binds. -/
def canonical (r : Rebinding) (bs : List Binding) (b : Binding) : Binding :=
  match r with
  | .shadow => b
  | .reassign => (within bs b.space b.name b.scope).head?.getD b

/-- Of the bindings of one name in one scope, the one that is in force at a byte. -/
def inForce? (r : Rebinding) (bs : List Binding) (byte : Nat) : Option Binding :=
  match r with
  | .shadow => (bs.filter (·.visibleFrom ≤ byte)).getLast?
  | .reassign => bs.head?

/-- The binding that a reference to a name means at a byte inside the given scopes. -/
def referredTo? (r : Rebinding) (bs : List Binding) (scopes : List Node) (space : Namespace)
    (name : Text) (byte : Nat) : Option Binding :=
  (scopes.findSome? fun scope => inForce? r (within bs space name scope) byte).or
    (scopes.findSome? fun scope => (within bs space name scope).head?)

/-- The binding that a place of some name means: the one it makes or the one it refers to. -/
def meantBy? (g : Grammar) (source : Text) (t : Tree) (p : Place) (space : Namespace) (name : Text) :
    Option Binding :=
  match of? g source p with
  | some b => some (canonical g.rebinding (all g source t) b)
  | none =>
    referredTo? g.rebinding (all g source t) (g.scopesOn p.path) space name p.node.range.start

end Binding

/-- The symbol of a place of some name, read off the tree. -/
def Symbol.structural (g : Grammar) (document : DocumentId) (source : Text) (t : Tree) (p : Place)
    (space : Namespace) (name : Text) : Symbol :=
  match Binding.meantBy? g source t p space name with
  | some b => .bound document space name b.node.range
  | none => .free space name

/-- No identifier stands above an identifier. -/
def Grammar.UnnestedIdentifiers (g : Grammar) (t : Tree) : Prop :=
  ∀ p ∈ t.places, g.isIdentifier p.node.kind = true → ∀ a ∈ p.above, g.isIdentifier a.kind = false

instance (g : Grammar) (t : Tree) : Decidable (g.UnnestedIdentifiers t) :=
  inferInstanceAs (Decidable (∀ _ ∈ _, _))

/-- No identifier stands above an identifier or a scope. -/
def Grammar.FlatIdentifiers (g : Grammar) (t : Tree) : Prop :=
  ∀ p ∈ t.places, (g.isIdentifier p.node.kind || g.isScope p.node.kind) = true →
    ∀ a ∈ p.above, g.isIdentifier a.kind = false

instance (g : Grammar) (t : Tree) : Decidable (g.FlatIdentifiers t) :=
  inferInstanceAs (Decidable (∀ _ ∈ _, _))

/-! ## Scopes on a path -/

/-- The node of the place opens a scope. -/
def Place.opens (g : Grammar) (p : Place) : Bool := p.above.isEmpty || g.isScope p.node.kind

namespace Grammar

variable {g : Grammar} {t : Tree}

theorem scopesOn_cons (node : Node) (above : List Node) :
    g.scopesOn (node :: above) =
      if Place.opens g ⟨node, above⟩ then node :: g.scopesOn above else g.scopesOn above := rfl

theorem scopesOn_ne_nil {path : List Node} (h : path ≠ []) : g.scopesOn path ≠ [] := by
  induction path with
  | nil => exact absurd rfl h
  | cons node above ih =>
    rw [scopesOn_cons]
    split
    · simp
    · rename_i closed
      apply ih
      rintro rfl
      exact closed rfl

/-- A scope on the path of a place has its own place, and the scopes around it are those behind it on
the path. -/
theorem place_of_scopesOn {node a : Node} {above inner around : List Node}
    (hp : ⟨node, above⟩ ∈ t.places) (h : g.scopesOn (node :: above) = inner ++ a :: around) :
    ∃ outer, ⟨a, outer⟩ ∈ t.places ∧ Place.opens g ⟨a, outer⟩ = true ∧ g.scopesOn outer = around ∧
      a.index ≤ node.index ∧ a ∈ node :: above := by
  induction above generalizing node inner with
  | nil =>
    have root : [node] = inner ++ a :: around := h
    cases inner with
    | nil =>
      cases root
      exact ⟨[], hp, rfl, rfl, Nat.le_refl _, List.mem_cons_self ..⟩
    | cons b inner => simp at root
  | cons b above ih =>
    obtain ⟨hb, below⟩ := Tree.parent_place hp
    -- the scope in question is the node itself, or one further out
    have outside : ∀ inner, g.scopesOn (b :: above) = inner ++ a :: around →
        ∃ outer, ⟨a, outer⟩ ∈ t.places ∧ Place.opens g ⟨a, outer⟩ = true ∧ g.scopesOn outer = around ∧
          a.index ≤ node.index ∧ a ∈ node :: b :: above := by
      intro inner h
      obtain ⟨outer, place, opens, rest, le, mem⟩ := ih hb h
      exact ⟨outer, place, opens, rest, Nat.le_trans le (Nat.le_of_lt below), List.mem_cons_of_mem _ mem⟩
    rw [scopesOn_cons] at h
    split at h
    · rename_i opens
      cases inner with
      | nil =>
        obtain ⟨rfl, rfl⟩ := List.cons.inj h
        exact ⟨b :: above, hp, opens, rfl, Nat.le_refl _, List.mem_cons_self ..⟩
      | cons c inner => exact outside inner (List.cons.inj h).2
    · exact outside inner h

theorem place_of_mem_scopesOn {p : Place} {a : Node} (hp : p ∈ t.places) (ha : a ∈ g.scopesOn p.path) :
    ∃ outer, ⟨a, outer⟩ ∈ t.places ∧ Place.opens g ⟨a, outer⟩ = true ∧ a.index ≤ p.node.index := by
  obtain ⟨inner, around, split⟩ := List.append_of_mem ha
  obtain ⟨outer, place, opens, -, le, -⟩ := place_of_scopesOn hp split
  exact ⟨outer, place, opens, le⟩

theorem scopeOf?_mem {rule : DeclarationRule} {p : Place} {a : Node} (h : g.scopeOf? rule p = some a) :
    a ∈ g.scopesOn p.path := by
  unfold scopeOf? at h
  split at h
  · cases h
  · rename_i nearest around scopes
    rw [scopes]
    split at h
    · cases h
      cases around with
      | nil => exact List.mem_cons_self ..
      | cons next around => exact List.mem_cons_of_mem _ (List.mem_cons_self ..)
    · cases h
      exact List.mem_cons_self ..

theorem mem_scopesOn_of_suffix {path rest : List Node} {a : Node} (h : a :: rest <:+ path)
    (opens : Place.opens g ⟨a, rest⟩ = true) : a ∈ g.scopesOn path := by
  induction path with
  | nil => simp at h
  | cons node above ih =>
    rw [scopesOn_cons]
    rcases List.suffix_cons_iff.1 h with here | further
    · cases here
      rw [if_pos opens]
      exact List.mem_cons_self ..
    · split
      · exact List.mem_cons_of_mem _ (ih further)
      · exact ih further

/-- A place on the path of another one is a scope of that path if it opens one. -/
theorem mem_scopesOn_path {p q : Place} (hp : p ∈ t.places) (hq : q ∈ t.places)
    (on : q = p ∨ q.node ∈ p.above) (opens : q.opens g = true) : q.node ∈ g.scopesOn p.path := by
  rcases on with rfl | on
  · exact mem_scopesOn_of_suffix (List.suffix_refl _) opens
  · obtain ⟨inner, rest, split⟩ := List.append_of_mem on
    have whole : (⟨p.node, inner ++ q.node :: rest⟩ : Place) ∈ t.places := by
      rw [← split]
      exact hp
    have same : q = ⟨q.node, rest⟩ := Tree.eq_of_index hq (Tree.above_place whole).1 rfl
    rw [same] at opens
    refine mem_scopesOn_of_suffix ?_ opens
    exact ⟨p.node :: inner, by rw [Place.path, split, List.cons_append]⟩

end Grammar

/-! ## Places that bind -/

theorem Grammar.FlatIdentifiers.unnested {g : Grammar} {t : Tree} (flat : g.FlatIdentifiers t) :
    g.UnnestedIdentifiers t :=
  fun p hp identifier => flat p hp (by rw [identifier, Bool.true_or])

/-- Identifiers lie apart. -/
theorem Grammar.UnnestedIdentifiers.apart {g : Grammar} {t : Tree} (unnested : g.UnnestedIdentifiers t)
    (wellFormed : t.WellFormed) {p q : Place} (hp : p ∈ t.places) (hq : q ∈ t.places)
    (identifier : g.isIdentifier p.node.kind = true) (identifier' : g.isIdentifier q.node.kind = true) :
    p = q ∨ p.node.range.stop ≤ q.node.range.start ∨ q.node.range.stop ≤ p.node.range.start := by
  have notAbove : ∀ {p q : Place}, q ∈ t.places → g.isIdentifier p.node.kind = true →
      g.isIdentifier q.node.kind = true → p.node ∉ q.above := by
    intro p q hq identifier identifier' above
    have := unnested q hq identifier' p.node above
    rw [identifier] at this
    cases this
  rcases Tree.places_trichotomy wellFormed hp hq with same | (above | before) | (above | behind)
  · exact Or.inl same
  · exact absurd above (notAbove hq identifier identifier')
  · exact Or.inr (Or.inl before)
  · exact absurd above (notAbove hp identifier' identifier)
  · exact Or.inr (Or.inr behind)

/-- An identifier with some text is known by the byte at which it starts. -/
theorem Grammar.UnnestedIdentifiers.eq_of_start {g : Grammar} {t : Tree}
    (unnested : g.UnnestedIdentifiers t) (wellFormed : t.WellFormed) {p q : Place} (hp : p ∈ t.places)
    (hq : q ∈ t.places) (identifier : g.isIdentifier p.node.kind = true)
    (identifier' : g.isIdentifier q.node.kind = true) (inhabited : p.node.range.isEmpty = false)
    (inhabited' : q.node.range.isEmpty = false)
    (starts : p.node.range.start = q.node.range.start) : p = q := by
  rw [ByteRange.isEmpty_eq_false_iff] at inhabited inhabited'
  rcases unnested.apart wellFormed hp hq identifier identifier' with same | before | behind
  · exact same
  · omega
  · omega

theorem BindingSite.of?_eq_some {g : Grammar} {p : Place} {site : BindingSite}
    (h : of? g p = some site) :
    g.classify p.node.kind p.parentKind? p.node.field = some site.space ∧ site.space ≠ .member ∧
      p.node.range.isEmpty = false ∧ site.scope ∈ g.scopesOn p.path := by
  simp only [of?, Option.bind_eq_bind, Option.bind_eq_some_iff] at h
  obtain ⟨parent, above, space, classified, h⟩ := h
  split at h
  · cases h
  · rename_i plain
    simp only [Bool.or_eq_true, decide_eq_true_iff, not_or, Bool.not_eq_true] at plain
    obtain ⟨rule, -, scope, bound, h⟩ := by
      simpa only [Option.bind_eq_some_iff, Option.pure_def, Option.some.injEq] using h
    cases h
    refine ⟨?_, plain.1, plain.2, Grammar.scopeOf?_mem bound⟩
    rw [Place.parentKind?, above]
    exact classified

theorem Binding.of?_eq_some {g : Grammar} {source : Text} {p : Place} {b : Binding} :
    of? g source p = some b ↔ BindingSite.of? g p = some b.toBindingSite ∧
      Text.slice? source p.node.range = some b.name ∧ b.node = p.node := by
  simp only [of?, Option.bind_eq_bind, Option.bind_eq_some_iff, Option.pure_def, Option.some.injEq]
  constructor
  · rintro ⟨site, hs, name, hn, rfl⟩
    exact ⟨hs, hn, rfl⟩
  · rintro ⟨hs, hn, node⟩
    refine ⟨_, hs, _, hn, ?_⟩
    rw [← node]

theorem Binding.mem_all {g : Grammar} {source : Text} {t : Tree} {b : Binding} :
    b ∈ all g source t ↔ ∃ p ∈ t.places, of? g source p = some b := List.mem_filterMap

end Highlight
