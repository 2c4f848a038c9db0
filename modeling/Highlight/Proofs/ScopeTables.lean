import Highlight.Proofs.ScopeWalk
import Highlight.Proofs.StructuralScopes

/-!
# What the scope index holds

The scopes of an index are the nodes of the tree that open one and its declarations are the bindings of the
tree, both in pre-order (`ScopeIndex.built_ofTree`). A scope is known by its number, which is how many
scopes are opened before it (`scopeNumber`). The two tables find what a search through the declarations
would find (`ScopeIndex.Faithful`). Building it crashes where a declared name ends behind the source, and nowhere
else (`ScopeIndex.build_cases`).
-/

namespace Highlight

/-! ## Tables -/

namespace ScopeIndex

/-- The tables agree with the list of declarations. -/
structure Faithful (x : ScopeIndex) : Prop where
  startNumber : ∀ byte n, x.byStart.get? byte = some n → n < x.declarations.length
  nameNumber : ∀ key ns, x.byName.get? key = some ns → ∀ n ∈ ns, n < x.declarations.length
  declarationAt : ∀ byte, x.declarationAt? byte = x.declarations.findRev? (·.range.start == byte)
  named : ∀ space name,
    (x.named? space name).getD [] = x.declarations.filter fun d => d.space = space ∧ d.name = name

theorem faithful_empty (r : Option Rebinding) : Faithful { rebinding := r } :=
  ⟨nofun, nofun, fun _ => rfl, fun _ _ => rfl⟩

/-- Another declaration behind them does not change what stands under smaller numbers. -/
theorem filterMap_getElem?_snoc {ds : List Declaration} {ns : List Nat} (small : ∀ n ∈ ns, n < ds.length)
    (d : Declaration) : ns.filterMap ((ds ++ [d])[·]?) = ns.filterMap (ds[·]?) := by
  induction ns with
  | nil => rfl
  | cons n ns ih =>
    have here : (ds ++ [d])[n]? = ds[n]? :=
      List.getElem?_append_left (small n (List.mem_cons_self ..))
    rw [List.filterMap_cons, List.filterMap_cons, here, ih fun n hn => small n (List.mem_cons_of_mem _ hn)]

theorem getD_named? (x : ScopeIndex) (space : Namespace) (name : Text) :
    (x.named? space name).getD [] =
      ((x.byName.get? (space, name)).getD []).filterMap (x.declarations[·]?) := by
  unfold named?
  cases x.byName.get? (space, name) <;> rfl

theorem Faithful.nameNumber_getD {x : ScopeIndex} (h : x.Faithful) (key : Namespace × Text) :
    ∀ n ∈ (x.byName.get? key).getD [], n < x.declarations.length := by
  cases found : x.byName.get? key with
  | none => nofun
  | some ns => exact h.nameNumber key ns found

theorem Faithful.declarationAt?_addDeclaration {x : ScopeIndex} (h : x.Faithful) (d : Declaration)
    (byte : Nat) : (x.addDeclaration d).declarationAt? byte =
      if byte = d.range.start then some d else x.declarationAt? byte := by
  simp only [declarationAt?, addDeclaration, Table.get?_insert, Option.bind_eq_bind]
  by_cases same : byte = d.range.start
  · rw [if_pos same, if_pos same, Option.bind_some, List.getElem?_concat_length]
  · rw [if_neg same, if_neg same]
    cases number : x.byStart.get? byte with
    | none => rfl
    | some n => exact List.getElem?_append_left (h.startNumber byte n number)

theorem Faithful.named?_addDeclaration {x : ScopeIndex} (h : x.Faithful) (d : Declaration)
    (space : Namespace) (name : Text) : ((x.addDeclaration d).named? space name).getD [] =
      (x.named? space name).getD [] ++ if d.space = space ∧ d.name = name then [d] else [] := by
  rw [getD_named?, getD_named?]
  simp only [addDeclaration, Table.get?_insert]
  by_cases same : (space, name) = (d.space, d.name)
  · obtain ⟨rfl, rfl⟩ := Prod.mk.inj same
    rw [if_pos rfl, Option.getD_some, List.filterMap_append,
      filterMap_getElem?_snoc (h.nameNumber_getD _) d, if_pos ⟨rfl, rfl⟩]
    simp
  · have other : ¬(d.space = space ∧ d.name = name) := by
      rintro ⟨rfl, rfl⟩
      exact same rfl
    rw [if_neg same, if_neg other, filterMap_getElem?_snoc (h.nameNumber_getD _) d, List.append_nil]

theorem Faithful.addDeclaration {x : ScopeIndex} (h : x.Faithful) (d : Declaration) :
    (x.addDeclaration d).Faithful := by
  refine ⟨?_, ?_, ?_, ?_⟩
  · intro byte n found
    simp only [ScopeIndex.addDeclaration, Table.get?_insert, List.length_append,
      List.length_singleton] at found ⊢
    split at found
    · cases found
      exact Nat.lt_succ_self _
    · exact Nat.lt_succ_of_lt (h.startNumber byte n found)
  · intro key ns found n hn
    simp only [ScopeIndex.addDeclaration, Table.get?_insert, List.length_append,
      List.length_singleton] at found ⊢
    split at found
    · cases found
      rcases List.mem_append.1 hn with hn | hn
      · exact Nat.lt_succ_of_lt (h.nameNumber_getD _ n hn)
      · rw [List.mem_singleton.1 hn]
        exact Nat.lt_succ_self _
    · exact Nat.lt_succ_of_lt (h.nameNumber key ns found n hn)
  · intro byte
    rw [h.declarationAt?_addDeclaration, h.declarationAt]
    simp only [ScopeIndex.addDeclaration, List.findRev?_eq_find?_reverse, List.reverse_append,
      List.reverse_singleton, List.singleton_append, List.find?_cons]
    by_cases same : byte = d.range.start
    · rw [if_pos same, beq_iff_eq.2 same.symm]
    · rw [if_neg same, beq_false_of_ne (Ne.symm same)]
  · intro space name
    rw [h.named?_addDeclaration, h.named]
    simp only [ScopeIndex.addDeclaration, List.filter_append]
    by_cases same : d.space = space ∧ d.name = name <;> simp [same]

end ScopeIndex

/-! ## Numbers of scopes -/

/-- The number of the scope that the node with number `i` opens: how many are opened before it. -/
def scopeNumber (g : Grammar) (t : Tree) (i : Nat) : Nat := (t.places.take i).countP (·.opens g)

section Numbers

variable {g : Grammar} {t : Tree} {p q : Place}

theorem take_succ_places (hp : p ∈ t.places) :
    t.places.take (p.node.index + 1) = t.places.take p.node.index ++ [p] := by
  obtain ⟨inside, here⟩ := List.getElem?_eq_some_iff.1 (Tree.getElem?_places hp)
  rw [List.take_succ_eq_append_getElem inside, here]

theorem scopeNumber_succ (hp : p ∈ t.places) :
    scopeNumber g t (p.node.index + 1) =
      scopeNumber g t p.node.index + if p.opens g then 1 else 0 := by
  rw [scopeNumber, take_succ_places hp, List.countP_append, List.countP_singleton]
  rfl

theorem scopeNumber_le {i j : Nat} (h : i ≤ j) : scopeNumber g t i ≤ scopeNumber g t j :=
  (List.take_sublist_take_left h).countP_le

/-- Scopes are numbered in the order of their nodes. -/
theorem scopeNumber_lt (hp : p ∈ t.places) (opens : p.opens g = true) {i : Nat}
    (h : p.node.index < i) : scopeNumber g t p.node.index < scopeNumber g t i := by
  have next := scopeNumber_succ (g := g) hp
  rw [if_pos opens] at next
  have := scopeNumber_le (g := g) (t := t) (show p.node.index + 1 ≤ i from h)
  omega

theorem scopeNumber_inj (hp : p ∈ t.places) (hq : q ∈ t.places) (popens : p.opens g = true)
    (qopens : q.opens g = true)
    (h : scopeNumber g t p.node.index = scopeNumber g t q.node.index) : p = q := by
  rcases Nat.lt_trichotomy p.node.index q.node.index with before | same | behind
  · exact absurd h (Nat.ne_of_lt (scopeNumber_lt hp popens before))
  · exact Tree.eq_of_index hp hq same
  · exact absurd h (Nat.ne_of_gt (scopeNumber_lt hq qopens behind))

/-- Among the places that open a scope, each stands under the number of its scope. -/
theorem getElem?_filter_opens (hp : p ∈ t.places) (opens : p.opens g = true) {i : Nat}
    (h : p.node.index < i) :
    ((t.places.take i).filter (·.opens g))[scopeNumber g t p.node.index]? = some p := by
  obtain ⟨k, rfl⟩ := Nat.exists_eq_add_of_le (Nat.succ_le_of_lt h)
  rw [List.take_add, take_succ_places hp, List.filter_append, List.filter_append,
    List.append_assoc, scopeNumber, List.countP_eq_length_filter,
    List.getElem?_append_right (Nat.le_refl _), Nat.sub_self]
  simp [opens]

end Numbers

/-! ## Scopes and declarations -/

namespace ScopeIndex

variable {g : Grammar} {source : Text} {t : Tree} {x : ScopeIndex} {p : Place}

/-- The scope that the node of a place opens. -/
def scopeAt (g : Grammar) (t : Tree) (p : Place) : Scope where
  range := p.node.range
  parent := (g.scopesOn p.above).head?.map fun a => scopeNumber g t a.index
  depth := (g.scopesOn p.above).length

/-- The declaration of a binding. -/
def declarationOf (g : Grammar) (t : Tree) (b : Binding) : Declaration where
  space := b.space
  name := b.name
  range := b.node.range
  scope := scopeNumber g t b.scope.index
  visibleFrom := b.visibleFrom

/-- The scopes open on a path, as a walk keeps them. -/
def openedOn (g : Grammar) (t : Tree) (path : List Node) : List OpenScope :=
  (g.scopesOn path).map fun a => ⟨scopeNumber g t a.index, a.index⟩

/-- What the index of a tree holds when the first `i` places have been entered. -/
structure Built (g : Grammar) (source : Text) (t : Tree) (i : Nat) (x : ScopeIndex) : Prop where
  scopes : x.scopes = ((t.places.take i).filter (·.opens g)).map (scopeAt g t)
  declarations : x.declarations =
    ((t.places.take i).filterMap (Binding.of? g source)).map (declarationOf g t)
  rebinding : x.rebinding = some g.rebinding
  faithful : x.Faithful

theorem opensScope_eq (p : Place) : opensScope g p.parent? p.node = p.opens g := by
  obtain ⟨node, above⟩ := p
  cases above <;> rfl

theorem Built.length_scopes {i : Nat} (h : Built g source t i x) :
    x.scopes.length = scopeNumber g t i := by
  rw [h.scopes, List.length_map, scopeNumber, List.countP_eq_length_filter]

/-- A scope that has been opened stands under its number. -/
theorem Built.getElem?_scopes {i : Nat} (h : Built g source t i x) (hp : p ∈ t.places)
    (opens : p.opens g = true) (before : p.node.index < i) :
    x.scopes[scopeNumber g t p.node.index]? = some (scopeAt g t p) := by
  rw [h.scopes, List.getElem?_map, getElem?_filter_opens hp opens before, Option.map_some]

/-- The index with the scopes of the first `i` places. -/
def withScopes (x : ScopeIndex) (g : Grammar) (t : Tree) (i : Nat) : ScopeIndex :=
  { x with scopes := ((t.places.take i).filter (·.opens g)).map (scopeAt g t) }

/-- The index and the open scopes after a node has opened its scope. -/
theorem Built.openScope (h : Built g source t p.node.index x) (hp : p ∈ t.places) :
    x.openScope g (openedOn g t p.above) p.parent? p.node =
      (x.withScopes g t (p.node.index + 1), openedOn g t p.path) := by
  rw [withScopes, take_succ_places hp, List.filter_append, List.map_append, ← h.scopes]
  unfold ScopeIndex.openScope
  rw [opensScope_eq, Place.path, openedOn, openedOn, Grammar.scopesOn_cons]
  split
  · rename_i opens
    have last : [p].filter (·.opens g) = [p] := by simp [opens]
    rw [last, h.length_scopes]
    simp only [addScope, scopeAt, List.map_cons, List.map_nil, List.head?_map, Option.map_map,
      List.length_map]
    rfl
  · rename_i closed
    have last : [p].filter (·.opens g) = [] := by simp [closed]
    rw [last, List.map_nil, List.append_nil]

/-- The open scope that a rule binds in is that of the node which it binds in. -/
theorem bindingScope?_eq (rule : DeclarationRule) {parent : Node} (hp : p ∈ t.places)
    (above : p.parent? = some parent) :
    bindingScope? rule parent (openedOn g t p.path) =
      (g.scopeOf? rule p).map fun a => ⟨scopeNumber g t a.index, a.index⟩ := by
  unfold Grammar.scopeOf?
  rw [openedOn, above]
  cases scopes : g.scopesOn p.path with
  | nil => rfl
  | cons nearest around =>
    have same : (nearest.index == parent.index) = decide (some parent = some nearest) := by
      have first : nearest ∈ g.scopesOn p.path := by
        rw [scopes]
        exact List.mem_cons_self ..
      obtain ⟨outer, place, -⟩ := Grammar.place_of_mem_scopesOn hp first
      obtain ⟨rest', place', -⟩ := Tree.parent?_place hp above
      rw [Bool.eq_iff_iff, beq_iff_eq, decide_eq_true_iff, Option.some.injEq]
      constructor
      · intro index
        exact congrArg Place.node (Tree.eq_of_index place' place index.symm)
      · intro node
        rw [node]
    rw [List.map_cons, bindingScope?]
    simp only [same]
    split
    · cases around <;> rfl
    · rfl

/-- With all scopes on the path opened, a node declares its binding. -/
theorem declaration?_eq {parent : Node} (hp : p ∈ t.places) (above : p.parent? = some parent)
    (scopes : ∀ a ∈ g.scopesOn p.path,
      (x.scopes[scopeNumber g t a.index]?).map (·.range.start) = some a.range.start) :
    x.declaration? g source (openedOn g t p.path) parent p.node =
      (Binding.of? g source p).map (declarationOf g t) := by
  simp only [declaration?, declaring?, Binding.of?, BindingSite.of?, above, Option.bind_eq_bind,
    Option.bind_some, bindingScope?_eq _ hp above]
  cases g.classify p.node.kind (some parent.kind) p.node.field with
  | none => rfl
  | some space =>
    simp only [Option.bind_some]
    split
    · rfl
    · cases g.declarationRule? parent.kind p.node.field with
      | none => rfl
      | some rule =>
        simp only [Option.bind_some, Option.pure_def]
        cases bound : g.scopeOf? rule p with
        | none => cases Text.slice? source p.node.range <;> rfl
        | some a =>
          cases Text.slice? source p.node.range with
          | none => rfl
          | some name =>
            simp only [Option.map_some, Option.bind_some, scopes a (Grammar.scopeOf?_mem bound),
              Option.getD_some]
            rfl

/-- The index after the next place has been entered. -/
theorem Built.enter_eq (h : Built g source t p.node.index x) (hp : p ∈ t.places) :
    x.enter g source (openedOn g t p.above) p.parent? p.node =
      (match Binding.of? g source p with
        | none => x.withScopes g t (p.node.index + 1)
        | some b => (x.withScopes g t (p.node.index + 1)).addDeclaration (declarationOf g t b),
        openedOn g t p.path) := by
  have scopes : ∀ a ∈ g.scopesOn p.path,
      ((x.withScopes g t (p.node.index + 1)).scopes[scopeNumber g t a.index]?).map (·.range.start) =
        some a.range.start := by
    intro a ha
    obtain ⟨outer, place, opens, le⟩ := Grammar.place_of_mem_scopesOn hp ha
    rw [withScopes, List.getElem?_map, getElem?_filter_opens place opens (Nat.lt_succ_of_le le)]
    rfl
  have declared : (p.parent?.bind fun parent =>
      (x.withScopes g t (p.node.index + 1)).declaration? g source (openedOn g t p.path) parent p.node) =
        (Binding.of? g source p).map (declarationOf g t) := by
    cases above : p.parent? with
    | none => simp [Binding.of?, BindingSite.of?, above]
    | some parent => exact declaration?_eq hp above scopes
  unfold ScopeIndex.enter
  rw [h.openScope hp]
  simp only [declared]
  cases Binding.of? g source p <;> rfl

/-- Entering the next place builds on. -/
theorem Built.enter (h : Built g source t p.node.index x) (hp : p ∈ t.places) :
    Built g source t (p.node.index + 1)
      (x.enter g source (openedOn g t p.above) p.parent? p.node).1 := by
  have faithful : (x.withScopes g t (p.node.index + 1)).Faithful :=
    ⟨h.faithful.startNumber, h.faithful.nameNumber, h.faithful.declarationAt, h.faithful.named⟩
  have more : ((t.places.take (p.node.index + 1)).filterMap (Binding.of? g source)).map
      (declarationOf g t) = x.declarations ++ ((Binding.of? g source p).map (declarationOf g t)).toList := by
    rw [take_succ_places hp, List.filterMap_append, List.map_append, ← h.declarations]
    cases made : Binding.of? g source p <;> simp [made]
  rw [h.enter_eq hp]
  cases made : Binding.of? g source p with
  | none =>
    refine ⟨rfl, ?_, h.rebinding, faithful⟩
    rw [more, made, Option.map_none, Option.toList_none, List.append_nil]
    rfl
  | some b =>
    refine ⟨rfl, ?_, h.rebinding, faithful.addDeclaration _⟩
    rw [more, made]
    rfl

mutual

theorem Built.nested {above : List Node} {n : Nat} {x : ScopeIndex} :
    (s : Tree) → (∀ p ∈ s.placesFrom above n, p ∈ t.places) → Built g source t n x →
      Built g source t (n + s.size)
        (ScopeIndex.nested g source (openedOn g t above) above.head? x n s)
  | .node l ts, all, h => by
    rw [Tree.placesFrom] at all
    have root : (⟨⟨l, n⟩, above⟩ : Place) ∈ t.places := all _ (List.mem_cons_self ..)
    have opened : (x.enter g source (openedOn g t above) above.head? ⟨l, n⟩).2 =
        openedOn g t (⟨l, n⟩ :: above) := congrArg Prod.snd (h.enter_eq root)
    have below := Built.nestedAll ts (fun p hp => all p (List.mem_cons_of_mem _ hp))
      (h.enter (p := ⟨⟨l, n⟩, above⟩) root)
    rw [← opened] at below
    rw [Tree.size, Nat.add_comm (Tree.sizeAll ts), ← Nat.add_assoc]
    exact below

theorem Built.nestedAll {above : List Node} {n : Nat} {x : ScopeIndex} :
    (ts : List Tree) → (∀ p ∈ Tree.placesFromAll above n ts, p ∈ t.places) →
      Built g source t n x →
      Built g source t (n + Tree.sizeAll ts)
        (ScopeIndex.nestedAll g source (openedOn g t above) above.head? x n ts)
  | [], _, h => h
  | s :: ts, all, h => by
    rw [Tree.placesFromAll] at all
    have first := Built.nested s (fun p hp => all p (List.mem_append_left _ hp)) h
    rw [Tree.sizeAll, ← Nat.add_assoc, ScopeIndex.nestedAll]
    exact Built.nestedAll ts (fun p hp => all p (List.mem_append_right _ hp)) first

end

/-- The index of a tree holds the scopes and the bindings of all its places. -/
theorem built_ofTree (g : Grammar) (source : Text) (t : Tree) :
    Built g source t t.size (ofTree g source t) := by
  have empty : Built g source t 0 { rebinding := some g.rebinding } :=
    ⟨rfl, rfl, rfl, faithful_empty _⟩
  have whole : Built g source t (0 + t.size) (ofTreeNested g source t) :=
    Built.nested t (fun p hp => hp) empty
  rw [Nat.zero_add] at whole
  rw [ofTree_eq_nested]
  exact whole

theorem scopes_ofTree (g : Grammar) (source : Text) (t : Tree) :
    (ofTree g source t).scopes = (t.places.filter (·.opens g)).map (scopeAt g t) := by
  rw [(built_ofTree g source t).scopes, ← Tree.length_places, List.take_length]

theorem declarations_ofTree (g : Grammar) (source : Text) (t : Tree) :
    (ofTree g source t).declarations = (Binding.all g source t).map (declarationOf g t) := by
  rw [(built_ofTree g source t).declarations, ← Tree.length_places, List.take_length, Binding.all]

/-! ## Names behind the source -/

/-- An identifier declares a name, and reading it crashes. -/
def DeclaresOutside (g : Grammar) (source : Text) (p : Place) : Prop :=
  ∃ parent, p.parent? = some parent ∧ (declaring? g parent p.node).isSome = true ∧
    Text.read source p.node.range = .error .crash

theorem crashesAt_iff {p : Place} :
    crashesAt g (Text.byteLength source) p.parent? p.node = true ↔ DeclaresOutside g source p := by
  rw [crashesAt, Bool.and_eq_true, decide_eq_true_eq, DeclaresOutside, Text.read_eq_crash_iff]
  cases p.parent? with
  | none => simp
  | some parent => simp [and_comm]

/-- The index of a tree is built unless a name that it declares cannot be read. -/
theorem build_cases (g : Grammar) (source : Text) (t : Tree) :
    (∃ p ∈ t.places, DeclaresOutside g source p) ∧ build g source t = .error .crash ∨
      (∀ p ∈ t.places, ¬ DeclaresOutside g source p) ∧ build g source t = .ok (ofTree g source t) := by
  have crash : crashes g source t.places = true ↔ ∃ p ∈ t.places, DeclaresOutside g source p := by
    simp only [crashes, List.any_eq_true, crashesAt_iff]
  unfold build
  by_cases outside : crashes g source t.places = true
  · rw [if_pos outside]
    exact .inl ⟨crash.1 outside, rfl⟩
  · rw [if_neg outside]
    exact .inr ⟨fun p hp declares => outside (crash.2 ⟨p, hp, declares⟩), rfl⟩

end ScopeIndex

end Highlight
