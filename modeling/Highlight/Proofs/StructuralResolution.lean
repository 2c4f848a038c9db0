import Highlight.Proofs.ScopeTables

/-!
# Resolution agrees with the tree

The index finds the scopes around an identifier again from the byte at which it starts, and its
declarations from tables. In a well-formed tree in which no identifier stands above an identifier or a
scope, this gives what the tree says:

* `ScopeIndex.chain_ofTree`: the scopes around the first byte of an identifier are those on its path;
* `ScopeIndex.declarationAt?_ofTree`: a declaration starts there exactly if the identifier makes it;
* `ScopeIndex.lookup?_ofTree`: a lookup from there finds the binding that the identifier refers to.

The main statement is `resolution_is_structural`.
-/

namespace Highlight

/-! ## Scopes around an identifier -/

namespace ScopeIndex

variable {g : Grammar} {source : Text} {t : Tree} {p : Place}

theorem getElem?_scopes_ofTree (hp : p ∈ t.places) (opens : p.opens g = true) :
    (ofTree g source t).scopes[scopeNumber g t p.node.index]? = some (scopeAt g t p) := by
  obtain ⟨inside, -⟩ := List.getElem?_eq_some_iff.1 (Tree.getElem?_places hp)
  rw [Tree.length_places] at inside
  exact (built_ofTree g source t).getElem?_scopes hp opens inside

/-- The way outward from a scope follows the scopes on the path. -/
theorem outward_ofTree {node a : Node} {above around : List Node} (hp : ⟨node, above⟩ ∈ t.places)
    (h : g.scopesOn (node :: above) = a :: around) :
    (ofTree g source t).outward (scopeNumber g t a.index) =
      (a :: around).map fun a => scopeNumber g t a.index := by
  induction above generalizing node a around with
  | nil =>
    cases h
    rw [outward, getElem?_scopes_ofTree hp rfl]
    rfl
  | cons b above ih =>
    obtain ⟨hb, below⟩ := Tree.parent_place hp
    rw [Grammar.scopesOn_cons] at h
    split at h
    · rename_i opens
      obtain ⟨rfl, rfl⟩ := List.cons.inj h
      obtain ⟨c, further, next⟩ := List.exists_cons_of_ne_nil
        (Grammar.scopesOn_ne_nil (g := g) (List.cons_ne_nil b above))
      obtain ⟨outer, place, copens, le⟩ := Grammar.place_of_mem_scopesOn hb
        (show c ∈ g.scopesOn (b :: above) by rw [next]; exact List.mem_cons_self ..)
      have earlier : scopeNumber g t c.index < scopeNumber g t node.index :=
        scopeNumber_lt place copens (Nat.lt_of_le_of_lt le below)
      rw [outward, getElem?_scopes_ofTree hp opens]
      simp only [Option.bind_some, scopeAt, next, List.head?_cons, Option.map_some, earlier, if_true]
      rw [ih hb next]
      rfl
    · exact ih hb h

/-- Of the scopes in a list, the deepest one is picked if no other is as deep. -/
theorem foldl_deeper {m : Scope × Nat} {l : List (Scope × Nat)} {best : Option (Scope × Nat)}
    (deepest : ∀ s ∈ l, s = m ∨ s.1.depth < m.1.depth)
    (h : best = some m ∨ m ∈ l ∧ ∀ b ∈ best, b.1.depth < m.1.depth) :
    l.foldl deeper best = some m := by
  induction l generalizing best with
  | nil =>
    rcases h with h | ⟨nothing, -⟩
    · exact h
    · cases nothing
  | cons s l ih =>
    rw [List.foldl_cons]
    apply ih fun s hs => deepest s (List.mem_cons_of_mem _ hs)
    rcases deepest s (List.mem_cons_self ..) with rfl | less
    · left
      rcases h with rfl | ⟨-, less⟩
      · simp [deeper]
      · cases best with
        | none => rfl
        | some b => simp [deeper, Nat.le_of_lt (less b rfl)]
    · rcases h with rfl | ⟨hm, shallow⟩
      · left
        simp [deeper, Nat.not_le_of_lt less]
      · right
        have later : m ∈ l := by
          rcases List.mem_cons.1 hm with rfl | later
          · exact absurd less (Nat.lt_irrefl _)
          · exact later
        refine ⟨later, ?_⟩
        intro b hb
        cases best with
        | none =>
          cases hb
          exact less
        | some c =>
          have := shallow c rfl
          simp only [deeper] at hb
          split at hb <;> cases hb <;> assumption

/-- The numbered scopes of an index are those of the places that open one. -/
theorem mem_zipIdx_scopes {s : Scope} {i : Nat} (h : (s, i) ∈ (ofTree g source t).scopes.zipIdx) :
    ∃ q ∈ t.places, q.opens g = true ∧ s = scopeAt g t q ∧ i = scopeNumber g t q.node.index := by
  rw [List.mk_mem_zipIdx_iff_getElem?, scopes_ofTree, List.getElem?_map, Option.map_eq_some_iff] at h
  obtain ⟨q, hq, rfl⟩ := h
  obtain ⟨hp, opens⟩ := List.mem_filter.1 (List.mem_of_getElem? hq)
  refine ⟨q, hp, opens, rfl, ?_⟩
  obtain ⟨inside, -⟩ := List.getElem?_eq_some_iff.1 (Tree.getElem?_places hp)
  have there := getElem?_filter_opens hp opens inside
  rw [List.take_length] at there
  have bound := (List.getElem?_eq_some_iff.1 hq).1
  exact (List.getElem?_inj bound ((Tree.nodup_places t).filter _)).1 (hq.trans there.symm)

section Unnested

variable {g : Grammar} {source : Text} {t : Tree} (wellFormed : t.WellFormed)
  (unnested : g.UnnestedIdentifiers t)

include wellFormed unnested

/-- Where identifiers lie apart, a declaration starts where an identifier starts exactly if the identifier
makes it. -/
theorem declarationAt?_of_unnested {p : Place} (hp : p ∈ t.places)
    (identifier : g.isIdentifier p.node.kind = true) (inhabited : p.node.range.isEmpty = false) :
    (ofTree g source t).declarationAt? p.node.range.start =
      (Binding.of? g source p).map (declarationOf g t) := by
  have unique : ∀ b ∈ Binding.all g source t, b.node.range.start = p.node.range.start →
      Binding.of? g source p = some b := by
    intro b hb starts
    obtain ⟨q, hq, made⟩ := Binding.mem_all.1 hb
    obtain ⟨site, -, node⟩ := Binding.of?_eq_some.1 made
    obtain ⟨classified, -, qinhabited, -⟩ := BindingSite.of?_eq_some site
    rw [node] at starts
    rw [unnested.eq_of_start wellFormed hp hq identifier (Grammar.isIdentifier_of_classify classified)
      inhabited qinhabited starts.symm]
    exact made
  rw [(built_ofTree g source t).faithful.declarationAt, declarations_ofTree,
    List.findRev?_eq_find?_reverse]
  cases found : ((Binding.all g source t).map (declarationOf g t)).reverse.find?
      (·.range.start == p.node.range.start) with
  | some d =>
    obtain ⟨b, hb, rfl⟩ := List.mem_map.1 (List.mem_reverse.1 (List.mem_of_find?_eq_some found))
    have starts := List.find?_some found
    rw [unique b hb (beq_iff_eq.1 starts), Option.map_some]
  | none =>
    cases made : Binding.of? g source p with
    | none => rfl
    | some b =>
      have member : declarationOf g t b ∈ ((Binding.all g source t).map (declarationOf g t)).reverse :=
        List.mem_reverse.2 (List.mem_map_of_mem (Binding.mem_all.2 ⟨p, hp, made⟩))
      have starts : b.node = p.node := (Binding.of?_eq_some.1 made).2.2
      have none := List.find?_eq_none.1 found _ member
      simp [declarationOf, starts] at none

/-- Where identifiers lie apart, a declaration is known by where its identifier stands. -/
theorem declaration_eq_of_unnested {d f : Declaration} (hd : d ∈ (ofTree g source t).declarations)
    (hf : f ∈ (ofTree g source t).declarations) (same : d.range = f.range) : d = f := by
  rw [declarations_ofTree] at hd hf
  obtain ⟨b, hb, rfl⟩ := List.mem_map.1 hd
  obtain ⟨c, hc, rfl⟩ := List.mem_map.1 hf
  obtain ⟨p, hp, made⟩ := Binding.mem_all.1 hb
  obtain ⟨q, hq, made'⟩ := Binding.mem_all.1 hc
  obtain ⟨site, -, node⟩ := Binding.of?_eq_some.1 made
  obtain ⟨site', -, node'⟩ := Binding.of?_eq_some.1 made'
  obtain ⟨classified, -, inhabited, -⟩ := BindingSite.of?_eq_some site
  obtain ⟨classified', -, inhabited', -⟩ := BindingSite.of?_eq_some site'
  have starts : p.node.range.start = q.node.range.start := by
    rw [← node, ← node']
    exact congrArg ByteRange.start same
  rw [unnested.eq_of_start wellFormed hp hq (Grammar.isIdentifier_of_classify classified)
    (Grammar.isIdentifier_of_classify classified') inhabited inhabited' starts, made'] at made
  rw [Option.some.inj made]

end Unnested

section Identifier

variable (wellFormed : t.WellFormed) (flat : g.FlatIdentifiers t) (hp : p ∈ t.places)
  (identifier : g.isIdentifier p.node.kind = true) (inhabited : p.node.range.isEmpty = false)

include wellFormed flat hp identifier inhabited

/-- The scopes that contain the first byte of an identifier are on its path. -/
theorem mem_scopesOn_of_contains {q : Place} (hq : q ∈ t.places) (opens : q.opens g = true)
    (contains : q.node.range.contains p.node.range.start = true) : q.node ∈ g.scopesOn p.path := by
  rw [ByteRange.contains_iff] at contains
  rw [ByteRange.isEmpty_eq_false_iff] at inhabited
  apply Grammar.mem_scopesOn_path hp hq _ opens
  rcases Tree.places_trichotomy wellFormed hp hq with same | (below | behind) | (above | before)
  · exact Or.inl same.symm
  · -- a scope below an identifier
    have scope : g.isScope q.node.kind = true := by
      rcases Bool.or_eq_true_iff.1 opens with root | scope
      · rw [List.isEmpty_iff.1 root] at below
        cases below
      · exact scope
    have := flat q hq (by rw [scope, Bool.or_true]) p.node below
    rw [identifier] at this
    cases this
  · omega
  · exact Or.inr above
  · omega

/-- The innermost scope around the first byte of an identifier is the nearest one on its path. -/
theorem innermost?_ofTree {a : Node} {around : List Node} (h : g.scopesOn p.path = a :: around) :
    (ofTree g source t).innermost? p.node.range.start = some (scopeNumber g t a.index) := by
  obtain ⟨outer, place, opens, rest, -, onPath⟩ := Grammar.place_of_scopesOn hp
    (show g.scopesOn (p.node :: p.above) = [] ++ a :: around from h)
  have contains : a.range.contains p.node.range.start = true := by
    rw [ByteRange.isEmpty_eq_false_iff] at inhabited
    rw [ByteRange.contains_iff]
    rcases List.mem_cons.1 onPath with rfl | above
    · exact ⟨Nat.le_refl _, inhabited⟩
    · have := Tree.range_above wellFormed hp above
      omega
  have found : ((ofTree g source t).scopes.zipIdx.filter
      (·.1.range.contains p.node.range.start)).foldl deeper none =
        some (scopeAt g t ⟨a, outer⟩, scopeNumber g t a.index) := by
    apply foldl_deeper
    · rintro ⟨s, i⟩ hs
      obtain ⟨numbered, around⟩ := List.mem_filter.1 hs
      obtain ⟨q, hq, qopens, rfl, rfl⟩ := mem_zipIdx_scopes numbered
      have onPath := mem_scopesOn_of_contains wellFormed flat hp identifier inhabited hq qopens around
      rw [h] at onPath
      rcases List.mem_cons.1 onPath with same | further
      · left
        have : q = ⟨a, outer⟩ := Tree.eq_of_index hq place (by rw [same])
        rw [this]
      · -- a scope further out has fewer scopes around it
        right
        obtain ⟨inner, beyond, split⟩ := List.append_of_mem further
        obtain ⟨outer', place', -, rest', -⟩ := Grammar.place_of_scopesOn hp
          (show g.scopesOn (p.node :: p.above) = (a :: inner) ++ q.node :: beyond by
            rw [List.cons_append, ← split]; exact h)
        have : q = ⟨q.node, outer'⟩ := Tree.eq_of_index hq place' rfl
        rw [this]
        simp only [scopeAt, rest, rest', split, List.length_append, List.length_cons]
        omega
    · right
      refine ⟨List.mem_filter.2 ⟨?_, contains⟩, by simp⟩
      rw [List.mk_mem_zipIdx_iff_getElem?]
      exact getElem?_scopes_ofTree place opens
  rw [innermost?, found]

/-- The scopes around the first byte of an identifier are those on its path. -/
theorem chain_ofTree :
    (ofTree g source t).chain p.node.range.start =
      (g.scopesOn p.path).map fun a => scopeNumber g t a.index := by
  obtain ⟨a, around, scopes⟩ :=
    List.exists_cons_of_ne_nil (Grammar.scopesOn_ne_nil (g := g) (List.cons_ne_nil p.node p.above))
  rw [chain, innermost?_ofTree wellFormed flat hp identifier inhabited scopes]
  rw [Place.path, scopes]
  exact outward_ofTree hp scopes

end Identifier

/-! ## Declarations of a name -/

/-- The scope of a binding has its own place. -/
theorem place_of_binding {b : Binding} (hb : b ∈ Binding.all g source t) :
    ∃ outer, ⟨b.scope, outer⟩ ∈ t.places ∧ Place.opens g ⟨b.scope, outer⟩ = true := by
  obtain ⟨q, hq, made⟩ := Binding.mem_all.1 hb
  obtain ⟨-, -, -, onPath⟩ := BindingSite.of?_eq_some (Binding.of?_eq_some.1 made).1
  obtain ⟨outer, place, opens, -⟩ := Grammar.place_of_mem_scopesOn hq onPath
  exact ⟨outer, place, opens⟩

/-- The declarations of a name in the scope of a node are the bindings of the name there. -/
theorem filter_named_ofTree (source : Text) (space : Namespace) (name : Text) {a : Node} {outer : List Node}
    (place : ⟨a, outer⟩ ∈ t.places) (opens : Place.opens g ⟨a, outer⟩ = true) :
    (((ofTree g source t).named? space name).getD []).filter (·.scope == scopeNumber g t a.index) =
      (Binding.within (Binding.all g source t) space name a).map (declarationOf g t) := by
  rw [(built_ofTree g source t).faithful.named, declarations_ofTree, List.filter_map, List.filter_map,
    List.filter_filter, Binding.within]
  congr 1
  apply List.filter_congr
  intro b hb
  obtain ⟨outer', place', opens'⟩ := place_of_binding hb
  have same : scopeNumber g t b.scope.index = scopeNumber g t a.index ↔ b.scope = a := by
    constructor
    · intro numbers
      exact congrArg Place.node (scopeNumber_inj place' place opens' opens numbers)
    · intro nodes
      rw [nodes]
  rw [Bool.eq_iff_iff]
  simp only [Function.comp, declarationOf, Bool.and_eq_true, beq_iff_eq, decide_eq_true_eq, same]
  constructor
  · rintro ⟨scope, key⟩
    obtain ⟨ofSpace, ofName⟩ := of_decide_eq_true key
    exact ⟨ofSpace, ofName, scope⟩
  · rintro ⟨ofSpace, ofName, scope⟩
    exact ⟨scope, decide_eq_true ⟨ofSpace, ofName⟩⟩

/-- Which declaration stands for a symbol, by the index and by the tree. -/
theorem canonical_ofTree {b : Binding} (hb : b ∈ Binding.all g source t) :
    (ofTree g source t).canonical (declarationOf g t b) =
      declarationOf g t (b.canonical g.rebinding (Binding.all g source t)) := by
  obtain ⟨outer, place, opens⟩ := place_of_binding hb
  rw [ScopeIndex.canonical, (built_ofTree g source t).rebinding]
  cases g.rebinding with
  | shadow => rfl
  | reassign =>
    have bound := filter_named_ofTree source b.space b.name place opens
    rw [if_pos rfl, ← List.head?_filter, Binding.canonical]
    rw [show (declarationOf g t b).scope = scopeNumber g t b.scope.index from rfl,
      show (declarationOf g t b).space = b.space from rfl,
      show (declarationOf g t b).name = b.name from rfl, bound, List.head?_map]
    cases (Binding.within (Binding.all g source t) b.space b.name b.scope).head? <;> rfl

/-- What a reference sees in one scope, by the index and by the tree. -/
theorem visibleIn?_ofTree (space : Namespace) (name : Text) (byte : Nat) {a : Node} {outer : List Node}
    (place : ⟨a, outer⟩ ∈ t.places) (opens : Place.opens g ⟨a, outer⟩ = true) :
    (ofTree g source t).visibleIn? (((ofTree g source t).named? space name).getD []) byte
        (scopeNumber g t a.index) =
      (Binding.inForce? g.rebinding (Binding.within (Binding.all g source t) space name a) byte).map
        (declarationOf g t) := by
  rw [visibleIn?, (built_ofTree g source t).rebinding, filter_named_ofTree source space name place opens]
  cases g.rebinding with
  | reassign => rw [if_pos rfl, List.head?_map, Binding.inForce?]
  | shadow =>
    rw [if_neg (by simp), List.filter_map, List.getLast?_map]
    rfl

/-- A lookup does what it would do with an empty list where no declaration has the name. -/
theorem lookup?_eq (x : ScopeIndex) (space : Namespace) (name : Text) (byte : Nat) :
    x.lookup? space name byte =
      (((x.chain byte).findSome? (x.visibleIn? ((x.named? space name).getD []) byte)).or
        ((x.chain byte).findSome? fun scope =>
          (((x.named? space name).getD []).filter (·.scope == scope)).head?)).map x.canonical := by
  simp only [lookup?, List.head?_filter, Option.bind_eq_bind]
  cases x.named? space name with
  | none =>
    have first : (x.chain byte).findSome? (x.visibleIn? [] byte) = none := by
      rw [List.findSome?_eq_none_iff]
      intro scope _
      simp [visibleIn?]
    have second : ((x.chain byte).findSome? fun scope =>
        List.find? (fun d => d.scope == scope) ([] : List Declaration)) = none := by
      rw [List.findSome?_eq_none_iff]
      exact fun _ _ => rfl
    rw [Option.getD_none, first, second]
    rfl
  | some candidates =>
    rw [Option.bind_some, Option.getD_some]
    cases ((x.chain byte).findSome? (x.visibleIn? candidates byte)).or
      ((x.chain byte).findSome? fun scope => candidates.find? (·.scope == scope)) <;> rfl

end ScopeIndex

/-! ## References -/

theorem findSome?_congr {α β : Type} {l : List α} {f f' : α → Option β} (h : ∀ a ∈ l, f a = f' a) :
    l.findSome? f = l.findSome? f' := by
  induction l with
  | nil => rfl
  | cons a l ih =>
    rw [List.findSome?_cons, List.findSome?_cons, h a (List.mem_cons_self ..),
      ih fun a ha => h a (List.mem_cons_of_mem _ ha)]

namespace Binding

variable {r : Rebinding} {bs : List Binding} {scopes : List Node} {space : Namespace} {name : Text}
  {byte : Nat} {b : Binding}

theorem mem_within {a : Node} :
    b ∈ within bs space name a ↔ b ∈ bs ∧ b.space = space ∧ b.name = name ∧ b.scope = a := by
  simp [within]

theorem mem_of_inForce? (h : inForce? r bs byte = some b) : b ∈ bs := by
  cases r with
  | shadow => exact (List.mem_filter.1 (List.mem_of_getLast? h)).1
  | reassign => exact List.mem_of_head? h

/-- What a reference means is a binding of its name, and stands for its own symbol. -/
theorem referredTo?_eq_some (h : referredTo? r bs scopes space name byte = some b) :
    b ∈ bs ∧ b.space = space ∧ b.name = name ∧ b.canonical r bs = b := by
  -- in both passes `b` comes from one scope, and there it is the first one where a name may be rebound
  have found : ∃ a, b ∈ within bs space name a ∧
      (r = .reassign → (within bs space name a).head? = some b) := by
    rcases Option.or_eq_some_iff.1 h with first | ⟨-, second⟩
    · obtain ⟨a, -, hb⟩ := List.exists_of_findSome?_eq_some first
      refine ⟨a, mem_of_inForce? hb, ?_⟩
      rintro rfl
      exact hb
    · obtain ⟨a, -, hb⟩ := List.exists_of_findSome?_eq_some second
      exact ⟨a, List.mem_of_head? hb, fun _ => hb⟩
  obtain ⟨a, hb, first⟩ := found
  obtain ⟨mem, rfl, rfl, rfl⟩ := mem_within.1 hb
  refine ⟨mem, rfl, rfl, ?_⟩
  cases r with
  | shadow => rfl
  | reassign => rw [canonical, first rfl, Option.getD_some]

/-- The binding that stands for a symbol is one of its bindings, and stands for itself. -/
theorem canonical_canonical (hb : b ∈ bs) :
    b.canonical r bs ∈ bs ∧ (b.canonical r bs).space = b.space ∧ (b.canonical r bs).name = b.name ∧
      (b.canonical r bs).canonical r bs = b.canonical r bs := by
  cases r with
  | shadow => exact ⟨hb, rfl, rfl, rfl⟩
  | reassign =>
    have own : b ∈ within bs b.space b.name b.scope := mem_within.2 ⟨hb, rfl, rfl, rfl⟩
    obtain ⟨c, rest, list⟩ := List.exists_cons_of_ne_nil (List.ne_nil_of_mem own)
    have first : (within bs b.space b.name b.scope).head? = some c := by rw [list]; rfl
    obtain ⟨hc, space, name, scope⟩ := mem_within.1 (List.mem_of_head? first)
    have stands : b.canonical .reassign bs = c := by rw [canonical, first, Option.getD_some]
    rw [stands]
    refine ⟨hc, space, name, ?_⟩
    rw [canonical, space, name, scope, first, Option.getD_some]

end Binding

namespace ScopeIndex

section Identifier

variable {g : Grammar} {source : Text} {t : Tree} {p : Place} (wellFormed : t.WellFormed)
  (flat : g.FlatIdentifiers t) (hp : p ∈ t.places) (identifier : g.isIdentifier p.node.kind = true)
  (inhabited : p.node.range.isEmpty = false)

include wellFormed flat hp identifier inhabited

/-- A lookup from the start of an identifier finds the binding that it refers to. -/
theorem lookup?_ofTree (space : Namespace) (name : Text) :
    (ofTree g source t).lookup? space name p.node.range.start =
      (Binding.referredTo? g.rebinding (Binding.all g source t) (g.scopesOn p.path) space name
        p.node.range.start).map (declarationOf g t) := by
  have places : ∀ a ∈ g.scopesOn p.path,
      ∃ outer, ⟨a, outer⟩ ∈ t.places ∧ Place.opens g ⟨a, outer⟩ = true := by
    intro a ha
    obtain ⟨outer, place, opens, -⟩ := Grammar.place_of_mem_scopesOn hp ha
    exact ⟨outer, place, opens⟩
  have visible : ((ofTree g source t).chain p.node.range.start).findSome?
      ((ofTree g source t).visibleIn? (((ofTree g source t).named? space name).getD [])
        p.node.range.start) =
      ((g.scopesOn p.path).findSome? fun scope => Binding.inForce? g.rebinding
        (Binding.within (Binding.all g source t) space name scope) p.node.range.start).map
          (declarationOf g t) := by
    rw [chain_ofTree wellFormed flat hp identifier inhabited, List.findSome?_map, List.map_findSome?]
    apply findSome?_congr
    intro a ha
    obtain ⟨outer, place, opens⟩ := places a ha
    exact visibleIn?_ofTree space name _ place opens
  have any : (((ofTree g source t).chain p.node.range.start).findSome? fun scope =>
      ((((ofTree g source t).named? space name).getD []).filter (·.scope == scope)).head?) =
      ((g.scopesOn p.path).findSome? fun scope =>
        (Binding.within (Binding.all g source t) space name scope).head?).map (declarationOf g t) := by
    rw [chain_ofTree wellFormed flat hp identifier inhabited, List.findSome?_map, List.map_findSome?]
    apply findSome?_congr
    intro a ha
    obtain ⟨outer, place, opens⟩ := places a ha
    simp only [Function.comp]
    rw [filter_named_ofTree source space name place opens, List.head?_map]
  rw [lookup?_eq, visible, any, ← Option.map_or, ← Binding.referredTo?]
  cases referred : Binding.referredTo? g.rebinding (Binding.all g source t) (g.scopesOn p.path) space
      name p.node.range.start with
  | none => rfl
  | some b =>
    obtain ⟨hb, -, -, first⟩ := Binding.referredTo?_eq_some referred
    rw [Option.map_some, Option.map_some, canonical_ofTree hb, first]

/-- A declaration starts where an identifier starts exactly if the identifier makes it. -/
theorem declarationAt?_ofTree :
    (ofTree g source t).declarationAt? p.node.range.start =
      (Binding.of? g source p).map (declarationOf g t) :=
  declarationAt?_of_unnested wellFormed flat.unnested hp identifier inhabited

end Identifier

end ScopeIndex

/-! ## The main statement -/

section Symbols

variable {g : Grammar} {source : Text} {t : Tree} {p : Place} {space : Namespace} {name : Text}

/-- What an identifier means, by the index and by the tree. -/
theorem Symbol.meaning?_ofTree (wellFormed : t.WellFormed) (flat : g.FlatIdentifiers t)
    (hp : p ∈ t.places) (classified : g.classify p.node.kind p.parentKind? p.node.field = some space)
    (inhabited : p.node.range.isEmpty = false) :
    meaning? (ScopeIndex.ofTree g source t) space name p.node.range =
      (Binding.meantBy? g source t p space name).map (ScopeIndex.declarationOf g t) := by
  have identifier := Grammar.isIdentifier_of_classify classified
  rw [meaning?, ScopeIndex.declarationAt?_ofTree wellFormed flat hp identifier inhabited,
    Binding.meantBy?]
  cases made : Binding.of? g source p with
  | none => exact ScopeIndex.lookup?_ofTree wellFormed flat hp identifier inhabited space name
  | some b =>
    obtain ⟨site, -, node⟩ := Binding.of?_eq_some.1 made
    have own : (ScopeIndex.declarationOf g t b).space = space ∧
        (ScopeIndex.declarationOf g t b).range = p.node.range := by
      have := (BindingSite.of?_eq_some site).1
      rw [classified] at this
      exact ⟨(Option.some.inj this).symm, congrArg (·.range) node⟩
    simp only [Option.map_some]
    rw [if_pos own, ScopeIndex.canonical_ofTree (Binding.mem_all.2 ⟨p, hp, made⟩)]

/-- An identifier of a value or a type resolves to what it means by the tree. -/
theorem Symbol.resolveIn?_ofTree (document : DocumentId) (wellFormed : t.WellFormed)
    (flat : g.FlatIdentifiers t) (hp : p ∈ t.places) (named : named? g source p = some (space, name))
    (lexical : space ≠ .member) :
    resolveIn? g document source (ScopeIndex.ofTree g source t) p =
      some (structural g document source t p space name) := by
  obtain ⟨-, inhabited, -, classified⟩ := named?_eq_some named
  rw [resolveIn?, named, Option.map_some]
  simp only [if_neg lexical, meaning?_ofTree wellFormed flat hp classified inhabited]
  unfold structural
  cases Binding.meantBy? g source t p space name <;> rfl

/-- What a place means is a binding of its name, and stands for its own symbol. -/
theorem Binding.meantBy?_eq_some (hp : p ∈ t.places)
    (named : Symbol.named? g source p = some (space, name)) {b : Binding}
    (h : meantBy? g source t p space name = some b) :
    b ∈ all g source t ∧ b.space = space ∧ b.name = name ∧
      b.canonical g.rebinding (all g source t) = b := by
  obtain ⟨-, -, text, classified⟩ := Symbol.named?_eq_some named
  unfold meantBy? at h
  split at h
  · rename_i own made
    obtain ⟨site, slice, -⟩ := of?_eq_some.1 made
    have ownSpace : own.space = space := by
      rw [(BindingSite.of?_eq_some site).1] at classified
      exact Option.some.inj classified
    have ownName : own.name = name := by
      rw [slice] at text
      exact Option.some.inj text
    cases h
    obtain ⟨mem, sameSpace, sameName, stands⟩ := canonical_canonical (r := g.rebinding)
      (mem_all.2 ⟨p, hp, made⟩)
    exact ⟨mem, sameSpace.trans ownSpace, sameName.trans ownName, stands⟩
  · exact referredTo?_eq_some h

end Symbols

/-- Resolution agrees with the tree. For every grammar table and every text, in a well-formed tree in which
no identifier stands above an identifier or a scope, an identifier that has some text and names a value or
a type resolves to the symbol that the scoping rules read off the tree. -/
theorem resolution_is_structural (g : Grammar) (document : DocumentId) (source : Text) {t : Tree}
    (wellFormed : t.WellFormed) (flat : g.FlatIdentifiers t) {p : Place} (hp : p ∈ t.places)
    {space : Namespace} (classified : g.classify p.node.kind p.parentKind? p.node.field = some space)
    (lexical : space ≠ .member) (inhabited : p.node.range.isEmpty = false) {name : Text}
    (text : Text.slice? source p.node.range = some name) :
    Symbol.resolveIn? g document source (ScopeIndex.ofTree g source t) p =
      some (Symbol.structural g document source t p space name) :=
  Symbol.resolveIn?_ofTree document wellFormed flat hp (Symbol.named?_eq classified inhabited text) lexical

/-- A tree of the text `let a;{a;let a;a}`, in which the inner name hides the outer one from its
declaration on. -/
def Tree.hiding : Tree :=
  .node ⟨"program", ⟨0, 17⟩, none⟩ [
    .node ⟨"lexical_declaration", ⟨0, 6⟩, none⟩ [
      .node ⟨"variable_declarator", ⟨4, 5⟩, none⟩ [.node ⟨"identifier", ⟨4, 5⟩, some "name"⟩ []]],
    .node ⟨"statement_block", ⟨6, 17⟩, none⟩ [
      .node ⟨"expression_statement", ⟨7, 9⟩, none⟩ [.node ⟨"identifier", ⟨7, 8⟩, none⟩ []],
      .node ⟨"lexical_declaration", ⟨9, 15⟩, none⟩ [
        .node ⟨"variable_declarator", ⟨13, 14⟩, none⟩ [.node ⟨"identifier", ⟨13, 14⟩, some "name"⟩ []]],
      .node ⟨"expression_statement", ⟨15, 16⟩, none⟩ [.node ⟨"identifier", ⟨15, 16⟩, none⟩ []]]]

/-- In the block the name means the outer declaration in front of the inner one and the inner one behind
it. -/
theorem resolution_is_structural_hiding :
    ∃ early ∈ Tree.hiding.places, ∃ late ∈ Tree.hiding.places,
      let source := "let a;{a;let a;a}".toList
      let scopes := ScopeIndex.ofTree .javaScript source .hiding
      early.node.range = ⟨7, 8⟩ ∧ late.node.range = ⟨15, 16⟩ ∧
      Symbol.resolveIn? .javaScript 0 source scopes early = some (.bound 0 .value ['a'] ⟨4, 5⟩) ∧
      Symbol.resolveIn? .javaScript 0 source scopes late = some (.bound 0 .value ['a'] ⟨13, 14⟩) := by
  have structural : ∀ p ∈ Tree.hiding.places,
      Grammar.javaScript.classify p.node.kind p.parentKind? p.node.field = some .value →
      p.node.range.isEmpty = false →
      Text.slice? "let a;{a;let a;a}".toList p.node.range = some ['a'] → _ :=
    fun p hp value inhabited text => resolution_is_structural .javaScript 0 "let a;{a;let a;a}".toList
      (by decide) (by decide) hp value (by decide) inhabited text
  refine ⟨(Tree.hiding.places[6]?).get rfl, by decide, (Tree.hiding.places[11]?).get rfl, by decide,
    rfl, rfl, ?_, ?_⟩
  · rw [structural _ (by decide) (by decide) (by decide) (by decide)]
    decide
  · rw [structural _ (by decide) (by decide) (by decide) (by decide)]
    decide

end Highlight
