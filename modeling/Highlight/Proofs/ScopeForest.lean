import Mathlib.Data.List.Chain
import Highlight.Proofs.LexicalSearch
import Highlight.Proofs.StructuralResolution

/-!
# The forest of scopes

Whatever the ranges of its nodes, the scopes of a tree form a tree themselves: the first one is the root, and
every other one lies in a scope that was opened before it (`ScopeIndex.Forest`). So the way outward from
any byte ends at the root (`ScopeIndex.LeadsToRoot`). Every name is bound in the scope of a node above its
identifier, and the tables find what reading the declarations one by one would find
(`ScopeIndex.Scanned`).

The main statement is `scope_index_is_forest`.
-/

namespace Highlight

namespace ScopeIndex

variable {g : Grammar} {source : Text} {t : Tree} {x : ScopeIndex}

/-! ## Parents -/

/-- The first scope has nothing around it, and every other one lies in an earlier one that is one level
less deep. -/
structure Forest (x : ScopeIndex) : Prop where
  root : ∃ s, x.scopes[0]? = some s ∧ s.parent = none ∧ s.depth = 0
  inner : ∀ n s, x.scopes[n]? = some s → n ≠ 0 → ∃ p around,
    s.parent = some p ∧ p < n ∧ x.scopes[p]? = some around ∧ s.depth = around.depth + 1

/-- The scope of a node below another one lies in the scope of the nearest node above that opens one. -/
theorem scopeAt_below (g : Grammar) {node b : Node} {rest : List Node}
    (hp : ⟨node, b :: rest⟩ ∈ t.places) : ∃ a outer,
      ⟨a, outer⟩ ∈ t.places ∧ Place.opens g ⟨a, outer⟩ = true ∧ a.index < node.index ∧
      (scopeAt g t ⟨node, b :: rest⟩).parent = some (scopeNumber g t a.index) ∧
      (scopeAt g t ⟨node, b :: rest⟩).depth = (scopeAt g t ⟨a, outer⟩).depth + 1 := by
  obtain ⟨hb, below⟩ := Tree.parent_place hp
  obtain ⟨a, around, scopes⟩ := List.exists_cons_of_ne_nil
    (Grammar.scopesOn_ne_nil (g := g) (List.cons_ne_nil b rest))
  obtain ⟨outer, place, opens, beyond, le, -⟩ := Grammar.place_of_scopesOn hb
    (show g.scopesOn (b :: rest) = [] ++ a :: around from scopes)
  refine ⟨a, outer, place, opens, Nat.lt_of_le_of_lt le below, ?_, ?_⟩
  · simp [scopeAt, scopes]
  · simp [scopeAt, scopes, beyond]

theorem forest_ofTree (g : Grammar) (source : Text) (t : Tree) : (ofTree g source t).Forest where
  root := by
    have root : (⟨⟨t.label, 0⟩, []⟩ : Place) ∈ t.places := by
      obtain ⟨l, ts⟩ := t
      exact List.mem_cons_self ..
    exact ⟨_, getElem?_scopes_ofTree root rfl, rfl, rfl⟩
  inner := by
    intro n s hs notRoot
    obtain ⟨⟨node, above⟩, hq, -, rfl, rfl⟩ :=
      mem_zipIdx_scopes (List.mk_mem_zipIdx_iff_getElem?.2 hs)
    cases above with
    | nil =>
      -- only the root has nothing above it, and it opens the first scope
      rcases Tree.parent_placesFrom [] 0 t _ hq with same | ⟨_, _, nothing, -⟩
      · cases same
        exact absurd rfl notRoot
      · cases nothing
    | cons b rest =>
      obtain ⟨a, outer, place, opens, before, parent, depth⟩ := scopeAt_below g hq
      exact ⟨_, _, parent, scopeNumber_lt place opens before, getElem?_scopes_ofTree place opens, depth⟩

/-! ## The way outward -/

/-- The numbers lead from a scope of the given depth to the root, each of them to that of the scope
around. -/
structure LeadsToRoot (x : ScopeIndex) (depth : Nat) (numbers : List Nat) : Prop where
  linked : numbers.IsChain fun n p => (x.scopes[n]?).bind (·.parent) = some p
  falling : numbers.Pairwise (· > ·)
  length : numbers.length = depth + 1
  last : numbers.getLast? = some 0
  inRange : ∀ n ∈ numbers, n < x.scopes.length

theorem LeadsToRoot.nodup {depth : Nat} {numbers : List Nat} (h : x.LeadsToRoot depth numbers) :
    numbers.Nodup := h.falling.imp Nat.ne_of_gt

/-- One more scope inside. -/
theorem LeadsToRoot.cons {depth n p : Nat} {s : Scope} {numbers : List Nat}
    (h : x.LeadsToRoot depth (p :: numbers)) (hs : x.scopes[n]? = some s) (parent : s.parent = some p)
    (before : p < n) : x.LeadsToRoot (depth + 1) (n :: p :: numbers) where
  linked := .cons_cons (by rw [hs]; exact parent) h.linked
  falling := by
    refine List.pairwise_cons.2 ⟨?_, h.falling⟩
    intro m hm
    rcases List.mem_cons.1 hm with rfl | further
    · exact before
    · exact Nat.lt_trans ((List.pairwise_cons.1 h.falling).1 m further) before
  length := by rw [List.length_cons, h.length]
  last := by rw [List.getLast?_cons_cons, h.last]
  inRange := List.forall_mem_cons.2 ⟨(List.getElem?_eq_some_iff.1 hs).1, h.inRange⟩

theorem outward_eq_cons (x : ScopeIndex) (n : Nat) : ∃ further, x.outward n = n :: further := by
  rw [outward]
  exact ⟨_, rfl⟩

theorem Forest.outward (forest : x.Forest) {n : Nat} {s : Scope} (hs : x.scopes[n]? = some s) :
    x.LeadsToRoot s.depth (x.outward n) := by
  induction n using Nat.strongRecOn generalizing s with
  | _ n ih =>
    by_cases isRoot : n = 0
    · subst isRoot
      obtain ⟨root, first, parent, depth⟩ := forest.root
      rw [hs, Option.some.injEq] at first
      subst first
      have alone : x.outward 0 = [0] := by rw [ScopeIndex.outward, hs, Option.bind_some, parent]
      rw [alone, depth]
      refine ⟨.singleton 0, List.pairwise_singleton .., rfl, rfl, ?_⟩
      exact List.forall_mem_singleton.2 (List.getElem?_eq_some_iff.1 hs).1
    · obtain ⟨p, around, parent, before, hp, depth⟩ := forest.inner n s hs isRoot
      have further : x.outward n = n :: x.outward p := by
        rw [ScopeIndex.outward, hs, Option.bind_some, parent]
        simp only [if_pos before]
      obtain ⟨beyond, fromParent⟩ := x.outward_eq_cons p
      have leads := ih p before hp
      rw [fromParent] at leads
      rw [further, fromParent, depth]
      exact leads.cons hs parent before

/-- The scope that is picked is one of the list. -/
theorem mem_of_foldl_deeper {l : List (Scope × Nat)} {best : Option (Scope × Nat)} {m : Scope × Nat}
    (h : l.foldl deeper best = some m) : best = some m ∨ m ∈ l := by
  induction l generalizing best with
  | nil => exact Or.inl h
  | cons s l ih =>
    rcases ih h with picked | later
    · cases best with
      | none =>
        cases picked
        exact Or.inr (List.mem_cons_self ..)
      | some b =>
        simp only [deeper] at picked
        split at picked
        · cases picked
          exact Or.inr (List.mem_cons_self ..)
        · exact Or.inl picked
    · exact Or.inr (List.mem_cons_of_mem _ later)

/-- Some scope is the innermost one around any byte. -/
theorem Forest.innermost? (forest : x.Forest) (byte : Nat) :
    ∃ n s, x.innermost? byte = some n ∧ x.scopes[n]? = some s := by
  unfold ScopeIndex.innermost?
  split
  · rename_i m picked
    rcases mem_of_foldl_deeper picked with nothing | found
    · cases nothing
    · exact ⟨m.2, m.1, rfl, List.mk_mem_zipIdx_iff_getElem?.1 (List.mem_filter.1 found).1⟩
  · obtain ⟨s, hs, -⟩ := forest.root
    have inhabited : x.scopes.isEmpty = false := by
      rw [List.isEmpty_eq_false_iff]
      rintro none
      rw [none] at hs
      cases hs
    exact ⟨0, s, by rw [inhabited]; rfl, hs⟩

/-! ## Scopes of declarations -/

/-- No identifier opens a scope. -/
theorem isScope_of_isIdentifier {language : Language} (table : language.grammar = some g) {kind : String}
    (h : g.isIdentifier kind = true) : g.isScope kind = false := by
  have all : g.identifiers.all (fun entry => !g.isScope entry.1) = true := by
    cases language <;> cases table <;> decide
  obtain ⟨space, entry⟩ := Grammar.mem_identifiers h
  simpa using List.all_eq_true.1 all _ entry

/-- The declaration of a place is bound in the scope of a node above it. -/
theorem scope_of_binding {language : Language} (table : language.grammar = some g) {p : Place}
    (hp : p ∈ t.places) {b : Binding} (made : Binding.of? g source p = some b) :
    ∃ outer, b.scope ∈ p.above ∧ ⟨b.scope, outer⟩ ∈ t.places ∧ Place.opens g ⟨b.scope, outer⟩ = true := by
  obtain ⟨site, -, -⟩ := Binding.of?_eq_some.1 made
  obtain ⟨classified, -, -, onPath⟩ := BindingSite.of?_eq_some site
  have notScope := isScope_of_isIdentifier table (Grammar.isIdentifier_of_classify classified)
  obtain ⟨inner, around, split⟩ := List.append_of_mem onPath
  obtain ⟨outer, place, opens, -, -, mem⟩ := Grammar.place_of_scopesOn hp split
  refine ⟨outer, ?_, place, opens⟩
  rcases List.mem_cons.1 mem with own | above
  · -- the identifier has a parent and is of no scope kind, so it opens no scope itself
    have same : (⟨b.scope, outer⟩ : Place) = p := Tree.eq_of_index place hp (congrArg Node.index own)
    have inhabited : p.above ≠ [] := by
      intro root
      simp [BindingSite.of?, Place.parent?, root] at site
    rw [same, Place.opens, notScope, Bool.or_false, List.isEmpty_iff] at opens
    exact absurd opens inhabited
  · exact above

/-! ## Reading the declarations one by one -/

end ScopeIndex

/-- The declaration binds the name in the scope. -/
def Declaration.BindsIn (d : Declaration) (space : Namespace) (name : Text) (scope : Nat) : Prop :=
  d.space = space ∧ d.name = name ∧ d.scope = scope

instance (d : Declaration) (space : Namespace) (name : Text) (scope : Nat) :
    Decidable (d.BindsIn space name scope) :=
  inferInstanceAs (Decidable (_ ∧ _ ∧ _))

namespace ScopeIndex

variable {x : ScopeIndex}

/-- The last declaration that starts at the byte. -/
def scanAt? (x : ScopeIndex) (byte : Nat) : Option Declaration :=
  x.declarations.findRev? (·.range.start == byte)

/-- What stands for a declaration: where a name is rebound, the first declaration that binds it in the same
scope. -/
def scanCanonical (x : ScopeIndex) (d : Declaration) : Declaration :=
  if x.rebinding = some .reassign then
    (x.declarations.find? (·.BindsIn d.space d.name d.scope)).getD d
  else d

/-- What a reference at a byte sees in one scope: the last declaration visible there, or the first one where
a name is rebound. -/
def scanVisible? (x : ScopeIndex) (space : Namespace) (name : Text) (byte scope : Nat) :
    Option Declaration :=
  if x.rebinding = some .reassign then x.declarations.find? (·.BindsIn space name scope)
  else x.declarations.findRev? fun d => d.BindsIn space name scope ∧ d.visibleFrom ≤ byte

/-- What a reference means: what it sees in the nearest scope in which it sees anything, or else the first
declaration in the nearest scope that has one. -/
def scanLookup? (x : ScopeIndex) (space : Namespace) (name : Text) (byte : Nat) : Option Declaration :=
  (((x.chain byte).findSome? (x.scanVisible? space name byte)).or
    ((x.chain byte).findSome? fun scope => x.declarations.find? (·.BindsIn space name scope))).map
      x.scanCanonical

/-- The tables hold numbers of declarations, and find what a scan of the declarations finds. -/
structure Scanned (x : ScopeIndex) : Prop where
  startNumber : ∀ byte n, x.byStart.get? byte = some n → n < x.declarations.length
  nameNumber : ∀ key ns, x.byName.get? key = some ns → ∀ n ∈ ns, n < x.declarations.length
  declarationAt : ∀ byte, x.declarationAt? byte = x.scanAt? byte
  canonical : ∀ d, x.canonical d = x.scanCanonical d
  lookup : ∀ space name byte, x.lookup? space name byte = x.scanLookup? space name byte

namespace Faithful

variable (faithful : x.Faithful)

include faithful

/-- The declarations of a name in one scope. -/
theorem filter_named (space : Namespace) (name : Text) (scope : Nat) :
    ((x.named? space name).getD []).filter (·.scope == scope) =
      x.declarations.filter (·.BindsIn space name scope) := by
  rw [faithful.named, List.filter_filter]
  congr 1
  funext d
  rw [Bool.eq_iff_iff]
  rw [Bool.and_eq_true, beq_iff_eq, decide_eq_true_iff, decide_eq_true_iff, Declaration.BindsIn, and_comm,
    and_assoc]

theorem canonical_eq_scan (d : Declaration) : x.canonical d = x.scanCanonical d := by
  rw [canonical, scanCanonical, ← List.head?_filter, faithful.filter_named, List.head?_filter]

theorem visibleIn?_eq_scan (space : Namespace) (name : Text) (byte scope : Nat) :
    x.visibleIn? ((x.named? space name).getD []) byte scope = x.scanVisible? space name byte scope := by
  rw [visibleIn?, scanVisible?, faithful.filter_named, List.head?_filter, List.filter_filter,
    List.getLast?_filter, List.findRev?_eq_find?_reverse]
  congr 2
  funext d
  rw [Bool.eq_iff_iff]
  simp [and_comm]

theorem lookup?_eq_scan (space : Namespace) (name : Text) (byte : Nat) :
    x.lookup? space name byte = x.scanLookup? space name byte := by
  have visible : x.visibleIn? ((x.named? space name).getD []) byte = x.scanVisible? space name byte :=
    funext (faithful.visibleIn?_eq_scan space name byte)
  have canonical : x.canonical = x.scanCanonical := funext faithful.canonical_eq_scan
  rw [lookup?_eq, scanLookup?, visible, canonical]
  simp only [faithful.filter_named, List.head?_filter]

theorem scanned : x.Scanned where
  startNumber := faithful.startNumber
  nameNumber := faithful.nameNumber
  declarationAt := faithful.declarationAt
  canonical := faithful.canonical_eq_scan
  lookup := faithful.lookup?_eq_scan

end Faithful

end ScopeIndex

/-! ## The main statement -/

open ScopeIndex

/-- The scopes of every tree form a tree of their own, whose tables tell the truth. With the table of any
language and whatever the ranges of the nodes: the first scope is the only one with nothing around it and
every other one is one level deeper than an earlier one; the scopes around any byte follow these links from
the innermost one to the first, without repetition; every declaration is bound in the scope of a node
above its identifier; and the tables find what a scan of the declarations finds. This index is built unless
an identifier declares a name and ends behind the source. -/
theorem scope_index_is_forest {language : Language} {g : Grammar} (table : language.grammar = some g)
    (source : Text) (t : Tree) :
    let x := ofTree g source t
    x.Forest ∧
    (∀ byte, ∃ n s, x.innermost? byte = some n ∧ x.scopes[n]? = some s ∧
      (x.chain byte).head? = some n ∧ x.LeadsToRoot s.depth (x.chain byte) ∧ (x.chain byte).Nodup) ∧
    (∀ d ∈ x.declarations, ∃ p ∈ t.places, (Binding.of? g source p).map (declarationOf g t) = some d ∧
      ∃ a ∈ p.above, ∃ outer, ⟨a, outer⟩ ∈ t.places ∧ Place.opens g ⟨a, outer⟩ = true ∧
        d.scope = scopeNumber g t a.index ∧ x.scopes[d.scope]? = some (scopeAt g t ⟨a, outer⟩)) ∧
    x.Scanned ∧
    ((∃ p ∈ t.places, DeclaresOutside g source p) ∧ build g source t = .error .crash ∨
      (∀ p ∈ t.places, ¬ DeclaresOutside g source p) ∧ build g source t = .ok x) := by
  intro x
  have forest : x.Forest := forest_ofTree g source t
  refine ⟨forest, ?_, ?_, (built_ofTree g source t).faithful.scanned, build_cases g source t⟩
  · intro byte
    obtain ⟨n, s, innermost, hs⟩ := forest.innermost? byte
    have chain : x.chain byte = x.outward n := by rw [ScopeIndex.chain, innermost]
    obtain ⟨further, first⟩ := x.outward_eq_cons n
    have leads := forest.outward hs
    rw [chain]
    exact ⟨n, s, innermost, hs, by rw [first]; rfl, leads, leads.nodup⟩
  · intro d hd
    rw [declarations_ofTree] at hd
    obtain ⟨b, hb, rfl⟩ := List.mem_map.1 hd
    obtain ⟨p, hp, made⟩ := Binding.mem_all.1 hb
    obtain ⟨outer, above, place, opens⟩ := scope_of_binding table hp made
    exact ⟨p, hp, by rw [made]; rfl, b.scope, above, outer, place, opens, rfl,
      getElem?_scopes_ofTree place opens⟩

/-- A tree in which a loop stands before the block that it is in, and both partly outside of the program. -/
def Tree.astray : Tree :=
  .node ⟨"program", ⟨0, 4⟩, none⟩ [
    .node ⟨"statement_block", ⟨6, 12⟩, none⟩ [
      .node ⟨"for_statement", ⟨2, 5⟩, none⟩ [
        .node ⟨"variable_declarator", ⟨7, 8⟩, none⟩ [.node ⟨"identifier", ⟨0, 1⟩, some "name"⟩ []]]]]

/-- The scopes around a byte of the loop are the loop, the block and the program, though the block does not
contain the byte, and the name is found at its start. -/
theorem scope_index_is_forest_astray :
    let x := ofTree .javaScript ['a'] .astray
    x.innermost? 3 = some 2 ∧ (x.chain 3).length = 3 ∧ (x.chain 3).getLast? = some 0 ∧
      x.declarationAt? 0 = some ⟨.value, ['a'], ⟨0, 1⟩, 2, 8⟩ := by
  intro x
  have nested : x = ofTreeNested .javaScript ['a'] .astray := ofTree_eq_nested _
  have table : Language.javaScript.grammar = some .javaScript := rfl
  obtain ⟨-, chains, -, scanned, -⟩ := scope_index_is_forest table ['a'] .astray
  obtain ⟨n, s, innermost, hs, -, leads, -⟩ := chains 3
  have loop : x.innermost? 3 = some 2 := by
    rw [nested]
    decide
  have deep : x.scopes[2]? = some ⟨⟨2, 5⟩, some 1, 2⟩ := by
    rw [nested]
    decide
  cases innermost.symm.trans loop
  cases hs.symm.trans deep
  have read : x.scanAt? 0 = some ⟨.value, ['a'], ⟨0, 1⟩, 2, 8⟩ := by
    rw [nested]
    decide
  exact ⟨loop, leads.length, leads.last, (scanned.declarationAt 0).trans read⟩

end Highlight
