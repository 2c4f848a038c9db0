import Highlight.Proofs.SearchCompleteness
import Mathlib.Data.List.Forall2

/-!
# Canonical declarations

A symbol that is declared in a file is known by one of its declarations, the canonical one. Its identifier
names the same symbol again, and a search for the declarations of the symbol finds it: alone where a second
declaration hides the first, and first of all declarations of the name in its scope where a name is rebound.
A free symbol has no declarations (`canonical_declarations`).

This needs only that no identifier stands above another one. Which scopes the index takes to be around a
reference does not matter: whatever a lookup finds stands for its own symbol (`ScopeIndex.lookup?_eq_some`).
-/

namespace Highlight

/-! ## The declarations of a symbol -/

namespace ScopeIndex

/-- The declarations of the name of `d` that are bound in the scope of `d`. -/
def boundWith (x : ScopeIndex) (d : Declaration) : List Declaration :=
  x.declarations.filter fun e => e.space = d.space ∧ e.name = d.name ∧ e.scope = d.scope

variable {x : ScopeIndex} {d e : Declaration} {space : Namespace} {name : Text} {byte : Nat}

theorem mem_boundWith : e ∈ x.boundWith d ↔
    e ∈ x.declarations ∧ e.space = d.space ∧ e.name = d.name ∧ e.scope = d.scope := by
  simp [boundWith]

theorem mem_boundWith_self (hd : d ∈ x.declarations) : d ∈ x.boundWith d :=
  mem_boundWith.2 ⟨hd, rfl, rfl, rfl⟩

theorem boundWith_eq (h : e ∈ x.boundWith d) : x.boundWith e = x.boundWith d := by
  obtain ⟨-, space, name, scope⟩ := mem_boundWith.1 h
  simp only [boundWith, space, name, scope]

section Faithful

variable (faithful : x.Faithful)

include faithful

theorem canonical_eq (d : Declaration) :
    x.canonical d =
      if x.rebinding = some .reassign then (x.boundWith d).head?.getD d else d := by
  rw [canonical, faithful.named, boundWith, List.find?_filter, List.head?_filter]
  congr 4
  funext e
  rw [Bool.eq_iff_iff]
  simp [and_assoc]

/-- What stands for a declaration is bound with it. -/
theorem canonical_mem (hd : d ∈ x.declarations) : x.canonical d ∈ x.boundWith d := by
  rw [canonical_eq faithful]
  split
  · obtain ⟨first, rest, list⟩ := List.exists_cons_of_ne_nil (List.ne_nil_of_mem (mem_boundWith_self hd))
    rw [list]
    exact List.mem_cons_self ..
  · exact mem_boundWith_self hd

/-- What stands for a declaration stands for itself. -/
theorem canonical_canonical (hd : d ∈ x.declarations) :
    x.canonical (x.canonical d) = x.canonical d := by
  have bound := canonical_mem faithful hd
  obtain ⟨first, rest, list⟩ := List.exists_cons_of_ne_nil (List.ne_nil_of_mem bound)
  rw [canonical_eq faithful (x.canonical d), boundWith_eq bound, canonical_eq faithful d, list]
  split <;> rfl

/-- Where a name is rebound, a declaration that stands for itself is the first of those bound with it. -/
theorem head?_boundWith (reassign : x.rebinding = some .reassign) (hd : d ∈ x.declarations)
    (stands : x.canonical d = d) : (x.boundWith d).head? = some d := by
  obtain ⟨first, rest, list⟩ := List.exists_cons_of_ne_nil (List.ne_nil_of_mem (mem_boundWith_self hd))
  rw [canonical_eq faithful, if_pos reassign, list] at stands
  rw [list]
  exact congrArg some stands

/-- And it stands for exactly these. -/
theorem canonical_eq_iff (reassign : x.rebinding = some .reassign) (hd : d ∈ x.declarations)
    (stands : x.canonical d = d) (he : e ∈ x.declarations) :
    x.canonical e = d ↔ e.space = d.space ∧ e.name = d.name ∧ e.scope = d.scope := by
  constructor
  · rintro rfl
    obtain ⟨-, space, name, scope⟩ := mem_boundWith.1 (canonical_mem faithful he)
    exact ⟨space.symm, name.symm, scope.symm⟩
  · intro same
    rw [canonical_eq faithful, if_pos reassign, boundWith_eq (mem_boundWith.2 ⟨he, same⟩),
      head?_boundWith faithful reassign hd stands]
    rfl

/-- What a lookup finds is a declaration of the name, and stands for its own symbol. -/
theorem lookup?_eq_some (h : x.lookup? space name byte = some d) :
    d ∈ x.declarations ∧ d.space = space ∧ d.name = name ∧ x.canonical d = d := by
  rw [lookup?_eq] at h
  obtain ⟨found, seen, rfl⟩ := Option.map_eq_some_iff.1 h
  have candidate : found ∈ (x.named? space name).getD [] := by
    rcases Option.or_eq_some_iff.1 seen with visible | ⟨-, any⟩
    · obtain ⟨scope, -, visible⟩ := List.exists_of_findSome?_eq_some visible
      unfold visibleIn? at visible
      split at visible
      · exact (List.mem_filter.1 (List.mem_of_head? visible)).1
      · exact (List.mem_filter.1 (List.mem_filter.1 (List.mem_of_getLast? visible)).1).1
    · obtain ⟨scope, -, first⟩ := List.exists_of_findSome?_eq_some any
      exact (List.mem_filter.1 (List.mem_of_head? first)).1
  rw [faithful.named, List.mem_filter, decide_eq_true_iff] at candidate
  obtain ⟨recorded, rfl, rfl⟩ := candidate
  obtain ⟨mem, space, name, -⟩ := mem_boundWith.1 (canonical_mem faithful recorded)
  exact ⟨mem, space, name, canonical_canonical faithful recorded⟩

theorem mem_of_declarationAt? (h : x.declarationAt? byte = some d) : d ∈ x.declarations := by
  rw [faithful.declarationAt, List.findRev?_eq_find?_reverse] at h
  exact List.mem_reverse.1 (List.mem_of_find?_eq_some h)

end Faithful

end ScopeIndex

/-! ## The places that declare -/

namespace Snapshot

/-- The declaration that a place of the file makes. -/
def declared? (file : Snapshot) (g : Grammar) (p : Place) : Option Declaration :=
  (Binding.of? g file.source p).map (ScopeIndex.declarationOf g file.tree)

variable {file : Snapshot} {g : Grammar} {p : Place} {d e : Declaration}

/-- A place that declares is an identifier, and reads like the declaration. -/
theorem declared?_eq_some (h : file.declared? g p = some d) :
    d.range = p.node.range ∧ d.space ≠ .member ∧
      Symbol.named? g file.source p = some (d.space, d.name) := by
  obtain ⟨b, made, rfl⟩ := Option.map_eq_some_iff.1 h
  obtain ⟨site, text, node⟩ := Binding.of?_eq_some.1 made
  obtain ⟨classified, lexical, inhabited, -⟩ := BindingSite.of?_eq_some site
  exact ⟨congrArg (·.range) node, lexical, Symbol.named?_eq classified inhabited text⟩

section Index

variable (grammar : file.grammar = some g)

include grammar

theorem built_scopes : ScopeIndex.Built g file.source file.tree file.tree.size file.scopes := by
  rw [scopes_eq_ofTree grammar]
  exact ScopeIndex.built_ofTree g file.source file.tree

theorem declarations_eq : file.scopes.declarations = file.places.filterMap (file.declared? g) := by
  rw [scopes_eq_ofTree grammar, ScopeIndex.declarations_ofTree, Binding.all, List.map_filterMap,
    file.places_eq]
  rfl

theorem mem_declarations_iff :
    d ∈ file.scopes.declarations ↔ ∃ p ∈ file.places, file.declared? g p = some d := by
  rw [declarations_eq grammar, List.mem_filterMap]

/-- A name that is bound stands for its own symbol, and is declared in the file. -/
theorem declaration_of_lexical? {document : DocumentId} {space : Namespace} {name : Text}
    {range : ByteRange} (h : Symbol.lexical? file p = some (.bound document space name range)) :
    ∃ d ∈ file.scopes.declarations, d.space = space ∧ d.name = name ∧ d.range = range ∧
      file.scopes.canonical d = d := by
  have faithful := (built_scopes grammar).faithful
  have named := Symbol.named?_of_lexical? grammar h
  have text := (Symbol.named?_eq_some named).2.2.1
  rw [Symbol.lexical?_eq grammar, Symbol.resolveIn?, named, Option.map_some] at h
  dsimp only [Symbol.space, Symbol.name] at h text
  split at h
  · cases h
  split at h
  · rename_i d meant
    cases h
    unfold Symbol.meaning? at meant
    split at meant
    · rename_i own starts
      split at meant
      · rename_i same
        cases meant
        have recorded := ScopeIndex.mem_of_declarationAt? faithful starts
        obtain ⟨q, -, made⟩ := (mem_declarations_iff grammar).1 recorded
        obtain ⟨range, -, reads⟩ := declared?_eq_some made
        have ownName : own.name = name := by
          have ownText := (Symbol.named?_eq_some reads).2.2.1
          rw [← range, same.2, text] at ownText
          exact (Option.some.inj ownText).symm
        obtain ⟨mem, space, name, -⟩ :=
          ScopeIndex.mem_boundWith.1 (ScopeIndex.canonical_mem faithful recorded)
        exact ⟨_, mem, space.trans same.1, name.trans ownName, rfl,
          ScopeIndex.canonical_canonical faithful recorded⟩
      · obtain ⟨mem, space, name, stands⟩ := ScopeIndex.lookup?_eq_some faithful meant
        exact ⟨d, mem, space, name, rfl, stands⟩
    · obtain ⟨mem, space, name, stands⟩ := ScopeIndex.lookup?_eq_some faithful meant
      exact ⟨d, mem, space, name, rfl, stands⟩
  · cases h

variable (wellFormed : file.tree.WellFormed) (unnested : g.UnnestedIdentifiers file.tree)

include wellFormed unnested

theorem declarationAt?_eq (hp : p ∈ file.places) (identifier : g.isIdentifier p.node.kind = true)
    (inhabited : p.node.range.isEmpty = false) :
    file.scopes.declarationAt? p.node.range.start = file.declared? g p := by
  rw [file.places_eq] at hp
  rw [scopes_eq_ofTree grammar]
  exact ScopeIndex.declarationAt?_of_unnested wellFormed unnested hp identifier inhabited

/-- A place that declares names the symbol for which its declaration's canonical one stands. -/
theorem lexical?_of_declared? (hp : p ∈ file.places) (h : file.declared? g p = some e) :
    Symbol.lexical? file p =
      some (.bound file.document e.space e.name (file.scopes.canonical e).range) := by
  obtain ⟨range, lexical, named⟩ := declared?_eq_some h
  obtain ⟨identifier, inhabited, -, -⟩ := Symbol.named?_eq_some named
  have starts := declarationAt?_eq grammar wellFormed unnested hp identifier inhabited
  rw [Symbol.lexical?_eq grammar, Symbol.resolveIn?, named, Option.map_some]
  simp only [if_neg lexical, Symbol.meaning?, starts, h, range, and_self, if_true]

/-- The places that a search for declarations asks for: those that declare the symbol. -/
theorem asksFor_declarations_iff (symbol : Symbol) (files : List Snapshot) (hp : p ∈ file.places) :
    Query.asksFor ⟨symbol, files, .declarations⟩ file p = true ↔ ∃ e, file.declared? g p = some e ∧
      symbol = .bound file.document e.space e.name (file.scopes.canonical e).range := by
  have asks : Query.asksFor ⟨symbol, files, .declarations⟩ file p = true ↔
      Symbol.lexical? file p = some symbol ∧
        Engine.occurrenceKind file p.node.range = .declaration := by
    simp only [Query.asksFor, Limit.accepts, Bool.and_eq_true, decide_eq_true_iff, beq_iff_eq]
  rw [asks, Engine.occurrenceKind_eq_declaration_iff]
  constructor
  · rintro ⟨resolved, e, starts, -⟩
    obtain ⟨identifier, inhabited, -, -⟩ :=
      Symbol.named?_eq_some (Symbol.named?_of_lexical? grammar resolved)
    rw [declarationAt?_eq grammar wellFormed unnested hp identifier inhabited] at starts
    rw [lexical?_of_declared? grammar wellFormed unnested hp starts] at resolved
    exact ⟨e, starts, (Option.some.inj resolved).symm⟩
  · rintro ⟨e, made, rfl⟩
    obtain ⟨range, -, named⟩ := declared?_eq_some made
    obtain ⟨identifier, inhabited, -, -⟩ := Symbol.named?_eq_some named
    refine ⟨lexical?_of_declared? grammar wellFormed unnested hp made, e, ?_, range⟩
    rw [declarationAt?_eq grammar wellFormed unnested hp identifier inhabited]
    exact made

/-- A declaration that stands for itself is sought among the places whose declarations it stands for. -/
theorem asksFor_canonical_iff (hd : d ∈ file.scopes.declarations)
    (stands : file.scopes.canonical d = d) (files : List Snapshot) (hp : p ∈ file.places) :
    Query.asksFor ⟨.bound file.document d.space d.name d.range, files, .declarations⟩ file p = true ↔
      ∃ e, file.declared? g p = some e ∧ file.scopes.canonical e = d := by
  have faithful := (built_scopes grammar).faithful
  rw [asksFor_declarations_iff grammar wellFormed unnested _ files hp]
  refine exists_congr fun e => and_congr_right fun made => ?_
  have recorded := (mem_declarations_iff grammar).2 ⟨p, hp, made⟩
  obtain ⟨mem, space, name, -⟩ :=
    ScopeIndex.mem_boundWith.1 (ScopeIndex.canonical_mem faithful recorded)
  constructor
  · intro same
    have range : d.range = (file.scopes.canonical e).range := (Symbol.bound.inj same).2.2.2
    rw [scopes_eq_ofTree grammar] at hd mem range ⊢
    exact (ScopeIndex.declaration_eq_of_unnested wellFormed unnested hd mem range).symm
  · rintro rfl
    rw [space, name]

end Index

/-! ## What the search finds -/

/-- The identifier `q` of the file stands where `d` is recorded. -/
structure Declares (file : Snapshot) (g : Grammar) (q : Place) (d : Declaration) : Prop where
  place : q ∈ file.places
  identifier : g.isIdentifier q.node.kind = true
  recorded : d ∈ file.scopes.declarations
  range : d.range = q.node.range

section Search

variable (grammar : file.grammar = some g)

include grammar

theorem declares_of_declared? (hp : p ∈ file.places) (h : file.declared? g p = some d) :
    file.Declares g p d := by
  obtain ⟨range, -, named⟩ := declared?_eq_some h
  exact ⟨hp, (Symbol.named?_eq_some named).1, (mem_declarations_iff grammar).2 ⟨p, hp, h⟩, range⟩

/-- If a search asks for the places with certain declarations, it finds these, each at its identifier. -/
theorem forall₂_declares {asks : Place → Bool} {keep : Declaration → Bool}
    (h : ∀ p ∈ file.places, asks p = true ↔ ∃ e, file.declared? g p = some e ∧ keep e = true) :
    List.Forall₂ (fun m e => ∃ r, file.Declares g r e ∧ m = Engine.elementMatch file r)
      ((file.places.filter asks).map (Engine.elementMatch file))
      (file.scopes.declarations.filter keep) := by
  have each : ∀ ps : List Place, (∀ p ∈ ps, p ∈ file.places) →
      List.Forall₂ (file.Declares g) (ps.filter asks) ((ps.filterMap (file.declared? g)).filter keep) := by
    intro ps known
    induction ps with
    | nil => exact .nil
    | cons p ps ih =>
      have rest := ih fun q hq => known q (List.mem_cons_of_mem _ hq)
      have hp := known p (List.mem_cons_self ..)
      by_cases asked : asks p = true
      · obtain ⟨e, made, kept⟩ := (h p hp).1 asked
        rw [List.filter_cons_of_pos asked, List.filterMap_cons_some made, List.filter_cons_of_pos kept]
        exact .cons (declares_of_declared? grammar hp made) rest
      · rw [List.filter_cons_of_neg asked]
        cases made : file.declared? g p with
        | none =>
          rw [List.filterMap_cons_none made]
          exact rest
        | some e =>
          have dropped : ¬keep e = true := fun kept => asked ((h p hp).2 ⟨e, made, kept⟩)
          rw [List.filterMap_cons_some made, List.filter_cons_of_neg dropped]
          exact rest
  rw [declarations_eq grammar, List.forall₂_map_left_iff]
  exact (each file.places fun _ hp => hp).imp fun r e declares => ⟨r, declares, rfl⟩

variable (wellFormed : file.tree.WellFormed) (unnested : g.UnnestedIdentifiers file.tree)

include wellFormed unnested

/-- The identifier of a declaration is known by where it stands. -/
theorem Declares.unique (h : file.Declares g p d) {r : Place} (hr : r ∈ file.places)
    (identifier : g.isIdentifier r.node.kind = true) (range : r.node.range = d.range) : r = p := by
  obtain ⟨q, -, made⟩ := (mem_declarations_iff grammar).1 h.recorded
  obtain ⟨stands, -, named⟩ := declared?_eq_some made
  have inhabited : d.range.isEmpty = false := by
    rw [stands]
    exact (Symbol.named?_eq_some named).2.1
  have place := h.place
  rw [file.places_eq] at hr place
  exact unnested.eq_of_start wellFormed hr place identifier h.identifier (range ▸ inhabited)
    (h.range ▸ inhabited) (congrArg ByteRange.start (range.trans h.range))

section Found

variable {q : Place} (hd : d ∈ file.scopes.declarations) (stands : file.scopes.canonical d = d)
  (hq : q ∈ file.places) (made : file.declared? g q = some d)

include hd stands hq made

/-- Where declarations hide each other, one place is asked for. -/
theorem filter_asksFor_shadow (shadow : g.rebinding = .shadow) (files : List Snapshot) :
    file.places.filter (Query.asksFor
      ⟨.bound file.document d.space d.name d.range, files, .declarations⟩ file) = [q] := by
  have own : ∀ e, file.scopes.canonical e = e := by
    intro e
    rw [ScopeIndex.canonical, (built_scopes grammar).rebinding, shadow, if_neg (by decide)]
  have declares := declares_of_declared? grammar hq made
  have only : ∀ r ∈ file.places, Query.asksFor
      ⟨.bound file.document d.space d.name d.range, files, .declarations⟩ file r = decide (r = q) := by
    intro r hr
    rw [Bool.eq_iff_iff, decide_eq_true_iff,
      asksFor_canonical_iff grammar wellFormed unnested hd stands files hr]
    constructor
    · rintro ⟨e, there, same⟩
      rw [own] at same
      have other := declares_of_declared? grammar hr (same ▸ there)
      exact declares.unique grammar wellFormed unnested hr other.identifier other.range.symm
    · rintro rfl
      exact ⟨d, made, stands⟩
  have once : file.places.count q = 1 := by
    rw [file.places_eq] at hq ⊢
    rw [file.tree.nodup_places.count, if_pos hq]
  rw [List.filter_congr only, List.filter_eq, once]
  rfl

/-- Where a name is rebound, the places of the declarations bound with `d` are asked for, that of `d`
first. -/
theorem filter_asksFor_reassign (rebound : g.rebinding = .reassign) (files : List Snapshot) :
    let found := (file.places.filter (Query.asksFor
      ⟨.bound file.document d.space d.name d.range, files, .declarations⟩ file)).map
        (Engine.elementMatch file)
    List.Forall₂ (fun m e => ∃ r, file.Declares g r e ∧ m = Engine.elementMatch file r) found
        (file.scopes.boundWith d) ∧
      found.head? = some (Engine.elementMatch file q) := by
  intro found
  have faithful := (built_scopes grammar).faithful
  have reassign : file.scopes.rebinding = some .reassign := by
    rw [(built_scopes grammar).rebinding, rebound]
  have same : file.scopes.declarations.filter (fun e => file.scopes.canonical e = d) =
      file.scopes.boundWith d := by
    apply List.filter_congr
    intro e he
    rw [decide_eq_decide, ScopeIndex.canonical_eq_iff faithful reassign hd stands he]
  have all : List.Forall₂ (fun m e => ∃ r, file.Declares g r e ∧ m = Engine.elementMatch file r) found
      (file.scopes.boundWith d) := by
    rw [← same]
    exact forall₂_declares grammar fun r hr => by
      simpa using asksFor_canonical_iff grammar wellFormed unnested hd stands files hr
  refine ⟨all, ?_⟩
  obtain ⟨rest, first⟩ :=
    List.head?_eq_some_iff.1 (ScopeIndex.head?_boundWith faithful reassign hd stands)
  rw [first] at all
  obtain ⟨m, ms, ⟨r, there, rfl⟩, -, split⟩ := List.forall₂_cons_right_iff.1 all
  have place : r = q := (declares_of_declared? grammar hq made).unique grammar wellFormed unnested
    there.place there.identifier there.range.symm
  rw [show found = _ from split, place]
  rfl

end Found

end Search

end Snapshot

/-- Canonical declarations are fixed points, and a search finds exactly them. In a file of a parsed language
whose tree is well-formed and has no identifier above another one, let a place name a symbol. If the symbol is
free, the search for its declarations finds nothing. If it is bound, one identifier stands where it says that
it is declared; this is recorded with the name and the namespace of the symbol, names the symbol itself, and
is what the search for declarations finds where declarations hide each other. Where a name is rebound, the
search finds the declarations of the name that are bound in the same scope, this one first. The search crashes
only if some identifier of the file ends behind the source. -/
theorem canonical_declarations {file : Snapshot} {g : Grammar} (grammar : file.grammar = some g)
    (wellFormed : file.tree.WellFormed) (unnested : g.UnnestedIdentifiers file.tree) {p : Place}
    {symbol : Symbol} (resolved : Symbol.lexical? file p = some symbol) :
    let search := (Engine.lexical ⟨symbol, [file], .declarations⟩).exec fun _ => false
    (search.ending = if file.Readable then .finished else .crashed) ∧
    match symbol with
    | .free _ _ => file.Readable → search.found = []
    | .bound _ space name range => ∃ q d, file.Declares g q d ∧
        d.range = range ∧ d.space = space ∧ d.name = name ∧
        (∀ r ∈ file.places, g.isIdentifier r.node.kind = true → r.node.range = range → r = q) ∧
        Symbol.lexical? file q = some symbol ∧
        (file.Readable → match g.rebinding with
        | .shadow => search.found = [Engine.elementMatch file q]
        | .reassign =>
          List.Forall₂ (fun m e => ∃ r, file.Declares g r e ∧ m = Engine.elementMatch file r)
            search.found (file.scopes.boundWith d) ∧
          search.found.head? = some (Engine.elementMatch file q)) := by
  intro search
  have delivered := Engine.delivered_lexical (q := ⟨symbol, [file], .declarations⟩) (by simp [grammar])
  rw [Query.answers, List.flatMap_singleton] at delivered
  simp only [List.forall_mem_singleton] at delivered
  have found : file.Readable → search.found = _ := fun readable =>
    (Run.exec_of_delivered (delivered.trans (if_pos readable))).2
  refine ⟨?_, ?_⟩
  · split
    · rename_i readable
      exact (Run.exec_of_delivered (delivered.trans (if_pos readable))).1
    · rename_i unreadable
      exact Run.ending_of_delivered (delivered.trans (if_neg unreadable))
  cases symbol with
  | free space name =>
    intro readable
    rw [found readable, List.map_eq_nil_iff, List.filter_eq_nil_iff]
    intro q hq asked
    obtain ⟨e, -, bound⟩ :=
      (Snapshot.asksFor_declarations_iff grammar wellFormed unnested _ _ hq).1 asked
    cases bound
  | bound document space name range =>
    obtain rfl := Symbol.document_of_lexical? resolved
    obtain ⟨d, hd, rfl, rfl, rfl, stands⟩ := Snapshot.declaration_of_lexical? grammar resolved
    obtain ⟨q, hq, made⟩ := (Snapshot.mem_declarations_iff grammar).1 hd
    have declares := Snapshot.declares_of_declared? grammar hq made
    refine ⟨q, d, declares, rfl, rfl, rfl, ?_, ?_, ?_⟩
    · intro r hr identifier range
      exact declares.unique grammar wellFormed unnested hr identifier range
    · rw [Snapshot.lexical?_of_declared? grammar wellFormed unnested hq made, stands]
    · intro readable
      rw [found readable]
      cases rebinding : g.rebinding with
      | shadow =>
        rw [Snapshot.filter_asksFor_shadow grammar wellFormed unnested hd stands hq made rebinding]
        rfl
      | reassign =>
        exact Snapshot.filter_asksFor_reassign grammar wellFormed unnested hd stands hq made rebinding _

/-- A parse of the text `a=1` followed by `a=a`. -/
def Snapshot.rebound : Snapshot where
  document := 0
  language := .python
  revision := 0
  source := "a=1\na=a\n".toList
  tree := .node ⟨"module", ⟨0, 8⟩, none⟩ [
    .node ⟨"expression_statement", ⟨0, 3⟩, none⟩ [
      .node ⟨"assignment", ⟨0, 3⟩, none⟩ [
        .node ⟨"identifier", ⟨0, 1⟩, some "left"⟩ [],
        .node ⟨"=", ⟨1, 2⟩, none⟩ [],
        .node ⟨"integer", ⟨2, 3⟩, some "right"⟩ []]],
    .node ⟨"expression_statement", ⟨4, 7⟩, none⟩ [
      .node ⟨"assignment", ⟨4, 7⟩, none⟩ [
        .node ⟨"identifier", ⟨4, 5⟩, some "left"⟩ [],
        .node ⟨"=", ⟨5, 6⟩, none⟩ [],
        .node ⟨"identifier", ⟨6, 7⟩, some "right"⟩ []]]]

/-- The last `a` names a symbol that both assignments declare, the first one first. -/
theorem canonical_declarations_rebound :
    ∃ p ∈ Snapshot.rebound.places, p.node.range = ⟨6, 7⟩ ∧
      Symbol.lexical? .rebound p = some (.bound 0 .value ['a'] ⟨0, 1⟩) ∧
      let search := (Engine.lexical ⟨.bound 0 .value ['a'] ⟨0, 1⟩, [.rebound], .declarations⟩).exec
        fun _ => false
      ∃ q d, Snapshot.rebound.Declares .python q d ∧ d.range = ⟨0, 1⟩ ∧
        List.Forall₂ (fun m e => ∃ r, Snapshot.rebound.Declares .python r e ∧
          m = Engine.elementMatch .rebound r) search.found (Snapshot.rebound.scopes.boundWith d) ∧
        search.found.head? = some (Engine.elementMatch .rebound q) ∧ search.found.length = 2 := by
  have resolved : Symbol.lexical? .rebound ((Snapshot.rebound.places[10]?).getD default) =
      some (.bound 0 .value ['a'] ⟨0, 1⟩) := by decide +kernel
  refine ⟨_, by decide +kernel, by decide, resolved, ?_⟩
  obtain ⟨-, q, d, declares, range, -, -, -, -, found⟩ :=
    canonical_declarations (g := .python) rfl (by decide) (by decide) resolved
  obtain ⟨all, first⟩ := found (by decide)
  exact ⟨q, d, declares, range, all, first, by decide +kernel⟩

end Highlight
