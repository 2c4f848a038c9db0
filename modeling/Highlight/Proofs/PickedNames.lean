import Highlight.Proofs.OccurrenceClasses

/-!
# Picking the names that a search finds

A search looks at the nodes of the captured kinds wherever they stand in the tree, while a caret picks the
innermost node around it and only then looks at the kind. So a captured name is picked from those of its
bytes that no node below it covers (`captured_name_picked`). A name that is spelled by a token of its own is
found by the search and picked from none of its bytes (`token_hides_name`).
-/

namespace Highlight

variable {file : Snapshot} {g : Grammar} {n : Place} {b : Nat}

/-- A caret before the byte picks some identifier of the same symbol as the place. -/
def Snapshot.Picks (file : Snapshot) (b : Nat) (n : Place) : Prop :=
  ∃ e, file.identifierAt? b = some e ∧ Symbol.lexical? file e = Symbol.lexical? file n

namespace Snapshot

/-- A captured name is picked from a byte of its own that nothing below it covers. -/
theorem identifierAt?_of_bare (grammar : file.grammar = some g) (wellFormed : file.tree.WellFormed)
    (captured : n ∈ Engine.captures g file) (inside : n.node.range.contains b = true)
    (inText : b < Text.byteLength file.source) (bare : file.tree.Bare b n) :
    file.identifierAt? b = some n := by
  obtain ⟨place, identifier⟩ := (Engine.mem_captures grammar).1 captured
  rw [isIdentifier_eq grammar] at identifier
  rw [file.places_eq] at place
  exact (identifierAt?_eq_some_iff grammar wellFormed inText).2 ⟨⟨place, inside, bare⟩, identifier⟩

/-- What the innermost node is decides what is picked, whatever the nodes above it are. -/
theorem identifierAt?_of_innermost (grammar : file.grammar = some g)
    (wellFormed : file.tree.WellFormed) (inText : b < Text.byteLength file.source) {e : Place}
    (inner : file.tree.Innermost b e) :
    file.identifierAt? b = if g.isIdentifier e.node.kind then some e else none := by
  by_cases identifier : g.isIdentifier e.node.kind = true
  · rw [if_pos identifier]
    exact (identifierAt?_eq_some_iff grammar wellFormed inText).2 ⟨inner, identifier⟩
  · rw [if_neg identifier, Option.eq_none_iff_forall_ne_some]
    intro p found
    obtain ⟨other, kind⟩ := (identifierAt?_eq_some_iff grammar wellFormed inText).1 found
    have same : some p = some e := by
      rw [← (Tree.deepestAt?_eq_some_iff wellFormed other.covers).2 other,
        ← (Tree.deepestAt?_eq_some_iff wellFormed inner.covers).2 inner]
    cases same
    exact identifier kind

end Snapshot

/-- A byte of a captured name picks an identifier of the same symbol exactly when nothing below the name
covers the byte, and then it picks the name itself, or when the innermost node below it there is an
identifier of that symbol. Where that node is no identifier, the byte picks nothing. -/
theorem captured_name_picked (grammar : file.grammar = some g) (wellFormed : file.tree.WellFormed)
    (captured : n ∈ Engine.captures g file) (inside : n.node.range.contains b = true)
    (inText : b < Text.byteLength file.source) :
    (file.Picks b n ↔ file.tree.Bare b n ∨ ∃ e, file.tree.Innermost b e ∧ n.node ∈ e.above ∧
        g.isIdentifier e.node.kind = true ∧ Symbol.lexical? file e = Symbol.lexical? file n) ∧
      (file.tree.Bare b n → file.identifierAt? b = some n) ∧
      ∀ e, file.tree.Innermost b e → n.node ∈ e.above → g.isIdentifier e.node.kind = false →
        file.identifierAt? b = none := by
  have place := ((Engine.mem_captures grammar).1 captured).1
  rw [file.places_eq] at place
  have whole := Snapshot.identifierAt?_of_bare grammar wellFormed captured inside inText
  refine ⟨⟨?_, ?_⟩, whole, ?_⟩
  · rintro ⟨e, found, same⟩
    obtain ⟨inner, identifier⟩ :=
      (Snapshot.identifierAt?_eq_some_iff grammar wellFormed inText).1 found
    rcases inner.below wellFormed place inside with rfl | below
    · exact Or.inl inner.bare
    · exact Or.inr ⟨e, inner, below, identifier, same⟩
  · rintro (bare | ⟨e, inner, -, identifier, same⟩)
    · exact ⟨n, whole bare, rfl⟩
    · exact ⟨e, (Snapshot.identifierAt?_eq_some_iff grammar wellFormed inText).2
        ⟨inner, identifier⟩, same⟩
  · intro e inner _ other
    rw [Snapshot.identifierAt?_of_innermost grammar wellFormed inText inner, other]
    rfl

/-- A parse of `function isT(object: any): object is T { return object }`. The second `object` is an
identifier that is spelled by the token of the type `object`. -/
def Snapshot.typePredicate : Snapshot where
  document := 0
  language := .typeScript
  revision := 0
  source := "function isT(object: any): object is T \x7b return object \x7d".toList
  tree := .node ⟨"program", ⟨0, 56⟩, none⟩ [
    .node ⟨"function_declaration", ⟨0, 56⟩, none⟩ [
      .node ⟨"function", ⟨0, 8⟩, none⟩ [],
      .node ⟨"identifier", ⟨9, 12⟩, some "name"⟩ [],
      .node ⟨"formal_parameters", ⟨12, 25⟩, some "parameters"⟩ [
        .node ⟨"(", ⟨12, 13⟩, none⟩ [],
        .node ⟨"required_parameter", ⟨13, 24⟩, none⟩ [
          .node ⟨"identifier", ⟨13, 19⟩, some "pattern"⟩ [],
          .node ⟨"type_annotation", ⟨19, 24⟩, some "type"⟩ [
            .node ⟨":", ⟨19, 20⟩, none⟩ [],
            .node ⟨"predefined_type", ⟨21, 24⟩, none⟩ [
              .node ⟨"any", ⟨21, 24⟩, none⟩ []]]],
        .node ⟨")", ⟨24, 25⟩, none⟩ []],
      .node ⟨"type_predicate_annotation", ⟨25, 38⟩, some "return_type"⟩ [
        .node ⟨":", ⟨25, 26⟩, none⟩ [],
        .node ⟨"type_predicate", ⟨27, 38⟩, none⟩ [
          .node ⟨"identifier", ⟨27, 33⟩, some "name"⟩ [
            .node ⟨"object", ⟨27, 33⟩, none⟩ []],
          .node ⟨"is", ⟨34, 36⟩, none⟩ [],
          .node ⟨"type_identifier", ⟨37, 38⟩, some "type"⟩ []]],
      .node ⟨"statement_block", ⟨39, 56⟩, some "body"⟩ [
        .node ⟨"\x7b", ⟨39, 40⟩, none⟩ [],
        .node ⟨"return_statement", ⟨41, 54⟩, none⟩ [
          .node ⟨"return", ⟨41, 47⟩, none⟩ [],
          .node ⟨"identifier", ⟨48, 54⟩, none⟩ []],
        .node ⟨"\x7d", ⟨55, 56⟩, none⟩ []]]]

/-- The place of that tree with some number. -/
def Place.ofTypePredicate (n : Nat) : Place := (Snapshot.typePredicate.places[n]?).getD default

/-- The last `object` is picked from its third character, and the second one not. -/
theorem captured_name_picked_type_predicate :
    let name := Place.ofTypePredicate 16
    let use := Place.ofTypePredicate 24
    Snapshot.typePredicate.identifierAt? 50 = some use ∧
      Symbol.lexical? .typePredicate name = Symbol.lexical? .typePredicate use ∧
      ¬Snapshot.typePredicate.Picks 29 name := by
  intro name use
  have wellFormed : Snapshot.typePredicate.tree.WellFormed := by decide +kernel
  have picked := captured_name_picked (g := .typeScript) (n := use) (b := 50) rfl wellFormed
    (by decide +kernel) (by decide) (by decide)
  have hidden := captured_name_picked (g := .typeScript) (n := name) (b := 29) rfl wellFormed
    (by decide +kernel) (by decide) (by decide)
  refine ⟨picked.2.1 (by decide +kernel), by decide +kernel, ?_⟩
  -- the token below the second `object` covers the byte
  have token : Snapshot.typePredicate.tree.Innermost 29 (.ofTypePredicate 17) :=
    ⟨by decide +kernel, by decide, by decide +kernel⟩
  have nothing := hidden.2.2 _ token (by decide) (by decide)
  rintro ⟨e, found, -⟩
  rw [nothing] at found
  cases found

/-- The second `object` is captured and means the parameter, but no byte of it picks an identifier. -/
theorem token_hides_name :
    let name := Place.ofTypePredicate 16
    Snapshot.typePredicate.grammar = some .typeScript ∧ Snapshot.typePredicate.tree.WellFormed ∧
      name ∈ Engine.captures .typeScript .typePredicate ∧ name.node.range = ⟨27, 33⟩ ∧
      Symbol.lexical? .typePredicate name = some (.bound 0 .value "object".toList ⟨13, 19⟩) ∧
      ∀ b, name.node.range.contains b = true → ¬Snapshot.typePredicate.Picks b name := by
  intro name
  refine ⟨rfl, by decide +kernel, by decide +kernel, by decide, by decide +kernel, ?_⟩
  rintro b inside ⟨e, found, -⟩
  have nothing : ∀ b < 33, 27 ≤ b → Snapshot.typePredicate.identifierAt? b = none := by
    decide +kernel
  obtain ⟨begins, ends⟩ := ByteRange.contains_iff.1 inside
  rw [nothing b ends begins] at found
  cases found

end Highlight
