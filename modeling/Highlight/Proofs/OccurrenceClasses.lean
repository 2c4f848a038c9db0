import Highlight.Proofs.LexicalSearch
import Highlight.Proofs.LiveSpans
import Highlight.Proofs.TreeGeometry

/-!
# Occurrences are classes

Highlighting by lexical scopes divides the carets that stand in identifiers into classes: a caret lies in
one of the spans found for it, and every caret in one of these spans finds the same spans
(`occurrence_classes`). So it does not matter at which occurrence of a symbol one asks.

Every identifier that is found is picked again from any caret in its span (`elementAt_of_covers`), and what
is picked from a caret is among the occurrences of the symbol that it names (`mem_spansOf`).
-/

namespace Highlight

/-- Identifiers have nothing below them. -/
def Grammar.LeafIdentifiers (g : Grammar) (t : Tree) : Prop :=
  ∀ p ∈ t.places, ∀ a ∈ p.above, g.isIdentifier a.kind = false

instance (g : Grammar) (t : Tree) : Decidable (g.LeafIdentifiers t) :=
  inferInstanceAs (Decidable (∀ _ ∈ _, _))

/-! ## Picking -/

section Picking

variable {file : Snapshot} {g : Grammar} {live : Text} {m : Mapping} {p : Place}

/-- The identifier around a byte is the innermost node there, if that is an identifier. -/
theorem Snapshot.identifierAt?_eq_some_iff (grammar : file.grammar = some g)
    (wellFormed : file.tree.WellFormed) {b : Nat} (inText : b < Text.byteLength file.source) :
    file.identifierAt? b = some p ↔ file.tree.Innermost b p ∧ g.isIdentifier p.node.kind = true := by
  constructor
  · intro found
    obtain ⟨-, identifier, covers⟩ := identifierAt?_eq_some grammar found
    refine ⟨(Tree.deepestAt?_eq_some_iff wellFormed covers).1 ?_, identifier⟩
    simp only [identifierAt?, grammar, Option.bind_eq_bind, Option.bind_some, inText, if_true] at found
    obtain ⟨deepest, hd, found⟩ := Option.bind_eq_some_iff.1 found
    split at found
    · cases found
      rw [← file.places_eq]
      exact hd
    · cases found
  · rintro ⟨inner, identifier⟩
    have deepest := (Tree.deepestAt?_eq_some_iff wellFormed inner.covers).2 inner
    rw [← file.places_eq] at deepest
    simp only [identifierAt?, grammar, Option.bind_eq_bind, Option.bind_some, inText, if_true,
      deepest, identifier, inner.covers, Bool.and_self]

/-- An identifier of the text is found around each of its bytes. -/
theorem Snapshot.identifierAt?_of_contains (grammar : file.grammar = some g)
    (wellFormed : file.tree.WellFormed) (leaves : g.LeafIdentifiers file.tree)
    (hp : p ∈ file.places) (identifier : g.isIdentifier p.node.kind = true)
    (inText : p.node.range.stop ≤ Text.byteLength file.source) {b : Nat}
    (hb : p.node.range.contains b = true) : file.identifierAt? b = some p := by
  have inSource : b < Text.byteLength file.source :=
    Nat.lt_of_lt_of_le (ByteRange.contains_iff.1 hb).2 inText
  rw [file.places_eq] at hp
  have bare : file.tree.Bare b p := by
    intro q hq above
    have := leaves q hq p.node above
    rw [identifier] at this
    cases this
  exact (identifierAt?_eq_some_iff grammar wellFormed inSource).2 ⟨⟨hp, hb, bare⟩, identifier⟩

/-- What a caret picks, step by step. -/
theorem elementAt_caret_eq_ok {caret : Nat} (h : elementAt file live m caret 0 .start = .ok p) :
    ∃ b s, parsedByte? live m caret = some b ∧ file.identifierAt? b = some p ∧
      Span.derive file p.node.range p.node.kind live m = .ok s := by
  unfold elementAt at h
  split at h
  · cases h
  rename_i b hb
  split at h
  · cases h
  rename_i element he
  split at h
  · cases h
  rename_i s hs
  simp only [reduceCtorEq, false_and, if_false] at h
  cases h
  exact ⟨b, s, hb, he, hs⟩

theorem elementAt_caret_of_derive {caret b : Nat} {s : Span} (hb : parsedByte? live m caret = some b)
    (hp : file.identifierAt? b = some p)
    (hs : Span.derive file p.node.range p.node.kind live m = .ok s) :
    elementAt file live m caret 0 .start = .ok p := by
  simp only [elementAt, hb, hp, hs, reduceCtorEq, false_and, if_false]

theorem elementAt_of_covers (grammar : file.grammar = some g) (wellFormed : file.tree.WellFormed)
    (leaves : g.LeafIdentifiers file.tree) (addressable : live.Addressable) (hp : p ∈ file.places)
    (identifier : g.isIdentifier p.node.kind = true) {s : Span}
    (hs : Span.derive file p.node.range p.node.kind live (.between file.source live) = .ok s)
    {caret : Nat} (covers : s.Covers caret) :
    elementAt file live (.between file.source live) caret 0 .start = .ok p := by
  obtain ⟨b, hb, inside⟩ := (Span.covers_derive_iff addressable hs caret).1 covers
  obtain ⟨-, parsed, cut, -⟩ := Span.derive_eq_ok hs
  have found := Snapshot.identifierAt?_of_contains grammar wellFormed leaves hp identifier
    (Text.stop_le_of_cut? cut) inside
  exact elementAt_caret_of_derive hb found hs

end Picking

/-! ## The main statement -/

namespace Pipeline

/-- The spans for a caret; none where it stands in no identifier. -/
def spansAt? (p : Pipeline) (file : Snapshot) (live : Text) (caret : Nat) : Option (List Span) :=
  p.spansFor? file live .start caret 0

theorem mem_spansOf {file : Snapshot} {g : Grammar} {live : Text} {symbol : Symbol} {s : Span} :
    s ∈ spansOf g file live symbol ↔ ∃ p ∈ file.places, g.captures.contains p.node.kind = true ∧
      Symbol.lexical? file p = some symbol ∧
      Span.derive file p.node.range p.node.kind live (.between file.source live) = .ok s := by
  simp only [spansOf, Engine.occurrences, Engine.captures, List.mem_filterMap, List.mem_filter,
    decide_eq_true_eq, Span.derive?, and_assoc]
  constructor
  · rintro ⟨p, hp, captured, resolved, placed⟩
    cases hs : Span.derive file p.node.range p.node.kind live (.between file.source live) with
    | error reason => simp [hs, Except.toOption] at placed
    | ok s' =>
      simp only [hs, Except.toOption, Option.some.injEq] at placed
      exact ⟨p, hp, captured, resolved, placed ▸ hs⟩
  · rintro ⟨p, hp, captured, resolved, hs⟩
    exact ⟨p, hp, captured, resolved, by rw [hs]; rfl⟩

/-- The element that a caret picks names a symbol, and the spans for the caret are those of its
occurrences. Its search did not crash, so no other one over the file will. -/
theorem spansAt?_eq_some {file : Snapshot} {live : Text} {caret : Nat} {spans : List Span}
    (h : lexical.spansAt? file live caret = some spans) :
    ∃ g p symbol, file.grammar = some g ∧ file.Readable ∧
      elementAt file live (.between file.source live) caret 0 .start = .ok p ∧
      Symbol.lexical? file p = some symbol ∧ spans = spansOf g file live symbol := by
  obtain ⟨p, report, picked, searched, -⟩ := find_of_spansFor? h
  obtain ⟨b, s, -, found, hs⟩ := elementAt_caret_eq_ok picked
  cases grammar : file.grammar with
  | none =>
    rw [Snapshot.identifierAt?_of_no_grammar grammar] at found
    cases found
  | some g =>
    obtain ⟨-, identifier, -⟩ := Snapshot.identifierAt?_eq_some grammar found
    obtain ⟨inhabited, parsed, cut, -⟩ := Span.derive_eq_ok hs
    obtain ⟨symbol, resolved⟩ := Symbol.lexical?_isSome grammar identifier
      (ByteRange.isEmpty_eq_false_iff.2 inhabited)
      (show Text.slice? file.source p.node.range = some parsed.inside by rw [Text.slice?, cut]; rfl)
    have readable := readable_of_find grammar searched resolved
    have spans_eq := (spansFor?_lexical grammar readable picked resolved).symm.trans h
    exact ⟨g, p, symbol, rfl, readable, picked, resolved, (Option.some.inj spans_eq).symm⟩

end Pipeline

/-- Occurrences are classes. Over a well-formed tree whose identifiers have nothing below them, and with
any live text that machine words can address, a caret that has spans lies in one of them, and every caret
in one of them has the same spans. -/
theorem occurrence_classes {file : Snapshot} {live : Text} {caret : Nat} {spans : List Span}
    (wellFormed : file.tree.WellFormed) (leaves : ∀ g ∈ file.grammar, g.LeafIdentifiers file.tree)
    (addressable : live.Addressable)
    (h : Pipeline.lexical.spansAt? file live caret = some spans) :
    (∃ s ∈ spans, s.Covers caret) ∧
      ∀ s ∈ spans, ∀ c, s.Covers c → Pipeline.lexical.spansAt? file live c = some spans := by
  obtain ⟨g, p, symbol, grammar, readable, picked, resolved, rfl⟩ := Pipeline.spansAt?_eq_some h
  constructor
  · obtain ⟨b, s, hb, found, hs⟩ := elementAt_caret_eq_ok picked
    obtain ⟨hp, identifier, inside⟩ := Snapshot.identifierAt?_eq_some grammar found
    have captured := Grammar.captures_of_isIdentifier grammar identifier
    exact ⟨s, Pipeline.mem_spansOf.2 ⟨p, hp, captured, resolved, hs⟩,
      (Span.covers_derive_iff addressable hs caret).2 ⟨b, hb, inside⟩⟩
  · intro s hs c covers
    obtain ⟨q, hq, -, resolved, placed⟩ := Pipeline.mem_spansOf.1 hs
    have identifier := (Symbol.named?_eq_some (Symbol.named?_of_lexical? grammar resolved)).1
    have picked := elementAt_of_covers grammar wellFormed (leaves g grammar) addressable hq identifier
      placed covers
    exact Pipeline.spansFor?_lexical grammar readable picked resolved

/-- A parse of the text `x+é+x`. -/
def Snapshot.twoOccurrences : Snapshot where
  document := 0
  language := .javaScript
  revision := 0
  source := ['x', '+', 'é', '+', 'x']
  tree := .node ⟨"program", ⟨0, 6⟩, none⟩ [
    .node ⟨"identifier", ⟨0, 1⟩, none⟩ [],
    .node ⟨"identifier", ⟨2, 4⟩, none⟩ [],
    .node ⟨"identifier", ⟨5, 6⟩, none⟩ []]

/-- Between the two occurrences a character of two bytes has been put in; each is found from the other. -/
theorem occurrence_classes_edited :
    let live := ['x', '+', 'é', 'é', '+', 'x']
    Pipeline.lexical.spansAt? .twoOccurrences live 5 = some [⟨0, 1⟩, ⟨5, 1⟩] ∧
      Pipeline.lexical.spansAt? .twoOccurrences live 0 = some [⟨0, 1⟩, ⟨5, 1⟩] := by
  intro live
  have behind : Pipeline.lexical.spansAt? .twoOccurrences live 5 = some [⟨0, 1⟩, ⟨5, 1⟩] := by
    decide +kernel
  have leaves : ∀ g ∈ Snapshot.twoOccurrences.grammar,
      g.LeafIdentifiers Snapshot.twoOccurrences.tree := by
    rintro g ⟨⟩
    decide
  have classes := occurrence_classes (by decide) leaves (by decide) behind
  exact ⟨behind, classes.2 ⟨0, 1⟩ (by decide) 0 ⟨by decide, by decide⟩⟩

end Highlight
