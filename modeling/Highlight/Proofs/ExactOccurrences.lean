import Mathlib.Data.List.Basic
import Highlight.Proofs.OccurrenceClasses
import Highlight.Proofs.Replacement

/-!
# Exactly the occurrences

In a text that is still as it was parsed, a caret in an identifier finds one span for every node that resolves
like this identifier, in pre-order, and a caret anywhere else finds nothing (`unedited_occurrences_exact`).
A span counts the characters in front of its node and those of the node.

All that is asked of the tree is that its nodes begin and end between two characters: then none of the reasons
to drop a match arises (`Span.derive_unedited`).
-/

namespace Highlight

namespace Text

/-- The number of characters that begin in front of a byte offset. -/
def charsBefore : Text → Nat → Nat
  | [], _ => 0
  | c :: t, byte => if byte = 0 then 0 else charsBefore t (byte - c.utf8Size) + 1

theorem charsBefore_byteLength (a b : Text) : charsBefore (a ++ b) (byteLength a) = a.length := by
  induction a with
  | nil => cases b <;> simp [charsBefore]
  | cons c a ih =>
    have := Char.utf8Size_pos c
    rw [List.cons_append, charsBefore, byteLength_cons, if_neg (by omega), Nat.add_sub_cancel_left, ih]
    rfl

theorem cut?_of_boundaries {t : Text} {r : ByteRange} (ordered : r.start ≤ r.stop)
    (start : (splitAt? t r.start).isSome = true) (stop : (splitAt? t r.stop).isSome = true) :
    ∃ cut, cut? t r = some cut := by
  obtain ⟨⟨before, rest⟩, atStart⟩ := Option.isSome_iff_exists.1 start
  obtain ⟨⟨front, after⟩, atStop⟩ := Option.isSome_iff_exists.1 stop
  obtain ⟨whole, startLength⟩ := splitAt?_eq_some_iff.1 atStart
  obtain ⟨whole', stopLength⟩ := splitAt?_eq_some_iff.1 atStop
  obtain ⟨inside, rfl⟩ := front_of_byteLength_le (whole.symm.trans whole') (by omega)
  exact ⟨⟨before, inside, after⟩, cut?_eq_some_iff.2 ⟨whole', startLength, stopLength⟩⟩

end Text

/-- Every node begins and ends between two characters of the text. -/
def Tree.Aligned (t : Tree) (source : Text) : Prop :=
  ∀ p ∈ t.places, (Text.splitAt? source p.node.range.start).isSome = true ∧
    (Text.splitAt? source p.node.range.stop).isSome = true

instance (t : Tree) (source : Text) : Decidable (t.Aligned source) :=
  inferInstanceAs (Decidable (∀ _ ∈ _, _))

theorem Mapping.between_self (t : Text) : between t t = identity := by
  rw [between, Edit.between_eq_none_iff.2 rfl]
  rfl

namespace Span

/-- The characters of a byte range: how many are in front of it and how many are in it. -/
def ofRange (t : Text) (r : ByteRange) : Span :=
  ⟨t.charsBefore r.start, t.charsBefore r.stop - t.charsBefore r.start⟩

theorem ofRange_eq {t : Text} {r : ByteRange} {cut : Text.Cut} (h : Text.cut? t r = some cut) :
    ofRange t r = ⟨cut.before.length, cut.inside.length⟩ := by
  obtain ⟨whole, start, stop⟩ := Text.cut?_eq_some_iff.1 h
  have first : t.charsBefore r.start = cut.before.length := by
    rw [whole, ← start, List.append_assoc, Text.charsBefore_byteLength]
  have last : t.charsBefore r.stop = (cut.before ++ cut.inside).length := by
    rw [whole, ← stop, Text.charsBefore_byteLength]
  rw [ofRange, first, last, List.length_append, Nat.add_sub_cancel_left]

theorem grewInto_self (c : Option Char) : grewInto c c = false := by
  simp [grewInto]

theorem ofCuts_self {t : Text} {r : ByteRange} {cut : Text.Cut} (h : Text.cut? t r = some cut)
    (inhabited : r.start < r.stop) :
    ofCuts cut cut t.length = .ok ⟨cut.before.length, cut.inside.length⟩ := by
  obtain ⟨whole, start, stop⟩ := Text.cut?_eq_some_iff.1 h
  have nonempty : 0 < cut.inside.length := by
    rw [Text.byteLength_append] at stop
    refine List.length_pos_of_ne_nil ?_
    intro nothing
    rw [nothing, Text.byteLength_nil] at stop
    omega
  have fit : fits ⟨cut.before.length, cut.inside.length⟩ t.length = true := by
    simp [fits, Span.stop, nonempty, whole]
  simp [ofCuts, grewInto_self, fit]

/-- In the text that was parsed every identifier with some text has its span. -/
theorem derive_unedited {file : Snapshot} {g : Grammar} (grammar : file.grammar = some g)
    {range : ByteRange} {kind : String} (identifier : g.isIdentifier kind = true)
    (inhabited : range.isEmpty = false) {cut : Text.Cut} (h : Text.cut? file.source range = some cut) :
    derive file range kind file.source (.between file.source file.source) =
      .ok (ofRange file.source range) := by
  rw [ofRange_eq h, ← ofCuts_self h (ByteRange.isEmpty_eq_false_iff.1 inhabited)]
  simp [derive, grammar, identifier, inhabited, h, Mapping.between_self, Mapping.identity,
    Mapping.rangeToLive]

end Span

section Unedited

variable {file : Snapshot} {g : Grammar}

theorem parsedByte?_unedited (t : Text) (caret : Nat) :
    parsedByte? t (.between t t) caret = Text.byteOffset? t caret := by
  rw [parsedByte?, Mapping.between_self]
  cases Text.byteOffset? t caret <;> rfl

theorem Snapshot.cut?_of_identifierAt? (grammar : file.grammar = some g)
    (aligned : file.tree.Aligned file.source) {byte : Nat} {e : Place}
    (h : file.identifierAt? byte = some e) :
    g.isIdentifier e.node.kind = true ∧ e.node.range.isEmpty = false ∧
      ∃ cut, Text.cut? file.source e.node.range = some cut := by
  obtain ⟨place, identifier, inside⟩ := identifierAt?_eq_some grammar h
  have inside := ByteRange.contains_iff.1 inside
  rw [file.places_eq] at place
  obtain ⟨start, stop⟩ := aligned e place
  exact ⟨identifier, ByteRange.isEmpty_eq_false_iff.2 (by omega),
    Text.cut?_of_boundaries (by omega) start stop⟩

/-- A text whose nodes stand between its characters can be read. -/
theorem Tree.Aligned.readable (aligned : file.tree.Aligned file.source) : file.Readable := by
  intro p hp _
  rw [file.places_eq] at hp
  obtain ⟨⟨before, after⟩, cut⟩ := Option.isSome_iff_exists.1 (aligned p hp).2
  obtain ⟨whole, length⟩ := Text.splitAt?_eq_some_iff.1 cut
  rw [whole, Text.byteLength_append, length]
  exact Nat.le_add_right ..

/-- No occurrence of a symbol is dropped from the text that was parsed. -/
theorem Pipeline.spansOf_unedited (grammar : file.grammar = some g) (symbol : Symbol) :
    spansOf g file file.source symbol =
      (file.places.filter fun p => Symbol.lexical? file p = some symbol).map fun p =>
        Span.ofRange file.source p.node.range := by
  rw [spansOf, Engine.occurrences_eq grammar, List.filterMap_eq_map_iff_forall_eq_some]
  intro p hp
  have resolved : Symbol.lexical? file p = some symbol := of_decide_eq_true (List.mem_filter.1 hp).2
  obtain ⟨identifier, inhabited, text, -⟩ :=
    Symbol.named?_eq_some (Symbol.named?_of_lexical? grammar resolved)
  obtain ⟨cut, hc, -⟩ := Option.map_eq_some_iff.1 text
  rw [Span.derive?, Span.derive_unedited grammar identifier inhabited hc]
  rfl

end Unedited

/-- A caret finds exactly the occurrences. Where the live text is the parsed one and the nodes of the tree
stand between characters, the spans for a caret are, in pre-order, those of all nodes that resolve like the
identifier around the caret's byte, and there are none if the caret has no byte or no identifier is there. -/
theorem unedited_occurrences_exact (file : Snapshot) (aligned : file.tree.Aligned file.source)
    (caret : Nat) :
    (Pipeline.lexical.select (fun _ => false) file file.source caret 0 .start).map (·.spans?) =
      .ok (((Text.byteOffset? file.source caret).bind file.identifierAt?).map fun e =>
        (file.tree.places.filter fun p => Symbol.lexical? file p = Symbol.lexical? file e).map fun p =>
          Span.ofRange file.source p.node.range) := by
  have readable := aligned.readable
  rw [(Pipeline.crashFree_lexical readable).spans?_select, ← parsedByte?_unedited]
  congr 1
  cases found : (parsedByte? file.source (.between file.source file.source) caret).bind
      file.identifierAt? with
  | none => exact Pipeline.spansFor?_of_no_identifier found
  | some e =>
    obtain ⟨byte, atByte, found⟩ := Option.bind_eq_some_iff.1 found
    cases grammar : file.grammar with
    | none => simp [Snapshot.identifierAt?, grammar] at found
    | some g =>
      obtain ⟨identifier, inhabited, cut, hc⟩ := Snapshot.cut?_of_identifierAt? grammar aligned found
      have placed := Span.derive_unedited grammar identifier inhabited hc
      have picked := elementAt_caret_of_derive atByte found placed
      have text : Text.slice? file.source e.node.range = some cut.inside := by
        rw [Text.slice?, hc]
        rfl
      obtain ⟨symbol, resolved⟩ := Symbol.lexical?_isSome grammar identifier inhabited text
      rw [Pipeline.spansFor?_lexical grammar readable picked resolved,
        Pipeline.spansOf_unedited grammar, Option.map_some, resolved, file.places_eq]

/-- Around an `é` the two occurrences of `x` are found, counted in characters. -/
theorem unedited_occurrences_exact_accented :
    Snapshot.twoOccurrences.tree.Aligned Snapshot.twoOccurrences.source ∧
      (Pipeline.lexical.select (fun _ => false) .twoOccurrences ['x', '+', 'é', '+', 'x'] 4 0 .start).map
        (·.spans?) = .ok (some [⟨0, 1⟩, ⟨4, 1⟩]) := by
  have aligned : Snapshot.twoOccurrences.tree.Aligned Snapshot.twoOccurrences.source := by decide
  refine ⟨aligned, (unedited_occurrences_exact .twoOccurrences aligned 4).trans ?_⟩
  decide +kernel

end Highlight
