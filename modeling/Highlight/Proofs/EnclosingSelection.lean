import Mathlib.Data.List.Basic
import Highlight.Proofs.OccurrenceClasses

/-!
# Selections that an identifier encloses

In the mode `enclosing` a selection picks an identifier if the whole of it lies in the identifier. Both ends of
the selection are led back into the parsed text, each by itself. For the start this is right: a caret stands in
front of the character that it picks. The end stands behind a character, and where an edit begins right behind
the identifier, the offset there belongs to the edit and no longer to the identifier. So in that one place a
selection up to the end of the identifier picks nothing, and one that goes on to the end of an insertion there
picks the identifier that it leaves (`whole_name_not_enclosed`). Everywhere else the mode does what it says
(`enclosed_selection_picks`).
-/

namespace Highlight

/-! ## The end of a selection -/

namespace Mapping

/-- The edited region, if it begins right behind a range. -/
def editBehind? (m : Mapping) (range : ByteRange) : Option Region :=
  m.region.filter fun r => r.start = range.stop

theorem editBehind?_eq_some {m : Mapping} {range : ByteRange} {r : Region}
    (h : m.editBehind? range = some r) : m.region = some r ∧ r.start = range.stop := by
  simpa [editBehind?, Option.filter_eq_some_iff] using h

theorem start_ne_of_editBehind? {m : Mapping} {range : ByteRange} {r : Region}
    (h : m.editBehind? range = none) (hr : m.region = some r) : r.start ≠ range.stop := by
  simpa [editBehind?, hr] using h

section Ends

variable {parsed live : Text} {range liveRange : ByteRange} {x : Nat} (addressable : live.Addressable)
  (inText : range.stop ≤ Text.byteLength parsed) (inhabited : range.start < range.stop)
  (h : (between parsed live).rangeToLive range = some liveRange) (begun : liveRange.start < x)

include addressable inText inhabited h begun

/-- Behind the start of a range, the offsets that lead back to no offset behind the range are those up to the
end of its live range, unless an edit begins there. -/
theorem toParsed_le_stop_iff (apart : (between parsed live).editBehind? range = none) :
    (∃ b, (between parsed live).toParsed x = some b ∧ b ≤ range.stop) ↔ x ≤ liveRange.stop := by
  rcases rangeToLive_cases addressable inText inhabited h with ⟨hr, rfl⟩ | ⟨r, hr, place⟩
  · simp [toParsed, hr]
  · obtain ⟨oldOrder, newOrder, -, -⟩ := region_between hr
    have elsewhere := start_ne_of_editBehind? apart hr
    simp only [toParsed, hr, shift_eq_some_iff]
    rcases place with ⟨before, rfl⟩ | ⟨behind, rfl⟩
    · constructor
      · rintro ⟨b, origin, le⟩
        omega
      · intro le
        exact ⟨x, .inl ⟨by omega, rfl⟩, le⟩
    · dsimp only at begun ⊢
      constructor
      · rintro ⟨b, origin, le⟩
        omega
      · intro le
        exact ⟨x - r.newEnd + r.oldEnd, .inr ⟨by omega, by omega, rfl⟩, by omega⟩

/-- Where an edit begins right behind the range, the end of the live range is not among them, but the end of an
insertion is. -/
theorem toParsed_le_stop_iff_of_editBehind {r : Region}
    (edit : (between parsed live).editBehind? range = some r) :
    (∃ b, (between parsed live).toParsed x = some b ∧ b ≤ range.stop) ↔
      x < liveRange.stop ∨ r.oldEnd = r.start ∧ x = r.newEnd := by
  obtain ⟨hr, here⟩ := editBehind?_eq_some edit
  obtain ⟨oldOrder, newOrder, -, -⟩ := region_between hr
  rcases rangeToLive_cases addressable inText inhabited h with ⟨none, -⟩ | ⟨r', hr', place⟩
  · rw [hr] at none
    cases none
  · obtain rfl : r = r' := Option.some.inj (hr.symm.trans hr')
    -- the range ends where the edit begins, so it does not stand behind it
    rcases place with ⟨before, rfl⟩ | ⟨behind, -⟩
    · simp only [toParsed, hr, shift_eq_some_iff]
      constructor
      · rintro ⟨b, origin, le⟩
        omega
      · rintro (inside | ⟨insertion, rfl⟩)
        · exact ⟨x, .inl ⟨by omega, rfl⟩, by omega⟩
        · exact ⟨r.oldEnd, .inr ⟨by omega, by omega, by omega⟩, by omega⟩
    · omega

end Ends

end Mapping

namespace Span

section Ends

variable {file : Snapshot} {range : ByteRange} {kind : String} {live : Text} {s : Span} {c : Nat}
  (h : derive file range kind live (.between file.source live) = .ok s) (begun : s.offset < c)

include h begun

/-- Both ends of a span and a character offset behind its start, in bytes. -/
theorem bytes_of_derive (inside : c ≤ live.length) :
    ∃ liveRange, (Mapping.between file.source live).rangeToLive range = some liveRange ∧
      range.start < range.stop ∧ range.stop ≤ Text.byteLength file.source ∧
      liveRange.start < Text.byteLength (live.take c) ∧
      (Text.byteLength (live.take c) < liveRange.stop ↔ c < s.stop) ∧
      (Text.byteLength (live.take c) ≤ liveRange.stop ↔ c ≤ s.stop) := by
  obtain ⟨inhabited, parsed, hp, liveRange, hl, cut, hc, rfl⟩ := derive_eq_ok h
  obtain ⟨first, last, room⟩ := Text.cut?_offsets hc
  have starts := Text.byteLength_take_lt_iff live (i := cut.before.length) inside
  have below := Text.byteLength_take_lt_iff live (i := c) room
  have above := Text.byteLength_take_lt_iff live (i := cut.before.length + cut.inside.length) inside
  rw [first] at starts
  rw [last] at below above
  refine ⟨liveRange, hl, inhabited, Text.stop_le_of_cut? hp, starts.2 begun, below, ?_⟩
  show _ ↔ c ≤ cut.before.length + cut.inside.length
  omega

/-- Behind the start of the span, the carets that lead back to no byte behind the identifier are those up to the
end of the span, unless an edit begins there. -/
theorem parsedByte?_le_stop_iff (addressable : live.Addressable)
    (apart : (Mapping.between file.source live).editBehind? range = none) :
    (∃ b, parsedByte? live (.between file.source live) c = some b ∧ b ≤ range.stop) ↔ c ≤ s.stop := by
  by_cases inside : c ≤ live.length
  · obtain ⟨liveRange, hl, inhabited, inText, starts, -, ends⟩ :=
      bytes_of_derive h begun inside
    rw [parsedByte?, Text.byteOffset?, if_pos inside, Option.bind_some, ← ends]
    exact Mapping.toParsed_le_stop_iff addressable inText inhabited hl starts apart
  · have room := stop_le_of_derive h
    simp only [parsedByte?, Text.byteOffset?, if_neg inside, Option.bind_none, reduceCtorEq, false_and,
      exists_false, false_iff]
    omega

theorem parsedByte?_le_stop_iff_of_editBehind (addressable : live.Addressable) {r : Region}
    (edit : (Mapping.between file.source live).editBehind? range = some r) :
    (∃ b, parsedByte? live (.between file.source live) c = some b ∧ b ≤ range.stop) ↔
      c < s.stop ∨ r.oldEnd = r.start ∧ Text.byteOffset? live c = some r.newEnd := by
  by_cases inside : c ≤ live.length
  · obtain ⟨liveRange, hl, inhabited, inText, starts, ends, -⟩ :=
      bytes_of_derive h begun inside
    rw [parsedByte?, Text.byteOffset?, if_pos inside, Option.bind_some, ← ends, Option.some.injEq]
    exact Mapping.toParsed_le_stop_iff_of_editBehind addressable inText inhabited hl starts edit
  · have room := stop_le_of_derive h
    simp only [parsedByte?, Text.byteOffset?, if_neg inside, Option.bind_none, reduceCtorEq, false_and,
      exists_false, and_false, or_false, false_iff]
    omega

end Ends

end Span

/-! ## Picking -/

section Picking

variable {file : Snapshot} {live : Text} {m : Mapping} {offset length : Nat} {p : Place}

/-- A selection picks what its start picks, if its end leads back to no offset behind that. -/
theorem elementAt_enclosing_iff (selects : 0 < length) :
    elementAt file live m offset length .enclosing = .ok p ↔
      elementAt file live m offset 0 .start = .ok p ∧
        ∃ stop, parsedByte? live m (selectionStop offset length) = some stop ∧
          stop ≤ p.node.range.stop := by
  cases hb : parsedByte? live m offset with
  | none => simp [elementAt, hb]
  | some start =>
    cases he : file.identifierAt? start with
    | none => simp [elementAt, hb, he]
    | some element =>
      cases hs : Span.derive file element.node.range element.node.kind live m with
      | error reason => simp [elementAt, hb, he, hs]
      | ok s =>
        simp only [elementAt, hb, he, hs, selects, reduceCtorEq, and_self, false_and, if_true, if_false]
        cases parsedByte? live m (selectionStop offset length) with
        | none => simp
        | some stop =>
          simp only [Option.some.injEq, exists_eq_left']
          constructor
          · intro h
            split at h
            · cases h
            · cases h
              exact ⟨rfl, by omega⟩
          · rintro ⟨⟨rfl⟩, le⟩
            rw [if_neg (by omega)]

variable (wellFormed : file.tree.WellFormed) (leaves : ∀ g ∈ file.grammar, g.LeafIdentifiers file.tree)
  (addressable : live.Addressable) (hp : p ∈ file.places)

include wellFormed leaves addressable hp

/-- A caret picks the identifier whose span it stands in. -/
theorem elementAt_caret_iff :
    elementAt file live (.between file.source live) offset 0 .start = .ok p ↔
      ∃ s, Span.derive file p.node.range p.node.kind live (.between file.source live) = .ok s ∧
        s.Covers offset := by
  constructor
  · intro picked
    obtain ⟨b, s, hb, found, hs⟩ := elementAt_caret_eq_ok picked
    obtain ⟨g, _, _, _, grammar, -⟩ := Span.derive_eq_ok_iff.1 hs
    obtain ⟨-, -, inside⟩ := Snapshot.identifierAt?_eq_some grammar found
    exact ⟨s, hs, (Span.covers_derive_iff addressable hs offset).2 ⟨b, hb, inside⟩⟩
  · rintro ⟨s, hs, covers⟩
    obtain ⟨g, _, _, _, grammar, identifier, -⟩ := Span.derive_eq_ok_iff.1 hs
    exact elementAt_of_covers grammar wellFormed (leaves g grammar) addressable hp identifier hs covers

end Picking

/-! ## The main statement -/

/-- What a selection picks in the mode `enclosing`. Over a well-formed tree whose identifiers have nothing below
them, with any live text that machine words can address and any selection that does not end beyond the largest
machine word:

* where no edit begins right behind an identifier, a selection of some length picks it exactly if the whole of
  the selection lies in the identifier's live span;
* where one does, the selection must begin in the span and end before the end of the span, or else end where the
  edit ends, if the edit only inserts something. -/
theorem enclosed_selection_picks {file : Snapshot} {live : Text} {p : Place} {length : Nat}
    (wellFormed : file.tree.WellFormed) (leaves : ∀ g ∈ file.grammar, g.LeafIdentifiers file.tree)
    (addressable : live.Addressable) (hp : p ∈ file.places) (selects : 0 < length) {offset : Nat}
    (small : offset + length < UInt64.size) :
    let m := Mapping.between file.source live
    (m.editBehind? p.node.range = none →
      (elementAt file live m offset length .enclosing = .ok p ↔
        ∃ s, Span.derive file p.node.range p.node.kind live m = .ok s ∧
          s.offset ≤ offset ∧ offset + length ≤ s.stop)) ∧
    ∀ r, m.editBehind? p.node.range = some r →
      (elementAt file live m offset length .enclosing = .ok p ↔
        ∃ s, Span.derive file p.node.range p.node.kind live m = .ok s ∧ s.Covers offset ∧
          (offset + length < s.stop ∨
            r.oldEnd = r.start ∧ Text.byteOffset? live (offset + length) = some r.newEnd)) := by
  intro m
  rw [elementAt_enclosing_iff selects, selectionStop_eq small,
    elementAt_caret_iff wellFormed leaves addressable hp]
  refine ⟨fun apart => ?_, fun r edit => ?_⟩
  · constructor
    · rintro ⟨⟨s, hs, covers⟩, ends⟩
      have begun : s.offset < offset + length := Nat.lt_of_le_of_lt covers.1 (by omega)
      exact ⟨s, hs, covers.1, (Span.parsedByte?_le_stop_iff hs begun addressable apart).1 ends⟩
    · rintro ⟨s, hs, begins, ends⟩
      exact ⟨⟨s, hs, begins, by omega⟩,
        (Span.parsedByte?_le_stop_iff hs (by omega) addressable apart).2 ends⟩
  · constructor
    · rintro ⟨⟨s, hs, covers⟩, ends⟩
      have begun : s.offset < offset + length := Nat.lt_of_le_of_lt covers.1 (by omega)
      exact ⟨s, hs, covers,
        (Span.parsedByte?_le_stop_iff_of_editBehind hs begun addressable edit).1 ends⟩
    · rintro ⟨s, hs, covers, ends⟩
      have begun : s.offset < offset + length := Nat.lt_of_le_of_lt covers.1 (by omega)
      exact ⟨⟨s, hs, covers⟩,
        (Span.parsedByte?_le_stop_iff_of_editBehind hs begun addressable edit).2 ends⟩

/-- The identifiers of `x+é+x`. -/
def Place.ofTwoOccurrences (index start stop : Nat) : Place :=
  ⟨⟨⟨"identifier", ⟨start, stop⟩, none⟩, index⟩, [⟨⟨"program", ⟨0, 6⟩, none⟩, 0⟩]⟩

theorem Snapshot.leaves_twoOccurrences :
    ∀ g ∈ Snapshot.twoOccurrences.grammar, g.LeafIdentifiers Snapshot.twoOccurrences.tree := by
  rintro g ⟨⟩
  decide

/-- All in front of the `é` has been deleted, and the selection of the `é` picks it. -/
theorem enclosed_selection_picks_accented :
    let live := ['é', '+', 'x']
    let m := Mapping.between Snapshot.twoOccurrences.source live
    m.editBehind? ⟨2, 4⟩ = none ∧
      elementAt .twoOccurrences live m 0 1 .enclosing = .ok (.ofTwoOccurrences 2 2 4) := by
  intro live m
  have apart : m.editBehind? ⟨2, 4⟩ = none := by decide +kernel
  have span : Span.derive .twoOccurrences ⟨2, 4⟩ "identifier" live m = .ok ⟨0, 1⟩ := by decide +kernel
  have hp : Place.ofTwoOccurrences 2 2 4 ∈ Snapshot.twoOccurrences.places := by decide +kernel
  have addressable : Text.Addressable live := by decide
  have small : 0 + 1 < UInt64.size := by decide
  have picks := (enclosed_selection_picks (by decide) Snapshot.leaves_twoOccurrences addressable hp
    Nat.one_pos small).1 apart
  exact ⟨apart, picks.2 ⟨_, span, by decide, by decide⟩⟩

/-- A blank has been put in behind the first `x`, which still has its span. The selection of the `x` picks
nothing, and the selection of the `x` and the blank picks the `x`. -/
theorem whole_name_not_enclosed :
    let live := ['x', ' ', '+', 'é', '+', 'x']
    let m := Mapping.between Snapshot.twoOccurrences.source live
    let p := Place.ofTwoOccurrences 1 0 1
    Snapshot.twoOccurrences.tree.WellFormed ∧
      (∀ g ∈ Snapshot.twoOccurrences.grammar, g.LeafIdentifiers Snapshot.twoOccurrences.tree) ∧
      p ∈ Snapshot.twoOccurrences.places ∧
      Span.derive .twoOccurrences p.node.range p.node.kind live m = .ok ⟨0, 1⟩ ∧
      elementAt .twoOccurrences live m 0 1 .enclosing = .error .stopUnmapped ∧
      elementAt .twoOccurrences live m 0 2 .enclosing = .ok p := by
  intro live m p
  exact ⟨by decide, Snapshot.leaves_twoOccurrences, by decide +kernel, by decide +kernel,
    by decide +kernel, by decide +kernel⟩

end Highlight
