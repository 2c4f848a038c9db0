import Highlight.Proofs.OffsetMapping
import Highlight.Proofs.SoundSpans

/-!
# When an identifier has a span

An identifier of the parsed text has a span in the live text exactly if the edit does not touch it and glues
none of its neighbours to it (`span_derived_exactly_when`).

The edit between two texts is found byte by byte and may begin and end inside a character. Still, a range that
it does not touch can always be cut out of the live text, where it reads as before (`Span.cut?_live`), so two
of the reasons to drop a match never arise: that it cannot be cut out and that it reads something else. Nor
does it ever stand outside of the document.
-/

namespace Highlight

/-! ## Ranges that an edit does not touch -/

/-- The range ends before the edited region or begins behind it. -/
def Mapping.Spares (m : Mapping) (range : ByteRange) : Prop :=
  ∀ r ∈ m.region, range.stop ≤ r.start ∨ r.oldEnd ≤ range.start

instance (m : Mapping) (range : ByteRange) : Decidable (m.Spares range) :=
  inferInstanceAs (Decidable (∀ _ ∈ _, _))

theorem Mapping.exists_rangeToLive_iff {m : Mapping} {range : ByteRange} :
    (∃ liveRange, m.rangeToLive range = some liveRange) ↔ m.Spares range := by
  unfold rangeToLive Spares
  cases m.region with
  | none => simp
  | some r =>
    simp only [Option.mem_def, Option.some.injEq, forall_eq']
    split
    · rename_i before
      simp [before]
    · rename_i before
      split
      · rename_i behind
        simp [behind]
      · rename_i behind
        simp [before, behind]

namespace Text

/-- The bytes of a cut. -/
theorem bytes_of_cut? {t : Text} {r : ByteRange} {cut : Cut} (h : cut? t r = some cut) :
    ((bytes t).drop r.start).take (r.stop - r.start) = bytes cut.inside := by
  obtain ⟨whole, start, stop⟩ := cut?_eq_some_iff.1 h
  rw [byteLength_append, start] at stop
  rw [whole, bytes_append, bytes_append, List.append_assoc, ← start, ← length_bytes, List.drop_left,
    length_bytes, start, ← stop, Nat.add_sub_cancel_left, ← length_bytes, List.take_left]

theorem inside_ne_nil_of_cut? {t : Text} {r : ByteRange} {cut : Cut} (h : cut? t r = some cut)
    (inhabited : r.start < r.stop) : cut.inside ≠ [] := by
  obtain ⟨-, start, stop⟩ := cut?_eq_some_iff.1 h
  intro nothing
  rw [nothing, List.append_nil] at stop
  omega

theorem boundaries_of_cut? {t : Text} {r : ByteRange} {cut : Cut} (h : cut? t r = some cut) :
    (splitAt? t r.start).isSome = true ∧ (splitAt? t r.stop).isSome = true := by
  obtain ⟨whole, start, stop⟩ := cut?_eq_some_iff.1 h
  have atStop := splitAt?_eq_some_iff.2 ⟨whole, stop⟩
  rw [List.append_assoc] at whole
  have atStart := splitAt?_eq_some_iff.2 ⟨whole, start⟩
  rw [atStart, atStop]
  exact ⟨rfl, rfl⟩

/-- Where the bytes of a text with some characters are read, the text can be cut out. -/
theorem cut?_of_bytes {t s : Text} {r : ByteRange} (inhabited : s ≠ []) (inText : r.stop ≤ byteLength t)
    (ordered : r.start ≤ r.stop)
    (reads : ((bytes t).drop r.start).take (r.stop - r.start) = bytes s) :
    ∃ cut, cut? t r = some cut ∧ cut.inside = s := by
  have whole : bytes t = (bytes t).take r.start ++ bytes s ++ (bytes t).drop r.stop := by
    have behind : (bytes t).drop r.stop = ((bytes t).drop r.start).drop (r.stop - r.start) := by
      rw [List.drop_drop, Nat.add_sub_cancel' ordered]
    rw [← reads, behind, List.append_assoc, List.take_append_drop, List.take_append_drop]
  obtain ⟨before, after, rfl, front, -⟩ := of_bytes_eq_append_append inhabited whole
  have start : byteLength before = r.start := by
    rw [← length_bytes, front, List.length_take, length_bytes]
    omega
  have width : byteLength s = r.stop - r.start := by
    rw [← length_bytes, ← reads, List.length_take, List.length_drop, length_bytes]
    omega
  have stop : byteLength (before ++ s) = r.stop := by
    rw [byteLength_append, start, width]
    omega
  exact ⟨⟨before, s, after⟩, cut?_eq_some_iff.2 ⟨rfl, start, stop⟩, rfl⟩

end Text

namespace Span

/-- The identifier of kind `kind` at `range` of a snapshot still stands in the live text, at the span `s`. -/
structure Intact (file : Snapshot) (range : ByteRange) (kind : String) (live : Text) (s : Span) :
    Prop where
  /-- The language has symbols, and nodes of this kind name them. -/
  identifier : ∃ g, file.grammar = some g ∧ g.isIdentifier kind = true
  inhabited : range.start < range.stop
  /-- The range lies in the parsed text and begins and ends between characters. -/
  aligned : (Text.splitAt? file.source range.start).isSome = true ∧
    (Text.splitAt? file.source range.stop).isSome = true
  /-- What was edited ends before the range or begins behind it. -/
  spared : (Mapping.between file.source live).Spares range
  /-- In front of the span are as many characters as in front of the live offset of the range's start, and it
  is as long as the parsed text at the range. -/
  placed : ∃ start, (Mapping.between file.source live).toLive range.start = some start ∧
    s = ⟨live.charsBefore start, (ofRange file.source range).length⟩
  /-- The character in front was part of an identifier before, or is still not. -/
  left : grewInto (file.source.charBefore? (ofRange file.source range).offset)
    (live.charBefore? s.offset) = false
  /-- So is the character behind. -/
  right : grewInto file.source[(ofRange file.source range).stop]? live[s.stop]? = false

/-! ## The live text of an untouched range -/

section Live

variable {source live : Text} {range liveRange : ByteRange} {parsed : Text.Cut}
  (addressable : live.Addressable) (hp : Text.cut? source range = some parsed)

include addressable hp

/-- A machine word can hold where the live range of a part of the text ends. -/
theorem small_of_cut? : range.stop + Text.byteLength live < UInt64.size + Text.byteLength source := by
  have inText := Text.stop_le_of_cut? hp
  unfold Text.Addressable at addressable
  omega

variable (inhabited : range.start < range.stop)
  (hl : (Mapping.between source live).rangeToLive range = some liveRange)

include inhabited hl

/-- A range that the edit does not touch can be cut out of the live text and reads there as it was parsed. -/
theorem cut?_live : ∃ cut, Text.cut? live liveRange = some cut ∧ cut.inside = parsed.inside := by
  have small := small_of_cut? addressable hp
  obtain ⟨inLive, same⟩ := Mapping.bytes_rangeToLive inhabited small (Text.stop_le_of_cut? hp) hl
  obtain ⟨-, width⟩ := (Mapping.rangeToLive_iff_toLive inhabited small).1 hl
  rw [Text.bytes_of_cut? hp] at same
  exact Text.cut?_of_bytes (Text.inside_ne_nil_of_cut? hp inhabited) inLive (by omega) same

/-- The live range begins at the live offset of the first byte. -/
theorem toLive_start : (Mapping.between source live).toLive range.start = some liveRange.start := by
  have offsets := ((Mapping.rangeToLive_iff_toLive inhabited (small_of_cut? addressable hp)).1 hl).1
  exact offsets 0 (by omega)

end Live

/-- A name that reads in the live text as it was parsed has its span there, unless it has grown. -/
theorem ofCuts_of_same {live : Text} {liveRange : ByteRange} {parsed cut : Text.Cut}
    (hc : Text.cut? live liveRange = some cut) (same : cut.inside = parsed.inside)
    (inhabited : parsed.inside ≠ []) :
    ofCuts parsed cut live.length =
      if grewInto parsed.before.getLast? cut.before.getLast?
          || grewInto parsed.after.head? cut.after.head? then .error (.grown parsed.inside)
      else .ok ⟨cut.before.length, parsed.inside.length⟩ := by
  have room := (Text.cut?_offsets hc).2.2
  rw [same] at room
  have nonempty := List.length_pos_of_ne_nil inhabited
  have fit : fits ⟨cut.before.length, parsed.inside.length⟩ live.length = true := by
    simp [fits, Span.stop, nonempty, room]
  unfold ofCuts
  rw [if_neg (not_not_intro same)]
  simp only [fit, if_true]

/-- The neighbours of a range, by its span and by its cut. -/
theorem neighbours_of_cut? {t : Text} {r : ByteRange} {cut : Text.Cut} (h : Text.cut? t r = some cut) :
    t.charBefore? (ofRange t r).offset = cut.before.getLast? ∧
      t[(ofRange t r).stop]? = cut.after.head? := by
  rw [ofRange_eq h]
  exact ⟨Text.charBefore?_of_cut? h, Text.getElem?_of_cut? h⟩

section Derive

variable {file : Snapshot} {range : ByteRange} {kind : String} {live : Text}
  (addressable : live.Addressable)

include addressable

/-- An identifier that the edit does not touch has its span, unless it has grown. -/
theorem derive_of_rangeToLive {g : Grammar} (grammar : file.grammar = some g)
    (identifier : g.isIdentifier kind = true) (inhabited : range.start < range.stop)
    {parsed : Text.Cut} (hp : Text.cut? file.source range = some parsed) {liveRange : ByteRange}
    (hl : (Mapping.between file.source live).rangeToLive range = some liveRange) :
    ∃ cut, Text.cut? live liveRange = some cut ∧ cut.inside = parsed.inside ∧
      derive file range kind live (.between file.source live) =
        if grewInto parsed.before.getLast? cut.before.getLast?
            || grewInto parsed.after.head? cut.after.head? then .error (.grown parsed.inside)
        else .ok ⟨cut.before.length, parsed.inside.length⟩ := by
  obtain ⟨cut, hc, same⟩ := cut?_live addressable hp inhabited hl
  refine ⟨cut, hc, same, ?_⟩
  rw [← ofCuts_of_same hc same (Text.inside_ne_nil_of_cut? hp inhabited)]
  simp [derive, grammar, identifier, ByteRange.isEmpty_eq_false_iff.2 inhabited, hp, hl, hc]

/-- The reasons for which a match can be dropped. -/
theorem derive_eq_error {reason : Drop}
    (h : derive file range kind live (.between file.source live) = .error reason) :
    reason = .noGrammar ∨ reason = .notIdentifier ∨ reason = .emptyRange ∨ reason = .notInText ∨
      reason = .edited ∨ ∃ name, reason = .grown name := by
  unfold derive at h
  split at h
  · exact .inl (Except.error.inj h).symm
  split at h
  · exact .inr (.inl (Except.error.inj h).symm)
  split at h
  · exact .inr (.inr (.inl (Except.error.inj h).symm))
  rename_i nonempty
  split at h
  · exact .inr (.inr (.inr (.inl (Except.error.inj h).symm)))
  rename_i parsed hp
  split at h
  · exact .inr (.inr (.inr (.inr (.inl (Except.error.inj h).symm))))
  rename_i liveRange hl
  have inhabited : range.start < range.stop := ByteRange.isEmpty_eq_false_iff.1 (by simpa using nonempty)
  obtain ⟨cut, hc, same⟩ := cut?_live addressable hp inhabited hl
  simp only [hc, ofCuts_of_same hc same (Text.inside_ne_nil_of_cut? hp inhabited)] at h
  split at h
  · exact .inr (.inr (.inr (.inr (.inr ⟨_, (Except.error.inj h).symm⟩))))
  · cases h

/-- A match has a span exactly if it is an identifier of the text that the edit neither touches nor lets
grow. -/
theorem derive_eq_ok_iff_intact {s : Span} :
    derive file range kind live (.between file.source live) = .ok s ↔
      Intact file range kind live s := by
  constructor
  · intro h
    obtain ⟨g, parsed, liveRange, cut, grammar, identifier, nonempty, hp, hl, hc, placed⟩ :=
      derive_eq_ok_iff.1 h
    obtain ⟨same, left, right, rfl, -⟩ := ofCuts_eq_ok_iff.1 placed
    have inhabited := ByteRange.isEmpty_eq_false_iff.1 nonempty
    have first := toLive_start addressable hp inhabited hl
    refine ⟨⟨g, grammar, identifier⟩, inhabited, Text.boundaries_of_cut? hp,
      Mapping.exists_rangeToLive_iff.1 ⟨_, hl⟩, ⟨_, first, ?_⟩, ?_, ?_⟩
    · rw [Text.charsBefore_of_cut? hc, ofRange_eq hp]
    · rwa [(neighbours_of_cut? hp).1, Text.charBefore?_of_cut? hc]
    · rwa [(neighbours_of_cut? hp).2, ← same, Span.stop, Text.getElem?_of_cut? hc]
  · rintro ⟨⟨g, grammar, identifier⟩, inhabited, ⟨start, stop⟩, spared, ⟨byte, first, rfl⟩, left, right⟩
    obtain ⟨parsed, hp⟩ := Text.cut?_of_boundaries (Nat.le_of_lt inhabited) start stop
    obtain ⟨liveRange, hl⟩ := Mapping.exists_rangeToLive_iff.2 spared
    obtain ⟨cut, hc, same, derived⟩ :=
      derive_of_rangeToLive addressable grammar identifier inhabited hp hl
    rw [toLive_start addressable hp inhabited hl, Option.some.injEq] at first
    subst first
    have offset := Text.charsBefore_of_cut? hc
    have length : (ofRange file.source range).length = cut.inside.length := by rw [ofRange_eq hp, same]
    rw [(neighbours_of_cut? hp).1, offset, Text.charBefore?_of_cut? hc] at left
    rw [(neighbours_of_cut? hp).2, Span.stop, offset, length, Text.getElem?_of_cut? hc] at right
    rw [derived, left, right, offset, length, same]
    rfl

end Derive

end Span

/-! ## The main statement -/

/-- When an identifier has a span. Of any range of a parsed text, any kind of node and any live text that
machine words can address:

* the range has a span exactly if the identifier there is intact: the language has symbols and the kind names
  them, the range is not empty and stands in the text between characters, it ends before the edited region or
  begins behind it, and neither of its neighbours has become part of an identifier that was not one. The span
  begins behind as many characters as stand in front of the live offset of the range's start, and is as long
  as the range in the parsed text;
* a range that is kept by the edit can be cut out of the live text and reads there as it was parsed;
* no match is dropped because it cannot be cut out of the live text, reads something else there or does not
  fit the document. -/
theorem span_derived_exactly_when (file : Snapshot) (range : ByteRange) (kind : String) {live : Text}
    (addressable : live.Addressable) :
    let m := Mapping.between file.source live
    (∀ s, Span.derive? file range kind live m = some s ↔ Span.Intact file range kind live s) ∧
    (∀ name liveRange, range.start < range.stop → file.textOf? range = some name →
      m.rangeToLive range = some liveRange → Text.slice? live liveRange = some name) ∧
    ∀ reason, Span.derive file range kind live m = .error reason →
      reason ≠ .notInLiveText ∧ (∀ name, reason ≠ .changed name) ∧ reason ≠ .outside := by
  intro m
  refine ⟨?_, ?_, ?_⟩
  · intro s
    rw [Span.derive?_eq_some_iff]
    exact Span.derive_eq_ok_iff_intact addressable
  · intro name liveRange inhabited text hl
    obtain ⟨parsed, hp, rfl⟩ := Option.map_eq_some_iff.1 text
    obtain ⟨cut, hc, same⟩ := Span.cut?_live addressable hp inhabited hl
    rw [Text.slice?, hc, Option.map_some, same]
  · intro reason dropped
    rcases Span.derive_eq_error addressable dropped with rfl | rfl | rfl | rfl | rfl | ⟨name, rfl⟩ <;> simp

/-- The `é` of `x+é+x` has become an `è`. The edit begins and ends inside this character, and the `x` behind it
keeps its span. -/
theorem span_derived_exactly_when_inside_character :
    let live := ['x', '+', 'è', '+', 'x']
    let m := Mapping.between Snapshot.twoOccurrences.source live
    m.region = some ⟨3, 4, 4⟩ ∧
      Span.derive? .twoOccurrences ⟨5, 6⟩ "identifier" live m = some ⟨4, 1⟩ ∧
      Span.derive? .twoOccurrences ⟨2, 4⟩ "identifier" live m = none := by
  intro live m
  have region : m.region = some ⟨3, 4, 4⟩ := by decide +kernel
  have addressable : Text.Addressable live := by decide
  have behind := (span_derived_exactly_when .twoOccurrences ⟨5, 6⟩ "identifier" addressable).1
  have inside := (span_derived_exactly_when .twoOccurrences ⟨2, 4⟩ "identifier" addressable).1
  refine ⟨region, (behind _).2 ⟨⟨_, rfl, rfl⟩, by decide, by decide, by decide +kernel,
    ⟨5, by decide +kernel, by decide⟩, by decide +kernel, by decide +kernel⟩, ?_⟩
  apply Option.eq_none_iff_forall_ne_some.2
  intro s derived
  exact absurd ((inside s).1 derived).spared (by decide +kernel)

end Highlight
