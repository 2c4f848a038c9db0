import Highlight.Occurrences
import Highlight.Proofs.EditSplice

/-!
# Spans and carets in the live text

The span of an identifier covers exactly the carets that lead back into it: a live character offset lies in
the span if and only if its parsed byte lies in the identifier's range (`Span.covers_derive_iff`). This holds
at both ends of an edit, inside it, and for characters of several bytes.

Live ranges are computed with machine words, so the live text must be one that they can address.
-/

namespace Highlight

/-! ## Characters and bytes -/

namespace Text

/-- All offsets of the text fit into a machine word. -/
def Addressable (t : Text) : Prop := byteLength t < UInt64.size

instance (t : Text) : Decidable t.Addressable := inferInstanceAs (Decidable (_ < _))

theorem byteLength_take_le (t : Text) {i j : Nat} (h : i ≤ j) :
    byteLength (t.take i) ≤ byteLength (t.take j) := by
  obtain ⟨k, rfl⟩ := Nat.exists_eq_add_of_le h
  rw [List.take_add, byteLength_append]
  exact Nat.le_add_right ..

theorem byteLength_take_lt (t : Text) {i j : Nat} (h : i < j) (inside : j ≤ t.length) :
    byteLength (t.take i) < byteLength (t.take j) := by
  have here : i < t.length := Nat.lt_of_lt_of_le h inside
  have grows : byteLength (t.take i) < byteLength (t.take (i + 1)) := by
    rw [List.take_succ_eq_append_getElem here, byteLength_append, byteLength_cons, byteLength_nil]
    have := Char.utf8Size_pos t[i]
    omega
  exact Nat.lt_of_lt_of_le grows (byteLength_take_le t h)

theorem byteLength_take_lt_iff (t : Text) {i j : Nat} (inside : j ≤ t.length) :
    byteLength (t.take i) < byteLength (t.take j) ↔ i < j := by
  constructor
  · intro less
    rcases Nat.lt_or_ge i j with h | h
    · exact h
    · exact absurd (byteLength_take_le t h) (Nat.not_le_of_lt less)
  · intro h
    exact byteLength_take_lt t h inside

/-- The ends of a cut, counted in characters and in bytes. -/
theorem cut?_offsets {t : Text} {r : ByteRange} {cut : Cut} (h : cut? t r = some cut) :
    byteLength (t.take cut.before.length) = r.start ∧
      byteLength (t.take (cut.before.length + cut.inside.length)) = r.stop ∧
      cut.before.length + cut.inside.length ≤ t.length := by
  obtain ⟨whole, start, stop⟩ := cut?_eq_some_iff.1 h
  refine ⟨?_, ?_, ?_⟩
  · rw [whole, List.append_assoc, List.take_left, start]
  · rw [whole, ← List.length_append, List.take_left, stop]
  · rw [whole, List.length_append, List.length_append]
    exact Nat.le_add_right ..

/-- A cut covers the character offsets whose byte offsets lie in its range. -/
theorem cut?_covers {t : Text} {r : ByteRange} {cut : Cut} (h : cut? t r = some cut) (c : Nat) :
    r.contains (byteLength (t.take c)) = true ↔
      cut.before.length ≤ c ∧ c < cut.before.length + cut.inside.length := by
  obtain ⟨start, stop, room⟩ := cut?_offsets h
  have first := byteLength_take_lt_iff t (i := c) (j := cut.before.length) (by omega)
  have last := byteLength_take_lt_iff t (i := c) room
  rw [start] at first
  rw [stop] at last
  rw [ByteRange.contains_iff]
  omega

end Text

/-! ## Parsed and live ranges -/

namespace Mapping

variable {parsed live : Text} {r : Region}

/-- The edited region lies in both texts, and as much follows it in the one as in the other. -/
theorem region_between (h : (between parsed live).region = some r) :
    r.start ≤ r.oldEnd ∧ r.start ≤ r.newEnd ∧ r.oldEnd ≤ Text.byteLength parsed ∧
      r.oldEnd + Text.byteLength live = r.newEnd + Text.byteLength parsed := by
  obtain ⟨e, found, rfl⟩ := Option.map_eq_some_iff.1 h
  have splices := Edit.between_splices found
  exact ⟨splices.inOld.1, splices.inNew.1, splices.inOld.2, splices.growth⟩

/-- A machine word can hold the byte offset when it has moved with the text behind an edit from `parsed` to
`live`. -/
def Fits (parsed live : Text) (byte : Nat) : Prop :=
  byte + Text.byteLength live < UInt64.size + Text.byteLength parsed

instance (parsed live : Text) (byte : Nat) : Decidable (Fits parsed live byte) :=
  inferInstanceAs (Decidable (_ < _))

/-- Offsets in a text fit where the other one is addressable. -/
theorem fits_of_le (addressable : live.Addressable) {b : Nat} (inText : b ≤ Text.byteLength parsed) :
    Fits parsed live b := by
  unfold Text.Addressable at addressable
  unfold Fits
  omega

theorem moved_eq {byte oldEnd newEnd : Nat} (behind : oldEnd ≤ byte)
    (small : byte - oldEnd + newEnd < UInt64.size) :
    moved byte ((newEnd : Int) - oldEnd) = byte - oldEnd + newEnd := by
  have sum : (byte : Int) + (newEnd - oldEnd) = ((byte - oldEnd + newEnd : Nat) : Int) := by omega
  rw [moved, sum, ← Int.natCast_emod, Int.toNat_natCast, Nat.mod_eq_of_lt small]

theorem shift_eq_some_iff {byte start fromEnd toEnd b : Nat} :
    shift byte start fromEnd toEnd = some b ↔
      byte < start ∧ b = byte ∨ start ≤ byte ∧ fromEnd ≤ byte ∧ b = byte - fromEnd + toEnd := by
  unfold shift
  split
  · rename_i before
    rw [Option.some.injEq]
    omega
  · split
    · rw [Option.some.injEq]
      omega
    · simp only [reduceCtorEq, false_iff]
      omega

/-- Beside an edit, a range that stands before the region stays, and one behind it moves along, as long as
machine words can hold where it ends. -/
theorem rangeToLive_eq_some_iff (hr : (between parsed live).region = some r) {range liveRange : ByteRange}
    (ordered : range.start ≤ range.stop) (fits : Fits parsed live range.stop) :
    (between parsed live).rangeToLive range = some liveRange ↔
      range.stop ≤ r.start ∧ liveRange = range ∨
        r.start < range.stop ∧ r.oldEnd ≤ range.start ∧
          liveRange = ⟨range.start - r.oldEnd + r.newEnd, range.stop - r.oldEnd + r.newEnd⟩ := by
  obtain ⟨-, -, -, growth⟩ := region_between hr
  unfold Fits at fits
  simp only [rangeToLive, hr]
  by_cases before : range.stop ≤ r.start
  · rw [if_pos before, Option.some.injEq]
    constructor
    · intro stays
      exact .inl ⟨before, stays.symm⟩
    · rintro (⟨-, rfl⟩ | ⟨behind, -⟩)
      · rfl
      · omega
  · rw [if_neg before]
    by_cases behind : r.oldEnd ≤ range.start
    · rw [if_pos behind, moved_eq behind (by omega), moved_eq (by omega) (by omega), Option.some.injEq]
      constructor
      · intro moves
        exact .inr ⟨by omega, behind, moves.symm⟩
      · rintro (⟨before', -⟩ | ⟨-, -, rfl⟩)
        · exact absurd before' before
        · rfl
    · rw [if_neg behind]
      simp only [reduceCtorEq, false_iff]
      omega

section Ranges

variable {range liveRange : ByteRange} (addressable : live.Addressable)
  (inText : range.stop ≤ Text.byteLength parsed) (inhabited : range.start < range.stop)
  (h : (between parsed live).rangeToLive range = some liveRange)

include addressable inText inhabited h

/-- A range that has a live range stands before the edited region and stays, or behind it and moves along. -/
theorem rangeToLive_cases :
    (between parsed live).region = none ∧ liveRange = range ∨
      ∃ r, (between parsed live).region = some r ∧
        (range.stop ≤ r.start ∧ liveRange = range ∨
          r.oldEnd ≤ range.start ∧
            liveRange = ⟨range.start - r.oldEnd + r.newEnd, range.stop - r.oldEnd + r.newEnd⟩) := by
  cases hr : (between parsed live).region with
  | none =>
    simp only [rangeToLive, hr, Option.some.injEq] at h
    exact .inl ⟨rfl, h.symm⟩
  | some r =>
    have fits := fits_of_le addressable inText
    rcases (rangeToLive_eq_some_iff hr (Nat.le_of_lt inhabited) fits).1 h with before | ⟨-, behind⟩
    · exact .inr ⟨r, rfl, .inl before⟩
    · exact .inr ⟨r, rfl, .inr behind⟩

/-- The live offsets in the live range of a parsed range are those whose parsed offsets lie in it. -/
theorem contains_rangeToLive (x : Nat) :
    liveRange.contains x = true ↔
      ∃ b, (between parsed live).toParsed x = some b ∧ range.contains b = true := by
  rcases rangeToLive_cases addressable inText inhabited h with ⟨hr, rfl⟩ | ⟨r, hr, place⟩
  · simp [toParsed, hr]
  · obtain ⟨oldOrder, newOrder, -, -⟩ := region_between hr
    simp only [toParsed, hr, shift_eq_some_iff, ByteRange.contains_iff]
    rcases place with ⟨before, rfl⟩ | ⟨behind, rfl⟩
    · constructor
      · intro hx
        exact ⟨x, .inl ⟨by omega, rfl⟩, hx⟩
      · rintro ⟨b, origin, inside⟩
        omega
    · dsimp only
      constructor
      · intro hx
        exact ⟨x - r.newEnd + r.oldEnd, .inr ⟨by omega, by omega, rfl⟩, by omega⟩
      · rintro ⟨b, origin, inside⟩
        omega

end Ranges

end Mapping

/-! ## Spans -/

namespace Span

/-- The caret `c` stands in the span, in front of one of its characters. -/
def Covers (s : Span) (c : Nat) : Prop := s.offset ≤ c ∧ c < s.stop

theorem ofCuts_eq_ok_iff {parsed live : Text.Cut} {length : Nat} {s : Span} :
    ofCuts parsed live length = .ok s ↔
      live.inside = parsed.inside ∧
        grewInto parsed.before.getLast? live.before.getLast? = false ∧
        grewInto parsed.after.head? live.after.head? = false ∧
        s = ⟨live.before.length, parsed.inside.length⟩ ∧ s.fits length = true := by
  unfold ofCuts
  by_cases same : live.inside = parsed.inside
  · by_cases grown : (grewInto parsed.before.getLast? live.before.getLast? ||
        grewInto parsed.after.head? live.after.head?) = true
    · rw [if_neg (not_not_intro same), if_pos grown]
      rw [Bool.or_eq_true] at grown
      rcases grown with grown | grown <;> simp [grown]
    · rw [if_neg (not_not_intro same), if_neg grown]
      rw [Bool.or_eq_true, not_or, Bool.not_eq_true, Bool.not_eq_true] at grown
      dsimp only
      constructor
      · intro h
        split at h
        · rename_i fit
          cases h
          exact ⟨same, grown.1, grown.2, rfl, fit⟩
        · cases h
      · rintro ⟨-, -, -, rfl, fit⟩
        rw [if_pos fit]
  · simp [same]

/-- A match has a span exactly if none of the reasons to drop it applies. -/
theorem derive_eq_ok_iff {file : Snapshot} {range : ByteRange} {kind : String} {live : Text}
    {m : Mapping} {s : Span} :
    derive file range kind live m = .ok s ↔
      ∃ g parsed liveRange cut, file.grammar = some g ∧ g.isIdentifier kind = true ∧
        range.isEmpty = false ∧ Text.cut? file.source range = some parsed ∧
        m.rangeToLive range = some liveRange ∧ Text.cut? live liveRange = some cut ∧
        ofCuts parsed cut live.length = .ok s := by
  constructor
  · intro h
    unfold derive at h
    split at h
    · cases h
    rename_i g grammar
    split at h
    · cases h
    rename_i identifier
    split at h
    · cases h
    rename_i inhabited
    split at h
    · cases h
    rename_i parsed hp
    split at h
    · cases h
    rename_i liveRange hl
    split at h
    · cases h
    rename_i cut hc
    exact ⟨g, parsed, liveRange, cut, grammar, by simpa using identifier, by simpa using inhabited, hp,
      hl, hc, h⟩
  · rintro ⟨g, parsed, liveRange, cut, grammar, identifier, inhabited, hp, hl, hc, h⟩
    simp only [derive, grammar, identifier, inhabited, hp, hl, hc, h, Bool.not_true,
      Bool.false_eq_true, if_false]

theorem derive?_eq_some_iff {file : Snapshot} {range : ByteRange} {kind : String} {live : Text}
    {m : Mapping} {s : Span} :
    derive? file range kind live m = some s ↔ derive file range kind live m = .ok s := by
  unfold derive?
  cases derive file range kind live m <;> simp [Except.toOption]

/-- What is behind a span: the identifier stands in the parsed text and, moved along, in the live text. -/
theorem derive_eq_ok {file : Snapshot} {range : ByteRange} {kind : String} {live : Text} {m : Mapping}
    {s : Span} (h : derive file range kind live m = .ok s) :
    range.start < range.stop ∧ ∃ parsed, Text.cut? file.source range = some parsed ∧
      ∃ liveRange, m.rangeToLive range = some liveRange ∧
      ∃ cut, Text.cut? live liveRange = some cut ∧ s = ⟨cut.before.length, cut.inside.length⟩ := by
  obtain ⟨g, parsed, liveRange, cut, -, -, inhabited, hp, hl, hc, placed⟩ := derive_eq_ok_iff.1 h
  obtain ⟨same, -, -, rfl, -⟩ := ofCuts_eq_ok_iff.1 placed
  exact ⟨ByteRange.isEmpty_eq_false_iff.1 inhabited, parsed, hp, liveRange, hl, cut, hc, by rw [same]⟩

theorem stop_le_of_derive {file : Snapshot} {range : ByteRange} {kind : String} {live : Text}
    {m : Mapping} {s : Span} (h : derive file range kind live m = .ok s) : s.stop ≤ live.length := by
  obtain ⟨_, _, _, _, -, -, -, -, -, -, placed⟩ := derive_eq_ok_iff.1 h
  obtain ⟨-, -, -, -, fit⟩ := ofCuts_eq_ok_iff.1 placed
  simp only [fits, Bool.and_eq_true, decide_eq_true_eq] at fit
  exact fit.2

/-- The span of an identifier covers the carets whose parsed bytes lie in the identifier. -/
theorem covers_derive_iff {file : Snapshot} {range : ByteRange} {kind : String} {live : Text}
    (addressable : live.Addressable) {s : Span}
    (h : derive file range kind live (.between file.source live) = .ok s) (c : Nat) :
    s.Covers c ↔ ∃ b, parsedByte? live (.between file.source live) c = some b ∧
      range.contains b = true := by
  have room := stop_le_of_derive h
  obtain ⟨inhabited, parsed, hp, liveRange, hl, cut, hc, rfl⟩ := derive_eq_ok h
  have mapped := Mapping.contains_rangeToLive addressable (Text.stop_le_of_cut? hp) inhabited hl
    (Text.byteLength (live.take c))
  rw [Text.cut?_covers hc] at mapped
  unfold parsedByte? Text.byteOffset?
  by_cases inside : c ≤ live.length
  · rw [if_pos inside, Option.bind_some]
    exact mapped
  · -- behind the text there is no byte, and no span ends there
    rw [if_neg inside, Option.bind_none]
    constructor
    · intro covers
      exact absurd (Nat.le_of_lt (Nat.lt_of_lt_of_le covers.2 room)) inside
    · rintro ⟨b, none, -⟩
      cases none

end Span

end Highlight
