import Highlight.Proofs.CharacterBytes
import Highlight.Proofs.LiveSpans

/-!
# Parsed and live offsets belong together

Two texts with one edited region between them. The offsets outside the region belong together one to one and
in the same order, and so do the bytes that stand at them. A range has a live range exactly if all its bytes
have live offsets that follow each other without a gap, and then it holds the same bytes
(`offsets_belong_together`). An insertion inside a range leaves every single byte its live offset, but not
without a gap; this needs that there is something in an edited region (`Mapping.region_inhabited`).

Offsets behind both texts are mapped as well, where the sum of machine words stays below their end
(`Mapping.Fits`); for offsets in the texts it does (`Mapping.fits_of_le`).
-/

namespace Highlight

namespace Mapping

variable {parsed live : Text} {r : Region}

/-! ## The edited region -/

/-- The bytes before the edited region are the same in both texts, and so are those behind it. -/
theorem bytes_between (h : (between parsed live).region = some r) :
    (Text.bytes parsed).take r.start = (Text.bytes live).take r.start ∧
      (Text.bytes parsed).drop r.oldEnd = (Text.bytes live).drop r.newEnd := by
  obtain ⟨e, found, rfl⟩ := Option.map_eq_some_iff.1 h
  have splices := Edit.between_splices found
  exact ⟨splices.front, splices.back⟩

theorem region_eq_none_iff : (between parsed live).region = none ↔ parsed = live := by
  rw [between, Option.map_eq_none_iff, Edit.between_eq_none_iff]

/-- In an edited region something was deleted or inserted. -/
theorem region_inhabited (h : (between parsed live).region = some r) :
    r.start < r.oldEnd ∨ r.start < r.newEnd := by
  obtain ⟨oldOrder, newOrder, -, -⟩ := region_between h
  obtain ⟨front, back⟩ := bytes_between h
  apply Decidable.byContradiction
  intro nothing
  have oldEnd : r.oldEnd = r.start := by omega
  have newEnd : r.newEnd = r.start := by omega
  rw [oldEnd, newEnd] at back
  have same : Text.bytes parsed = Text.bytes live := by
    rw [← List.take_append_drop r.start (Text.bytes parsed), front, back, List.take_append_drop]
  rw [region_eq_none_iff.2 (Text.bytes_injective same)] at h
  cases h

/-! ## Points -/

/-- The live offset of an offset that fits is a machine word again. -/
theorem toLive_lt_size {b c : Nat} (word : b < UInt64.size) (fits : Fits parsed live b)
    (hc : (between parsed live).toLive b = some c) : c < UInt64.size := by
  unfold Fits at fits
  cases h : (between parsed live).region with
  | none =>
    simp only [toLive, h, Option.some.injEq] at hc
    omega
  | some r =>
    obtain ⟨-, -, -, growth⟩ := region_between h
    simp only [toLive, h, shift_eq_some_iff] at hc
    omega

/-- And fits on the way back. -/
theorem fits_toLive (addressable : parsed.Addressable) {b c : Nat} (word : b < UInt64.size)
    (hc : (between parsed live).toLive b = some c) : Fits live parsed c := by
  unfold Text.Addressable at addressable
  unfold Fits
  cases h : (between parsed live).region with
  | none =>
    simp only [toLive, h, Option.some.injEq] at hc
    have same := region_eq_none_iff.1 h
    subst same
    omega
  | some r =>
    obtain ⟨-, newOrder, inText, growth⟩ := region_between h
    simp only [toLive, h, shift_eq_some_iff] at hc
    omega

theorem toLive_of_identical (h : (between parsed live).region = none) (b : Nat) :
    (between parsed live).toLive b = some b := by
  rw [toLive, h]

theorem toLive_eq_some_iff (h : (between parsed live).region = some r) {b c : Nat} :
    (between parsed live).toLive b = some c ↔
      b < r.start ∧ c = b ∨ r.start ≤ b ∧ r.oldEnd ≤ b ∧ c = b - r.oldEnd + r.newEnd := by
  simp only [toLive, h]
  exact shift_eq_some_iff

/-- To and fro lead to the same offset. -/
theorem toLive_eq_some_iff_toParsed (parsed live : Text) (b c : Nat) :
    (between parsed live).toLive b = some c ↔ (between parsed live).toParsed c = some b := by
  cases h : (between parsed live).region with
  | none =>
    simp only [toLive, toParsed, h, Option.some.injEq]
    exact eq_comm
  | some r =>
    obtain ⟨oldOrder, newOrder, -, -⟩ := region_between h
    rw [toLive_eq_some_iff h]
    simp only [toParsed, h, shift_eq_some_iff]
    omega

theorem toLive_lt {b b' c c' : Nat} (less : b < b') (hc : (between parsed live).toLive b = some c)
    (hc' : (between parsed live).toLive b' = some c') : c < c' := by
  cases h : (between parsed live).region with
  | none =>
    rw [toLive_of_identical h, Option.some.injEq] at hc hc'
    omega
  | some r =>
    obtain ⟨oldOrder, newOrder, -, -⟩ := region_between h
    rw [toLive_eq_some_iff h] at hc hc'
    omega

/-- The end of the one text belongs to the end of the other. -/
theorem toLive_byteLength (parsed live : Text) :
    (between parsed live).toLive (Text.byteLength parsed) = some (Text.byteLength live) := by
  cases h : (between parsed live).region with
  | none => rw [toLive_of_identical h, region_eq_none_iff.1 h]
  | some r =>
    obtain ⟨oldOrder, -, inText, growth⟩ := region_between h
    rw [toLive_eq_some_iff h]
    omega

/-- The same byte stands at offsets that belong together, or both are behind their texts. -/
theorem getElem?_toLive {b c : Nat} (hc : (between parsed live).toLive b = some c) :
    (Text.bytes live)[c]? = (Text.bytes parsed)[b]? := by
  cases h : (between parsed live).region with
  | none =>
    rw [toLive_of_identical h, Option.some.injEq] at hc
    rw [hc, region_eq_none_iff.1 h]
  | some r =>
    obtain ⟨front, back⟩ := bytes_between h
    rcases (toLive_eq_some_iff h).1 hc with ⟨before, rfl⟩ | ⟨-, behind, rfl⟩
    · rw [← List.getElem?_take_of_lt before, ← front, List.getElem?_take_of_lt before]
    · rw [Nat.add_comm, ← List.getElem?_drop, ← back, List.getElem?_drop, Nat.add_sub_cancel' behind]

/-! ## Ranges -/

section Ranges

variable {a b a' b' : Nat} (inhabited : a < b) (fits : Fits parsed live b)

include inhabited fits

/-- A range has a live range exactly if its bytes have live offsets without a gap. -/
theorem rangeToLive_iff_toLive :
    (between parsed live).rangeToLive ⟨a, b⟩ = some ⟨a', b'⟩ ↔
      (∀ i < b - a, (between parsed live).toLive (a + i) = some (a' + i)) ∧ b' = a' + (b - a) := by
  cases h : (between parsed live).region with
  | none =>
    simp only [rangeToLive, toLive, h, Option.some.injEq, ByteRange.mk.injEq]
    constructor
    · rintro ⟨rfl, rfl⟩
      exact ⟨fun i _ => rfl, by omega⟩
    · rintro ⟨offsets, rfl⟩
      have first := offsets 0 (by omega)
      omega
  | some r =>
    obtain ⟨oldOrder, newOrder, -, -⟩ := region_between h
    rw [rangeToLive_eq_some_iff h (Nat.le_of_lt inhabited) fits]
    simp only [toLive_eq_some_iff h, ByteRange.mk.injEq]
    constructor
    · rintro (⟨before, rfl, rfl⟩ | ⟨-, behind, rfl, rfl⟩)
      · exact ⟨fun i hi => .inl ⟨by omega, rfl⟩, by omega⟩
      · exact ⟨fun i hi => .inr ⟨by omega, by omega, by omega⟩, by omega⟩
    · rintro ⟨offsets, rfl⟩
      have first := offsets 0 (by omega)
      by_cases before : b ≤ r.start
      · exact .inl ⟨before, by omega, by omega⟩
      by_cases around : a < r.start
      · -- the byte at the start of the region has a live offset, so nothing was deleted; then there is a gap
        have across := offsets (r.start - a) (by omega)
        have edited := region_inhabited h
        omega
      · exact .inr ⟨by omega, by omega, by omega, by omega⟩

/-- A live range holds the bytes of the parsed one. -/
theorem bytes_rangeToLive (inText : b ≤ Text.byteLength parsed)
    (h : (between parsed live).rangeToLive ⟨a, b⟩ = some ⟨a', b'⟩) :
    b' ≤ Text.byteLength live ∧
      ((Text.bytes live).drop a').take (b' - a') = ((Text.bytes parsed).drop a).take (b - a) := by
  obtain ⟨offsets, rfl⟩ := (rangeToLive_iff_toLive inhabited fits).1 h
  have same : ((Text.bytes live).drop a').take (b - a) = ((Text.bytes parsed).drop a).take (b - a) := by
    apply List.ext_getElem?
    intro i
    by_cases hi : i < b - a
    · rw [List.getElem?_take_of_lt hi, List.getElem?_take_of_lt hi, List.getElem?_drop,
        List.getElem?_drop, getElem?_toLive (offsets i hi)]
    · rw [List.getElem?_take_eq_none (by omega), List.getElem?_take_eq_none (by omega)]
  have lengths := congrArg List.length same
  simp only [List.length_take, List.length_drop, Text.length_bytes] at lengths
  rw [Nat.add_sub_cancel_left]
  exact ⟨by omega, same⟩

end Ranges

end Mapping

/-- Parsed and live offsets belong together. For any two texts, and all offsets that machine words can hold when
they have moved:

* the live offset of a parsed one is a machine word again and leads back to it, and only that one does;
* live offsets come in the order of the parsed ones, the end of the parsed text belongs to the end of the live
  one, and every other offset in the text to one with the same byte;
* a range of bytes has a live range exactly if the live offsets of its bytes follow each other without a gap. The
  live range then consists of these offsets, and if the range lies in the parsed text, the live one lies in the
  live text and holds the same bytes. -/
theorem offsets_belong_together (parsed live : Text) :
    let m := Mapping.between parsed live
    let fits := Mapping.Fits parsed live
    let fitsBack := Mapping.Fits live parsed
    (∀ b c, b < UInt64.size → m.toLive b = some c →
      (fits b → c < UInt64.size) ∧ (parsed.Addressable → fitsBack c)) ∧
    (∀ b c, fits b → fitsBack c → (m.toLive b = some c ↔ m.toParsed c = some b)) ∧
    (∀ b b' c c', fits b' → b < b' → m.toLive b = some c → m.toLive b' = some c' → c < c') ∧
    m.toLive (Text.byteLength parsed) = some (Text.byteLength live) ∧
    (∀ b c, b < Text.byteLength parsed → m.toLive b = some c →
      ∃ byte, (Text.bytes parsed)[b]? = some byte ∧ (Text.bytes live)[c]? = some byte) ∧
    ∀ a b, a < b → fits b →
      ∀ a' b',
        (m.rangeToLive ⟨a, b⟩ = some ⟨a', b'⟩ ↔
          (∀ i < b - a, m.toLive (a + i) = some (a' + i)) ∧ b' = a' + (b - a)) ∧
        (b ≤ Text.byteLength parsed → m.rangeToLive ⟨a, b⟩ = some ⟨a', b'⟩ →
          b' ≤ Text.byteLength live ∧
            ((Text.bytes live).drop a').take (b' - a') = ((Text.bytes parsed).drop a).take (b - a)) := by
  intro m fits fitsBack
  refine ⟨?_, fun b c _ _ => Mapping.toLive_eq_some_iff_toParsed parsed live b c,
    fun b b' c c' _ => Mapping.toLive_lt, Mapping.toLive_byteLength parsed live, ?_, ?_⟩
  · intro b c word hc
    exact ⟨fun fits => Mapping.toLive_lt_size word fits hc,
      fun addressable => Mapping.fits_toLive addressable word hc⟩
  · intro b c inside hc
    rw [← Text.length_bytes] at inside
    have here := List.getElem?_eq_getElem inside
    exact ⟨_, here, (Mapping.getElem?_toLive hc).trans here⟩
  · intro a b inhabited fits a' b'
    exact ⟨Mapping.rangeToLive_iff_toLive inhabited fits, Mapping.bytes_rangeToLive inhabited fits⟩

/-- A blank has been put into `aé`: each of its two characters has a live range, both together have none. -/
theorem offsets_belong_together_split :
    let m := Mapping.between ['a', 'é'] ['a', ' ', 'é']
    m.toParsed 2 = some 1 ∧ m.rangeToLive ⟨1, 3⟩ = some ⟨2, 4⟩ ∧
      (∀ i < 2, m.toLive (1 + i) = some (2 + i)) ∧ m.rangeToLive ⟨0, 3⟩ = none := by
  intro m
  obtain ⟨-, back, -, -, -, ranges⟩ := offsets_belong_together ['a', 'é'] ['a', ' ', 'é']
  have moved : m.rangeToLive ⟨1, 3⟩ = some ⟨2, 4⟩ := by decide +kernel
  have offsets := ((ranges 1 3 (by decide) (by decide) 2 4).1.1 moved).1
  exact ⟨(back 1 2 (by decide) (by decide)).1 (offsets 0 (by decide)), moved, offsets,
    by decide +kernel⟩

end Highlight
