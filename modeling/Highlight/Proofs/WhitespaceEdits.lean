import Highlight.Proofs.SmallestEdit
import Highlight.Proofs.SpanDerivation

/-!
# Edits of white space

Blanks put in or taken out beside an identifier move its span by as many characters as there are blanks, and
leave it where it is if the edit stands behind it (`blank_edits_move_spans`).

The edit that is found need not stand where it was made: inside a run of blanks it slides to the right as far
as the run repeats itself. It slides over blanks only (`BlankEdit.blank_of_region`), so it stops in front of the
next identifier.
-/

namespace Highlight

/-! ## Blanks -/

/-- The white space of ASCII: blank, tab, line feed, form feed and carriage return. -/
def isBlank (c : Char) : Bool := [' ', '\t', '\n', '\x0c', '\r'].contains c

theorem utf8Size_of_isBlank {c : Char} (h : isBlank c = true) : c.utf8Size = 1 := by
  simp only [isBlank, List.contains_eq_mem, List.mem_cons, List.not_mem_nil, or_false,
    decide_eq_true_eq] at h
  rcases h with rfl | rfl | rfl | rfl | rfl <;> rfl

theorem not_isIdentifierChar_of_isBlank {c : Char} (h : isBlank c = true) :
    isIdentifierChar c = false := by
  simp only [isBlank, List.contains_eq_mem, List.mem_cons, List.not_mem_nil, or_false,
    decide_eq_true_eq] at h
  rcases h with rfl | rfl | rfl | rfl | rfl <;> decide +kernel

theorem Span.grewInto_blank (parsed : Option Char) {live : Option Char}
    (h : live.any isBlank = true) : grewInto parsed live = false := by
  cases live with
  | none => cases h
  | some c => simp [grewInto, not_isIdentifierChar_of_isBlank h]

/-- A character that begins with a byte of some blanks is one of them. -/
theorem Text.mem_of_first_byte {c : Char} {w : Text} (blank : ∀ d ∈ w, isBlank d = true) {x : UInt8}
    {rest : List UInt8} (first : String.utf8EncodeChar c = x :: rest) (hx : x ∈ bytes w) : c ∈ w := by
  obtain ⟨d, hd, inside⟩ := List.mem_flatMap.1 hx
  obtain ⟨y, single⟩ := List.length_eq_one_iff.1
    ((String.length_utf8EncodeChar d).trans (utf8Size_of_isBlank (blank d hd)))
  rw [single, List.mem_singleton] at inside
  have same : String.utf8EncodeChar c ++ [] = String.utf8EncodeChar d ++ rest := by
    rw [first, single, inside, List.append_nil, List.singleton_append]
  rw [(encode_append_inj same).1]
  exact hd

/-- A text that ends in a name without blanks does not end in a blank. -/
theorem Text.getLast?_solid {name : Text} (inhabited : name ≠ []) (solid : ∀ c ∈ name, isBlank c = false)
    (before : Text) : (before ++ name).getLast?.any isBlank = false := by
  rw [List.getLast?_append, List.getLast?_eq_getLast_of_ne_nil inhabited, Option.some_or, Option.any_some]
  exact solid _ (List.getLast_mem inhabited)

/-- A text that begins with such a name does not begin with a blank. -/
theorem Text.head?_solid {name : Text} (inhabited : name ≠ []) (solid : ∀ c ∈ name, isBlank c = false)
    (after : Text) : (name ++ after).head?.any isBlank = false := by
  rw [List.head?_append, List.head?_eq_some_head inhabited, Option.some_or, Option.any_some]
  exact solid _ (List.head_mem inhabited)

/-- What a list shares with itself behind `w` repeats `w`. -/
theorem mem_of_repeats {w b : List UInt8} {n : Nat} (inhabited : w ≠ [])
    (same : b.take n = (w ++ b).take n) {i : Nat} (hi : i < n) {x : UInt8} (hx : b[i]? = some x) :
    x ∈ w := by
  induction i using Nat.strongRecOn with
  | ind i ih =>
    have here : (w ++ b)[i]? = some x := by
      rw [← hx, ← List.getElem?_take_of_lt hi, ← same, List.getElem?_take_of_lt hi]
    have length := List.length_pos_of_ne_nil inhabited
    by_cases inside : i < w.length
    · rw [List.getElem?_append_left inside] at here
      exact List.mem_of_getElem? here
    · rw [List.getElem?_append_right (by omega)] at here
      exact ih (i - w.length) (by omega) (by omega) here

/-! ## Edits of blanks -/

/-- An edit of blanks between `front` and `back`: either the blanks `gone` are taken out or the blanks `put` are
put in. Where blanks are taken out, one stays beside them. -/
structure BlankEdit where
  front : Text
  gone : Text
  put : Text
  back : Text
  oneSided : gone = [] ∨ put = []
  blank : ∀ c ∈ gone ++ put, isBlank c = true
  separated : put = [] → front.getLast?.any isBlank = true ∨ back.head?.any isBlank = true

namespace BlankEdit

variable (e : BlankEdit)

/-- The text before the edit. -/
def source : Text := e.front ++ e.gone ++ e.back

/-- The text after the edit. -/
def live : Text := e.front ++ e.put ++ e.back

/-- The byte at which the edit is made. -/
def offset : Nat := Text.byteLength e.front

theorem oneSided_byteLength : Text.byteLength e.gone = 0 ∨ Text.byteLength e.put = 0 :=
  e.oneSided.imp (congrArg Text.byteLength) (congrArg Text.byteLength)

theorem length_bytes_front : (Text.bytes e.front).length = e.offset := Text.length_bytes e.front

theorem bytes_source :
    Text.bytes e.source = Text.bytes e.front ++ (Text.bytes e.gone ++ Text.bytes e.back) := by
  rw [source, List.append_assoc, Text.bytes_append, Text.bytes_append]

theorem bytes_live :
    Text.bytes e.live = Text.bytes e.front ++ (Text.bytes e.put ++ Text.bytes e.back) := by
  rw [live, List.append_assoc, Text.bytes_append, Text.bytes_append]

/-- If the texts are the same, nothing was taken out or put in. -/
theorem unedited {e : BlankEdit} (h : (Mapping.between e.source e.live).region = none) :
    Text.byteLength e.gone = 0 ∧ Text.byteLength e.put = 0 := by
  have same := congrArg Text.byteLength (Mapping.region_eq_none_iff.1 h)
  have oneSided := e.oneSided_byteLength
  simp only [source, live, Text.byteLength_append] at same
  omega

/-! ## Where the edit is found -/

section Region

variable {e} {r : Region} (h : (Mapping.between e.source e.live).region = some r)

include h

/-- The edit found is as long as the one that was made, and stands where that one does or behind it. -/
theorem region_eq : e.offset ≤ r.start ∧ r.oldEnd = r.start + Text.byteLength e.gone ∧
    r.newEnd = r.start + Text.byteLength e.put := by
  obtain ⟨found, between, rfl⟩ := Option.map_eq_some_iff.1 h
  have behind := Edit.length_le_start between e.bytes_source e.bytes_live
  have small := Edit.le_of_splits between (e.bytes_source.trans (List.append_assoc ..).symm)
    (e.bytes_live.trans (List.append_assoc ..).symm)
  have splices := Edit.between_splices between
  have inOld := splices.inOld
  have inNew := splices.inNew
  have growth := splices.growth
  simp only [source, live, Text.byteLength_append, Text.length_bytes] at growth small behind
  have oneSided := e.oneSided_byteLength
  refine ⟨behind, ?_⟩
  dsimp only
  omega

/-- What follows in the two texts is the same as far as the edit slides. -/
theorem take_slide : (Text.bytes e.gone ++ Text.bytes e.back).take (r.start - e.offset) =
    (Text.bytes e.put ++ Text.bytes e.back).take (r.start - e.offset) := by
  have front := congrArg (List.drop e.offset) (Mapping.bytes_between h).1
  rw [← e.length_bytes_front] at front ⊢
  rwa [List.drop_take, List.drop_take, e.bytes_source, e.bytes_live, List.drop_left, List.drop_left] at front

/-- All bytes from where the edit was made to the end of what is found to be replaced are bytes of blanks. -/
theorem blank_of_region {i : Nat} (behind : e.offset ≤ i) (before : i < r.oldEnd) :
    ∃ x ∈ Text.bytes (e.gone ++ e.put), (Text.bytes e.source)[i]? = some x := by
  obtain ⟨-, oldEnd, newEnd⟩ := region_eq h
  have inText := (Mapping.region_between h).2.2.1
  have edited := Mapping.region_inhabited h
  have repeats := take_slide h
  have room : i < (Text.bytes e.source).length := by
    rw [Text.length_bytes]
    omega
  refine ⟨_, ?_, List.getElem?_eq_getElem room⟩
  generalize byte : (Text.bytes e.source)[i] = x
  have here := List.getElem?_eq_getElem room
  rw [byte, e.bytes_source, List.getElem?_append_right (by rwa [e.length_bytes_front]),
    e.length_bytes_front] at here
  have inhabited {w : Text} (some : 0 < Text.byteLength w) : Text.bytes w ≠ [] :=
    List.ne_nil_of_length_pos (by rwa [Text.length_bytes])
  rcases e.oneSided with nothing | nothing
  · simp only [nothing, Text.byteLength_nil, Text.bytes_nil, List.nil_append] at oldEnd repeats here ⊢
    exact mem_of_repeats (inhabited (by omega)) repeats (by omega) here
  · rw [nothing] at newEnd repeats ⊢
    simp only [Text.byteLength_nil, Text.bytes_nil, List.nil_append, List.append_nil] at newEnd repeats ⊢
    by_cases inside : i - e.offset < (Text.bytes e.gone).length
    · rw [List.getElem?_append_left inside] at here
      exact List.mem_of_getElem? here
    · rw [List.getElem?_append_right (by omega)] at here
      rw [Text.length_bytes] at inside here
      exact mem_of_repeats (inhabited (by omega)) repeats.symm (by omega) here

end Region

/-! ## Names beside the edit -/

/-- A name in front of the edit stays. -/
theorem toLive_before {e : BlankEdit} {range : ByteRange} (inhabited : range.start < range.stop)
    (before : range.stop ≤ e.offset) :
    (Mapping.between e.source e.live).toLive range.start = some range.start := by
  cases hr : (Mapping.between e.source e.live).region with
  | none => exact Mapping.toLive_of_identical hr _
  | some r =>
    have start := (region_eq hr).1
    rw [Mapping.toLive_eq_some_iff hr]
    omega

section Names

variable {e} {range : ByteRange} {name : Text.Cut} (hp : Text.cut? e.source range = some name)
  (inhabited : range.start < range.stop) (solid : ∀ c ∈ name.inside, isBlank c = false)

include hp inhabited solid

/-- A name without blanks does not begin with a byte of a blank. -/
theorem not_mem_of_start {x : UInt8} (here : (Text.bytes e.source)[range.start]? = some x) :
    x ∉ Text.bytes (e.gone ++ e.put) := by
  intro blank
  obtain ⟨whole, start, -⟩ := Text.cut?_eq_some_iff.1 hp
  obtain ⟨c, rest, name_eq⟩ := List.exists_cons_of_ne_nil (Text.inside_ne_nil_of_cut? hp inhabited)
  obtain ⟨y, ys, first⟩ := List.exists_cons_of_ne_nil (String.utf8EncodeChar_ne_nil (c := c))
  have same : y = x := by
    rw [whole, List.append_assoc, Text.bytes_append, ← start, ← Text.length_bytes,
      List.getElem?_append_right (Nat.le_refl _), Nat.sub_self, name_eq, List.cons_append,
      Text.bytes_cons, first] at here
    exact Option.some.inj here
  have member := Text.mem_of_first_byte e.blank first (same ▸ blank)
  have plain := solid c (by rw [name_eq]; exact List.mem_cons_self ..)
  rw [e.blank c member] at plain
  cases plain

/-- A name behind the place of the edit is behind what is found to be replaced. -/
theorem oldEnd_le {r : Region} (hr : (Mapping.between e.source e.live).region = some r)
    (behind : e.offset ≤ range.start) : r.oldEnd ≤ range.start := by
  apply Decidable.byContradiction
  intro touched
  obtain ⟨x, blank, here⟩ := blank_of_region hr behind (by omega)
  exact not_mem_of_start hp inhabited solid here blank

/-- The edit does not touch a name in front of it or behind it. -/
theorem spares (side : range.stop ≤ e.offset ∨ e.offset ≤ range.start) :
    (Mapping.between e.source e.live).Spares range := by
  intro r hr
  rcases side with before | behind
  · exact .inl (Nat.le_trans before (region_eq hr).1)
  · exact .inr (oldEnd_le hp inhabited solid hr behind)

/-- A name behind the edit is behind what is taken out, and moves by as many bytes as the text grows. -/
theorem toLive_behind (behind : e.offset ≤ range.start) :
    Text.byteLength (e.front ++ e.gone) ≤ range.start ∧
      (Mapping.between e.source e.live).toLive range.start =
        some (range.start - Text.byteLength e.gone + Text.byteLength e.put) := by
  rw [Text.byteLength_append]
  unfold offset at behind
  cases hr : (Mapping.between e.source e.live).region with
  | none =>
    obtain ⟨gone, put⟩ := unedited hr
    rw [Mapping.toLive_of_identical hr, gone, put]
    exact ⟨behind, rfl⟩
  | some r =>
    obtain ⟨start, oldEnd, newEnd⟩ := region_eq hr
    have beyond := oldEnd_le hp inhabited solid hr behind
    rw [Mapping.toLive_eq_some_iff hr]
    unfold offset at start
    omega

end Names

/-! ## Neighbours beside the edit -/

/-- In the live text a blank follows what stands in front of the edit, unless one stands at its end. -/
theorem blank_behind (h : e.front.getLast?.any isBlank = false) :
    (e.put ++ e.back).head?.any isBlank = true := by
  cases put : e.put with
  | nil =>
    rcases e.separated put with left | right
    · rw [h] at left
      cases left
    · exact right
  | cons c rest =>
    exact e.blank c (by simp [put])

/-- In the live text a blank stands in front of what follows the edit, unless that begins with one. -/
theorem blank_in_front (h : e.back.head?.any isBlank = false) :
    (e.front ++ e.put).getLast?.any isBlank = true := by
  rcases List.eq_nil_or_concat e.put with put | ⟨rest, c, put⟩
  · rw [put, List.append_nil]
    rcases e.separated put with left | right
    · exact left
    · rw [h] at right
      cases right
  · rw [put, List.concat_eq_append, List.getLast?_append, List.getLast?_concat, Option.some_or,
      Option.any_some]
    exact e.blank c (by simp [put])

end BlankEdit

/-! ## Spans beside the edit -/

/-- A name that stands between other texts than before has its span between them, if the edit spares it and no
neighbour has grown into it. -/
theorem Span.derive?_of_pieces {file : Snapshot} {range : ByteRange} {kind : String} {name : Text.Cut}
    (identifier : ∃ g, file.grammar = some g ∧ g.isIdentifier kind = true)
    (hp : Text.cut? file.source range = some name) (inhabited : range.start < range.stop)
    {live before after : Text} (addressable : live.Addressable) (pieces : live = before ++ name.inside ++ after)
    (spared : (Mapping.between file.source live).Spares range)
    (start : (Mapping.between file.source live).toLive range.start = some (Text.byteLength before))
    (left : grewInto name.before.getLast? before.getLast? = false)
    (right : grewInto name.after.head? after.head? = false) :
    derive? file range kind live (.between file.source live) = some ⟨before.length, name.inside.length⟩ := by
  have hc : Text.cut? live ⟨Text.byteLength before, Text.byteLength (before ++ name.inside)⟩ =
      some ⟨before, name.inside, after⟩ := Text.cut?_eq_some_iff.2 ⟨pieces, rfl, rfl⟩
  rw [derive?_eq_some_iff, derive_eq_ok_iff_intact addressable]
  refine ⟨identifier, inhabited, Text.boundaries_of_cut? hp, spared, ⟨_, start, ?_⟩, ?_, ?_⟩
  · rw [Text.charsBefore_of_cut? hc, ofRange_eq hp]
  · rwa [(neighbours_of_cut? hp).1, Text.charBefore?_of_cut? hc]
  · rwa [(neighbours_of_cut? hp).2, Span.stop, Text.getElem?_of_cut? hc]

namespace BlankEdit

section Spans

variable {e : BlankEdit} {file : Snapshot} {range : ByteRange} {kind : String} {name : Text.Cut}
  (parsed : file.source = e.source)
  (identifier : ∃ g, file.grammar = some g ∧ g.isIdentifier kind = true)
  (hp : Text.cut? file.source range = some name) (inhabited : range.start < range.stop)
  (solid : ∀ c ∈ name.inside, isBlank c = false) (addressable : e.live.Addressable)

include parsed identifier hp inhabited solid addressable

/-- A name in front of the edit keeps its span. -/
theorem derive?_before (before : range.stop ≤ e.offset) :
    Span.derive? file range kind e.live (.between file.source e.live) =
      some ⟨name.before.length, name.inside.length⟩ := by
  obtain ⟨whole, start, stop⟩ := Text.cut?_eq_some_iff.1 hp
  rw [parsed, source, List.append_assoc] at whole
  obtain ⟨z, front⟩ := Text.front_of_byteLength_le whole.symm (by rw [stop]; exact before)
  have after : name.after = z ++ (e.gone ++ e.back) := by
    rw [front, List.append_assoc, List.append_cancel_left_eq] at whole
    exact whole.symm
  have pieces : e.live = name.before ++ name.inside ++ (z ++ (e.put ++ e.back)) := by
    simp only [live, front, List.append_assoc]
  refine Span.derive?_of_pieces identifier hp inhabited addressable pieces ?_ ?_
    (Span.grewInto_self _) ?_
  · rw [parsed] at hp ⊢
    exact spares hp inhabited solid (.inl before)
  · rw [parsed, start]
    exact toLive_before inhabited before
  · rw [after]
    cases z with
    | cons c z => exact Span.grewInto_self (some c)
    | nil =>
      apply Span.grewInto_blank
      apply e.blank_behind
      rw [front, List.append_nil]
      exact Text.getLast?_solid (Text.inside_ne_nil_of_cut? hp inhabited) solid _

/-- A name behind the edit moves by as many characters as the text grows. -/
theorem derive?_behind (behind : e.offset ≤ range.start) :
    ∃ offset, offset + e.gone.length = name.before.length + e.put.length ∧
      Span.derive? file range kind e.live (.between file.source e.live) =
        some ⟨offset, name.inside.length⟩ := by
  obtain ⟨whole, start, -⟩ := Text.cut?_eq_some_iff.1 hp
  have hp' := hp
  rw [parsed] at hp'
  obtain ⟨beyond, moved⟩ := toLive_behind hp' inhabited solid behind
  rw [parsed, source, List.append_assoc name.before] at whole
  obtain ⟨z, before⟩ := Text.front_of_byteLength_le whole (by rw [start]; exact beyond)
  have back : e.back = z ++ (name.inside ++ name.after) := by
    rw [before, List.append_assoc _ z, List.append_cancel_left_eq] at whole
    exact whole
  have pieces : e.live = e.front ++ e.put ++ z ++ name.inside ++ name.after := by
    simp only [live, back, List.append_assoc]
  refine ⟨(e.front ++ e.put ++ z).length, ?_, ?_⟩
  · rw [before]
    simp only [List.length_append]
    omega
  refine Span.derive?_of_pieces identifier hp inhabited addressable pieces ?_ ?_ ?_
    (Span.grewInto_self _)
  · rw [parsed]
    exact spares hp' inhabited solid (.inr behind)
  · rw [parsed, moved, ← start, before]
    simp only [Text.byteLength_append, Option.some.injEq]
    omega
  · rw [before]
    rcases List.eq_nil_or_concat z with nothing | ⟨rest, c, last⟩
    · apply Span.grewInto_blank
      rw [nothing, List.append_nil]
      apply e.blank_in_front
      rw [back, nothing, List.nil_append]
      exact Text.head?_solid (Text.inside_ne_nil_of_cut? hp inhabited) solid _
    · rw [last, List.concat_eq_append, ← List.append_assoc, ← List.append_assoc, List.getLast?_concat,
        List.getLast?_concat]
      exact Span.grewInto_self _

end Spans

/-- Blanks are not taken out of a name that has none. -/
theorem beside {e : BlankEdit} {range : ByteRange} {name : Text.Cut}
    (hp : Text.cut? e.source range = some name) (solid : ∀ c ∈ name.inside, isBlank c = false)
    (taken : e.put = []) :
    range.stop ≤ e.offset ∨ e.offset ≤ range.start := by
  apply Decidable.byContradiction
  intro inside
  obtain ⟨whole, start, stop⟩ := Text.cut?_eq_some_iff.1 hp
  rw [source, List.append_assoc, List.append_assoc] at whole
  rw [Text.byteLength_append] at stop
  unfold offset at inside
  -- the edit would part the name into `u` in front of it and `v` behind it
  obtain ⟨u, front⟩ := Text.front_of_byteLength_le whole.symm (by omega)
  rw [front, List.append_assoc, List.append_cancel_left_eq] at whole
  have width := congrArg Text.byteLength front
  rw [Text.byteLength_append] at width
  obtain ⟨v, parts⟩ := Text.front_of_byteLength_le whole (by omega)
  rw [parts, Text.byteLength_append] at stop
  rw [parts, List.append_assoc, List.append_cancel_left_eq] at whole
  rw [parts] at solid
  have some {t : Text} (length : 0 < Text.byteLength t) : t ≠ [] := by
    rintro rfl
    exact absurd length (Nat.lt_irrefl 0)
  have left := Text.getLast?_solid (some (show 0 < Text.byteLength u by omega))
    (fun c hc => solid c (List.mem_append_left _ hc)) name.before
  have right := Text.head?_solid (some (show 0 < Text.byteLength v by omega))
    (fun c hc => solid c (List.mem_append_right _ hc)) name.after
  rw [← front] at left
  rw [← whole] at right
  cases gone : e.gone with
  | nil =>
    rw [gone, List.nil_append] at right
    rcases e.separated taken with blank | blank
    · rw [left] at blank
      cases blank
    · rw [right] at blank
      cases blank
  | cons c rest =>
    rw [gone, List.cons_append, List.head?_cons, Option.any_some, e.blank c (by simp [gone])] at right
    cases right

end BlankEdit

/-! ## The main statement -/

/-- Blanks beside a name move its span. Of an identifier with some characters and no blanks among them, and any
live text that machine words can address:

* if blanks were put in somewhere outside of it, at the byte `k`, it has a span of the same length, which stays
  for `k` behind the identifier and stands as many characters further as there are blanks for `k` in front of it;
* if blanks were taken out, from the byte `k` on and so that one stays beside them, this was outside of the
  identifier; it has a span of the same length, which stays for `k` behind the identifier and stands as many
  characters nearer as there are blanks for `k` in front of it. -/
theorem blank_edits_move_spans {file : Snapshot} {range : ByteRange} {kind : String} {name live : Text}
    (identifier : ∃ g, file.grammar = some g ∧ g.isIdentifier kind = true)
    (inhabited : range.start < range.stop) (text : file.textOf? range = some name)
    (solid : ∀ c ∈ name, isBlank c = false) (addressable : live.Addressable) :
    let here := Span.ofRange file.source range
    let span? := Span.derive? file range kind live (.between file.source live)
    (∀ front blanks back, file.source = front ++ back → live = front ++ blanks ++ back → blanks ≠ [] →
      (∀ c ∈ blanks, isBlank c = true) →
      (range.stop ≤ Text.byteLength front → span? = some here) ∧
      (Text.byteLength front ≤ range.start →
        span? = some ⟨here.offset + blanks.length, here.length⟩)) ∧
    ∀ front blanks back, file.source = front ++ blanks ++ back → live = front ++ back →
      (∀ c ∈ blanks, isBlank c = true) →
      front.getLast?.any isBlank = true ∨ back.head?.any isBlank = true →
      (range.stop ≤ Text.byteLength front ∨ Text.byteLength front ≤ range.start) ∧
      (range.stop ≤ Text.byteLength front → span? = some here) ∧
      (Text.byteLength front ≤ range.start →
        ∃ offset, offset + blanks.length = here.offset ∧ span? = some ⟨offset, here.length⟩) := by
  intro here span?
  obtain ⟨cut, hp, rfl⟩ := Option.map_eq_some_iff.1 text
  have here_eq : here = ⟨cut.before.length, cut.inside.length⟩ := Span.ofRange_eq hp
  rw [here_eq]
  refine ⟨?_, ?_⟩
  · intro front blanks back source_eq live_eq some blank
    let e : BlankEdit :=
      { front, back, gone := [], put := blanks, oneSided := .inl rfl, blank
        separated := fun nothing => absurd nothing some }
    have parsed : file.source = e.source := by rw [source_eq, BlankEdit.source, List.append_nil]
    have after : live = e.live := live_eq
    subst after
    refine ⟨BlankEdit.derive?_before parsed identifier hp inhabited solid addressable, fun behind => ?_⟩
    obtain ⟨offset, moved, derived⟩ :=
      BlankEdit.derive?_behind parsed identifier hp inhabited solid addressable behind
    have offset_eq : offset = cut.before.length + blanks.length := moved
    rw [← offset_eq]
    exact derived
  · intro front blanks back source_eq live_eq blank separated
    let e : BlankEdit :=
      { front, back, gone := blanks, put := [], oneSided := .inr rfl
        blank := by simpa using blank, separated := fun _ => separated }
    have parsed : file.source = e.source := source_eq
    have after : live = e.live := by rw [live_eq, BlankEdit.live, List.append_nil]
    subst after
    refine ⟨BlankEdit.beside (e := e) (by rw [← parsed]; exact hp) solid rfl,
      BlankEdit.derive?_before parsed identifier hp inhabited solid addressable, fun behind => ?_⟩
    exact BlankEdit.derive?_behind parsed identifier hp inhabited solid addressable behind

/-- The text `é  b`. -/
def Snapshot.twoBlanks : Snapshot where
  document := 0
  language := .javaScript
  revision := 0
  source := ['é', ' ', ' ', 'b']
  tree := .node ⟨"program", ⟨0, 5⟩, none⟩ [
    .node ⟨"identifier", ⟨0, 2⟩, none⟩ [],
    .node ⟨"identifier", ⟨4, 5⟩, none⟩ []]

/-- The first of two blanks is taken out, and the edit is found at the second one; then a line is broken between
them. Either way the name behind them moves along. -/
theorem blank_edits_move_spans_sliding :
    let span? (live : Text) := Span.derive? .twoBlanks ⟨4, 5⟩ "identifier" live
      (.between Snapshot.twoBlanks.source live)
    (Mapping.between Snapshot.twoBlanks.source ['é', ' ', 'b']).region = some ⟨3, 4, 3⟩ ∧
      span? ['é', ' ', 'b'] = some ⟨2, 1⟩ ∧ span? ['é', ' ', '\n', ' ', 'b'] = some ⟨4, 1⟩ := by
  intro span?
  have identifier : ∃ g, Snapshot.twoBlanks.grammar = some g ∧ g.isIdentifier "identifier" = true :=
    ⟨_, rfl, rfl⟩
  have text : Snapshot.twoBlanks.textOf? ⟨4, 5⟩ = some ['b'] := by decide
  have solid : ∀ c ∈ ['b'], isBlank c = false := by simp [isBlank]
  have blank : ∀ c ∈ [' '], isBlank c = true := by simp [isBlank]
  have newline : ∀ c ∈ ['\n'], isBlank c = true := by simp [isBlank]
  have one : Text.Addressable ['é', ' ', 'b'] := by decide
  have three : Text.Addressable ['é', ' ', '\n', ' ', 'b'] := by decide
  obtain ⟨-, taken⟩ := blank_edits_move_spans identifier (by decide) text solid one
  obtain ⟨put, -⟩ := blank_edits_move_spans identifier (by decide) text solid three
  obtain ⟨-, -, nearer⟩ := taken ['é'] [' '] [' ', 'b'] rfl rfl blank (by decide)
  obtain ⟨-, further⟩ := put ['é', ' '] ['\n'] [' ', 'b'] rfl rfl (by decide) newline
  obtain ⟨offset, moved, derived⟩ := nearer (by decide)
  have two : offset = 2 := Nat.add_right_cancel (moved : offset + 1 = 2 + 1)
  rw [two] at derived
  exact ⟨by decide +kernel, derived, further (by decide)⟩

end Highlight
