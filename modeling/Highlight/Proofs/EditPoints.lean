import Mathlib.Data.List.DropRight
import Mathlib.Data.Prod.Lex
import Mathlib.Order.Interval.Set.Defs
import Highlight.Proofs.EditSplice

/-!
# The points of an edit

An edit names its three places twice, by byte offset and by row and column. `Point.behind` says what row and
column mean: the newlines so far, and the bytes behind the last one. A scan that advances byte by byte comes
to that point (`Point.atByte_eq_behind`), and every byte leads to a later one (`Point.key_lt_advance`), so
offsets and points stand in the same order (`Point.strictMonoOn_atByte`).

`edit_points_agree` puts this together for the edit between two texts, whose offsets may lie inside a
character or next to a newline.
-/

namespace Highlight

namespace Point

/-! ## Rows and columns -/

/-- The place behind some bytes: as many rows as there are newlines, and the bytes behind the last of
them. -/
def behind (bytes : List UInt8) : Point :=
  ⟨bytes.count 0x0a, (bytes.rtakeWhile (· ≠ 0x0a)).length⟩

/-- Points are compared by row and then by column. -/
def key (p : Point) : ℕ ×ₗ ℕ := toLex (p.row, p.column)

theorem key_lt_advance (p : Point) (b : UInt8) : p.key < (p.advance b).key := by
  rw [key, key, Prod.Lex.toLex_lt_toLex]
  unfold advance
  split
  · exact Or.inl (Nat.lt_succ_self _)
  · exact Or.inr ⟨rfl, Nat.lt_succ_self _⟩

theorem key_le_foldl_advance (p : Point) (bytes : List UInt8) :
    p.key ≤ (bytes.foldl advance p).key := by
  induction bytes generalizing p with
  | nil => exact le_rfl
  | cons b bytes ih => exact (p.key_lt_advance b).le.trans (ih (p.advance b))

theorem key_lt_foldl_advance (p : Point) {bytes : List UInt8} (some : bytes ≠ []) :
    p.key < (bytes.foldl advance p).key := by
  cases bytes with
  | nil => exact absurd rfl some
  | cons b bytes => exact (p.key_lt_advance b).trans_le (key_le_foldl_advance _ bytes)

/-! ## The scan of a text -/

theorem behind_concat (bytes : List UInt8) (b : UInt8) :
    behind (bytes ++ [b]) = (behind bytes).advance b := by
  unfold behind advance
  by_cases ends : b = 0x0a
  · rw [if_pos ends, List.rtakeWhile_concat_neg _ _ _ (by simp [ends])]
    simp [ends]
  · rw [if_neg ends, List.rtakeWhile_concat_pos _ _ _ (by simpa using ends)]
    simp [ends]

theorem foldl_advance_eq_behind (bytes : List UInt8) : bytes.foldl advance ⟨0, 0⟩ = behind bytes := by
  induction bytes using List.reverseRecOn with
  | nil => rfl
  | append_singleton bytes b ih => rw [List.foldl_concat, ih, behind_concat]

theorem atByte_eq_behind (bytes : List UInt8) (n : Nat) : atByte bytes n = behind (bytes.take n) :=
  foldl_advance_eq_behind _

/-- From one offset to a later one the point advances over the bytes between them. -/
theorem atByte_eq_foldl (bytes : List UInt8) {m n : Nat} (le : m ≤ n) :
    atByte bytes n = (bytes.extract m n).foldl advance (atByte bytes m) := by
  obtain ⟨k, rfl⟩ := Nat.exists_eq_add_of_le le
  rw [atByte, atByte, ← List.foldl_append, List.take_add, List.extract_eq_take_drop,
    Nat.add_sub_cancel_left]

theorem key_atByte_lt (bytes : List UInt8) {m n : Nat} (lt : m < n) (inside : n ≤ bytes.length) :
    (atByte bytes m).key < (atByte bytes n).key := by
  rw [atByte_eq_foldl bytes lt.le]
  apply key_lt_foldl_advance
  apply List.ne_nil_of_length_pos
  simp only [List.extract_eq_take_drop, List.length_take, List.length_drop]
  omega

theorem strictMonoOn_atByte (bytes : List UInt8) :
    StrictMonoOn (fun n => (atByte bytes n).key) (Set.Iic bytes.length) :=
  fun _ _ _ inside lt => key_atByte_lt bytes lt inside

theorem atByte_of_length_le (bytes : List UInt8) {n : Nat} (beyond : bytes.length ≤ n) :
    atByte bytes n = atByte bytes bytes.length := by
  rw [atByte, atByte, List.take_of_length_le beyond, List.take_length]

/-- Of two offsets in a text the later one has the later point. -/
theorem key_atByte_le (bytes : List UInt8) {m n : Nat} (le : m ≤ n) (inside : n ≤ bytes.length) :
    (atByte bytes m).key ≤ (atByte bytes n).key ∧ (atByte bytes n = atByte bytes m ↔ n = m) := by
  rcases Nat.eq_or_lt_of_le le with rfl | lt
  · exact ⟨le_rfl, by simp⟩
  · have later := key_atByte_lt bytes lt inside
    refine ⟨later.le, fun same => ?_, fun same => by rw [same]⟩
    rw [same] at later
    exact absurd later (lt_irrefl _)

end Point

namespace Edit.Splices

variable {e : Edit} {old new : Text} (h : e.Splices old new)

include h

/-- The start of an edit is at the same point of both texts. -/
theorem startPoint_new : e.startPoint = Point.atByte (Text.bytes new) e.start := by
  rw [h.startPoint, Point.atByte, Point.atByte, h.front]

/-- An end of the edit is reached from its start by advancing over what lies between them. -/
theorem endPoints :
    e.oldEndPoint = ((Text.bytes old).extract e.start e.oldEnd).foldl Point.advance e.startPoint ∧
      e.newEndPoint = ((Text.bytes new).extract e.start e.newEnd).foldl Point.advance e.startPoint := by
  constructor
  · rw [h.oldEndPoint, h.startPoint]
    exact Point.atByte_eq_foldl _ h.inOld.1
  · rw [h.newEndPoint, h.startPoint_new]
    exact Point.atByte_eq_foldl _ h.inNew.1

/-- The ends of the edit stand at or behind its start, and at it only if nothing lies between. -/
theorem key_startPoint_le :
    (e.startPoint.key ≤ e.oldEndPoint.key ∧ (e.oldEndPoint = e.startPoint ↔ e.oldEnd = e.start)) ∧
      e.startPoint.key ≤ e.newEndPoint.key ∧ (e.newEndPoint = e.startPoint ↔ e.newEnd = e.start) := by
  constructor
  · rw [h.oldEndPoint, h.startPoint]
    exact Point.key_atByte_le _ h.inOld.1 (by simpa using h.inOld.2)
  · rw [h.newEndPoint, h.startPoint_new]
    exact Point.key_atByte_le _ h.inNew.1 (by simpa using h.inNew.2)

end Edit.Splices

/-- The points of an edit are where its offsets are. In every text the point of an offset rises strictly with
the offset, by row and then by column, up to the end of the text, and is the same beyond it. Two texts that
differ have an edit between them, and

* its points are given by the newlines before its offsets and the bytes behind the last of them;
* its start is at the same point in both texts;
* each end is reached by advancing from the start over the bytes between them;
* so no end is in front of the start, and an end is at the point of the start exactly if it is at its offset. -/
theorem edit_points_agree :
    (∀ t : Text,
      StrictMonoOn (fun n => (Point.atByte (Text.bytes t) n).key) (Set.Iic (Text.byteLength t)) ∧
      ∀ n, Text.byteLength t ≤ n →
        Point.atByte (Text.bytes t) n = Point.atByte (Text.bytes t) (Text.byteLength t)) ∧
    ∀ old new : Text, old ≠ new → ∃ e, Edit.between old new = some e ∧
      (e.startPoint = .behind ((Text.bytes old).take e.start) ∧
        e.oldEndPoint = .behind ((Text.bytes old).take e.oldEnd) ∧
        e.newEndPoint = .behind ((Text.bytes new).take e.newEnd)) ∧
      (e.startPoint = Point.atByte (Text.bytes old) e.start ∧
        e.startPoint = Point.atByte (Text.bytes new) e.start) ∧
      (e.oldEndPoint = ((Text.bytes old).extract e.start e.oldEnd).foldl Point.advance e.startPoint ∧
        e.newEndPoint =
          ((Text.bytes new).extract e.start e.newEnd).foldl Point.advance e.startPoint) ∧
      (e.startPoint.key ≤ e.oldEndPoint.key ∧ (e.oldEndPoint = e.startPoint ↔ e.oldEnd = e.start)) ∧
      e.startPoint.key ≤ e.newEndPoint.key ∧ (e.newEndPoint = e.startPoint ↔ e.newEnd = e.start) := by
  refine ⟨fun t => ?_, fun old new differ => ?_⟩
  · rw [← Text.length_bytes]
    exact ⟨Point.strictMonoOn_atByte _, fun n => Point.atByte_of_length_le _⟩
  · obtain ⟨e, found⟩ := Option.ne_none_iff_exists'.1 fun none => differ (Edit.between_eq_none_iff.1 none)
    have splices := Edit.between_splices found
    refine ⟨e, found, ?_, ⟨splices.startPoint, splices.startPoint_new⟩, splices.endPoints,
      splices.key_startPoint_le⟩
    rw [← Point.atByte_eq_behind, ← Point.atByte_eq_behind, ← Point.atByte_eq_behind]
    exact ⟨splices.startPoint, splices.oldEndPoint, splices.newEndPoint⟩

/-- A row is inserted in front of `é`, and the new one begins with `è`, which shares its first byte: the edit
starts inside the character, in the second row, and its new end is inside the last one, a row further down. -/
theorem edit_points_agree_inside_character :
    ∃ e, Edit.between ['a', '\n', 'é'] ['a', '\n', 'è', '\n', 'é'] = some e ∧
      e.start = 3 ∧ e.startPoint = ⟨1, 1⟩ ∧ e.oldEndPoint = e.startPoint ∧ e.newEndPoint = ⟨2, 1⟩ := by
  obtain ⟨e, found, ⟨start, -, newEnd⟩, -, -, ⟨-, here⟩, -⟩ :=
    edit_points_agree.2 ['a', '\n', 'é'] ['a', '\n', 'è', '\n', 'é'] (by decide)
  have offsets : (Edit.between ['a', '\n', 'é'] ['a', '\n', 'è', '\n', 'é']).map
      (fun e => (e.start, e.oldEnd, e.newEnd)) = some (3, 3, 6) := by decide +kernel
  simp only [found, Option.map_some, Option.some.injEq, Prod.mk.injEq] at offsets
  obtain ⟨atStart, atOld, atNew⟩ := offsets
  rw [atStart] at start
  rw [atNew] at newEnd
  refine ⟨e, found, atStart, start.trans (by decide +kernel), here.2 (atOld.trans atStart.symm),
    newEnd.trans (by decide +kernel)⟩

end Highlight
