import Highlight.Proofs.EditSplice

/-!
# The edit between two texts is the smallest

There are many ways to explain how one text became another: every common front and every common back of the
two that do not overlap leave a middle that was replaced. The edit that `Edit.between` reports replaces no more
bytes than any of them, on either side (`Edit.le_of_splits`). So an insertion is reported as an insertion of its
own length and a deletion as a deletion, also in the middle of a repeating text, where front and back compete
for the same bytes.
-/

namespace Highlight

namespace Edit

/-! ## The longest common front -/

theorem le_commonFront {as bs : List UInt8} {n : Nat} (inLeft : n ≤ as.length)
    (inRight : n ≤ bs.length) (same : as.take n = bs.take n) : n ≤ commonFront as bs := by
  fun_induction commonFront as bs generalizing n with
  | case1 a as bs ih =>
    cases n with
    | zero => exact Nat.zero_le _
    | succ n =>
      simp only [List.length_cons, List.take_succ_cons, List.cons.injEq, true_and] at inLeft inRight same
      exact Nat.succ_le_succ (ih (by omega) (by omega) same)
  | case2 a as b bs differ =>
    cases n with
    | zero => exact Nat.zero_le _
    | succ n =>
      simp only [List.take_succ_cons, List.cons.injEq] at same
      exact absurd same.1 differ
  | case3 as bs ends =>
    cases n with
    | zero => exact Nat.zero_le _
    | succ n =>
      cases as with
      | nil => simp at inLeft
      | cons a as =>
        cases bs with
        | nil => simp at inRight
        | cons b bs => exact (ends a as b bs rfl rfl).elim

theorem length_le_commonFront (front as bs : List UInt8) :
    front.length ≤ commonFront (front ++ as) (front ++ bs) := by
  apply le_commonFront
  · simp
  · simp
  · rw [List.take_left, List.take_left]

/-- Two lists with the back `back` share as much of it as follows `start` in both. -/
theorem le_commonBack (as bs back : List UInt8) (start : Nat) :
    min back.length (min ((as ++ back).length - start) ((bs ++ back).length - start)) ≤
      commonFront ((as ++ back).drop start).reverse ((bs ++ back).drop start).reverse := by
  generalize shared :
    min back.length (min ((as ++ back).length - start) ((bs ++ back).length - start)) = n
  -- the last `n` bytes of either list are those of the common back
  have last (front : List UInt8) (behind : n ≤ (front ++ back).length - start) :
      ((front ++ back).drop start).reverse.take n = back.reverse.take n := by
    have inBack : n ≤ back.reverse.length := by simp only [List.length_reverse]; omega
    rw [List.reverse_drop, List.take_take, Nat.min_eq_left behind, List.reverse_append,
      List.take_append_of_le_length inBack]
  apply le_commonFront
  · simp only [List.length_reverse, List.length_drop]
    omega
  · simp only [List.length_reverse, List.length_drop]
    omega
  · rw [last as (by omega), last bs (by omega)]

/-! ## Other ways to explain the change -/

section Splits

variable {old new : Text} {e : Edit} (h : between old new = some e)

include h

/-- No other front and back leave less in the middle. -/
theorem le_of_splits {front was is back : List UInt8} (inOld : Text.bytes old = front ++ was ++ back)
    (inNew : Text.bytes new = front ++ is ++ back) :
    e.oldEnd - e.start ≤ was.length ∧ e.newEnd - e.start ≤ is.length := by
  by_cases same : old = new
  · rw [between_eq_none_iff.2 same] at h
    cases h
  · simp only [between, same, if_false, Option.some.injEq] at h
    subst h
    have start := length_le_commonFront front (was ++ back) (is ++ back)
    simp only [← List.append_assoc] at start
    have behind := le_commonBack (front ++ was) (front ++ is) back
      (commonFront (Text.bytes old) (Text.bytes new))
    simp only [inOld, inNew, List.length_append] at start behind ⊢
    omega

/-- The edit begins behind every common front. -/
theorem length_le_start {front was is : List UInt8} (inOld : Text.bytes old = front ++ was)
    (inNew : Text.bytes new = front ++ is) : front.length ≤ e.start := by
  by_cases same : old = new
  · rw [between_eq_none_iff.2 same] at h
    cases h
  · simp only [between, same, if_false, Option.some.injEq] at h
    subst h
    simp only [inOld, inNew]
    exact length_le_commonFront front was is

/-- An insertion is reported as one. -/
theorem eq_of_insertion {front inserted back : List UInt8} (inOld : Text.bytes old = front ++ back)
    (inNew : Text.bytes new = front ++ inserted ++ back) :
    e.oldEnd = e.start ∧ e.newEnd = e.start + inserted.length := by
  have whole : Text.bytes old = front ++ [] ++ back := by rw [inOld, List.append_nil]
  have small := le_of_splits h whole inNew
  have splices := between_splices h
  have order := splices.inOld
  have growth := splices.growth
  rw [← Text.length_bytes, ← Text.length_bytes, inOld, inNew] at growth
  simp only [List.length_append, List.length_nil] at small growth
  omega

/-- A deletion is reported as one. -/
theorem eq_of_deletion {front deleted back : List UInt8}
    (inOld : Text.bytes old = front ++ deleted ++ back) (inNew : Text.bytes new = front ++ back) :
    e.newEnd = e.start ∧ e.oldEnd = e.start + deleted.length := by
  have whole : Text.bytes new = front ++ [] ++ back := by rw [inNew, List.append_nil]
  have small := le_of_splits h inOld whole
  have splices := between_splices h
  have order := splices.inNew
  have growth := splices.growth
  rw [← Text.length_bytes, ← Text.length_bytes, inOld, inNew] at growth
  simp only [List.length_append, List.length_nil] at small growth
  omega

end Splits

end Edit

/-- The edit between two texts is a correct and smallest splice. There is none exactly between equal texts.
Any other pair shares the bytes in front of the edit and those behind it, and however the one text is split
into a front, a middle and a back around which the other differs only in the middle, the edit replaces no more
bytes than these middles have. In particular one insertion and one deletion are reported as what they are. -/
theorem edit_is_smallest_splice (old new : Text) :
    (Edit.between old new = none ↔ old = new) ∧
    ∀ e, Edit.between old new = some e →
      (e.start ≤ e.oldEnd ∧ e.oldEnd ≤ Text.byteLength old) ∧
      (e.start ≤ e.newEnd ∧ e.newEnd ≤ Text.byteLength new) ∧
      (Text.bytes old).take e.start = (Text.bytes new).take e.start ∧
      (Text.bytes old).drop e.oldEnd = (Text.bytes new).drop e.newEnd ∧
      (∀ front was is back, Text.bytes old = front ++ was ++ back →
        Text.bytes new = front ++ is ++ back →
        e.oldEnd - e.start ≤ was.length ∧ e.newEnd - e.start ≤ is.length) ∧
      (∀ front inserted back, Text.bytes old = front ++ back →
        Text.bytes new = front ++ inserted ++ back →
        e.oldEnd = e.start ∧ e.newEnd = e.start + inserted.length) ∧
      (∀ front deleted back, Text.bytes old = front ++ deleted ++ back →
        Text.bytes new = front ++ back →
        e.newEnd = e.start ∧ e.oldEnd = e.start + deleted.length) := by
  refine ⟨Edit.between_eq_none_iff, fun e h => ?_⟩
  have splices := Edit.between_splices h
  exact ⟨splices.inOld, splices.inNew, splices.front, splices.back,
    fun _ _ _ _ inOld inNew => Edit.le_of_splits h inOld inNew,
    fun _ _ _ inOld inNew => Edit.eq_of_insertion h inOld inNew,
    fun _ _ _ inOld inNew => Edit.eq_of_deletion h inOld inNew⟩

/-- A third `é` is typed in front of two others: the common front takes both of them, so the edit stands
behind them, but it is still an insertion of two bytes. -/
theorem edit_is_smallest_splice_repeating :
    ∃ e, Edit.between ['é', 'é', ';'] ['é', 'é', 'é', ';'] = some e ∧ e.start = 4 ∧
      e.oldEnd = e.start ∧ e.newEnd = e.start + 2 := by
  obtain ⟨differ, small⟩ := edit_is_smallest_splice ['é', 'é', ';'] ['é', 'é', 'é', ';']
  obtain ⟨e, found⟩ := Option.ne_none_iff_exists'.1 fun none => absurd (differ.1 none) (by decide)
  have insertion := (small e found).2.2.2.2.2.1 [] [0xc3, 0xa9] (Text.bytes ['é', 'é', ';'])
    (by decide +kernel) (by decide +kernel)
  refine ⟨e, found, ?_, insertion⟩
  have start : (Edit.between ['é', 'é', ';'] ['é', 'é', 'é', ';']).map (·.start) = some 4 := by
    decide +kernel
  rw [found] at start
  exact Option.some.inj start

end Highlight
