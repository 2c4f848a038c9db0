import Highlight.Text.Edit

/-!
# The edit between two texts is a splice

`Edit.Splices` says that an edit leads from one text to another: the bytes before its start and those behind
its two ends are the same in both, and its points are where its offsets are. `Edit.between_splices` says that
the edit between two texts does.
-/

namespace Highlight

namespace Edit

/-- The edit leads from the bytes of `old` to those of `new`. -/
structure Splices (e : Edit) (old new : Text) : Prop where
  inOld : e.start ≤ e.oldEnd ∧ e.oldEnd ≤ Text.byteLength old
  inNew : e.start ≤ e.newEnd ∧ e.newEnd ≤ Text.byteLength new
  front : (Text.bytes old).take e.start = (Text.bytes new).take e.start
  back : (Text.bytes old).drop e.oldEnd = (Text.bytes new).drop e.newEnd
  startPoint : e.startPoint = Point.atByte (Text.bytes old) e.start
  oldEndPoint : e.oldEndPoint = Point.atByte (Text.bytes old) e.oldEnd
  newEndPoint : e.newEndPoint = Point.atByte (Text.bytes new) e.newEnd

/-- As much follows the edit in the one text as in the other. -/
theorem Splices.growth {e : Edit} {old new : Text} (h : e.Splices old new) :
    e.oldEnd + Text.byteLength new = e.newEnd + Text.byteLength old := by
  have behind := congrArg List.length h.back
  have inOld := h.inOld
  have inNew := h.inNew
  simp only [List.length_drop, Text.length_bytes] at behind
  omega

theorem commonFront_le (as bs : List UInt8) :
    commonFront as bs ≤ as.length ∧ commonFront as bs ≤ bs.length := by
  fun_induction commonFront as bs with
  | case1 as b bs ih => simpa using ih
  | case2 => exact ⟨Nat.zero_le _, Nat.zero_le _⟩
  | case3 => exact ⟨Nat.zero_le _, Nat.zero_le _⟩

theorem take_commonFront (as bs : List UInt8) :
    as.take (commonFront as bs) = bs.take (commonFront as bs) := by
  fun_induction commonFront as bs with
  | case1 as b bs ih => simpa using ih
  | case2 => rfl
  | case3 => rfl

/-- The common front of two lists read backward is their common back. -/
theorem drop_commonBack (as bs : List UInt8) :
    as.drop (as.length - commonFront as.reverse bs.reverse) =
      bs.drop (bs.length - commonFront as.reverse bs.reverse) := by
  have same := congrArg List.reverse (take_commonFront as.reverse bs.reverse)
  simpa [List.take_reverse] using same

/-- The common back of what follows `start` in two lists ends the lists themselves. -/
theorem drop_behind (old new : List UInt8) (start : Nat) :
    let back := commonFront (old.drop start).reverse (new.drop start).reverse
    start ≤ old.length → start ≤ new.length →
      start ≤ old.length - back ∧ start ≤ new.length - back ∧
        old.drop (old.length - back) = new.drop (new.length - back) := by
  intro back inOld inNew
  have bound := commonFront_le (old.drop start).reverse (new.drop start).reverse
  have same := drop_commonBack (old.drop start) (new.drop start)
  simp only [List.length_reverse, List.length_drop] at bound
  simp only [List.drop_drop, List.length_drop] at same
  have oldEnd : start + (old.length - start - back) = old.length - back := by omega
  have newEnd : start + (new.length - start - back) = new.length - back := by omega
  refine ⟨by omega, by omega, ?_⟩
  rwa [oldEnd, newEnd] at same

theorem between_splices {old new : Text} {e : Edit} (h : between old new = some e) :
    e.Splices old new := by
  by_cases same : old = new
  · simp [between, same] at h
  · simp only [between, same, if_false, Option.some.injEq] at h
    subst h
    obtain ⟨inOld, inNew⟩ := commonFront_le (Text.bytes old) (Text.bytes new)
    obtain ⟨old_le, new_le, behind⟩ := drop_behind _ _ _ inOld inNew
    simp only [Text.length_bytes] at old_le new_le behind
    exact ⟨⟨by simpa using old_le, by simp⟩, ⟨by simpa using new_le, by simp⟩,
      take_commonFront .., by simpa using behind, rfl, rfl, rfl⟩

end Edit

end Highlight
