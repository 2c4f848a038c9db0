import Highlight.Text.Basic

/-!
# Replacing parts of a text

Parts of a text that lie apart are replaced by a text of the same length in bytes. Afterwards each of them
reads as the new text (`slice?_replaceAll`), and what lies apart from all of them reads as before
(`slice?_replaceAll_apart`).
-/

namespace Highlight

/-- The ranges have no byte in common: one ends before the other begins. -/
def ByteRange.Apart (r s : ByteRange) : Prop := r.stop ≤ s.start ∨ s.stop ≤ r.start

namespace Text

/-- The text with `w` in place of what stands at a range, if it can be cut out. -/
def replace (t w : Text) (r : ByteRange) : Text :=
  match cut? t r with
  | none => t
  | some c => c.before ++ w ++ c.after

/-- The text with `w` in place of what stands at each of some ranges. -/
def replaceAll (t w : Text) (rs : List ByteRange) : Text := rs.foldl (replace · w) t

theorem slice?_eq_some_iff {t x : Text} {r : ByteRange} :
    slice? t r = some x ↔ ∃ u v, t = u ++ x ++ v ∧ byteLength u = r.start ∧
      byteLength (u ++ x) = r.stop := by
  rw [slice?, Option.map_eq_some_iff]
  constructor
  · rintro ⟨c, cut, rfl⟩
    exact ⟨c.before, c.after, cut?_eq_some_iff.1 cut⟩
  · rintro ⟨u, v, parts⟩
    exact ⟨⟨u, x, v⟩, cut?_eq_some_iff.2 parts, rfl⟩

theorem eq_nil_of_byteLength {t : Text} (h : byteLength t = 0) : t = [] := by
  cases t with
  | nil => rfl
  | cons c t =>
    have := Char.utf8Size_pos c
    rw [byteLength_cons] at h
    omega

/-- Of two beginnings of a text the longer one goes on from the shorter one. -/
theorem front_of_byteLength_le {a b u v : Text} (h : a ++ b = u ++ v)
    (le : byteLength a ≤ byteLength u) : ∃ z, u = a ++ z := by
  rcases List.append_eq_append_iff.1 h with ⟨z, rfl, -⟩ | ⟨z, rfl, -⟩
  · exact ⟨z, rfl⟩
  · rw [byteLength_append] at le
    have nothing : z = [] := eq_nil_of_byteLength (by omega)
    exact ⟨[], by rw [nothing, List.append_nil, List.append_nil]⟩

/-- What lies apart from a part of a text does not read differently when that part is replaced. -/
theorem slice?_of_apart {b i a w x : Text} (same : byteLength i = byteLength w) {r : ByteRange}
    (apart : r.stop ≤ byteLength b ∨ byteLength (b ++ i) ≤ r.start)
    (h : slice? (b ++ i ++ a) r = some x) : slice? (b ++ w ++ a) r = some x := by
  obtain ⟨u, v, whole, start, stop⟩ := slice?_eq_some_iff.1 h
  rw [slice?_eq_some_iff]
  rcases apart with before | behind
  · rw [← stop] at before
    obtain ⟨z, rfl⟩ := front_of_byteLength_le (b := v) (v := i ++ a)
      (by rw [← whole, List.append_assoc]) before
    exact ⟨u, z ++ w ++ a, by simp only [List.append_assoc], start, stop⟩
  · rw [← start] at behind
    obtain ⟨z, rfl⟩ := front_of_byteLength_le (b := a) (v := x ++ v)
      (by rw [whole, List.append_assoc]) behind
    have rest : a = z ++ x ++ v := by
      simpa only [List.append_assoc, List.append_cancel_left_eq] using whole
    refine ⟨b ++ w ++ z, v, by simp only [rest, List.append_assoc], ?_, ?_⟩
    · rw [← start]
      simp only [byteLength_append, same]
    · rw [← stop]
      simp only [byteLength_append, same]

section Replace

variable {t w x : Text} {r s : ByteRange} (found : slice? t r = some x)
  (same : byteLength x = byteLength w)

include found same

theorem replace_eq : ∃ b a, t = b ++ x ++ a ∧ replace t w r = b ++ w ++ a ∧ byteLength b = r.start ∧
    byteLength (b ++ x) = r.stop := by
  rw [slice?, Option.map_eq_some_iff] at found
  obtain ⟨c, cut, rfl⟩ := found
  obtain ⟨whole, start, stop⟩ := cut?_eq_some_iff.1 cut
  exact ⟨c.before, c.after, whole, by rw [replace, cut], start, stop⟩

theorem slice?_replace : slice? (replace t w r) r = some w := by
  obtain ⟨b, a, -, replaced, start, stop⟩ := replace_eq found same
  rw [slice?_eq_some_iff, replaced]
  refine ⟨b, a, rfl, start, ?_⟩
  rw [← stop, byteLength_append, byteLength_append, same]

theorem slice?_replace_apart (apart : r.Apart s) : slice? (replace t w r) s = slice? t s := by
  obtain ⟨b, a, whole, replaced, start, stop⟩ := replace_eq found same
  have stop' : byteLength (b ++ w) = r.stop := by
    rw [← stop, byteLength_append, byteLength_append, same]
  have away : s.stop ≤ byteLength b ∨ byteLength (b ++ x) ≤ s.start := by
    rw [start, stop]
    exact apart.symm
  have away' : s.stop ≤ byteLength b ∨ byteLength (b ++ w) ≤ s.start := by
    rw [start, stop']
    exact apart.symm
  rw [replaced, whole]
  apply Option.ext
  intro y
  exact ⟨slice?_of_apart same.symm away', slice?_of_apart same away⟩

end Replace

section ReplaceAll

variable {w x : Text} (same : byteLength x = byteLength w)

include same

/-- The other parts still read as before when the first one has been replaced. -/
theorem slice?_replace_rest {t : Text} {r : ByteRange} {rs : List ByteRange}
    (found : ∀ s ∈ r :: rs, slice? t s = some x) (apart : ∀ s ∈ rs, r.Apart s) :
    ∀ s ∈ rs, slice? (replace t w r) s = some x := by
  intro s hs
  rw [slice?_replace_apart (found r (List.mem_cons_self ..)) same (apart s hs)]
  exact found s (List.mem_cons_of_mem _ hs)

/-- What lies apart from all replaced parts reads as before. -/
theorem slice?_replaceAll_apart {t : Text} {s : ByteRange} {rs : List ByteRange}
    (order : rs.Pairwise ByteRange.Apart) (found : ∀ r ∈ rs, slice? t r = some x)
    (apart : ∀ r ∈ rs, r.Apart s) : slice? (replaceAll t w rs) s = slice? t s := by
  induction rs generalizing t with
  | nil => rfl
  | cons r rs ih =>
    obtain ⟨first, others⟩ := List.pairwise_cons.1 order
    have rest := slice?_replace_rest same found first
    calc slice? (replaceAll t w (r :: rs)) s
        = slice? (replace t w r) s := ih others rest fun r' hr' => apart r' (List.mem_cons_of_mem _ hr')
      _ = slice? t s :=
        slice?_replace_apart (found r (List.mem_cons_self ..)) same (apart r (List.mem_cons_self ..))

/-- The replaced parts read as the new text. -/
theorem slice?_replaceAll {t : Text} {s : ByteRange} {rs : List ByteRange}
    (order : rs.Pairwise ByteRange.Apart) (found : ∀ r ∈ rs, slice? t r = some x) (member : s ∈ rs) :
    slice? (replaceAll t w rs) s = some w := by
  induction rs generalizing t with
  | nil => cases member
  | cons r rs ih =>
    obtain ⟨first, others⟩ := List.pairwise_cons.1 order
    have rest := slice?_replace_rest same found first
    rcases List.mem_cons.1 member with rfl | member
    · -- the first part is not touched again
      have untouched : slice? (replaceAll (replace t w s) w rs) s = slice? (replace t w s) s :=
        slice?_replaceAll_apart same others rest fun r hr => (first r hr).symm
      exact untouched.trans (slice?_replace (found s (List.mem_cons_self ..)) same)
    · exact ih others rest member

end ReplaceAll

end Text

end Highlight
