import Mathlib.Data.Set.Card
import Highlight.Proofs.DecorationHistory

/-!
# The handles that a model issues

A decoration model is changed by calls of `replace` only. A call may ask to remove anything: handles that it has
just issued or long ago, the same one twice, one that is gone, or one that will be issued only later. All of
this comes to a simple account of the model. Handles are issued in ascending order and none of them twice, and a
decoration is there from the call that issued its handle up to the next one that removes it
(`handles_never_reused`).
-/

namespace Highlight

/-- What one call of `replace` is asked to do. -/
structure Batch where
  remove : List Handle
  add : List Decoration
  deriving DecidableEq, Repr

namespace DecorationModel

/-! ## Calls -/

/-- The handles that a call returns. -/
def reply (m : DecorationModel) (b : Batch) : List Handle := (m.replace b.remove b.add).1

/-- The model after some calls. -/
def after (m : DecorationModel) (calls : List Batch) : DecorationModel :=
  calls.foldl (fun m b => (m.replace b.remove b.add).2) m

/-- The handles that each of some calls returns. -/
def replies (m : DecorationModel) : List Batch → List (List Handle)
  | [] => []
  | b :: calls => m.reply b :: replies (m.replace b.remove b.add).2 calls

/-- One of the calls made on a new model has issued the handle for the decoration, and none of those behind it
removes the handle. -/
def Standing (calls : List Batch) (h : Handle) (d : Decoration) : Prop :=
  ∃ before b later, calls = before ++ b :: later ∧
    (h, d) ∈ ((after {} before).reply b).zip b.add ∧ ∀ c ∈ later, h ∉ c.remove

theorem after_concat (m : DecorationModel) (calls : List Batch) (b : Batch) :
    m.after (calls ++ [b]) = ((m.after calls).replace b.remove b.add).2 := List.foldl_concat ..

theorem length_reply (m : DecorationModel) (b : Batch) : (m.reply b).length = b.add.length :=
  m.length_fresh b.add.length

theorem forall₂_replies (m : DecorationModel) (calls : List Batch) :
    List.Forall₂ (fun b handles => handles.length = b.add.length) calls (m.replies calls) := by
  induction calls generalizing m with
  | nil => exact .nil
  | cons b calls ih => exact .cons (m.length_reply b) (ih _)

/-- The handles returned are the numbers behind the last one issued before, without a gap. -/
theorem flatten_replies (m : DecorationModel) (calls : List Batch) :
    (m.replies calls).flatten = List.range' (m.issued + 1) (calls.map (·.add.length)).sum := by
  induction calls generalizing m with
  | nil => rfl
  | cons b calls ih =>
    have next : m.issued + 1 + 1 * b.add.length = m.issued + b.add.length + 1 := by omega
    rw [replies, List.flatten_cons, ih, List.map_cons, List.sum_cons, ← List.range'_append, next]
    rfl

/-! ## What is there -/

theorem Ordered.after {m : DecorationModel} (h : m.Ordered) (calls : List Batch) :
    (m.after calls).Ordered := by
  induction calls generalizing m with
  | nil => exact h
  | cons b calls ih => exact ih (h.replace b.remove b.add)

/-- Where no handle stands twice, what is found under one is what stands there. -/
theorem Ordered.get?_eq_some_iff {m : DecorationModel} (ordered : m.Ordered) {h : Handle}
    {d : Decoration} : m.get? h = some d ↔ (h, d) ∈ m.toList := by
  rw [get?, Table.get?, List.lookup_eq_some_iff]
  constructor
  · rintro ⟨front, back, split, -⟩
    rw [toList, split]
    simp
  · intro there
    obtain ⟨front, back, split⟩ := List.append_of_mem there
    refine ⟨front, back, split, fun e he => ?_⟩
    have rising := ordered.rising
    rw [split, List.map_append, List.map_cons, List.pairwise_append] at rising
    have lt := rising.2.2 e.1 (List.mem_map_of_mem he) h List.mem_cons_self
    simpa using Nat.ne_of_gt lt

theorem mem_toList_replace {m : DecorationModel} {b : Batch} {h : Handle} {d : Decoration} :
    (h, d) ∈ (m.replace b.remove b.add).2.toList ↔
      (h, d) ∈ m.toList ∧ h ∉ b.remove ∨ (h, d) ∈ (m.reply b).zip b.add := by
  rw [toList_replace, List.mem_append, List.mem_filter]
  simp [reply, replace]

/-- What stands after one more call: what stood and is not removed, and what the call adds. What it removes it
removes before it issues handles of its own. -/
theorem standing_concat {calls : List Batch} {b : Batch} {h : Handle} {d : Decoration} :
    Standing (calls ++ [b]) h d ↔
      Standing calls h d ∧ h ∉ b.remove ∨ (h, d) ∈ ((after {} calls).reply b).zip b.add := by
  constructor
  · rintro ⟨before, c, later, split, issued, kept⟩
    rcases List.eq_nil_or_concat later with rfl | ⟨later, last, rfl⟩
    · obtain ⟨rfl, same⟩ := List.append_inj' split rfl
      obtain rfl := List.singleton_inj.1 same
      exact Or.inr issued
    · rw [List.concat_eq_append, ← List.cons_append, ← List.append_assoc] at split
      obtain ⟨rfl, same⟩ := List.append_inj' split rfl
      obtain rfl := List.singleton_inj.1 same
      refine Or.inl ⟨⟨before, c, later, rfl, issued, fun c' hc => kept c' ?_⟩, kept b ?_⟩
      · simp [hc]
      · simp
  · rintro (⟨⟨before, c, later, rfl, issued, kept⟩, left⟩ | issued)
    · refine ⟨before, c, later ++ [b], by simp, issued, fun c' hc => ?_⟩
      rcases List.mem_append.1 hc with hc | hc
      · exact kept c' hc
      · rw [List.mem_singleton.1 hc]
        exact left
    · exact ⟨calls, b, [], rfl, issued, nofun⟩

theorem mem_toList_after {calls : List Batch} {h : Handle} {d : Decoration} :
    (h, d) ∈ (after {} calls).toList ↔ Standing calls h d := by
  induction calls using List.reverseRecOn with
  | nil =>
    refine ⟨nofun, fun ⟨before, b, later, split, _⟩ => ?_⟩
    simp at split
  | append_singleton calls b ih => rw [after_concat, mem_toList_replace, ih, standing_concat]

/-- The number of decorations is that of the handles under which one stands. -/
theorem size_after (calls : List Batch) :
    (after {} calls).size = {h | ∃ d, Standing calls h d}.ncard := by
  have handles : {h | ∃ d, Standing calls h d} =
      ((after {} calls).toList.map (·.1)).toFinset := by
    ext h
    simp [← mem_toList_after]
  have distinct := ((ordered_empty.after calls).rising.imp Nat.ne_of_lt : List.Nodup _)
  rw [handles, Set.ncard_coe_finset, List.toFinset_card_of_nodup distinct, List.length_map]
  rfl

end DecorationModel

/-- Handles are never reused, and `replace` does exactly what it is asked to do. Whatever calls are made on a new
model:

* the handles returned rise from each one to the next, within a call and from call to call, so no two of them
  are the same, and every call returns one for each decoration that it adds;
* under a handle is found the decoration for which a call issued it, up to the first later call that removes it;
* the decorations are listed by rising handles, these and no others, and their number is that of the handles. -/
theorem handles_never_reused (calls : List Batch) :
    let m := DecorationModel.after {} calls
    let replies := DecorationModel.replies {} calls
    (replies.flatten.Pairwise (· < ·) ∧ replies.flatten.Nodup ∧
      List.Forall₂ (fun b handles => handles.length = b.add.length) calls replies) ∧
    (∀ h d, m.get? h = some d ↔ DecorationModel.Standing calls h d) ∧
    (m.toList.map (·.1)).Pairwise (· < ·) ∧
    (∀ h d, (h, d) ∈ m.toList ↔ DecorationModel.Standing calls h d) ∧
    m.size = {h | ∃ d, DecorationModel.Standing calls h d}.ncard := by
  intro m replies
  have ordered : m.Ordered := DecorationModel.ordered_empty.after calls
  have rising : replies.flatten.Pairwise (· < ·) := by
    rw [DecorationModel.flatten_replies]
    exact List.pairwise_lt_range'
  refine ⟨⟨rising, rising.imp Nat.ne_of_lt, DecorationModel.forall₂_replies _ calls⟩, fun h d => ?_,
    ordered.rising, fun h d => DecorationModel.mem_toList_after, DecorationModel.size_after calls⟩
  rw [ordered.get?_eq_some_iff]
  exact DecorationModel.mem_toList_after

-- A call that asks to remove the very handle that it then issues.
example : (DecorationModel.after {} [⟨[1], [.occurrence ⟨0, 1⟩]⟩]).get? 1 =
    some (.occurrence ⟨0, 1⟩) := by decide

end Highlight
