import Highlight.Proofs.DecorationHistory

/-!
# The highlights that are live in a model

After an applied commit the highlights that commits have put into the shown model are those of this commit and
the sets that were given up before (`applied_commit_live_set`). A set is given up when a commit is made while
the host shows another model or none: the synchronizer then forgets its handles, so that they are never removed
from a model that did not issue them. As long as this does not happen to the model, every applied commit leaves
its own set alone there.

It can happen: `abandoned_set_stays_live` is the history of a model that is left and shown again.
-/

namespace Highlight

/-- The host offers the model to commits: it is shown, and its lock is not poisoned. -/
def Host.Offers (h : Host) (id : ModelId) : Prop :=
  h.shown = some id ∧ ∃ cell, h.cell? id = some cell ∧ cell.poisoned = false

/-- A commit to a model in which highlights are held leaves the synchronizer bound to it. -/
theorem Synchronizer.CommitCase.model_of_offers {s : Synchronizer} {host : Host} {ticket : Ticket}
    {spans : List Span} {r : CommitResult} (h : CommitCase s host host.shown ticket spans r)
    {id : ModelId} (offers : host.Offers id) (held : s.held id ≠ []) :
    r.synchronizer.model = some id := by
  obtain ⟨shown, cell, hc, unlocked⟩ := offers
  cases h with
  | unusable _ unusable =>
    rw [unusable id cell shown hc] at unlocked
    cases unlocked
  | frozen => exact Decidable.byContradiction fun unbound => held (held_of_ne unbound)
  | stale hp => exact (attach_model s _).trans (hp.symm.trans shown)
  | crashed hp => exact (attach_model s _).trans (hp.symm.trans shown)
  | applied hp => exact (attach_model s _).trans (hp.symm.trans shown)

namespace World

/-- The operation commits while highlights are held in the model and the host does not offer it. -/
def Abandons (w : World) (op : Operation) (id : ModelId) : Prop :=
  (w.result? op).isSome = true ∧ w.synchronizer.held id ≠ [] ∧ ¬ w.host.Offers id

def AbandonsAlong (w : World) (ops : List Operation) (id : ModelId) : Prop :=
  ∃ front op back, ops = front ++ op :: back ∧ (w.run front).Abandons op id

theorem abandoned_step {w : World} {op : Operation} {id : ModelId} (h : ¬ w.Abandons op id) :
    (w.step op).abandoned id = w.abandoned id := by
  cases result : w.result? op with
  | none =>
    cases op with
    | takeTicket => rfl
    | commit ticket spans => cases result
    | replaceAll spans => cases result
    | host step => rfl
  | some r =>
    obtain ⟨s, ticket, spans, -, same, done⟩ := commitCase_of_result? result
    have nothing : (if r.synchronizer.model = some id then [] else w.synchronizer.held id) = [] := by
      by_cases held : w.synchronizer.held id = []
      · rw [held, ite_self]
      · have offers : w.host.Offers id :=
          Classical.byContradiction fun not => h ⟨by rw [result]; rfl, held, not⟩
        rw [← same] at held
        exact if_pos (done.model_of_offers offers held)
    rw [step_of_result? result]
    show w.abandoned id ++ _ = _
    rw [nothing, List.append_nil]

theorem abandoned_run {w : World} {ops : List Operation} {id : ModelId}
    (h : ¬ w.AbandonsAlong ops id) : (w.run ops).abandoned id = w.abandoned id := by
  induction ops generalizing w with
  | nil => rfl
  | cons op ops ih =>
    have later : ¬ (w.step op).AbandonsAlong ops id := by
      rintro ⟨front, other, back, rfl, abandons⟩
      exact h ⟨op :: front, other, back, rfl, abandons⟩
    have now : ¬ w.Abandons op id := fun abandons => h ⟨[], op, ops, rfl, abandons⟩
    exact (ih later).trans (abandoned_step now)

end World

/-- What is live after an applied commit. Let any operations on a synchronizer and its host be followed by a
commit that is applied. Then, of all decorations that commits have ever put into the shown model, there are
left one for each span of this commit, under the handles now held, and in front of them exactly those that
the synchronizer had given up in this model. If no operation has abandoned the model, only those of this
commit are left. -/
theorem applied_commit_live_set (discardSuperseded : Bool) {host : Host}
    (ordered : ∀ id, (host.model id).Ordered) (ops : List Operation) (op : Operation)
    {spans : List Span} (asked : op.spans? = some spans) {r : CommitResult}
    (result : ((World.start discardSuperseded host).run ops).result? op = some r)
    {removed added : Nat} (applied : r.outcome = .applied removed added) :
    let before := (World.start discardSuperseded host).run ops
    let after := before.step op
    let own := after.synchronizer.handles.zip (spans.map Decoration.occurrence)
    ∃ id, after.host.shown = some id ∧ after.synchronizer.handles.length = spans.length ∧
      (∃ leftover, leftover.map (·.1) = before.abandoned id ∧ after.live id = leftover ++ own) ∧
      (¬ (World.start discardSuperseded host).AbandonsAlong ops id → after.live id = own) := by
  intro before after own
  have balanced : before.Balanced := World.balanced_run (World.balanced_start _ ordered) ops
  have recorded : after = before.record r := World.step_of_result? result
  have state : after.synchronizer = r.synchronizer := congrArg World.synchronizer recorded
  have host : after.host = r.host := congrArg World.host recorded
  obtain ⟨id, shown, count, leftover, given, live⟩ := balanced.live_of_applied asked result applied
  rw [← recorded, ← state] at live
  refine ⟨id, by rw [host]; exact shown, by rw [state]; exact count, ⟨leftover, given, live⟩, ?_⟩
  intro faithful
  rw [World.abandoned_run faithful] at given
  rw [live, List.map_eq_nil_iff.1 given, List.nil_append]

/-- The history of a model in which highlights are drawn, which is left for another one, and is shown
again. -/
def Operation.leaveAndReturn : List Operation :=
  [.host (.reveal "main"), .replaceAll [⟨0, 1⟩], .host (.reveal "other"), .replaceAll [⟨1, 1⟩],
    .host (.reveal "main")]

/-- After the return the set drawn first is still there beside the new one. -/
theorem applied_commit_live_set_returning :
    let after := ((World.start true {}).run Operation.leaveAndReturn).step (.replaceAll [⟨2, 1⟩])
    after.host.shown = some 0 ∧ ∃ leftover, leftover.map (·.1) = [1] ∧
      after.live 0 = leftover ++ [(2, Decoration.occurrence ⟨2, 1⟩)] := by
  have ordered : ∀ id, (({} : Host).model id).Ordered := fun _ => DecorationModel.ordered_empty
  obtain ⟨id, shown, -, ⟨leftover, given, live⟩, -⟩ :=
    applied_commit_live_set true ordered Operation.leaveAndReturn (.replaceAll [⟨2, 1⟩]) rfl rfl rfl
  cases shown
  exact ⟨rfl, leftover, given, live⟩

/-- Not every applied commit leaves its own set alone: the one behind the return does not. -/
theorem abandoned_set_stays_live :
    ¬ ∀ (ops : List Operation) (op : Operation) (spans : List Span) (r : CommitResult)
      (removed added : Nat), op.spans? = some spans →
      ((World.start true {}).run ops).result? op = some r → r.outcome = .applied removed added →
      ∃ id, (((World.start true {}).run ops).step op).host.shown = some id ∧
        (((World.start true {}).run ops).step op).live id =
          r.synchronizer.handles.zip (spans.map Decoration.occurrence) := by
  intro alone
  obtain ⟨id, shown, live⟩ := alone Operation.leaveAndReturn (.replaceAll [⟨2, 1⟩]) _ _ _ _ rfl rfl rfl
  cases shown
  exact absurd live (by decide +kernel)

end Highlight
