import Highlight.Proofs.DecorationHistory

/-!
# Commits touch only decorations of their own

Handles are plain numbers, and those of different models coincide. A commit nevertheless removes nothing but
what an earlier commit put into the very same model: the handles that the synchronizer holds are those of the
model it was bound to last (`World.holdsOf_run`), and a commit that finds another model gives them up before
it removes anything.

`only_own_decorations_removed` says so for every world that operations lead to.
-/

namespace Highlight

/-- The commit got as far as the decorations of the model, so the synchronizer is bound to it. -/
def Commit.binds : Commit → Bool
  | .applied .. | .superseded .. | .crashed => true
  | .modelMissing | .modelPoisoned | .statePoisoned => false

namespace Host

theorem cell?_setCell_ne (h : Host) {id other : ModelId} (ne : other ≠ id) (new : ModelCell) :
    (h.setCell id new).cell? other = h.cell? other :=
  List.getElem?_set_ne ne.symm

end Host

namespace Synchronizer

/-- The handles held, if there are any, belong to the model `last`. -/
def HoldsOf (s : Synchronizer) (last : Option ModelId) : Prop :=
  s.handles ≠ [] → ∃ id, s.model = some id ∧ last = some id

variable {s : Synchronizer} {host : Host} {picked : Option ModelId} {ticket : Ticket}
  {spans : List Span} {r : CommitResult}

theorem HoldsOf.of_model {id : ModelId} (bound : s.model = some id) : s.HoldsOf (some id) :=
  fun _ => ⟨id, bound, rfl⟩

theorem CommitCase.holdsOf (h : CommitCase s host picked ticket spans r) {last : Option ModelId}
    (holds : s.HoldsOf last) :
    r.synchronizer.HoldsOf ((if r.outcome.binds then picked else none).or last) := by
  cases h with
  | unusable => exact fun some => absurd rfl some
  | frozen => exact holds
  | stale hp => rw [hp]; exact .of_model (attach_model s _)
  | crashed hp => rw [hp]; exact .of_model (attach_model s _)
  | applied hp => rw [hp]; exact .of_model (attach_model s _)

theorem CommitCase.cell?_of_ne (h : CommitCase s host picked ticket spans r) {id : ModelId}
    (ne : picked ≠ some id) : r.host.cell? id = host.cell? id := by
  cases h with
  | unusable | frozen | stale => rfl
  | crashed hp => exact host.cell?_setCell_ne (fun same => ne (by rw [hp, same])) _
  | applied hp => exact host.cell?_setCell_ne (fun same => ne (by rw [hp, same])) _

/-- Only what is held in a model disappears from it. -/
theorem CommitEffect.held_of_removed {id : ModelId} (h : CommitEffect s host spans id r)
    {e : Handle × Decoration} (old : e ∈ (host.model id).toList)
    (gone : e ∉ (r.host.model id).toList) : e.1 ∈ s.held id := by
  cases h with
  | kept model => exact absurd (model ▸ old) gone
  | left model => exact absurd (model ▸ old) gone
  | redrawn drawing =>
    rw [drawing.model, DecorationModel.toList_replace, List.mem_append, not_or] at gone
    simpa [old] using gone.1

end Synchronizer

namespace World

/-- The model that an operation binds the synchronizer to. -/
def binds? (w : World) (op : Operation) : Option ModelId :=
  (w.result? op).bind fun r => if r.outcome.binds then w.host.shown else none

/-- The model that the last binding one of some operations binds the synchronizer to. -/
def lastBound? (w : World) : List Operation → Option ModelId
  | [] => none
  | op :: ops => ((w.step op).lastBound? ops).or (w.binds? op)

variable {w : World}

theorem holdsOf_step {last : Option ModelId} (h : w.synchronizer.HoldsOf last) (op : Operation) :
    (w.step op).synchronizer.HoldsOf ((w.binds? op).or last) := by
  cases op with
  | takeTicket => exact h
  | host step => exact h
  | commit ticket spans => exact (Synchronizer.commitTo_cases ..).holdsOf h
  | replaceAll spans =>
    exact (Synchronizer.commitTo_cases w.synchronizer.nextTicket.2 ..).holdsOf h

theorem holdsOf_run {last : Option ModelId} (h : w.synchronizer.HoldsOf last) (ops : List Operation) :
    (w.run ops).synchronizer.HoldsOf ((w.lastBound? ops).or last) := by
  induction ops generalizing w last with
  | nil => exact h
  | cons op ops ih =>
    rw [lastBound?, Option.or_assoc]
    exact ih (holdsOf_step h op)

theorem Balanced.mem_model_of_placed (h : w.Balanced) {id : ModelId} {e : Handle × Decoration}
    (he : e ∈ w.placed id) : e ∈ (w.host.model id).toList := by
  rw [← (h id).others] at he
  exact (List.mem_filter.1 he).1

theorem Balanced.mem_drawn_of_held (h : w.Balanced) {id : ModelId} {e : Handle × Decoration}
    (he : e ∈ (w.host.model id).toList) (held : e.1 ∈ w.synchronizer.held id) : e ∈ w.drawn id :=
  (h id).mem_drawn he (List.mem_append_right _ held)

/-- Under every handle held stands a decoration that a commit has put into the model. -/
theorem Balanced.exists_of_held (h : w.Balanced) {id : ModelId} {handle : Handle}
    (held : handle ∈ w.synchronizer.held id) :
    ∃ d, (handle, d) ∈ w.drawn id ∧ (handle, d) ∈ (w.host.model id).toList := by
  have own : handle ∈ ((w.host.model id).toList.filter (· ∈ w.drawn id)).map (·.1) := by
    rw [(h id).own]
    exact List.mem_append_right _ held
  obtain ⟨⟨_, d⟩, he, rfl⟩ := List.mem_map.1 own
  obtain ⟨there, mine⟩ := List.mem_filter.1 he
  exact ⟨d, of_decide_eq_true mine, there⟩

/-- A commit that ends in `r` touches only what is the synchronizer's own. -/
structure Spares (w : World) (r : CommitResult) : Prop where
  /-- Models that are not shown stay as they are. -/
  elsewhere : ∀ id, w.host.shown ≠ some id → r.host.cell? id = w.host.cell? id
  /-- What disappears from a model was put there by an earlier commit. -/
  removed : ∀ id, ∀ e ∈ (w.host.model id).toList, e ∉ (r.host.model id).toList → e ∈ w.drawn id
  /-- What the host has put into a model is still there. -/
  placed : ∀ id, ∀ e ∈ w.placed id, e ∈ (r.host.model id).toList

theorem Balanced.spares (h : w.Balanced) {op : Operation} {r : CommitResult}
    (result : w.result? op = some r) : w.Spares r := by
  obtain ⟨s, ticket, spans, -, same, done⟩ := commitCase_of_result? result
  refine ⟨fun id ne => done.cell?_of_ne ne, fun id e old gone => ?_, fun id e he => ?_⟩
  · have held := (done.effect id).held_of_removed old gone
    rw [same] at held
    exact h.mem_drawn_of_held old held
  · exact (h.record op result).mem_model_of_placed he

end World

/-- The synchronizer removes only decorations of its own. Let any operations be made on a synchronizer, whether
or not it refuses superseded commits, and on its host with any number of models. Then every commit leaves all
models but the shown one as they are, removes from that one only what an earlier commit put into the same
model, and nothing that was there at the start or that the host has put there. The handles held at any time
are under decorations of one model, the one that the synchronizer was bound to last, and commits have put
them there. -/
theorem only_own_decorations_removed (discardSuperseded : Bool) {host : Host}
    (ordered : ∀ id, (host.model id).Ordered) (ops : List Operation) :
    let w := (World.start discardSuperseded host).run ops
    (∀ op r, w.result? op = some r → w.Spares r) ∧
    (w.synchronizer.handles ≠ [] → ∃ id, w.synchronizer.model = some id ∧
      (World.start discardSuperseded host).lastBound? ops = some id ∧
      ∀ h ∈ w.synchronizer.handles,
        ∃ d, (h, d) ∈ w.drawn id ∧ (h, d) ∈ (w.host.model id).toList) := by
  intro w
  have balanced : w.Balanced := World.balanced_run (World.balanced_start _ ordered) ops
  refine ⟨fun op r result => balanced.spares result, fun some => ?_⟩
  have nothing : (World.start discardSuperseded host).synchronizer.HoldsOf none := fun none => absurd rfl none
  obtain ⟨id, bound, last⟩ := World.holdsOf_run nothing ops some
  rw [Option.or_none] at last
  refine ⟨id, bound, last, fun h hh => balanced.exists_of_held ?_⟩
  rwa [Synchronizer.held_of_model bound]

/-- A model in which something is highlighted is dropped, another one of the same name takes its place, and
the host decorates that one. -/
def Operation.dropAndRecreate : List Operation :=
  [.host (.reveal "main"), .replaceAll [⟨0, 1⟩], .host (.forget "main"), .host (.reveal "main"),
    .host (.decorate ⟨"warning", "unused", ⟨4, 2⟩⟩)]

/-- The handle 1 that is held belongs to the model dropped. The host's decoration in the new one has the same
handle, and the next commit leaves it there. -/
theorem only_own_decorations_removed_recreated :
    let w := (World.start false {}).run Operation.dropAndRecreate
    w.synchronizer.handles = [1] ∧ w.synchronizer.model = some 0 ∧ w.host.shown = some 1 ∧
      (1, ⟨"warning", "unused", ⟨4, 2⟩⟩) ∈
        ((w.step (.replaceAll [⟨1, 1⟩])).host.model 1).toList := by
  have ordered : ∀ id, (({} : Host).model id).Ordered := fun _ => DecorationModel.ordered_empty
  obtain ⟨spares, -⟩ := only_own_decorations_removed false ordered Operation.dropAndRecreate
  refine ⟨by decide +kernel, by decide +kernel, by decide +kernel, ?_⟩
  exact (spares (.replaceAll [⟨1, 1⟩]) _ rfl).placed 1 _ (by decide +kernel)

end Highlight
