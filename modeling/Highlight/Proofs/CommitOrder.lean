import Mathlib.Data.List.Induction
import Highlight.Proofs.DecorationHistory

/-!
# The order of commits

While one healthy model stays in view and stale commits are refused, what it shows is a function of the commits
made: besides the decorations of the host there are those of `newest`, the last commit under the highest ticket
(`World.Displays.run`). With one commit for each ticket neither the order nor the repetition of commits matters.
-/

namespace Highlight

/-! ## The newest of some commits -/

/-- The highest ticket, or 0. -/
def highestTicket (commits : List (Ticket × List Span)) : Ticket := (commits.map (·.1)).foldl max 0

/-- The last of the commits under the highest ticket; without any, an empty one. -/
def newest (commits : List (Ticket × List Span)) : Ticket × List Span :=
  (commits.filter (·.1 = highestTicket commits)).getLastD (0, [])

section Newest

variable {commits : List (Ticket × List Span)} {c : Ticket × List Span}

theorem highestTicket_append_singleton (commits : List (Ticket × List Span)) (c : Ticket × List Span) :
    highestTicket (commits ++ [c]) = max (highestTicket commits) c.1 := by
  rw [highestTicket, List.map_append, List.foldl_append]
  rfl

theorem newest_append_singleton (commits : List (Ticket × List Span)) (c : Ticket × List Span) :
    newest (commits ++ [c]) = if c.1 < highestTicket commits then newest commits else c := by
  rw [newest, highestTicket_append_singleton, List.filter_append]
  split
  · rename_i stale
    have other : [c].filter (·.1 = highestTicket commits) = [] := by
      simp [Nat.ne_of_lt stale]
    rw [Nat.max_eq_left (Nat.le_of_lt stale), other, List.append_nil, newest]
  · rename_i current
    have itself : [c].filter (·.1 = c.1) = [c] := by simp
    rw [Nat.max_eq_right (Nat.le_of_not_lt current), itself, List.getLastD_concat]

theorem le_highestTicket (h : c ∈ commits) : c.1 ≤ highestTicket commits := by
  induction commits using List.reverseRecOn with
  | nil => cases h
  | append_singleton front last ih =>
    rw [highestTicket_append_singleton]
    rcases List.mem_append.1 h with h | h
    · exact Nat.le_trans (ih h) (Nat.le_max_left ..)
    · rw [List.mem_singleton.1 h]
      exact Nat.le_max_right ..

theorem newest_spec (commits : List (Ticket × List Span)) :
    (newest commits).1 = highestTicket commits ∧ (commits ≠ [] → newest commits ∈ commits) := by
  induction commits using List.reverseRecOn with
  | nil => exact ⟨rfl, fun h => absurd rfl h⟩
  | append_singleton front last ih =>
    rw [newest_append_singleton, highestTicket_append_singleton]
    split
    · rename_i stale
      -- a ticket is below the highest one only if there was a commit before
      have inhabited : front ≠ [] := by
        rintro rfl
        exact Nat.not_lt_zero _ stale
      exact ⟨ih.1.trans (Nat.max_eq_left (Nat.le_of_lt stale)).symm,
        fun _ => List.mem_append_left _ (ih.2 inhabited)⟩
    · rename_i current
      exact ⟨(Nat.max_eq_right (Nat.le_of_not_lt current)).symm, fun _ => by simp⟩

/-- With one commit for each ticket the newest does not depend on order and repetition. -/
theorem newest_congr {commits others : List (Ticket × List Span)}
    (distinct : ∀ c ∈ commits, ∀ d ∈ commits, c.1 = d.1 → c = d)
    (same : ∀ c, c ∈ commits ↔ c ∈ others) : newest commits = newest others := by
  by_cases empty : commits = []
  · subst empty
    rw [List.eq_nil_iff_forall_not_mem.2 fun c hc => List.not_mem_nil ((same c).2 hc)]
  · have inhabited : others ≠ [] := by
      rintro rfl
      exact empty (List.eq_nil_iff_forall_not_mem.2 fun c hc => List.not_mem_nil ((same c).1 hc))
    have mem := (newest_spec commits).2 empty
    have mem' := (same _).2 ((newest_spec others).2 inhabited)
    -- both are commits of one list under its highest ticket
    refine distinct _ mem _ mem' (Nat.le_antisymm ?_ ?_)
    · rw [(newest_spec others).1]
      exact le_highestTicket ((same _).1 mem)
    · rw [(newest_spec commits).1]
      exact le_highestTicket mem'

theorem newest_repeat (commits : List (Ticket × List Span)) (c : Ticket × List Span) :
    newest (commits ++ [c] ++ [c]) = newest (commits ++ [c]) := by
  rw [newest_append_singleton, newest_append_singleton, highestTicket_append_singleton]
  split
  · rfl
  · rename_i current
    rw [if_neg fun stale => current (Nat.lt_of_lt_of_le stale (Nat.le_max_left ..))]

end Newest

/-! ## A model that stays in view -/

namespace Operation

/-- The commit that is made under a ticket of the caller's. -/
def commit? : Operation → Option (Ticket × List Span)
  | .commit ticket spans => some (ticket, spans)
  | _ => none

def addition? : Operation → Option Decoration
  | .host (.decorate d) => some d
  | _ => none

/-- The operation takes a ticket, commits under one of the caller's, or is an addition of the host. -/
def Steady (op : Operation) : Prop :=
  op = .takeTicket ∨ op.commit?.isSome = true ∨ op.addition?.isSome = true

instance : DecidablePred Steady := fun _ => inferInstanceAs (Decidable (_ ∨ _ ∨ _))

end Operation

namespace World

/-- The healthy model is in view, and the synchronizer works, refuses stale commits and has given up nothing
in the model. -/
structure Steady (w : World) (id : ModelId) : Prop where
  balanced : w.Balanced
  shown : w.host.shown = some id
  cell : ∃ cell, w.host.cell? id = some cell ∧ cell.Healthy
  sound : w.synchronizer.poisoned = false
  discards : w.synchronizer.discardSuperseded = true
  bound : w.synchronizer.held id = w.synchronizer.handles
  kept : w.abandoned id = []

variable {w : World} {id : ModelId}

theorem steady_start {host : Host} {cell : ModelCell} (shown : host.shown = some id)
    (hc : host.cell? id = some cell) (healthy : cell.Healthy) (ordered : ∀ id, (host.model id).Ordered) :
    (start true host).Steady id :=
  ⟨balanced_start true ordered, shown, ⟨cell, hc, healthy⟩, rfl, rfl, rfl, rfl⟩

theorem Steady.map_fst_live (h : w.Steady id) : (w.live id).map (·.1) = w.synchronizer.handles := by
  rw [live, (h.balanced id).own, h.kept, h.bound, List.nil_append]

theorem Steady.result? (h : w.Steady id) (ticket : Ticket) (spans : List Span) :
    w.result? (.commit ticket spans) = some (w.synchronizer.commitTo w.host (some id) ticket spans) := by
  rw [World.result?, Synchronizer.commit, h.shown]

theorem Steady.record (h : w.Steady id) (op : Operation) {r : CommitResult}
    (result : w.result? op = some r) (shown : r.host.shown = some id)
    (cell : ∃ cell, r.host.cell? id = some cell ∧ cell.Healthy) (sound : r.synchronizer.poisoned = false)
    (discards : r.synchronizer.discardSuperseded = true) (model : r.synchronizer.model = some id) :
    (w.record r).Steady id := by
  refine ⟨h.balanced.record op result, shown, cell, sound, discards,
    Synchronizer.held_of_model model, ?_⟩
  simp only [World.record, if_pos model, h.kept, List.append_nil]

theorem Steady.commit_stale (h : w.Steady id) {ticket : Ticket} (spans : List Span)
    (stale : ticket < w.synchronizer.committed) :
    (w.step (.commit ticket spans)).Steady id ∧
      (w.step (.commit ticket spans)).synchronizer.committed = w.synchronizer.committed ∧
      (w.step (.commit ticket spans)).live id = w.live id := by
  obtain ⟨cell, hc, healthy⟩ := h.cell
  have result := h.result? ticket spans
  rw [Synchronizer.commitTo_stale hc healthy h.sound h.discards stale] at result
  rw [step_of_result? result]
  refine ⟨h.record (.commit ticket spans) result h.shown ⟨cell, hc, healthy⟩ ?_ ?_
    (Synchronizer.attach_model ..), Synchronizer.attach_committed .., ?_⟩
  · exact (Synchronizer.attach_poisoned ..).trans h.sound
  · exact (Synchronizer.attach_discardSuperseded ..).trans h.discards
  · simp only [live, World.record, DecorationModel.gained_self, List.append_nil]

theorem Steady.commit_current (h : w.Steady id) {ticket : Ticket} (spans : List Span)
    (current : w.synchronizer.committed ≤ ticket) :
    (w.step (.commit ticket spans)).Steady id ∧
      (w.step (.commit ticket spans)).synchronizer.committed = ticket ∧
      ((w.step (.commit ticket spans)).live id).map (·.2) = spans.map Decoration.occurrence := by
  obtain ⟨cell, hc, healthy⟩ := h.cell
  have result := h.result? ticket spans
  rw [Synchronizer.commitTo_current hc healthy h.sound current] at result
  obtain ⟨top, shown, count, leftover, given, live⟩ :=
    h.balanced.live_of_applied rfl result rfl
  cases shown.symm.trans h.shown
  rw [h.kept] at given
  rw [List.map_eq_nil_iff.1 given, List.nil_append] at live
  rw [step_of_result? result]
  refine ⟨h.record (.commit ticket spans) result h.shown
    ⟨_, Host.cell?_setCell hc _, healthy⟩ ?_ ?_ (Synchronizer.attach_model ..), Nat.max_eq_right current, ?_⟩
  · exact (Synchronizer.attach_poisoned ..).trans h.sound
  · exact (Synchronizer.attach_discardSuperseded ..).trans h.discards
  · have lengths := Nat.le_of_eq ((List.length_map Decoration.occurrence).trans count.symm)
    rw [live, List.map_snd_zip lengths]

theorem Steady.decorate (h : w.Steady id) (d : Decoration) :
    (w.step (.host (.decorate d))).Steady id ∧
      (w.step (.host (.decorate d))).live id = w.live id ∧
      ∃ handle, (w.step (.host (.decorate d))).placed id = w.placed id ++ [(handle, d)] := by
  obtain ⟨cell, hc, healthy⟩ := h.cell
  have host : w.host.act (.decorate d) = _ := Host.changeShown_of_shown h.shown hc _
  have changed : (w.host.act (.decorate d)).model id = ((w.host.model id).replace [] [d]).2 := by
    rw [host, Host.model_setCell hc, if_pos rfl, Host.model_of_cell? hc]
  have shown : (w.host.act (.decorate d)).shown = some id := by
    rw [host]
    exact h.shown
  have stays : ∃ cell, (w.host.act (.decorate d)).cell? id = some cell ∧ cell.Healthy := by
    rw [host]
    exact ⟨_, Host.cell?_setCell hc _, healthy⟩
  refine ⟨⟨h.balanced.step _, shown, stays, h.sound, h.discards, h.bound, h.kept⟩, ?_, ?_⟩
  · show ((w.host.act (.decorate d)).model id).toList.filter _ = _
    rw [changed]
    exact ((h.balanced id).filter_decorate d).1
  · show ∃ handle, w.placed id ++ (w.host.model id).gained ((w.host.act (.decorate d)).model id) = _
    rw [changed, (h.balanced id).ordered.gained_replace]
    exact ⟨_, rfl⟩

/-- What is to be seen in a steady world after commits and additions of the host, where the model held the
decorations `base` at the start. -/
structure Displays (w : World) (id : ModelId) (base : List (Handle × Decoration))
    (commits : List (Ticket × List Span)) (additions : List Decoration) : Prop where
  steady : w.Steady id
  committed : w.synchronizer.committed = highestTicket commits
  own : (w.live id).map (·.2) = (newest commits).2.map Decoration.occurrence
  added : ∃ added, w.placed id = base ++ added ∧ added.map (·.2) = additions

variable {base : List (Handle × Decoration)} {commits : List (Ticket × List Span)}
  {additions : List Decoration}

theorem Displays.commit (h : w.Displays id base commits additions) (ticket : Ticket) (spans : List Span) :
    (w.step (.commit ticket spans)).Displays id base (commits ++ [(ticket, spans)]) additions := by
  by_cases stale : ticket < w.synchronizer.committed
  · obtain ⟨steady, committed, live⟩ := h.steady.commit_stale spans stale
    rw [h.committed] at stale
    refine ⟨steady, ?_, ?_, h.added⟩
    · rw [highestTicket_append_singleton, committed, h.committed, Nat.max_eq_left (Nat.le_of_lt stale)]
    · rw [newest_append_singleton, if_pos stale, live, h.own]
  · obtain ⟨steady, committed, live⟩ := h.steady.commit_current spans (Nat.le_of_not_lt stale)
    rw [h.committed] at stale
    refine ⟨steady, ?_, ?_, h.added⟩
    · rw [highestTicket_append_singleton, committed, Nat.max_eq_right (Nat.le_of_not_lt stale)]
    · rw [newest_append_singleton, if_neg stale, live]

theorem Displays.decorate (h : w.Displays id base commits additions) (d : Decoration) :
    (w.step (.host (.decorate d))).Displays id base commits (additions ++ [d]) := by
  obtain ⟨steady, live, handle, placed⟩ := h.steady.decorate d
  obtain ⟨added, before, same⟩ := h.added
  refine ⟨steady, h.committed, by rw [live, h.own], added ++ [(handle, d)], ?_, ?_⟩
  · rw [placed, before, List.append_assoc]
  · rw [List.map_append, same]
    rfl

theorem Displays.step (h : w.Displays id base commits additions) {op : Operation} (steady : op.Steady) :
    (w.step op).Displays id base (commits ++ [op].filterMap Operation.commit?)
      (additions ++ [op].filterMap Operation.addition?) := by
  cases op with
  | takeTicket =>
    show Displays _ id base (commits ++ []) (additions ++ [])
    rw [List.append_nil, List.append_nil]
    obtain ⟨balanced, shown, cell, sound, discards, bound, kept⟩ := h.steady
    exact ⟨⟨balanced, shown, cell, sound, discards, bound, kept⟩, h.committed, h.own, h.added⟩
  | commit ticket spans =>
    show Displays _ id base (commits ++ [(ticket, spans)]) (additions ++ [])
    rw [List.append_nil]
    exact h.commit ticket spans
  | replaceAll spans => rcases steady with h | h | h <;> cases h
  | host act =>
    cases act with
    | decorate d =>
      show Displays _ id base (commits ++ []) (additions ++ [d])
      rw [List.append_nil]
      exact h.decorate d
    | _ => rcases steady with h | h | h <;> cases h

theorem Displays.run (h : w.Displays id base commits additions) {ops : List Operation}
    (steady : ∀ op ∈ ops, op.Steady) :
    (w.run ops).Displays id base (commits ++ ops.filterMap Operation.commit?)
      (additions ++ ops.filterMap Operation.addition?) := by
  induction ops using List.reverseRecOn with
  | nil =>
    rw [List.filterMap_nil, List.filterMap_nil, List.append_nil, List.append_nil]
    exact h
  | append_singleton ops op ih =>
    obtain ⟨earlier, last⟩ := List.forall_mem_append.1 steady
    rw [run_append, List.filterMap_append, List.filterMap_append, ← List.append_assoc,
      ← List.append_assoc]
    exact (ih earlier).step (last op (List.mem_singleton_self op))

theorem Displays.others (h : w.Displays id base commits additions) :
    ∃ added, added.map (·.2) = additions ∧
      (w.host.model id).toList.filter (· ∉ w.drawn id) = base ++ added := by
  obtain ⟨added, placed, same⟩ := h.added
  exact ⟨added, same, (h.steady.balanced id).others.trans placed⟩

theorem Displays.size (h : w.Displays id base commits additions) :
    (w.host.model id).size = (newest commits).2.length + (base.length + additions.length) := by
  obtain ⟨added, rfl, others⟩ := h.others
  have own : (w.live id).length = (newest commits).2.length := by
    simpa using congrArg List.length h.own
  show (w.host.model id).toList.length = _
  rw [List.length_eq_length_filter_add (· ∈ w.drawn id), ← own, live]
  simp only [← decide_not, others, List.length_append, List.length_map]

theorem Displays.repeat_commit (h : w.Displays id base commits additions) (ticket : Ticket)
    (spans : List Span) :
    let once := w.step (.commit ticket spans)
    let twice := once.step (.commit ticket spans)
    (twice.live id).map (·.2) = (once.live id).map (·.2) ∧
      (twice.host.model id).size = (once.host.model id).size := by
  have first := h.commit ticket spans
  have second := first.commit ticket spans
  constructor
  · rw [second.own, first.own, newest_repeat]
  · rw [second.size, first.size, newest_repeat]

end World

/-- What a model shows that stays in view. Let the host show a healthy model, and let any commits under any
tickets be made by a new synchronizer that refuses stale ones, with additions of the host in between.
* The committed ticket is the highest one. Of all that commits have put into the model there is left one
  decoration for each span of the last commit under that ticket, in the order of the spans, and the handles of
  these decorations are the ones held. Everything else in the model was there at the start or is an addition of
  the host, of which none is missing.
* If no ticket was used for two different commits, the same commits in any other order, and repeated or not,
  show the same.
* A commit that is repeated shows what it did before, in a model of the same size. -/
theorem commits_in_any_order {host : Host} {id : ModelId} {cell : ModelCell}
    (shown : host.shown = some id) (hc : host.cell? id = some cell) (healthy : cell.Healthy)
    (ordered : ∀ id, (host.model id).Ordered) :
    let after := (World.start true host).run
    (∀ ops, (∀ op ∈ ops, op.Steady) →
      (after ops).synchronizer.committed = highestTicket (ops.filterMap Operation.commit?) ∧
      ((after ops).live id).map (·.2) =
        (newest (ops.filterMap Operation.commit?)).2.map Decoration.occurrence ∧
      ((after ops).live id).map (·.1) = (after ops).synchronizer.handles ∧
      (after ops).synchronizer.handles.Pairwise (· < ·) ∧
      ∃ added, added.map (·.2) = ops.filterMap Operation.addition? ∧
        ((after ops).host.model id).toList.filter (· ∉ (after ops).drawn id) =
          cell.model.toList ++ added) ∧
    (∀ ops others, (∀ op ∈ ops, op.Steady) → (∀ op ∈ others, op.Steady) →
      (∀ c ∈ ops.filterMap Operation.commit?, ∀ d ∈ ops.filterMap Operation.commit?, c.1 = d.1 → c = d) →
      (∀ c, c ∈ ops.filterMap Operation.commit? ↔ c ∈ others.filterMap Operation.commit?) →
      ((after ops).live id).map (·.2) = ((after others).live id).map (·.2)) ∧
    (∀ ops ticket spans, (∀ op ∈ ops, op.Steady) →
      let once := after (ops ++ [.commit ticket spans])
      let twice := after (ops ++ [.commit ticket spans] ++ [.commit ticket spans])
      (twice.live id).map (·.2) = (once.live id).map (·.2) ∧
        (twice.host.model id).size = (once.host.model id).size) := by
  intro after
  have initial : (World.start true host).Displays id cell.model.toList [] [] :=
    ⟨World.steady_start shown hc healthy ordered, rfl, by simp [World.live, World.start, newest],
      [], by simp [World.start, Host.model_of_cell? hc], rfl⟩
  have displays : ∀ ops, (∀ op ∈ ops, op.Steady) → (after ops).Displays id cell.model.toList
      (ops.filterMap Operation.commit?) (ops.filterMap Operation.addition?) :=
    fun ops steady => initial.run steady
  refine ⟨?_, ?_, ?_⟩
  · intro ops steady
    have h := displays ops steady
    refine ⟨h.committed, h.own, h.steady.map_fst_live, ?_, h.others⟩
    rw [← h.steady.map_fst_live]
    exact (h.steady.balanced id).ordered.rising.sublist (List.filter_sublist.map _)
  · intro ops others steady steady' distinct same
    rw [(displays ops steady).own, (displays others steady').own, newest_congr distinct same]
  · intro ops ticket spans steady once twice
    have first : once = (after ops).step (.commit ticket spans) := World.run_append ..
    have second : twice = once.step (.commit ticket spans) := World.run_append ..
    rw [second, first]
    exact (displays ops steady).repeat_commit ticket spans

/-- A commit that comes late, and two that share a ticket, while the host adds decorations of its own. -/
def Operation.overtaken : List Operation :=
  [.commit 3 [⟨0, 2⟩], .host (.decorate ⟨"breakpoint", "", ⟨4, 1⟩⟩), .commit 1 [⟨5, 1⟩], .takeTicket,
    .host (.decorate ⟨"breakpoint", "", ⟨6, 1⟩⟩), .commit 3 [⟨7, 1⟩, ⟨9, 1⟩]]

/-- The last commit under the ticket 3 is shown beside what the host has added; and two commits show the same
in either order, one of them repeated. -/
theorem commits_in_any_order_overtaken :
    let after := (World.start true (Host.ofName "main" true)).run
    ((after Operation.overtaken).synchronizer.committed = 3 ∧
      ((after Operation.overtaken).live 0).map (·.2) = [⟨7, 1⟩, ⟨9, 1⟩].map Decoration.occurrence ∧
      ∃ added, added.map (·.2) = [⟨"breakpoint", "", ⟨4, 1⟩⟩, ⟨"breakpoint", "", ⟨6, 1⟩⟩] ∧
        ((after Operation.overtaken).host.model 0).toList.filter
          (· ∉ (after Operation.overtaken).drawn 0) = added) ∧
    ((after [.commit 1 [⟨5, 1⟩], .commit 2 [⟨0, 2⟩]]).live 0).map (·.2) =
      ((after [.commit 2 [⟨0, 2⟩], .commit 1 [⟨5, 1⟩], .commit 1 [⟨5, 1⟩]]).live 0).map (·.2) := by
  have ordered : ∀ id, ((Host.ofName "main" true).model id).Ordered := by
    intro id
    show ((({} : Host).modelNamed "main").2.model id).Ordered
    rw [Host.model_modelNamed]
    exact DecorationModel.ordered_empty
  obtain ⟨closed, order, -⟩ := commits_in_any_order (by rfl) (by rfl) ⟨rfl, rfl⟩ ordered
  obtain ⟨committed, own, -, -, added, additions, others⟩ := closed Operation.overtaken (by decide)
  refine ⟨⟨committed, own, added, additions, others⟩, ?_⟩
  apply order
  · decide
  · decide
  · decide
  · simp [Operation.commit?, or_comm]

end Highlight
