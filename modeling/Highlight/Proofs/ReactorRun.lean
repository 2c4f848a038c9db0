import Highlight.Proofs.JobSteps
import Highlight.Proofs.Synchronizer
import Highlight.Proofs.WorkerPool
import Highlight.Reactor.Basic

/-!
# Runs of a reactor

A run of a reactor is any order of the selections reported to it and of the steps of its workers. The
search of a job is one step that ends when all its matches are known; in the meantime other jobs go on, so
it may find its token cancelled at any point, but only if the token is cancelled when it ends.

`Reactor.scheduled` are the jobs that the selections of a run are given, each with its ticket. In every
state that a reactor can come to, crashes and changes of the editor included, no ticket stands above those
given out (`Reactor.Reached.sane`).
-/

namespace Highlight

/-- A selection reported in some view. -/
structure SelectionEvent where
  view : ViewId
  selection : Selection
  deriving DecidableEq, Repr, Inhabited

namespace Reactor

/-- The reactor `r` can come to a state while the selections of a list are reported to it, in their
order. -/
inductive Run (r : Reactor) : List SelectionEvent → Reactor → Prop where
  | start : Run r [] r
  | select {es : List SelectionEvent} {r' : Reactor} (before : Run r es r') (e : SelectionEvent) :
    Run r (es ++ [e]) (r'.select e.view e.selection).2
  | work {es : List SelectionEvent} {r' : Reactor} (before : Run r es r') (w : Nat) :
    Run r es (r'.step w)
  | search {es : List SelectionEvent} {r' : Reactor} (before : Run r es r') {w : Nat} {task : Task}
    {target : Target} (running : r'.pool.workers[w]? = some (.running task))
    (searching : task.phase = .search target) (history : Nat → Bool)
    (seen : ∀ n, history n = true → r'.shared.isCancelled task.job.ticket = true) :
    Run r es (r'.conclude w task.job (Job.searchUnder history r'.shared target))

/-- A search of a job that is not cancelled at its end has seen no cancellation. -/
theorem silent_of_live {s : Shared} {ticket : Ticket} {history : Nat → Bool}
    (seen : ∀ n, history n = true → s.isCancelled ticket = true)
    (live : s.isCancelled ticket = false) : history = fun _ => false := by
  funext n
  cases hn : history n with
  | false => rfl
  | true =>
    have cancelled := seen n hn
    rw [live] at cancelled
    cases cancelled

/-- A run goes on with the steps of the workers in any order. -/
theorem Run.works {r r' : Reactor} {es : List SelectionEvent} (before : r.Run es r') (ws : List Nat) :
    r.Run es (ws.foldl step r') := by
  induction ws generalizing r' with
  | nil => exact before
  | cons w ws ih => exact ih (before.work w)

/-- A state that a reactor can come to at all, also while its editor changes in any way. -/
inductive Reached : Reactor → Prop where
  | start (editor : Editor) (settings : Settings) (pipeline : Pipeline) :
    Reached (Reactor.start editor settings pipeline)
  | run {r r' : Reactor} {es : List SelectionEvent} (before : Reached r) (run : Run r es r') :
    Reached r'
  | change {r : Reactor} (before : Reached r) (editor : Editor) :
    Reached { r with shared := { r.shared with editor } }

/-- The text that an event selects for a reactor of some view, which must be enabled. -/
def selected? (settings : Settings) (view : ViewId) (e : SelectionEvent) : Option (Nat × Nat) :=
  if settings.enabled ∧ e.view = view then
    match e.selection with
    | .text offset length => some (offset, length)
    | .other => none
  else none

/-- The jobs for some texts selected, with their tickets from `n + 1` on. -/
def jobsFrom (n : Nat) : List (Nat × Nat) → List Job
  | [] => []
  | (offset, length) :: texts => ⟨n + 1, offset, length⟩ :: jobsFrom (n + 1) texts

/-- The jobs that the selections of a run from `r` are given. -/
def scheduled (r : Reactor) (es : List SelectionEvent) : List Job :=
  jobsFrom r.shared.synchronizer.issued
    (es.filterMap (selected? r.shared.settings r.shared.editor.view))

/-- The decoration model shown, with its number. -/
def shownModel? (r : Reactor) : Option (ModelId × DecorationModel) :=
  let host := r.shared.editor.host
  host.shown.bind fun id => (host.cell? id).map fun cell => (id, cell.model)

/-- The spans that the synchronizer has drawn in the model shown. -/
def drawn (r : Reactor) : List Span :=
  match r.shownModel? with
  | none => []
  | some (id, model) => model.spansUnder (r.shared.synchronizer.held id)

/-- The decorations of the model shown that the synchronizer has not drawn. -/
def undrawn (r : Reactor) : List (Handle × Decoration) :=
  match r.shownModel? with
  | none => []
  | some (id, model) => model.without (r.shared.synchronizer.held id)

/-- No job has been cancelled, and what is drawn is what was drawn. -/
structure Undisturbed (r r' : Reactor) : Prop where
  cancelled : r'.shared.cancelled = r.shared.cancelled
  drawn : r'.drawn = r.drawn
  undrawn : r'.undrawn = r.undrawn

/-! ## Scheduled jobs -/

theorem jobsFrom_append (n : Nat) (xs ys : List (Nat × Nat)) :
    jobsFrom n (xs ++ ys) = jobsFrom n xs ++ jobsFrom (n + xs.length) ys := by
  induction xs generalizing n with
  | nil => rfl
  | cons x xs ih =>
    simp only [List.cons_append, jobsFrom, ih (n + 1), List.length_cons, List.cons.injEq, true_and]
    rw [Nat.add_right_comm, Nat.add_assoc]

theorem length_jobsFrom (n : Nat) (xs : List (Nat × Nat)) : (jobsFrom n xs).length = xs.length := by
  induction xs generalizing n with
  | nil => rfl
  | cons x xs ih => simp [jobsFrom, ih (n + 1)]

theorem ticket_jobsFrom {n : Nat} {xs : List (Nat × Nat)} {j : Job} (h : j ∈ jobsFrom n xs) :
    n < j.ticket ∧ j.ticket ≤ n + xs.length := by
  induction xs generalizing n with
  | nil => simp [jobsFrom] at h
  | cons x xs ih =>
    rw [List.length_cons]
    rcases List.mem_cons.1 h with rfl | h
    · exact ⟨Nat.lt_succ_self n, Nat.add_le_add_left (Nat.le_add_left 1 _) n⟩
    · obtain ⟨low, high⟩ := ih h
      exact ⟨Nat.lt_of_succ_lt low, Nat.le_trans high (by omega)⟩

theorem eq_of_ticket_jobsFrom {n : Nat} {xs : List (Nat × Nat)} {i j : Job}
    (hi : i ∈ jobsFrom n xs) (hj : j ∈ jobsFrom n xs) (h : i.ticket = j.ticket) : i = j := by
  induction xs generalizing n with
  | nil => simp [jobsFrom] at hi
  | cons x xs ih =>
    rcases List.mem_cons.1 hi with rfl | hi'
    · rcases List.mem_cons.1 hj with rfl | hj'
      · rfl
      · have := (ticket_jobsFrom hj').1
        rw [← h] at this
        exact absurd this (Nat.lt_irrefl _)
    · rcases List.mem_cons.1 hj with rfl | hj'
      · have := (ticket_jobsFrom hi').1
        rw [h] at this
        exact absurd this (Nat.lt_irrefl _)
      · exact ih hi' hj'

/-- A selection of text in the own view is scheduled behind the ones before it. -/
theorem scheduled_snoc (r : Reactor) (es : List SelectionEvent) (e : SelectionEvent) :
    r.scheduled (es ++ [e]) =
      match selected? r.shared.settings r.shared.editor.view e with
      | none => r.scheduled es
      | some (offset, length) =>
        r.scheduled es ++
          [⟨r.shared.synchronizer.issued + (r.scheduled es).length + 1, offset, length⟩] := by
  simp only [scheduled, List.filterMap_append, jobsFrom_append, length_jobsFrom]
  cases h : selected? r.shared.settings r.shared.editor.view e with
  | none => simp [h, jobsFrom]
  | some text => simp [h, jobsFrom]

/-! ## What one selection does -/

/-- A selection is given a ticket and a job, or it leaves the reactor as it is. -/
theorem select_cases (r : Reactor) (e : SelectionEvent) :
    (selected? r.shared.settings r.shared.editor.view e = none ∧
      ∃ events, (r.select e.view e.selection).2 = { r with shared := r.shared.noteAll events }) ∨
    ∃ offset length events,
      selected? r.shared.settings r.shared.editor.view e = some (offset, length) ∧
      (r.select e.view e.selection).2 =
        { shared := ({ r.shared with synchronizer := r.shared.synchronizer.nextTicket.2 }.register
            r.shared.synchronizer.nextTicket.1).noteAll events
          pool := r.pool.execute
            { job := ⟨r.shared.synchronizer.nextTicket.1, offset, length⟩ } } := by
  obtain ⟨view, selection⟩ := e
  simp only [select, selected?]
  by_cases enabled : r.shared.settings.enabled = true
  · by_cases own : view = r.shared.editor.view
    · cases selection with
      | other => exact Or.inl ⟨by simp, [], by simp [enabled, own, Shared.noteAll, Journal.noteAll]⟩
      | text offset length =>
        exact Or.inr ⟨offset, length, [.scheduled r.shared.synchronizer.nextTicket.1 offset],
          by simp [enabled, own], by simp [enabled, own]⟩
    · exact Or.inl ⟨by simp [own], [.foreignView view], by simp [enabled, own]⟩
  · exact Or.inl ⟨by simp [enabled], [], by simp [enabled, Shared.noteAll, Journal.noteAll]⟩

theorem drawn_congr {r r' : Reactor} (host : r'.shared.editor.host = r.shared.editor.host)
    (held : r'.shared.synchronizer.held = r.shared.synchronizer.held) :
    r'.drawn = r.drawn ∧ r'.undrawn = r.undrawn := by
  simp only [drawn, undrawn, shownModel?, host, held, and_self]

/-- What the synchronizer draws in the model shown is what is drawn. -/
theorem drawn_of_draws {r : Reactor} {id : ModelId} {base : List (Handle × Decoration)}
    {spans : List Span} (shown : r.shared.editor.host.shown = some id)
    (draws : r.shared.synchronizer.Draws r.shared.editor.host id base spans) :
    r.drawn = spans ∧ r.undrawn = base := by
  obtain ⟨cell, hc, -, shows⟩ := draws.cell
  have found : r.shownModel? = some (id, cell.model) := by
    simp [shownModel?, shown, hc]
  simp only [drawn, undrawn, found]
  exact ⟨shows.own, shows.others⟩

/-- A selection by itself disturbs nothing. -/
theorem undisturbed_select (r : Reactor) (e : SelectionEvent) :
    r.Undisturbed (r.select e.view e.selection).2 := by
  rcases r.select_cases e with ⟨-, events, result⟩ | ⟨offset, length, events, -, result⟩
  · rw [result]
    exact ⟨rfl, rfl, rfl⟩
  · rw [result]
    unfold Shared.register
    split <;> exact ⟨rfl, rfl, rfl⟩

/-! ## Tickets -/

end Reactor

/-- No ticket is above those given out, and the synchronizer obeys the settings. -/
structure Shared.Ticketed (s : Shared) : Prop where
  discards : s.synchronizer.discardSuperseded = s.settings.discardSuperseded
  committed : s.synchronizer.committed ≤ s.synchronizer.issued
  inFlight : ∀ t ∈ s.inFlight, t ≤ s.synchronizer.issued
  cancelled : ∀ t ∈ s.cancelled, t ≤ s.synchronizer.issued

namespace Shared

variable {s : Shared}

theorem Ticketed.noteAll (h : s.Ticketed) (events : List Event) : (s.noteAll events).Ticketed :=
  ⟨h.discards, h.committed, h.inFlight, h.cancelled⟩

theorem Ticketed.unregister (h : s.Ticketed) (ticket : Ticket) : (s.unregister ticket).Ticketed :=
  ⟨h.discards, h.committed, fun t ht => h.inFlight t (List.mem_filter.1 ht).1, h.cancelled⟩

theorem Ticketed.supersede (h : s.Ticketed) (ticket : Ticket) : (s.supersede ticket).Ticketed := by
  refine ⟨h.discards, h.committed, fun t ht => h.inFlight t (List.mem_filter.1 ht).1, fun t ht => ?_⟩
  rcases List.mem_append.1 ht with ht | ht
  · exact h.cancelled t ht
  · exact h.inFlight t (List.mem_filter.1 ht).1

theorem Ticketed.issue (h : s.Ticketed) :
    Ticketed { s with synchronizer := s.synchronizer.nextTicket.2 } :=
  ⟨h.discards, Nat.le_succ_of_le h.committed, fun t ht => Nat.le_succ_of_le (h.inFlight t ht),
    fun t ht => Nat.le_succ_of_le (h.cancelled t ht)⟩

theorem Ticketed.register (h : s.Ticketed) {ticket : Ticket} (given : ticket ≤ s.synchronizer.issued) :
    (s.register ticket).Ticketed := by
  unfold Shared.register
  split
  · refine ⟨h.discards, h.committed, fun t ht => ?_, h.cancelled⟩
    rcases List.mem_append.1 ht with ht | ht
    · exact h.inFlight t ht
    · rw [List.mem_singleton.1 ht]
      exact given
  · exact h

theorem Ticketed.schedule (h : s.Ticketed) (events : List Event) :
    (({ s with synchronizer := s.synchronizer.nextTicket.2 }.register
      s.synchronizer.nextTicket.1).noteAll events).Ticketed :=
  (h.issue.register (Nat.le_refl _)).noteAll events

theorem Ticketed.withCommit (h : s.Ticketed) {j : Job} (hj : j.ticket ≤ s.synchronizer.issued)
    {spans : List Span} {picked : Option ModelId} {r : CommitResult}
    (done : s.synchronizer.commitTo s.editor.host picked j.ticket spans = r) :
    (s.withCommit r).Ticketed ∧ (s.withCommit r).synchronizer.issued = s.synchronizer.issued := by
  obtain ⟨issued, discards, committed⟩ :=
    s.synchronizer.commitTo_bounds s.editor.host picked j.ticket spans
  rw [done] at issued discards committed
  refine ⟨⟨discards.trans h.discards, ?_, fun t ht => ?_, fun t ht => ?_⟩, issued⟩
  · exact Nat.le_trans committed (issued ▸ Nat.max_le.2 ⟨h.committed, hj⟩)
  · exact issued ▸ h.inFlight t ht
  · exact issued ▸ h.cancelled t ht

/-- No step of a job gives out a ticket. -/
theorem Ticketed.step (h : s.Ticketed) {j : Job} (hj : j.ticket ≤ s.synchronizer.issued)
    {phase : Phase} {result : Shared × Progress} (step : j.StepCase s phase result) :
    result.1.Ticketed ∧ result.1.synchronizer.issued = s.synchronizer.issued := by
  cases step with
  | stops | finds => exact ⟨h.noteAll _, rfl⟩
  | reads | searchCrashes => exact ⟨h, rfl⟩
  | supersedes => exact ⟨h.supersede _, rfl⟩
  | commits done =>
    obtain ⟨ticketed, issued⟩ := h.withCommit hj done
    exact ⟨(ticketed.noteAll _).noteAll _, issued⟩
  | commitCrashes done =>
    obtain ⟨ticketed, issued⟩ := h.withCommit hj done
    exact ⟨ticketed.noteAll _, issued⟩
  | finishes => exact ⟨h.unregister _, rfl⟩

end Shared

namespace Reactor

/-- What holds of every state of a reactor: its pool counts right, and no ticket is above those given
out. -/
structure Sane (r : Reactor) : Prop where
  accounted : r.pool.Accounted
  ticketed : r.shared.Ticketed
  tasks : ∀ task ∈ r.pool.jobs, task.job.ticket ≤ r.shared.synchronizer.issued

variable {r : Reactor} {w : Nat} {task : Task}

theorem Sane.conclude (h : r.Sane) (running : r.pool.workers[w]? = some (.running task))
    {s' : Shared} (progress : Progress) (ticketed : s'.Ticketed)
    (issued : s'.synchronizer.issued = r.shared.synchronizer.issued) :
    (r.conclude w task.job (s', progress)).Sane := by
  have bound := h.tasks task (WorkerPool.mem_jobs_of_running running)
  cases progress with
  | goOn phase =>
    refine ⟨h.accounted.advance running _, ticketed, fun x hx => ?_⟩
    simp only [Reactor.conclude, issued]
    rcases WorkerPool.mem_of_mem_jobs_advance running hx with rfl | hx
    · exact bound
    · exact h.tasks x hx
  | ended =>
    refine ⟨h.accounted.finish running, ticketed, fun x hx => ?_⟩
    simp only [Reactor.conclude, issued]
    exact h.tasks x (WorkerPool.mem_of_mem_jobs_finish running hx)
  | crashed =>
    refine ⟨h.accounted.finish running, ticketed.noteAll _, fun x hx => ?_⟩
    simp only [Reactor.conclude, Shared.noteAll, issued]
    exact h.tasks x (WorkerPool.mem_of_mem_jobs_finish running hx)

theorem Sane.step (h : r.Sane) (w : Nat) : (r.step w).Sane := by
  unfold Reactor.step
  split
  · exact h
  · exact ⟨h.accounted.receive w, h.ticketed, fun x hx => h.tasks x (WorkerPool.mem_jobs_receive.1 hx)⟩
  · rename_i task running
    have bound := h.tasks task (WorkerPool.mem_jobs_of_running running)
    obtain ⟨ticketed, issued⟩ := h.ticketed.step bound (task.job.step_cases r.shared task.phase)
    exact h.conclude running _ ticketed issued
  · exact ⟨h.accounted.done w, h.ticketed, fun x hx => h.tasks x (WorkerPool.mem_jobs_done.1 hx)⟩

theorem Sane.select (h : r.Sane) (e : SelectionEvent) : (r.select e.view e.selection).2.Sane := by
  rcases r.select_cases e with ⟨-, events, result⟩ | ⟨offset, length, events, -, result⟩
  · rw [result]
    exact ⟨h.accounted, h.ticketed.noteAll events, h.tasks⟩
  · rw [result]
    have issued : ∀ n, n ≤ r.shared.synchronizer.nextTicket.1 →
        n ≤ (({ r.shared with synchronizer := r.shared.synchronizer.nextTicket.2 }.register
          r.shared.synchronizer.nextTicket.1).noteAll events).synchronizer.issued := by
      intro n hn
      unfold Shared.register
      split <;> exact hn
    refine ⟨h.accounted.execute _, h.ticketed.schedule events, fun x hx => issued _ ?_⟩
    rcases WorkerPool.mem_jobs_execute.1 hx with hx | rfl
    · exact Nat.le_succ_of_le (h.tasks x hx)
    · exact Nat.le_refl _

theorem Sane.run {r₀ : Reactor} (h : r₀.Sane) {es : List SelectionEvent} (run : r₀.Run es r) :
    r.Sane := by
  induction run with
  | start => exact h
  | select _ e ih => exact ih.select e
  | work _ w ih => exact ih.step w
  | search _ running _ _ seen ih =>
    have bound := ih.tasks _ (WorkerPool.mem_jobs_of_running running)
    obtain ⟨ticketed, issued⟩ := ih.ticketed.step bound (Job.searchUnder_cases _ seen _)
    exact ih.conclude running _ ticketed issued

/-- Every state that a reactor can come to is sane. -/
theorem Reached.sane (h : r.Reached) : r.Sane := by
  induction h with
  | start editor settings pipeline =>
    refine ⟨WorkerPool.accounted_ofThreads _, ⟨rfl, Nat.le_refl _, nofun, nofun⟩, fun x hx => ?_⟩
    rw [show (Reactor.start editor settings pipeline).pool.jobs = [] from
      WorkerPool.jobs_ofThreads _] at hx
    cases hx
  | run _ run ih => exact ih.run run
  | change _ editor ih =>
    exact ⟨ih.accounted, ⟨ih.ticketed.discards, ih.ticketed.committed, ih.ticketed.inFlight,
      ih.ticketed.cancelled⟩, ih.tasks⟩

end Reactor

end Highlight
