import Highlight.Proofs.LatestSelection

/-!
# Cancelled searches

A search asks again and again whether it has been cancelled, and ends at once when it has. What it has
reported by then is a beginning of what it would have reported, its caller is left with all matches or with
none, and an empty result that comes of a cancellation is never drawn: the job asks once more before it goes
on to its commit, and a token that is cancelled stays so (`cancellation_all_or_nothing`).

`Run.Cooperative` are the runs that behave so, whatever the resolver, and `Reactor.GivesUp` is what holds of
a job from the end of its search on.
-/

namespace Highlight

/-! ## Runs that are cancelled -/

/-- What a run that may be cancelled leaves, beside the same run when it never is. -/
structure Outcome.PartOf (o whole : Outcome) : Prop where
  /-- The matches reported are the first ones. -/
  reported : o.found <+: whole.found
  /-- A run that finishes has reported all matches. -/
  finished : o.ending = .finished → whole.ending = .finished ∧ o.found = whole.found
  /-- The caller is left with all matches or with none. -/
  complete : whole.ending = .finished ∧ o.complete = whole.found ∨ o.complete = []
  /-- Nothing but the cancellation makes a difference. -/
  cut : o = whole ∨ o.ending = .failed .cancelled

namespace Run

/-- The run ends when it finds itself cancelled, and for no other reason with that error. -/
def Cooperative : Run → Prop
  | finish => True
  | fail reason => reason ≠ .cancelled
  | crash => True
  | report _ rest => rest.Cooperative
  | poll onCancelled onLive => onCancelled = .fail .cancelled ∧ onLive.Cooperative
  | readScopes rest => rest.Cooperative

theorem Cooperative.execFrom_cases {run : Run} (h : run.Cooperative) (history : Nat → Bool) (n : Nat) :
    execFrom history n run = execFrom (fun _ => false) n run ∨
      (execFrom history n run).ending = .failed .cancelled ∧
        (execFrom history n run).found <+: (execFrom (fun _ => false) n run).found := by
  induction run generalizing n with
  | finish | fail | crash => exact Or.inl rfl
  | report found rest ih =>
    rcases ih h (n + 1) with same | ⟨cut, first⟩
    · exact Or.inl (by simp only [execFrom, same])
    · exact Or.inr ⟨cut, List.cons_prefix_cons.2 ⟨rfl, first⟩⟩
  | poll onCancelled onLive _ ih =>
    obtain ⟨rfl, live⟩ := h
    simp only [execFrom]
    by_cases cancelled : history n = true
    · rw [if_pos cancelled]
      exact Or.inr ⟨rfl, List.nil_prefix⟩
    · rw [if_neg cancelled]
      exact ih live (n + 1)
  | readScopes rest ih =>
    rcases ih h (n + 1) with same | ⟨cut, first⟩
    · exact Or.inl (by simp only [execFrom, same])
    · exact Or.inr ⟨cut, first⟩

/-- A run that is cut short has found itself cancelled at some step. -/
theorem Cooperative.cancelled_of_cut {run : Run} (h : run.Cooperative) {history : Nat → Bool} {n : Nat}
    (cut : (execFrom history n run).ending = .failed .cancelled) : ∃ m, history m = true := by
  induction run generalizing n with
  | finish | crash => cases cut
  | fail reason => exact absurd (Ending.failed.inj cut) h
  | report found rest ih => exact ih h (n := n + 1) cut
  | poll onCancelled onLive _ ih =>
    by_cases cancelled : history n = true
    · exact ⟨n, cancelled⟩
    · simp only [execFrom, cancelled, Bool.false_eq_true, if_false] at cut
      exact ih h.2 cut
  | readScopes rest ih => exact ih h (n := n + 1) cut

theorem Cooperative.partOf {run : Run} (h : run.Cooperative) (history : Nat → Bool) :
    (run.exec history).PartOf (run.exec fun _ => false) := by
  rcases h.execFrom_cases history 0 with same | ⟨cut, first⟩
  · have same : run.exec history = run.exec fun _ => false := same
    rw [same]
    refine ⟨List.prefix_rfl, fun finished => ⟨finished, rfl⟩, ?_, Or.inl rfl⟩
    unfold Outcome.complete
    split
    · exact Or.inl ⟨‹_›, rfl⟩
    · exact Or.inr rfl
  · have cut : (run.exec history).ending = .failed .cancelled := cut
    refine ⟨first, fun finished => ?_, Or.inr ?_, Or.inr cut⟩
    · rw [cut] at finished
      cases finished
    · simp only [Outcome.complete, cut]

end Run

namespace Engine

variable (resolver : Resolver) (q : Query) (file : Snapshot)

theorem cooperative_judge (node : Node) (symbol : Option Symbol) {rest : Run} (h : rest.Cooperative) :
    (judge q file node symbol rest).Cooperative := by
  unfold judge
  split
  · split
    · trivial
    · simp only [Run.Cooperative]
      split <;> exact h
  · exact h

theorem cooperative_visit (p : Place) {rest : Run} (h : rest.Cooperative) :
    (visit resolver q file p rest).Cooperative := by
  refine ⟨rfl, ?_⟩
  split
  · trivial
  · split
    · split
      · trivial
      · dsimp only
        split <;> exact cooperative_judge q file _ _ h
    · exact h

theorem cooperative_searchFile {rest : Run} (h : rest.Cooperative) :
    (searchFile resolver q file rest).Cooperative := by
  refine ⟨rfl, ?_⟩
  split
  · exact SearchError.noConfusion
  · rename_i g _
    induction captures g file with
    | nil => exact h
    | cons p ps ih => exact cooperative_visit resolver q file p ih

/-- The search of files is cooperative, whatever the resolver. -/
theorem cooperative_searching : (searching resolver q).Cooperative := by
  unfold searching
  induction q.files with
  | nil => trivial
  | cons file files ih => exact cooperative_searchFile resolver q file ih

end Engine

/-! ## Cancelled jobs stay cancelled -/

namespace Reactor

/-- The second state can come after the first, also while the editor changes in any way. -/
inductive Follows (r : Reactor) : Reactor → Prop where
  | refl : Follows r r
  | run {r' r'' : Reactor} {es : List SelectionEvent} (before : Follows r r') (run : r'.Run es r'') :
    Follows r r''
  | change {r' : Reactor} (before : Follows r r') (editor : Editor) :
    Follows r { r' with shared := { r'.shared with editor } }

variable {r r' : Reactor} {w : Nat} {task : Task} {ticket : Ticket}

theorem cancelled_conclude (r : Reactor) (w : Nat) (job : Job) (result : Shared × Progress) :
    (r.conclude w job result).shared.cancelled = result.1.cancelled := by
  obtain ⟨s, progress⟩ := result
  cases progress <;> rfl

theorem cancelled_select (r : Reactor) (e : SelectionEvent) :
    (r.select e.view e.selection).2.shared.cancelled = r.shared.cancelled :=
  (r.undisturbed_select e).cancelled

theorem cancelled_work (r : Reactor) (w : Nat) : r.shared.cancelled ⊆ (r.step w).shared.cancelled := by
  unfold step
  split
  · exact List.Subset.refl _
  · exact List.Subset.refl _
  · rename_i task _
    rw [advance, cancelled_conclude]
    exact (task.job.step_cases r.shared task.phase).cancelled.1
  · exact List.Subset.refl _

theorem Run.cancelled {es : List SelectionEvent} (run : r.Run es r') :
    r.shared.cancelled ⊆ r'.shared.cancelled := by
  induction run with
  | start => exact List.Subset.refl _
  | select _ e ih => rwa [cancelled_select]
  | work _ w ih => exact List.Subset.trans ih (cancelled_work _ w)
  | search _ _ _ _ seen ih =>
    rw [cancelled_conclude]
    exact List.Subset.trans ih (Job.searchUnder_cases _ seen _).cancelled.1

/-- A job that has been cancelled stays cancelled. -/
theorem Follows.isCancelled (h : r.Follows r') (cancelled : r.shared.isCancelled ticket = true) :
    r'.shared.isCancelled ticket = true := by
  have grown : r.shared.cancelled ⊆ r'.shared.cancelled := by
    induction h with
    | refl => exact List.Subset.refl _
    | run _ run ih => exact List.Subset.trans ih run.cancelled
    | change _ editor ih => exact ih
  exact List.contains_iff_mem.2 (grown (List.contains_iff_mem.1 cancelled))

/-! ## Every ticket has one job -/

/-- No two jobs that are not over have the same ticket. -/
def Distinct (r : Reactor) : Prop := (r.pool.jobs.map (·.job.ticket)).Nodup

theorem Distinct.perm (h : r.Distinct) (same : r'.pool.jobs.Perm r.pool.jobs) : r'.Distinct :=
  (same.map _).nodup_iff.2 h

/-- A job that goes on keeps its ticket, and one that is over leaves the others theirs. -/
theorem Distinct.conclude (h : r.Distinct) (running : r.pool.workers[w]? = some (.running task))
    (result : Shared × Progress) : (r.conclude w task.job result).Distinct := by
  obtain ⟨s, progress⟩ := result
  cases progress with
  | goOn phase =>
    obtain ⟨rest, before, after⟩ := WorkerPool.perm_jobs_advance running ⟨task.job, phase⟩
    exact (after.map _).nodup_iff.2 ((before.map _).nodup_iff.1 h)
  | ended | crashed =>
    obtain ⟨rest, before, after⟩ := WorkerPool.perm_jobs_finish running
    exact (after.map _).nodup_iff.2 ((before.map _).nodup_iff.1 h).of_cons

theorem Distinct.work (h : r.Distinct) (w : Nat) : (r.step w).Distinct := by
  unfold step
  split
  · exact h
  · exact h.perm (WorkerPool.perm_jobs_receive _ w)
  · exact h.conclude ‹_› _
  · exact h.perm (WorkerPool.perm_jobs_done _ w)

theorem Distinct.select (h : r.Distinct) (sane : r.Sane) (e : SelectionEvent) :
    (r.select e.view e.selection).2.Distinct := by
  rcases r.select_cases e with ⟨-, events, result⟩ | ⟨offset, length, events, -, result⟩
  · rw [result]
    exact h
  · rw [result]
    refine ((WorkerPool.perm_jobs_execute r.pool _).map _).nodup_iff.2 (List.nodup_cons.2 ⟨?_, h⟩)
    intro taken
    obtain ⟨other, known, same⟩ := List.mem_map.1 taken
    have old := sane.tasks other known
    rw [same] at old
    exact absurd old (Nat.not_succ_le_self _)

theorem Distinct.run (h : r.Distinct) (sane : r.Sane) {es : List SelectionEvent} (run : r.Run es r') :
    r'.Distinct := by
  induction run with
  | start => exact h
  | select before e ih => exact ih.select (sane.run before) e
  | work _ w ih => exact ih.work w
  | search _ running _ history _ ih => exact ih.conclude running _

theorem Reached.distinct (h : r.Reached) : r.Distinct := by
  induction h with
  | start editor settings pipeline =>
    have none : (Reactor.start editor settings pipeline).pool.jobs = [] := WorkerPool.jobs_ofThreads _
    rw [Distinct, none]
    exact List.nodup_nil
  | run before run ih => exact ih.run before.sane run
  | change _ editor ih => exact ih

/-! ## Jobs that give up -/

/-- The job of the ticket is cancelled. If it is not over, its search is, and it is left with nothing. -/
structure GivesUp (r : Reactor) (ticket : Ticket) : Prop where
  sane : r.Sane
  issued : ticket ≤ r.shared.synchronizer.issued
  cancelled : r.shared.isCancelled ticket = true
  phase : ∀ task ∈ r.pool.jobs, task.job.ticket = ticket →
    task.phase = .recheck [] ∨ task.phase = .finish

/-- What the job does from here on: it goes to its end, and draws nothing. -/
theorem GivesUp.step_eq (h : r.GivesUp ticket) (running : r.pool.workers[w]? = some (.running task))
    (mine : task.job.ticket = ticket) :
    ∃ s, s.editor = r.shared.editor ∧ s.synchronizer = r.shared.synchronizer ∧
      (task.job.step r.shared task.phase = (s, .goOn .finish) ∨
        task.job.step r.shared task.phase = (s, .ended)) := by
  have cancelled : r.shared.isCancelled task.job.ticket = true := mine ▸ h.cancelled
  rcases h.phase task (WorkerPool.mem_jobs_of_running running) mine with phase | phase
  · rw [phase]
    exact ⟨r.shared.noteAll [.supersededSearching task.job.ticket], rfl, rfl,
      Or.inl (if_pos cancelled)⟩
  · rw [phase]
    exact ⟨r.shared.unregister task.job.ticket, rfl, rfl, Or.inr rfl⟩

/-- The steps of other jobs change nothing about it, and its own only bring it to its end. -/
theorem GivesUp.conclude (h : r.GivesUp ticket) (running : r.pool.workers[w]? = some (.running task))
    {result : Shared × Progress} (step : task.job.StepCase r.shared task.phase result)
    (ends : task.job.ticket = ticket → ∀ phase, result.2 = .goOn phase → phase = .finish) :
    (r.conclude w task.job result).GivesUp ticket := by
  have bound := h.sane.tasks task (WorkerPool.mem_jobs_of_running running)
  obtain ⟨ticketed, issued⟩ := h.sane.ticketed.step bound step
  have cancelled := step.cancelled.1
  obtain ⟨s, progress⟩ := result
  refine ⟨h.sane.conclude running progress ticketed issued, ?_, ?_, ?_⟩
  · have same : (r.conclude w task.job (s, progress)).shared.synchronizer = s.synchronizer := by
      cases progress <;> rfl
    rw [same, issued]
    exact h.issued
  · rw [Shared.isCancelled, cancelled_conclude]
    exact List.contains_iff_mem.2 (cancelled (List.contains_iff_mem.1 h.cancelled))
  · intro other known mine
    cases progress with
    | goOn phase =>
      rcases WorkerPool.mem_of_mem_jobs_advance running known with rfl | known
      · exact Or.inr (ends mine phase rfl)
      · exact h.phase other known mine
    | ended | crashed =>
      exact h.phase other (WorkerPool.mem_of_mem_jobs_finish running known) mine

theorem GivesUp.work (h : r.GivesUp ticket) (w : Nat) : (r.step w).GivesUp ticket := by
  have sane := h.sane.step w
  unfold step at sane ⊢
  split
  · exact h
  · rename_i idle
    simp only [idle] at sane
    exact ⟨sane, h.issued, h.cancelled, fun task known => h.phase task (WorkerPool.mem_jobs_receive.1 known)⟩
  · rename_i task running
    refine h.conclude running (task.job.step_cases r.shared task.phase) fun mine phase goesOn => ?_
    obtain ⟨s, -, -, last | done⟩ := h.step_eq running mine
    · rw [last] at goesOn
      exact (Progress.goOn.inj goesOn).symm
    · rw [done] at goesOn
      cases goesOn
  · rename_i ended
    simp only [ended] at sane
    exact ⟨sane, h.issued, h.cancelled, fun task known => h.phase task (WorkerPool.mem_jobs_done.1 known)⟩

theorem GivesUp.select (h : r.GivesUp ticket) (e : SelectionEvent) :
    (r.select e.view e.selection).2.GivesUp ticket := by
  have sane := h.sane.select e
  have cancelled := cancelled_select r e
  rcases r.select_cases e with ⟨-, events, result⟩ | ⟨offset, length, events, -, result⟩
  · rw [result]
    exact ⟨result ▸ sane, h.issued, h.cancelled, h.phase⟩
  · rw [result] at sane cancelled ⊢
    refine ⟨sane, ?_, ?_, fun task known mine => ?_⟩
    · have later : (({ r.shared with synchronizer := r.shared.synchronizer.nextTicket.2 }.register
          r.shared.synchronizer.nextTicket.1).noteAll events).synchronizer.issued =
          r.shared.synchronizer.issued + 1 := by
        unfold Shared.register
        split <;> rfl
      exact Nat.le_trans h.issued (later ▸ Nat.le_succ _)
    · rw [Shared.isCancelled, cancelled]
      exact h.cancelled
    · rcases WorkerPool.mem_jobs_execute.1 known with known | rfl
      · exact h.phase task known mine
      · -- the new job has a ticket of its own
        have new : r.shared.synchronizer.issued + 1 = ticket := mine
        exact absurd h.issued (Nat.not_le_of_lt (new ▸ Nat.lt_succ_self _))

theorem GivesUp.run (h : r.GivesUp ticket) {es : List SelectionEvent} (run : r.Run es r') :
    r'.GivesUp ticket := by
  induction run with
  | start => exact h
  | select _ e ih => exact ih.select e
  | work _ w ih => exact ih.work w
  | @search _ r' before w task target running searching history seen ih =>
    refine ih.conclude running (searching ▸ task.job.searchUnder_cases seen target) fun mine => ?_
    -- a job that gives up does not search any more
    rcases ih.phase task (WorkerPool.mem_jobs_of_running running) mine with other | other
    · rw [searching] at other
      cases other
    · rw [searching] at other
      cases other

theorem GivesUp.follows (h : r.GivesUp ticket) (follows : r.Follows r') : r'.GivesUp ticket := by
  induction follows with
  | refl => exact h
  | run _ run ih => exact ih.run run
  | change _ editor ih =>
    have ticketed := ih.sane.ticketed
    exact ⟨⟨ih.sane.accounted, ⟨ticketed.discards, ticketed.committed, ticketed.inFlight,
      ticketed.cancelled⟩, ih.sane.tasks⟩, ih.issued, ih.cancelled, ih.phase⟩

/-! ## Searches that are cut short -/

/-- The history of a job's token during its search, where the reactor is in the state `moments n` at the
`n`-th step of the search. -/
def tokenIn (moments : Nat → Reactor) (ticket : Ticket) (n : Nat) : Bool :=
  (moments n).shared.isCancelled ticket

/-- In the state `r` worker `w` comes to the end of a job's search, which was cut short: it has gone on while
the reactor went through the states `moments`, and has found its token cancelled. -/
structure CutShort (r : Reactor) (w : Nat) (task : Task) (target : Target) (moments : Nat → Reactor) :
    Prop where
  running : r.pool.workers[w]? = some (.running task)
  searching : task.phase = .search target
  earlier : ∀ n, (moments n).Follows r
  cut : ∃ symbol, r.shared.pipeline.resolver.resolve target.parse.snapshot target.element =
      .ok (some symbol) ∧
    ((r.shared.pipeline.engine ⟨symbol, [target.parse.snapshot], .all⟩).exec
      (tokenIn moments task.job.ticket)).ending = .failed .cancelled

variable {target : Target} {moments : Nat → Reactor}

/-- What comes of such a search is the empty list. -/
theorem CutShort.searchUnder_eq (h : r.CutShort w task target moments) :
    ∃ events, Job.searchUnder (tokenIn moments task.job.ticket) r.shared target =
      (r.shared.noteAll events, .goOn (.recheck [])) := by
  obtain ⟨symbol, resolved, cut⟩ := h.cut
  have found : r.shared.pipeline.find (tokenIn moments task.job.ticket) target.parse.snapshot
      target.live target.mapping target.element = _ := Pipeline.find_of_resolved resolved
  simp only [cut, Outcome.complete, List.filterMap_nil] at found
  rw [if_neg Ending.noConfusion] at found
  simp only [Job.searchUnder, found]
  exact ⟨_, rfl⟩

theorem CutShort.isCancelled (h : r.CutShort w task target moments) {resolver : Resolver}
    (engine : r.shared.pipeline.engine = .searching resolver) :
    r.shared.isCancelled task.job.ticket = true := by
  obtain ⟨symbol, -, cut⟩ := h.cut
  rw [engine] at cut
  obtain ⟨n, cancelled⟩ := (Engine.cooperative_searching resolver _).cancelled_of_cut cut
  exact (h.earlier n).isCancelled cancelled

theorem CutShort.givesUp (h : r.CutShort w task target moments) (reached : r.Reached)
    {resolver : Resolver} (engine : r.shared.pipeline.engine = .searching resolver)
    (events : List Event) :
    (r.conclude w task.job (r.shared.noteAll events, .goOn (.recheck []))).GivesUp task.job.ticket := by
  have sane := reached.sane
  have known := WorkerPool.mem_jobs_of_running h.running
  refine ⟨sane.conclude h.running _ (sane.ticketed.noteAll events) rfl, sane.tasks task known,
    h.isCancelled engine, fun other hother mine => ?_⟩
  obtain ⟨rest, before, after⟩ :=
    WorkerPool.perm_jobs_advance h.running (⟨task.job, .recheck []⟩ : Task)
  rcases List.mem_cons.1 (after.mem_iff.1 hother) with rfl | elsewhere
  · exact Or.inl rfl
  · have distinct : ((task :: rest).map (·.job.ticket)).Nodup :=
      (before.map _).nodup_iff.1 reached.distinct
    exact absurd (List.mem_map.2 ⟨other, elsewhere, mine⟩) (List.nodup_cons.1 distinct).1

end Reactor

/-! ## The main statement -/

/-- Cancellation is all or nothing, whatever the resolver. A search that is cancelled at any point has
reported a beginning of the matches, it finishes only with all of them, and its caller is left with all or
none. If a job's search was cut short in any state of a reactor, the job is left with the empty list, and
whatever happens from then on, it gives up before its commit; none of its steps changes the editor with its
decorations or the synchronizer. -/
theorem cancellation_all_or_nothing (resolver : Resolver) :
    (∀ q history, ((Engine.searching resolver q).exec history).PartOf
      ((Engine.searching resolver q).exec fun _ => false)) ∧
    ∀ (r : Reactor) (w : Nat) (task : Task) (target : Target) (moments : Nat → Reactor),
      r.Reached → r.shared.pipeline.engine = .searching resolver → r.CutShort w task target moments →
      let ended := r.conclude w task.job
        (Job.searchUnder (Reactor.tokenIn moments task.job.ticket) r.shared target)
      r.Run [] ended ∧ ended.pool.workers[w]? = some (.running ⟨task.job, .recheck []⟩) ∧
        ∀ r', ended.Follows r' →
          (∀ other ∈ r'.pool.jobs, other.job.ticket = task.job.ticket →
            other.phase = .recheck [] ∨ other.phase = .finish) ∧
          ∀ v other, r'.pool.workers[v]? = some (.running other) →
            other.job.ticket = task.job.ticket →
            (r'.step v).shared.editor = r'.shared.editor ∧
              (r'.step v).shared.synchronizer = r'.shared.synchronizer := by
  refine ⟨fun q => (Engine.cooperative_searching resolver q).partOf, ?_⟩
  intro r w task target moments reached engine cut ended
  have step : r.Run [] ended := Reactor.Run.start.search cut.running cut.searching _
    fun n cancelled => (cut.earlier n).isCancelled cancelled
  obtain ⟨events, result⟩ := cut.searchUnder_eq
  have ended_eq : ended = r.conclude w task.job (r.shared.noteAll events, .goOn (.recheck [])) :=
    congrArg (r.conclude w task.job) result
  refine ⟨step, ?_, fun r' follows => ?_⟩
  · rw [ended_eq]
    exact List.getElem?_set_self (List.getElem?_eq_some_iff.1 cut.running).1
  · have givesUp := (ended_eq ▸ cut.givesUp reached engine events).follows follows
    refine ⟨givesUp.phase, fun v other running mine => ?_⟩
    obtain ⟨s, editor, synchronizer, last | done⟩ := givesUp.step_eq running mine
    · simp only [Reactor.step, running, Reactor.advance, last]
      exact ⟨editor, synchronizer⟩
    · simp only [Reactor.step, running, Reactor.advance, done]
      exact ⟨editor, synchronizer⟩

/-- The reactor over `a b` where `a` is highlighted, `b` and `a` are selected anew, and the job of `b` is about
to search. -/
def Reactor.searchingB : Reactor :=
  let highlighted := (List.replicate 11 0).foldl step (overTwoNames.select 0 (.text 0 0)).2
  (List.replicate 5 0).foldl step ((highlighted.select 0 (.text 2 0)).2.select 0 (.text 0 0)).2

/-- The same reactor when the second job of `a` has cancelled that of `b`. -/
def Reactor.cancelledB : Reactor := (List.replicate 5 1).foldl step searchingB

namespace Reactor

theorem reached_searchingB : searchingB.Reached := by
  have begun : overTwoNames.Run [] overTwoNames := .start
  have run := ((((begun.select ⟨0, .text 0 0⟩).works (List.replicate 11 0)).select
    ⟨0, .text 2 0⟩).select ⟨0, .text 0 0⟩).works (List.replicate 5 0)
  exact (Reached.start ..).run run

theorem follows_cancelledB : searchingB.Follows cancelledB :=
  .run .refl (Run.start.works (List.replicate 5 1))

end Reactor

/-- The name `b`, as its job has picked it. -/
def Target.ofB : Target where
  parse := .twoNames
  live := ['a', ' ', 'b']
  mapping := .between ['a', ' ', 'b'] ['a', ' ', 'b']
  element := ⟨⟨⟨"identifier", ⟨2, 3⟩, none⟩, 2⟩, [⟨⟨"program", ⟨0, 3⟩, none⟩, 0⟩]⟩

/-- The search for `b` has taken its first step when its job is cancelled. The highlight of `a` stays when it
ends and when the job goes on. -/
theorem cancellation_all_or_nothing_midway :
    let moments := fun n : Nat => if n = 0 then Reactor.searchingB else .cancelledB
    let ended := Reactor.cancelledB.conclude 0 ⟨2, 2, 0⟩
      (Job.searchUnder (Reactor.tokenIn moments 2) Reactor.cancelledB.shared .ofB)
    Reactor.cancelledB.CutShort 0 ⟨⟨2, 2, 0⟩, .search .ofB⟩ .ofB moments ∧
      Reactor.cancelledB.drawn = [⟨0, 1⟩] ∧ ended.drawn = [⟨0, 1⟩] ∧
      (ended.step 0).drawn = [⟨0, 1⟩] := by
  intro moments ended
  have earlier : ∀ n, (moments n).Follows .cancelledB := by
    intro n
    by_cases first : n = 0
    · simp only [moments, first, if_true]
      exact Reactor.follows_cancelledB
    · simp only [moments, first, if_false]
      exact .refl
  have cut : Reactor.cancelledB.CutShort 0 ⟨⟨2, 2, 0⟩, .search .ofB⟩ .ofB moments :=
    ⟨by with_unfolding_all rfl, rfl, earlier, .free .value ['b'], by with_unfolding_all rfl,
      by decide +kernel⟩
  have drawn : ended.drawn = [⟨0, 1⟩] := by decide +kernel
  have reached : Reactor.cancelledB.Reached :=
    Reactor.reached_searchingB.run (Reactor.Run.start.works (List.replicate 5 1))
  have spared := (cancellation_all_or_nothing .lexical).2 _ 0 _ _ moments reached
    (by with_unfolding_all rfl) cut
  obtain ⟨-, running, later⟩ := spared
  obtain ⟨editor, synchronizer⟩ := (later ended .refl).2 0 _ running rfl
  refine ⟨cut, by decide +kernel, drawn, ?_⟩
  exact (Reactor.drawn_congr (congrArg _ editor) (congrArg _ synchronizer)).1.trans drawn

end Highlight
