import Highlight.Proofs.CrashingJobs
import Highlight.Proofs.FailedJobs

/-!
# Reactors with a single worker

A reactor with a single worker carries its jobs out in the order of their tickets. A job then finds only
older tickets committed and only older jobs in flight, and these are over: at most they have crashed and left
their tickets behind. So it makes no difference whether superseded jobs are discarded.

`Situation` splits the delivery of a selection into its steps, between which the worker may go on; without
interruption they are the one step `Reactor.select` (`Situation.proceed_deliver`). In every situation that
comes about with one worker the jobs that are not over stand in a line of ascending tickets, which no
committed or cancelled ticket reaches into (`Situation.Orderly`). `Situation.plain` forgets what is kept of
superseded jobs, and every move of an orderly situation can be made after forgetting
(`Situation.Orderly.plain_move`). Two runs that differ only in what is forgotten therefore go on alike
(`discarding_is_unobservable`).
-/

namespace Highlight

/-! ## Deliveries in steps -/

/-- How far the delivery of a selection has come. -/
inductive Delivery where
  /-- The job has its ticket. -/
  | ticketed (job : Job)
  /-- The job is in flight, where such jobs are kept. -/
  | registered (job : Job)
  /-- The pool has counted the job. -/
  | counted (job : Job)
  deriving DecidableEq, Repr

namespace Delivery

/-- The job of a delivery. -/
def job : Delivery → Job
  | ticketed j | registered j | counted j => j

/-- The task that the pool has counted and will be sent. -/
def counted? : Delivery → Option Task
  | counted j => some { job := j }
  | _ => none

end Delivery

/-- A reactor, with the delivery to it that is under way. -/
structure Situation where
  reactor : Reactor
  delivery : Option Delivery := none

/-- What can happen next. -/
inductive Move where
  /-- A selection is reported, unless another one is still being delivered. -/
  | deliver (e : SelectionEvent)
  /-- The delivery goes on. -/
  | proceed
  /-- Worker `w` takes a step. Only workers cancel jobs, so the token of a job that a single one runs does
  not change during its search. -/
  | work (w : Nat)
  /-- The editor changes, and from now on names are resolved and searched for in another way, which may
  crash. -/
  | change (edit : Editor → Editor) (pipeline : Pipeline)

/-- What those who wait for a job can see of it. -/
inductive Milestone where
  | started (job : Job)
  | committed (job : Job) (outcome : Commit)
  | finished (job : Job)
  | crashed (job : Job)
  deriving DecidableEq, Repr

/-- The milestones that a job reaches by one step. -/
def Job.milestones (j : Job) (s : Shared) (phase : Phase) : List Milestone :=
  let committed := match phase with
    | .commit spans picked =>
      [.committed j (s.synchronizer.commitTo s.editor.host picked j.ticket spans).outcome]
    | _ => []
  let ended := match (j.step s phase).2 with
    | .goOn _ => []
    | .ended => [.finished j]
    | .crashed => [.crashed j]
  committed ++ ended

/-- The milestones that a step of worker `w` brings. -/
def Reactor.milestones (r : Reactor) (w : Nat) : List Milestone :=
  match r.pool.workers[w]? with
  | some .idle => r.pool.channel.head?.toList.map fun task => .started task.job
  | some (.running task) => task.job.milestones r.shared task.phase
  | _ => []

namespace Situation

/-- A reactor of a view, with no delivery under way. -/
def start (editor : Editor) (settings : Settings) (pipeline : Pipeline) : Situation :=
  { reactor := .start editor settings pipeline }

/-- A selection is reported. If it is to have a job, this one is given a ticket. -/
def deliver (s : Situation) (e : SelectionEvent) : Situation :=
  let shared := s.reactor.shared
  match s.delivery, Reactor.selected? shared.settings shared.editor.view e with
  | some _, _ => s
  | none, none => { s with reactor := (s.reactor.select e.view e.selection).2 }
  | none, some (offset, length) =>
    let (ticket, synchronizer) := shared.synchronizer.nextTicket
    { reactor := { s.reactor with shared := { shared with synchronizer } }
      delivery := some (.ticketed ⟨ticket, offset, length⟩) }

/-- The delivery goes on: the job is registered, counted and sent. -/
def proceed (s : Situation) : Situation :=
  let r := s.reactor
  match s.delivery with
  | none => s
  | some (.ticketed j) =>
    { reactor := { r with shared := r.shared.register j.ticket }
      delivery := some (.registered j) }
  | some (.registered j) =>
    { reactor :=
        { shared := r.shared.noteAll [.scheduled j.ticket j.offset]
          pool := r.pool.count { job := j } }
      delivery := some (.counted j) }
  | some (.counted _) => { reactor := { r with pool := r.pool.send (r.pool.counted.length - 1) } }

/-- A delivery that nothing interrupts is a selection. -/
theorem proceed_deliver (r : Reactor) (e : SelectionEvent) :
    (deliver { reactor := r } e).proceed.proceed.proceed =
      { reactor := (r.select e.view e.selection).2 } := by
  obtain ⟨view, selection⟩ := e
  by_cases enabled : r.shared.settings.enabled = true
  · by_cases own : view = r.shared.editor.view
    · cases selection with
      | other => simp [deliver, Reactor.selected?, proceed]
      | text offset length =>
        simp [deliver, Reactor.selected?, Reactor.select, enabled, own, proceed, WorkerPool.execute,
          WorkerPool.count]
    · simp [deliver, Reactor.selected?, own, proceed]
  · simp [deliver, Reactor.selected?, enabled, proceed]

/-- The situation after one move. -/
def move (s : Situation) : Move → Situation
  | .deliver e => s.deliver e
  | .proceed => s.proceed
  | .work w => { s with reactor := s.reactor.step w }
  | .change edit pipeline =>
    let shared := s.reactor.shared
    { s with
      reactor := { s.reactor with shared := { shared with editor := edit shared.editor, pipeline } } }

/-- The milestones that a move brings. -/
def milestones (s : Situation) : Move → List Milestone
  | .work w => s.reactor.milestones w
  | _ => []

/-- The situation after some moves. -/
def play (s : Situation) (moves : List Move) : Situation := moves.foldl move s

/-- The milestones along some moves. -/
def chronicle (s : Situation) : List Move → List Milestone
  | [] => []
  | m :: moves => s.milestones m ++ (s.move m).chronicle moves

end Situation

/-! ## The line of jobs -/

/-- A step of a job commits no ticket above its own. -/
theorem Job.StepCase.committed {j : Job} {s : Shared} {phase : Phase} {result : Shared × Progress}
    (step : j.StepCase s phase result) :
    result.1.synchronizer.committed ≤ max s.synchronizer.committed j.ticket := by
  cases step with
  | @commits spans picked _ done | @commitCrashes spans picked _ done =>
    have bound := (s.synchronizer.commitTo_bounds s.editor.host picked j.ticket spans).2.2
    rwa [done] at bound
  | stops | reads | supersedes | finds | searchCrashes | finishes => exact Nat.le_max_left ..

namespace Shared

/-- Nothing stands in the way of a job: no newer ticket has been committed, and only older jobs have been
cancelled. -/
structure Clear (s : Shared) (j : Job) : Prop where
  issued : j.ticket ≤ s.synchronizer.issued
  current : s.synchronizer.committed ≤ j.ticket
  older : ∀ t ∈ s.cancelled, t < j.ticket

/-- The jobs of a line stand in the order of their tickets, and nothing stands in their way. -/
structure Awaits (s : Shared) (line : List Job) : Prop where
  ticketed : s.Ticketed
  ascending : line.Pairwise fun i j => i.ticket < j.ticket
  clear : ∀ j ∈ line, s.Clear j

variable {s : Shared} {line : List Job} {j : Job}

theorem Clear.live (h : s.Clear j) : s.isCancelled j.ticket = false := by
  unfold isCancelled
  rw [Bool.eq_false_iff, ne_eq, List.contains_iff_mem]
  exact fun ht => Nat.lt_irrefl _ (h.older _ ht)

theorem Awaits.tail (h : s.Awaits (j :: line)) : s.Awaits line :=
  ⟨h.ticketed, (List.pairwise_cons.1 h.ascending).2,
    fun i hi => h.clear i (List.mem_cons_of_mem _ hi)⟩

theorem Awaits.noteAll (h : s.Awaits line) (es : List Event) : (s.noteAll es).Awaits line :=
  ⟨h.ticketed.noteAll es, h.ascending, fun i hi =>
    ⟨(h.clear i hi).issued, (h.clear i hi).current, (h.clear i hi).older⟩⟩

/-- The first job of a line takes a step. -/
theorem Awaits.step (h : s.Awaits (j :: line)) {phase : Phase} {result : Shared × Progress}
    (step : j.StepCase s phase result) : result.1.Awaits (j :: line) := by
  obtain ⟨ticketed, issued⟩ := h.ticketed.step (h.clear j List.mem_cons_self).issued step
  have committed := step.committed
  have cancelled := step.cancelled.2
  refine ⟨ticketed, h.ascending, fun i hi => ?_⟩
  have clear := h.clear i hi
  have first : j.ticket ≤ i.ticket := by
    rcases List.mem_cons.1 hi with rfl | hi
    · exact Nat.le_refl _
    · exact Nat.le_of_lt ((List.pairwise_cons.1 h.ascending).1 i hi)
  refine ⟨?_, Nat.le_trans committed (Nat.max_le.2 ⟨clear.current, first⟩), fun t ht => ?_⟩
  · rw [issued]
    exact clear.issued
  · rcases cancelled t ht with ht | ht
    · exact clear.older t ht
    · exact Nat.lt_of_lt_of_le ht first

/-- A new job goes to the end of the line. -/
theorem Awaits.issue (h : s.Awaits line) (offset length : Nat) :
    Awaits { s with synchronizer := s.synchronizer.nextTicket.2 }
      (line ++ [⟨s.synchronizer.nextTicket.1, offset, length⟩]) := by
  refine ⟨h.ticketed.issue, ?_, fun i hi => ?_⟩
  · refine List.pairwise_append.2 ⟨h.ascending, List.pairwise_singleton .., fun i hi j hj => ?_⟩
    rw [List.mem_singleton.1 hj]
    exact Nat.lt_succ_of_le (h.clear i hi).issued
  · rcases List.mem_append.1 hi with hi | hi
    · have clear := h.clear i hi
      exact ⟨Nat.le_succ_of_le clear.issued, clear.current, clear.older⟩
    · rw [List.mem_singleton.1 hi]
      exact ⟨Nat.le_refl _, Nat.le_succ_of_le h.ticketed.committed,
        fun t ht => Nat.lt_succ_of_le (h.ticketed.cancelled t ht)⟩

theorem Awaits.register (h : s.Awaits line) (hj : j ∈ line) : (s.register j.ticket).Awaits line := by
  refine ⟨h.ticketed.register (h.clear j hj).issued, h.ascending, fun i hi => ?_⟩
  obtain ⟨issued, current, older⟩ := h.clear i hi
  unfold Shared.register
  split <;> exact ⟨issued, current, older⟩

/-- The line does not depend on the editor and the pipeline. -/
theorem Awaits.change (h : s.Awaits line) (editor : Editor) (pipeline : Pipeline) :
    Awaits { s with editor, pipeline } line := by
  obtain ⟨⟨discards, committed, inFlight, cancelled⟩, ascending, clear⟩ := h
  refine ⟨⟨discards, committed, inFlight, cancelled⟩, ascending, fun i hi => ?_⟩
  obtain ⟨issued, current, older⟩ := clear i hi
  exact ⟨issued, current, older⟩

end Shared

namespace Situation

/-- The jobs that are not over, in the order in which the worker comes to them. -/
def line (s : Situation) : List Job :=
  (s.reactor.pool.workers.filterMap Worker.job? ++ s.reactor.pool.channel).map Task.job ++
    s.delivery.toList.map Delivery.job

/-- A single worker carries out the jobs of a line. -/
structure Orderly (s : Situation) : Prop where
  single : ∃ v, s.reactor.pool.workers = [v]
  counted : s.reactor.pool.counted = s.delivery.toList.filterMap Delivery.counted?
  awaits : s.reactor.shared.Awaits s.line

variable {s : Situation}

theorem Orderly.deliver (h : s.Orderly) (e : SelectionEvent) : (s.deliver e).Orderly := by
  obtain ⟨r, delivery⟩ := s
  match delivery with
  | some _ => exact h
  | none =>
    simp only [Situation.deliver]
    rcases r.select_cases e with ⟨ignored, events, result⟩ | ⟨offset, length, events, selected, -⟩
    · simp only [ignored, result]
      exact ⟨h.single, h.counted, h.awaits.noteAll events⟩
    · simp only [selected]
      refine ⟨h.single, h.counted, ?_⟩
      have awaits := h.awaits.issue offset length
      simpa [line, Delivery.job] using awaits

theorem Orderly.proceed (h : s.Orderly) : s.proceed.Orderly := by
  obtain ⟨r, delivery⟩ := s
  obtain ⟨single, counted, awaits⟩ := h
  unfold Situation.proceed
  match delivery with
  | none => exact ⟨single, counted, awaits⟩
  | some (.ticketed j) =>
    exact ⟨single, counted, awaits.register (j := j) (by simp [line, Delivery.job])⟩
  | some (.registered j) =>
    have counted : r.pool.counted = [] := counted
    refine ⟨single, ?_, awaits.noteAll _⟩
    simp [WorkerPool.count, Delivery.counted?, counted]
  | some (.counted j) =>
    have counted : r.pool.counted = [{ job := j }] := counted
    have sent : r.pool.send (r.pool.counted.length - 1) =
        { r.pool with counted := [], channel := r.pool.channel ++ [{ job := j }] } := by
      simp [WorkerPool.send, counted]
    simp only [sent]
    refine ⟨single, rfl, ?_⟩
    simpa [line, Delivery.job] using awaits

/-- The line behind a single worker. -/
theorem line_of_single {v : Worker Task} (single : s.reactor.pool.workers = [v]) :
    s.line = (v.job?.toList ++ s.reactor.pool.channel).map Task.job ++
      s.delivery.toList.map Delivery.job := by
  cases v <;> simp [line, single, List.filterMap_cons, Worker.job?]

theorem orderly_of_single {v : Worker Task} (single : s.reactor.pool.workers = [v])
    (counted : s.reactor.pool.counted = s.delivery.toList.filterMap Delivery.counted?)
    (awaits : s.reactor.shared.Awaits ((v.job?.toList ++ s.reactor.pool.channel).map Task.job ++
      s.delivery.toList.map Delivery.job)) : s.Orderly :=
  ⟨⟨v, single⟩, counted, by rwa [line_of_single single]⟩

/-- A step of the worker takes at most the first job out of the line. -/
theorem Orderly.work (h : s.Orderly) (w : Nat) :
    Orderly { s with reactor := s.reactor.step w } := by
  obtain ⟨⟨shared, pool⟩, delivery⟩ := s
  obtain ⟨v, single⟩ := h.single
  have awaits := h.awaits
  rw [line_of_single single] at awaits
  cases w with
  | succ w =>
    -- There is no other worker.
    have none : pool.workers[w + 1]? = none := by simp [show pool.workers = [v] from single]
    simpa only [Reactor.step, none] using h
  | zero =>
    have here : pool.workers[0]? = some v := by simp [show pool.workers = [v] from single]
    have alone (v' : Worker Task) : (pool.setWorker 0 v').workers = [v'] := by
      simp [WorkerPool.setWorker, show pool.workers = [v] from single]
    cases v with
    | idle =>
      simp only [Reactor.step, here, WorkerPool.receive]
      cases sent : pool.channel with
      | nil => exact h
      | cons task rest =>
        simp only [sent] at awaits
        exact orderly_of_single (alone (.running task)) h.counted awaits
    | running task =>
      -- The job that runs is the first of the line; it stays there until it is over.
      have stepped := Shared.Awaits.step awaits (task.job.step_cases shared task.phase)
      have finish : pool.finish 0 = pool.setWorker 0 .ended := by simp [WorkerPool.finish, here]
      simp only [Reactor.step, here, Reactor.advance]
      generalize task.job.step shared task.phase = result at stepped
      obtain ⟨after, progress⟩ := result
      cases progress with
      | goOn phase => exact orderly_of_single (alone (.running ⟨task.job, phase⟩)) h.counted stepped
      | ended =>
        simp only [Reactor.conclude, finish]
        exact orderly_of_single (alone .ended) h.counted stepped.tail
      | crashed =>
        simp only [Reactor.conclude, finish]
        exact orderly_of_single (alone .ended) h.counted (stepped.tail.noteAll _)
    | ended =>
      simp only [Reactor.step, here, WorkerPool.done]
      exact orderly_of_single (alone .idle) h.counted awaits

theorem Orderly.move (h : s.Orderly) (m : Move) : (s.move m).Orderly := by
  cases m with
  | deliver e => exact h.deliver e
  | proceed => exact h.proceed
  | work w => exact h.work w
  | change edit pipeline =>
    exact ⟨h.single, h.counted, h.awaits.change _ pipeline⟩

/-- A situation stays orderly whatever happens. -/
theorem Orderly.play (h : s.Orderly) (moves : List Move) : (s.play moves).Orderly := by
  induction moves generalizing s with
  | nil => exact h
  | cons m moves ih => exact ih (h.move m)

theorem orderly_start (editor : Editor) {settings : Settings} (pipeline : Pipeline)
    (single : settings.workerThreads ≤ 1) : (start editor settings pipeline).Orderly := by
  have one : max settings.workerThreads 1 = 1 := Nat.max_eq_right single
  refine orderly_of_single (v := .idle) ?_ rfl ⟨⟨rfl, Nat.le_refl _, nofun, nofun⟩, .nil, nofun⟩
  simp [start, Reactor.start, WorkerPool.ofThreads, one]

theorem Orderly.clear_of_running {w : Nat} {task : Task} (h : s.Orderly)
    (running : s.reactor.pool.workers[w]? = some (.running task)) :
    s.reactor.shared.Clear task.job := by
  refine h.awaits.clear _ (List.mem_append_left _ (List.mem_map_of_mem (List.mem_append_left _ ?_)))
  exact List.mem_filterMap.2 ⟨_, List.mem_of_getElem? running, rfl⟩

/-- No job that waits or runs is cancelled. -/
theorem Orderly.uncancelled (h : s.Orderly) {task : Task} (ht : task ∈ s.reactor.pool.jobs) :
    s.reactor.shared.isCancelled task.job.ticket = false := by
  refine (h.awaits.clear _ ?_).live
  rw [WorkerPool.jobs, h.counted, List.append_assoc, List.mem_append] at ht
  unfold line
  rcases ht with ht | ht
  · obtain ⟨d, hd, counted⟩ := List.mem_filterMap.1 ht
    refine List.mem_append_right _ (List.mem_map.2 ⟨d, hd, ?_⟩)
    cases d <;> cases counted
    rfl
  · refine List.mem_append_left _ (List.mem_map_of_mem ?_)
    exact List.mem_append.2 (List.mem_append.1 ht).symm

end Situation

/-! ## What is forgotten -/

/-- The event says that a job cancels another. -/
def Event.isCancels : Event → Bool
  | .cancels _ _ => true
  | _ => false

namespace Journal

/-- The journal without the events of jobs that cancel others. -/
def withoutCancels (j : Journal) : Journal :=
  { j with events := j.events.filter fun e => !e.isCancels }

theorem withoutCancels_note (j : Journal) (e : Event) :
    (j.note e).withoutCancels =
      if e.isCancels then j.withoutCancels else j.withoutCancels.note e := by
  cases e with
  | indexed parse scopes declarations =>
    by_cases known : j.announced.contains parse = true
    · simp [note, withoutCancels, Event.isCancels, List.contains_iff_mem.1 known]
    · have new : parse ∉ j.announced := fun h => known (List.contains_iff_mem.2 h)
      simp [note, withoutCancels, Event.isCancels, new]
  | _ => simp [note, withoutCancels, Event.isCancels]

theorem withoutCancels_noteAll (j : Journal) (es : List Event) :
    (j.noteAll es).withoutCancels = j.withoutCancels.noteAll (es.filter fun e => !e.isCancels) := by
  induction es generalizing j with
  | nil => rfl
  | cons e es ih =>
    have rest := ih (j.note e)
    rw [withoutCancels_note] at rest
    cases cancels : e.isCancels with
    | true => simpa [noteAll, cancels] using rest
    | false => simpa [noteAll, cancels] using rest

theorem withoutCancels_withoutCancels (j : Journal) :
    j.withoutCancels.withoutCancels = j.withoutCancels := by
  simp [withoutCancels]

end Journal

namespace Synchronizer

/-- The synchronizer, but it refuses no commit as superseded. -/
def keeping (s : Synchronizer) : Synchronizer := { s with discardSuperseded := false }

theorem keeping_attach (s : Synchronizer) (id : ModelId) :
    s.keeping.attach id = (s.attach id).keeping := by
  unfold attach
  by_cases bound : s.model = some id
  · rw [if_pos bound, if_pos (show s.keeping.model = some id from bound)]
  · rw [if_neg bound, if_neg (show ¬ s.keeping.model = some id from bound)]
    rfl

/-- A commit that is not stale does not depend on what becomes of stale ones. -/
theorem commitTo_keeping {s : Synchronizer} {ticket : Ticket} (current : s.committed ≤ ticket)
    (host : Host) (picked : Option ModelId) (spans : List Span) :
    s.keeping.commitTo host picked ticket spans =
      { s.commitTo host picked ticket spans with
        synchronizer := (s.commitTo host picked ticket spans).synchronizer.keeping } := by
  have fresh : ¬ ticket < s.committed := Nat.not_lt_of_le current
  have same : s.keeping.poisoned = s.poisoned := rfl
  unfold commitTo
  split
  · rfl
  · rename_i id cell found
    by_cases locked : cell.poisoned = true
    · rw [if_pos locked, if_pos locked]
      rfl
    · rw [if_neg locked, if_neg locked, same]
      by_cases frozen : s.poisoned = true
      · rw [if_pos frozen, if_pos frozen]
      · rw [if_neg frozen, if_neg frozen, keeping_attach]
        simp only [fresh, decide_false, Bool.and_false, Bool.false_eq_true, if_false]
        simp only [keeping, Bool.false_and, Bool.false_eq_true, if_false, draw]
        split <;> rfl

/-- A commit that is not stale is not refused as superseded. -/
theorem commitTo_outcome_ne_superseded {s : Synchronizer} {ticket : Ticket}
    (current : s.committed ≤ ticket) (host : Host) (picked : Option ModelId) (spans : List Span)
    (t c : Ticket) : (s.commitTo host picked ticket spans).outcome ≠ .superseded t c := by
  have done := commitTo_cases s host picked ticket spans
  generalize s.commitTo host picked ticket spans = r at done ⊢
  cases done with
  | unusable refused => rcases refused with rfl | rfl <;> nofun
  | stale _ _ _ _ _ stale => exact absurd stale (Nat.not_lt_of_le current)
  | frozen | crashed | applied => nofun

end Synchronizer

namespace Shared

/-- All that the jobs share but for what is kept of superseded jobs. -/
def plain (s : Shared) : Shared :=
  { s with
    settings := { s.settings with discardSuperseded := false }
    synchronizer := s.synchronizer.keeping
    inFlight := []
    cancelled := []
    journal := s.journal.withoutCancels }

variable (s : Shared)

@[simp] theorem plain_editor : s.plain.editor = s.editor := rfl

@[simp] theorem plain_pipeline : s.plain.pipeline = s.pipeline := rfl

@[simp] theorem plain_mode : s.plain.settings.mode = s.settings.mode := rfl

@[simp] theorem plain_plain : s.plain.plain = s.plain := by
  simp only [plain, Synchronizer.keeping, Journal.withoutCancels_withoutCancels]

@[simp] theorem plain_noteAll (es : List Event) :
    (s.noteAll es).plain = s.plain.noteAll (es.filter fun e => !e.isCancels) := by
  simp only [plain, noteAll, Journal.withoutCancels_noteAll]

@[simp] theorem plain_register (ticket : Ticket) : (s.register ticket).plain = s.plain := by
  unfold register
  split <;> rfl

@[simp] theorem plain_unregister (ticket : Ticket) : (s.unregister ticket).plain = s.plain := rfl

@[simp] theorem plain_supersede (ticket : Ticket) : (s.supersede ticket).plain = s.plain := by
  have silent : ((s.inFlight.filter (· < ticket)).map (Event.cancels ticket)).filter
      (fun e => !e.isCancels) = [] := by
    rw [List.filter_eq_nil_iff]
    intro e he
    obtain ⟨older, -, rfl⟩ := List.mem_map.1 he
    simp [Event.isCancels]
  rw [supersede, plain_noteAll, silent]
  rfl

/-- The rest may be replaced before or after forgetting. -/
theorem plain_with (pipeline : Pipeline) (editor : Editor) (synchronizer : Synchronizer) :
    { s with pipeline, editor, synchronizer }.plain =
      { s.plain with pipeline, editor, synchronizer := synchronizer.keeping }.plain := by
  simp only [plain, Synchronizer.keeping, Journal.withoutCancels_withoutCancels]

end Shared

namespace Job

variable {s : Shared} {j : Job}

theorem plain_commit (current : s.synchronizer.committed ≤ j.ticket) (spans : List Span)
    (picked : Option ModelId) :
    (j.commit s spans picked).1.plain = (j.commit s.plain spans picked).1.plain ∧
      (j.commit s spans picked).2 = (j.commit s.plain spans picked).2 := by
  have same : s.plain.synchronizer.commitTo s.plain.editor.host picked j.ticket spans = _ :=
    Synchronizer.commitTo_keeping current s.editor.host picked spans
  unfold commit
  rw [same]
  obtain ⟨outcome, forgotten, synchronizer, host⟩ :=
    s.synchronizer.commitTo s.editor.host picked j.ticket spans
  have kept := s.plain_with s.pipeline { s.editor with host } synchronizer
  cases outcome <;> exact ⟨by simp [CommitResult.events, kept], rfl⟩

/-- A job with nothing in its way has the same reasons to give up after forgetting. -/
theorem Stops.plain (clear : s.Clear j) {phase : Phase} {events : List Event}
    (why : j.Stops s phase events) : j.Stops s.plain phase events := by
  cases why with
  | cancelledEarly cancelled | cancelledSearching _ cancelled =>
    rw [clear.live] at cancelled
    cases cancelled
  | unparsed unparsed => exact .unparsed unparsed
  | unsupported parsed unsupported => exact .unsupported parsed unsupported
  | closed parse closed => exact .closed parse closed
  | missed opened miss => exact .missed opened miss

/-- What a job reads is not forgotten. -/
theorem Reads.plain {phase next : Phase} (reads : j.Reads s phase next) :
    j.Reads s.plain phase next := by
  cases reads with
  | start => exact .start rfl
  | parse parsed supported => exact .parse parsed supported
  | document opened picked => exact .document opened picked
  | keep target => exact .keep target rfl
  | recheck spans => exact .recheck spans rfl
  | model spans => exact .model spans

theorem plain_search (clear : s.Clear j) (target : Target) :
    (j.search s target).1.plain = (j.search s.plain target).1.plain ∧
      (j.search s target).2 = (j.search s.plain target).2 := by
  have silent : s.plain.isCancelled j.ticket = false := rfl
  simp only [search, searchUnder, clear.live, silent, Shared.plain_pipeline]
  split <;> simp

/-- A step of a job with nothing in its way can be taken after forgetting. -/
theorem plain_step (clear : s.Clear j) (phase : Phase) :
    (j.step s phase).1.plain = (j.step s.plain phase).1.plain ∧
      (j.step s phase).2 = (j.step s.plain phase).2 := by
  have done := j.step_cases s phase
  generalize made : j.step s phase = result at done ⊢
  cases done with
  | stops why =>
    rw [(why.plain clear).step_eq]
    simp
  | reads reads =>
    rw [reads.plain.step_eq]
    simp
  | supersedes target =>
    rw [(Reads.keep target rfl : j.Reads s.plain _ _).step_eq]
    simp
  | finds | searchCrashes =>
    rw [← made]
    exact plain_search clear _
  | commits | commitCrashes =>
    rw [← made]
    exact plain_commit clear.current _ _
  | finishes => simp [step]

theorem milestones_plain (clear : s.Clear j) (phase : Phase) :
    j.milestones s.plain phase = j.milestones s phase := by
  have outcome (spans : List Span) (picked : Option ModelId) :
      (s.plain.synchronizer.commitTo s.plain.editor.host picked j.ticket spans).outcome =
        (s.synchronizer.commitTo s.editor.host picked j.ticket spans).outcome :=
    (congrArg CommitResult.outcome
      (Synchronizer.commitTo_keeping clear.current s.editor.host picked spans) :)
  simp only [milestones, (plain_step clear phase).2, outcome]

end Job

namespace Reactor

/-- The reactor without what is kept of superseded jobs. -/
def plain (r : Reactor) : Reactor := { r with shared := r.shared.plain }

@[simp] theorem plain_pool (r : Reactor) : r.plain.pool = r.pool := rfl

theorem plain_conclude (r : Reactor) (w : Nat) (j : Job) {result result' : Shared × Progress}
    (shared : result.1.plain = result'.1.plain) (progress : result.2 = result'.2) :
    (r.conclude w j result).plain = (r.plain.conclude w j result').plain := by
  obtain ⟨s, p⟩ := result
  obtain ⟨s', p'⟩ := result'
  cases progress
  dsimp only at shared
  cases p <;> simp [conclude, plain, shared]

/-- A selection that is given no job is ignored alike. -/
theorem plain_select_of_ignored {r : Reactor} {e : SelectionEvent}
    (ignored : selected? r.shared.settings r.shared.editor.view e = none) :
    (r.select e.view e.selection).2.plain = (r.plain.select e.view e.selection).2.plain := by
  obtain ⟨view, selection⟩ := e
  have enabled : r.plain.shared.settings.enabled = r.shared.settings.enabled := rfl
  have own : r.plain.shared.editor.view = r.shared.editor.view := rfl
  simp only [select, enabled, own]
  split
  · simp [plain]
  · split
    · simp [plain]
    · cases selection with
      | other => simp [plain]
      | text offset length => simp_all [selected?]

end Reactor

namespace Situation

/-- The situation without what is kept of superseded jobs. -/
def plain (s : Situation) : Situation := { s with reactor := s.reactor.plain }

variable {s d k : Situation}

theorem plain_deliver (s : Situation) (e : SelectionEvent) :
    (s.deliver e).plain = (s.plain.deliver e).plain := by
  obtain ⟨r, delivery⟩ := s
  have same : Reactor.selected? r.plain.shared.settings r.plain.shared.editor.view e =
      Reactor.selected? r.shared.settings r.shared.editor.view e := rfl
  match delivery with
  | some _ => simp [deliver, plain, Reactor.plain]
  | none =>
    simp only [deliver, plain, same]
    cases selected : Reactor.selected? r.shared.settings r.shared.editor.view e with
    | none => simp only [Reactor.plain_select_of_ignored selected]
    | some text =>
      have kept := r.shared.plain_with r.shared.pipeline r.shared.editor r.shared.synchronizer.nextTicket.2
      simp only [Reactor.plain, kept]
      rfl

theorem plain_proceed (s : Situation) : s.proceed.plain = s.plain.proceed.plain := by
  obtain ⟨r, delivery⟩ := s
  match delivery with
  | none | some (.ticketed j) | some (.registered j) | some (.counted j) =>
    simp [proceed, plain, Reactor.plain]

theorem Orderly.plain_step (h : s.Orderly) (w : Nat) :
    (s.reactor.step w).plain = (s.reactor.plain.step w).plain := by
  simp only [Reactor.step, Reactor.plain_pool]
  split
  · simp [Reactor.plain]
  · simp [Reactor.plain]
  · rename_i task running
    obtain ⟨shared, progress⟩ := Job.plain_step (h.clear_of_running running) task.phase
    exact s.reactor.plain_conclude w task.job shared progress
  · simp [Reactor.plain]

/-- Every move of an orderly situation can be made after forgetting, and brings the same milestones. -/
theorem Orderly.plain_move (h : s.Orderly) (m : Move) :
    (s.move m).plain = (s.plain.move m).plain ∧ s.milestones m = s.plain.milestones m := by
  cases m with
  | deliver e => exact ⟨s.plain_deliver e, rfl⟩
  | proceed => exact ⟨s.plain_proceed, rfl⟩
  | work w =>
    refine ⟨congrArg (Situation.mk · s.delivery) (h.plain_step w), ?_⟩
    simp only [milestones, Reactor.milestones, plain, Reactor.plain_pool]
    split
    · rfl
    · rename_i task running
      exact (Job.milestones_plain (h.clear_of_running running) task.phase).symm
    · rfl
  | change edit pipeline =>
    have shared := s.reactor.shared.plain_with pipeline (edit s.reactor.shared.editor)
      s.reactor.shared.synchronizer
    exact ⟨congrArg (fun shared => Situation.mk ⟨shared, s.reactor.pool⟩ s.delivery) shared, rfl⟩

/-- Two orderly situations that are the same but for what is forgotten go on alike. -/
theorem Orderly.alike (hd : d.Orderly) (hk : k.Orderly) (same : d.plain = k.plain)
    (moves : List Move) :
    d.chronicle moves = k.chronicle moves ∧ (d.play moves).plain = (k.play moves).plain := by
  induction moves generalizing d k with
  | nil => exact ⟨rfl, same⟩
  | cons m moves ih =>
    obtain ⟨dmove, dmilestones⟩ := hd.plain_move m
    obtain ⟨kmove, kmilestones⟩ := hk.plain_move m
    rw [same] at dmove dmilestones
    obtain ⟨rest, last⟩ := ih (hd.move m) (hk.move m) (dmove.trans kmove.symm)
    refine ⟨?_, last⟩
    rw [chronicle, chronicle, rest, dmilestones, kmilestones]

/-- No commit of an orderly situation is refused as superseded. -/
theorem Orderly.not_superseded_of_move (h : s.Orderly) (m : Move) (j : Job)
    (ticket committed : Ticket) : .committed j (.superseded ticket committed) ∉ s.milestones m := by
  cases m with
  | work w =>
    simp only [milestones, Reactor.milestones]
    split
    · simp
    · rename_i task running
      have current := (h.clear_of_running running).current
      intro mem
      rcases List.mem_append.1 mem with mem | mem
      · split at mem
        · rename_i spans picked _
          have outcome := (Milestone.committed.inj (List.mem_singleton.1 mem)).2
          exact Synchronizer.commitTo_outcome_ne_superseded current _ picked spans _ _ outcome.symm
        · cases mem
      · split at mem <;> simp at mem
    · simp
  | deliver | proceed | change => simp [milestones]

theorem Orderly.not_superseded (h : s.Orderly) (moves : List Move) (j : Job)
    (ticket committed : Ticket) :
    .committed j (.superseded ticket committed) ∉ s.chronicle moves := by
  induction moves generalizing s with
  | nil => simp [chronicle]
  | cons m moves ih =>
    intro mem
    rcases List.mem_append.1 mem with mem | mem
    · exact h.not_superseded_of_move m j ticket committed mem
    · exact ih (h.move m) mem

end Situation

/-- With a single worker it cannot be seen whether superseded jobs are discarded. Whatever happens to the
reactor, at every time its jobs have come to the same milestones in the same order, the editor with all its
models is the same, and the journals differ only in events of jobs that cancel others. In either run no job
that waits or runs is cancelled, and no commit is refused as superseded. -/
theorem discarding_is_unobservable (editor : Editor) (settings : Settings) (pipeline : Pipeline)
    (single : settings.workerThreads ≤ 1) (moves : List Move) :
    let begun (discard : Bool) :=
      Situation.start editor { settings with discardSuperseded := discard } pipeline
    (begun true).chronicle moves = (begun false).chronicle moves ∧
    ((begun true).play moves).reactor.shared.editor =
      ((begun false).play moves).reactor.shared.editor ∧
    ((begun true).play moves).reactor.pool = ((begun false).play moves).reactor.pool ∧
    ((begun true).play moves).reactor.shared.journal.withoutCancels =
      ((begun false).play moves).reactor.shared.journal.withoutCancels ∧
    ∀ discard,
      (∀ task ∈ ((begun discard).play moves).reactor.pool.jobs,
        ((begun discard).play moves).reactor.shared.isCancelled task.job.ticket = false) ∧
      ∀ j ticket committed,
        .committed j (.superseded ticket committed) ∉ (begun discard).chronicle moves := by
  intro begun
  have orderly (discard : Bool) : (begun discard).Orderly := Situation.orderly_start editor pipeline single
  obtain ⟨chronicle, last⟩ := (orderly true).alike (orderly false) rfl moves
  refine ⟨chronicle, ?_, ?_, ?_, fun discard => ⟨fun task ht => ?_, fun j ticket committed => ?_⟩⟩
  · exact congrArg (·.reactor.shared.editor) last
  · exact congrArg (·.reactor.pool) last
  · exact congrArg (·.reactor.shared.journal) last
  · exact ((orderly discard).play moves).uncancelled ht
  · exact (orderly discard).not_superseded moves j ticket committed

/-- The settings for a single worker. -/
def Settings.oneWorker : Settings := { workerThreads := 1 }

/-- The name `a` is selected, and while the search for it crashes, the selection of `b` is delivered step by
step. -/
def Move.besideCrash : List Move :=
  let select (offset : Nat) : Move := .deliver ⟨0, .text offset 0⟩
  [select 0, .proceed, .proceed, .proceed] ++ List.replicate 4 (.work 0) ++
    [select 2, .work 0, .proceed, .work 0, .proceed, .work 0, .proceed] ++
    List.replicate 11 (.work 0)

/-- The job of `a` crashes. Where superseded jobs are discarded it stays in flight and the job of `b` cancels
it, which nobody sees. -/
theorem discarding_is_unobservable_beside_crash :
    let begun (discard : Bool) := Situation.start (.twoNames (.ofName "main" true))
      { Settings.oneWorker with discardSuperseded := discard } (.crashingAt 0)
    ((begun true).play Move.besideCrash).reactor.shared.cancelled = [1] ∧
    ((begun false).play Move.besideCrash).reactor.shared.cancelled = [] ∧
    (begun true).chronicle Move.besideCrash = (begun false).chronicle Move.besideCrash ∧
    (begun false).chronicle Move.besideCrash =
      [.started ⟨1, 0, 0⟩, .crashed ⟨1, 0, 0⟩, .started ⟨2, 2, 0⟩,
        .committed ⟨2, 2, 0⟩ (.applied 0 1), .finished ⟨2, 2, 0⟩] ∧
    ((begun true).play Move.besideCrash).reactor.shared.editor =
      ((begun false).play Move.besideCrash).reactor.shared.editor ∧
    ((begun false).play Move.besideCrash).reactor.drawn = [⟨2, 1⟩] := by
  have observed := discarding_is_unobservable (.twoNames (.ofName "main" true)) .oneWorker
    (.crashingAt 0) (by decide) Move.besideCrash
  dsimp only at observed ⊢
  refine ⟨?_, ?_, observed.1, ?_, observed.2.1, ?_⟩ <;> decide +kernel

end Highlight
