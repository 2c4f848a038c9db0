import Highlight.Proofs.SingleWorker

/-!
# The jobs in flight

A reactor that discards superseded jobs keeps the tickets of the jobs in flight. The delivery of a selection
puts a ticket there, the job takes it away when it ends, and any newer job that has found an identifier takes it
away when it cancels the older ones. A job that crashes ends without taking its ticket away.

`Situation.Course` are the courses that events can take, with the deeds of the jobs so far: selections are
delivered one after another, each in its steps, workers go on between them in any order, a search may find its
token cancelled at any point or crash, and the editor and the pipeline may change. In every state that a course
leads to, the deeds alone say which tickets are in flight (`Shared.Aloft`) and which jobs are not over
(`Roll`).

Main statement: `in_flight_until_over`. The tickets in flight are those of jobs that are not over and that no
newer job has superseded, and, against what is meant, those of jobs that have crashed
(`crashed_job_stays_in_flight`).
-/

namespace Highlight

/-! ## Deeds -/

/-- Something that a job has come to. -/
inductive Deed where
  /-- The job is on its way to the workers, and in flight where such jobs are kept. -/
  | registered (ticket : Ticket)
  | foundName (ticket : Ticket)
  /-- The job has found an identifier and has cancelled all older jobs in flight. -/
  | superseding (ticket : Ticket)
  | ended (ticket : Ticket)
  | crashed (ticket : Ticket)
  deriving DecidableEq, Repr

/-- The ticket of the job. -/
def Deed.ticket : Deed → Ticket
  | registered t | foundName t | superseding t | ended t | crashed t => t

/-- The deed of a job whose step comes to this: it goes to cancel older jobs only when it has found an identifier,
and to its search only when it has cancelled them. -/
def Job.deeds (j : Job) : Progress → List Deed
  | .goOn (.supersede _) => [.foundName j.ticket]
  | .goOn (.search _) => [.superseding j.ticket]
  | .goOn _ => []
  | .ended => [.ended j.ticket]
  | .crashed => [.crashed j.ticket]

theorem Job.registered_not_mem_deeds (j : Job) (progress : Progress) (t : Ticket) :
    .registered t ∉ j.deeds progress := by
  unfold deeds
  split <;> simp

/-- The deed that a delivery brings about by its next step. -/
def Delivery.deeds : Delivery → List Deed
  | .ticketed j => [.registered j.ticket]
  | _ => []

/-- The task that is registered and not yet with the pool. -/
def Delivery.waiting? : Delivery → Option Task
  | .registered j => some { job := j }
  | _ => none

namespace Situation

/-- The jobs that are registered and not over. -/
def unfinished (s : Situation) : List Task :=
  s.delivery.toList.filterMap Delivery.waiting? ++ s.reactor.pool.jobs

/-- The courses that events can take from a situation, with the deeds of the jobs. -/
inductive Course (s₀ : Situation) : List Deed → Situation → Prop where
  | start : Course s₀ [] s₀
  /-- A selection is reported, unless another one is still being delivered. -/
  | deliver {log : List Deed} {s : Situation} (before : Course s₀ log s) (e : SelectionEvent) :
    Course s₀ log (s.deliver e)
  | proceed {log : List Deed} {s : Situation} (before : Course s₀ log s) :
    Course s₀ (log ++ s.delivery.toList.flatMap Delivery.deeds) s.proceed
  | receive {log : List Deed} {s : Situation} (before : Course s₀ log s) (w : Nat) :
    Course s₀ log { s with reactor := { s.reactor with pool := s.reactor.pool.receive w } }
  | done {log : List Deed} {s : Situation} (before : Course s₀ log s) (w : Nat) :
    Course s₀ log { s with reactor := { s.reactor with pool := s.reactor.pool.done w } }
  | work {log : List Deed} {s : Situation} (before : Course s₀ log s) {w : Nat} {task : Task}
    {shared : Shared} {progress : Progress}
    (running : s.reactor.pool.workers[w]? = some (.running task))
    (may : task.job.MayStep s.reactor.shared task.phase (shared, progress)) :
    Course s₀ (log ++ task.job.deeds progress)
      { s with reactor := s.reactor.conclude w task.job (shared, progress) }
  | change {log : List Deed} {s : Situation} (before : Course s₀ log s) (edit : Editor → Editor)
    (pipeline : Pipeline) : Course s₀ log (s.move (.change edit pipeline))

/-- The deeds that a move brings about. -/
def deeds (s : Situation) : Move → List Deed
  | .proceed => s.delivery.toList.flatMap Delivery.deeds
  | .work w =>
    match s.reactor.pool.workers[w]? with
    | some (.running task) => task.job.deeds (task.job.step s.reactor.shared task.phase).2
    | _ => []
  | _ => []

/-- The deeds along some moves. -/
def deedsAlong (s : Situation) : List Move → List Deed
  | [] => []
  | m :: moves => s.deeds m ++ (s.move m).deedsAlong moves

variable {s₀ s : Situation} {log : List Deed}

theorem Course.move (h : s₀.Course log s) (m : Move) : s₀.Course (log ++ s.deeds m) (s.move m) := by
  cases m with
  | deliver e => simpa only [deeds, List.append_nil, Situation.move] using h.deliver e
  | proceed => exact h.proceed
  | change edit pipeline => simpa only [deeds, List.append_nil] using h.change edit pipeline
  | work w =>
    simp only [deeds, Situation.move, Reactor.step]
    split
    · rename_i task running
      rw [running]
      exact h.work running (.step task.phase)
    · rename_i busy
      rw [List.append_nil]
      split
      · exact h
      · exact h.receive w
      · rename_i task running
        exact absurd running (busy task)
      · exact h.done w

theorem Course.play (h : s₀.Course log s) (moves : List Move) :
    s₀.Course (log ++ s.deedsAlong moves) (s.play moves) := by
  induction moves generalizing s log with
  | nil => simpa [deedsAlong, Situation.play] using h
  | cons m moves ih =>
    rw [deedsAlong, ← List.append_assoc]
    exact ih (h.move m)

/-- Moves one after another make a course. -/
theorem course_play (s : Situation) (moves : List Move) :
    s.Course (s.deedsAlong moves) (s.play moves) := Course.start.play moves

end Situation

/-! ## What a step of a job does to the jobs in flight -/

/-- The jobs in flight and those cancelled are the same, and so are the settings. -/
structure Shared.SameFlight (s s' : Shared) : Prop where
  settings : s'.settings = s.settings
  inFlight : s'.inFlight = s.inFlight
  cancelled : s'.cancelled = s.cancelled

/-- The job has found an identifier and is about to cancel the older jobs. -/
def Phase.isSuperseding : Phase → Bool
  | .supersede _ => true
  | _ => false

theorem Phase.isSuperseding_supersede (target : Target) : (supersede target).isSuperseding = true := rfl

theorem Phase.isSuperseding_search (target : Target) : (search target).isSuperseding = false := rfl

namespace Job

/-- What a step of a job can do to the jobs in flight. -/
inductive FlightStep (j : Job) (s : Shared) : Phase → Shared → Progress → Prop where
  /-- The job goes on, and does nothing of note. -/
  | quiet {phase next : Phase} {s' : Shared} (same : s.SameFlight s')
    (here : phase.isSuperseding = false) (there : next.isSuperseding = false)
    (nothing : j.deeds (.goOn next) = []) : FlightStep j s phase s' (.goOn next)
  | finds {phase : Phase} (target : Target) {s' : Shared} (same : s.SameFlight s')
    (here : phase.isSuperseding = false) : FlightStep j s phase s' (.goOn (.supersede target))
  | supersedes (target : Target) :
    FlightStep j s (.supersede target) (s.supersede j.ticket) (.goOn (.search target))
  | ends : FlightStep j s .finish (s.unregister j.ticket) .ended
  | crashes {phase : Phase} {s' : Shared} (same : s.SameFlight s')
    (here : phase.isSuperseding = false) : FlightStep j s phase s' .crashed

variable {j : Job} {s s' : Shared} {phase : Phase} {progress : Progress}

/-- A job that gives up has not cancelled any other. -/
theorem Stops.isSuperseding {events : List Event} (why : j.Stops s phase events) :
    phase.isSuperseding = false := by
  cases why <;> rfl

theorem StepCase.flightStep (step : j.StepCase s phase (s', progress))
    (discards : s.settings.discardSuperseded = true) : FlightStep j s phase s' progress := by
  cases step with
  | stops why => exact .quiet ⟨rfl, rfl, rfl⟩ why.isSuperseding rfl rfl
  | reads reads =>
    cases reads with
    | document => exact .finds _ ⟨rfl, rfl, rfl⟩ rfl
    | keep _ keeps =>
      rw [discards] at keeps
      cases keeps
    | start | parse | recheck | model => exact .quiet ⟨rfl, rfl, rfl⟩ rfl rfl rfl
  | supersedes target => exact .supersedes target
  | finds | commits => exact .quiet ⟨rfl, rfl, rfl⟩ rfl rfl rfl
  | searchCrashes | commitCrashes => exact .crashes ⟨rfl, rfl, rfl⟩ rfl
  | finishes => exact .ends

theorem MayStep.flightStep (may : j.MayStep s phase (s', progress))
    (discards : s.settings.discardSuperseded = true) : FlightStep j s phase s' progress := by
  rcases may.cases with step | ⟨⟨target, rfl⟩, crash⟩
  · exact step.flightStep discards
  · cases crash
    exact .crashes ⟨rfl, rfl, rfl⟩ rfl

theorem FlightStep.settings (h : FlightStep j s phase s' progress) : s'.settings = s.settings := by
  cases h with
  | quiet same => exact same.settings
  | finds _ same => exact same.settings
  | supersedes => rfl
  | ends => rfl
  | crashes same => exact same.settings

/-- A step gives out no ticket and registers no job. -/
theorem MayStep.ticketed (may : j.MayStep s phase (s', progress)) (h : s.Ticketed)
    (hj : j.ticket ≤ s.synchronizer.issued) :
    s'.Ticketed ∧ s'.synchronizer.issued = s.synchronizer.issued := by
  rcases may.cases with step | ⟨-, crash⟩
  · exact h.step hj step
  · cases crash
    exact ⟨h, rfl⟩

end Job

/-! ## The jobs that are not over -/

/-- What is left of a job whose step comes to this. -/
def Progress.remaining (job : Job) : Progress → List Task
  | .goOn phase => [{ job, phase }]
  | _ => []

/-- The other jobs do not notice the step of one. -/
theorem Reactor.perm_jobs_conclude {r : Reactor} {w : Nat} {task : Task}
    (running : r.pool.workers[w]? = some (.running task)) (s : Shared) (progress : Progress) :
    ∃ rest, r.pool.jobs.Perm (task :: rest) ∧
      (r.conclude w task.job (s, progress)).pool.jobs.Perm (progress.remaining task.job ++ rest) := by
  cases progress with
  | goOn phase => exact WorkerPool.perm_jobs_advance running _
  | ended => exact WorkerPool.perm_jobs_finish running
  | crashed => exact WorkerPool.perm_jobs_finish running

/-- The deeds so far account for the jobs that are not over: these are the given tasks. -/
structure Roll (tasks : List Task) (log : List Deed) : Prop where
  /-- Only jobs that are registered have done anything. -/
  registered : ∀ deed ∈ log, .registered deed.ticket ∈ log
  distinct : (tasks.map (·.job.ticket)).Nodup
  unfinished : ∀ task ∈ tasks, .registered task.job.ticket ∈ log ∧
    .ended task.job.ticket ∉ log ∧ .crashed task.job.ticket ∉ log
  settled : ∀ t, .registered t ∈ log →
    (∃ task ∈ tasks, task.job.ticket = t) ∨ .ended t ∈ log ∨ .crashed t ∈ log
  /-- A job that has crashed has not ended well. -/
  once : ∀ t, .crashed t ∈ log → .ended t ∉ log
  /-- A job that has found an identifier supersedes the older ones by its next step. -/
  found : ∀ t, .foundName t ∈ log ↔ .superseding t ∈ log ∨
    ∃ task ∈ tasks, task.job.ticket = t ∧ task.phase.isSuperseding = true

namespace Roll

variable {tasks tasks' rest : List Task} {task : Task} {log : List Deed}

theorem perm (h : Roll tasks log) (p : tasks'.Perm tasks) : Roll tasks' log := by
  refine ⟨h.registered, ((p.map _).nodup_iff).2 h.distinct, fun x hx => h.unfinished x (p.mem_iff.1 hx),
    fun t ht => ?_, h.once, fun t => ?_⟩
  · simpa only [p.mem_iff] using h.settled t ht
  · simpa only [p.mem_iff] using h.found t

/-- A job with a new ticket is registered. -/
theorem register (h : Roll tasks log) {j : Job} (new : .registered j.ticket ∉ log) :
    Roll ({ job := j } :: tasks) (log ++ [.registered j.ticket]) := by
  have untouched : ∀ deed ∈ log, deed.ticket ≠ j.ticket := fun deed hd same =>
    new (same ▸ h.registered deed hd)
  refine ⟨fun deed hd => ?_, ?_, fun x hx => ?_, fun t ht => ?_, fun t ht => ?_, fun t => ?_⟩
  · rcases List.mem_append.1 hd with hd | hd
    · exact List.mem_append_left _ (h.registered deed hd)
    · rw [List.mem_singleton.1 hd]
      exact List.mem_append_right _ (List.mem_singleton.2 rfl)
  · refine List.nodup_cons.2 ⟨fun taken => ?_, h.distinct⟩
    obtain ⟨x, hx, same⟩ := List.mem_map.1 taken
    have known := (h.unfinished x hx).1
    rw [same] at known
    exact new known
  · rcases List.mem_cons.1 hx with rfl | hx
    · have ended : .ended j.ticket ∉ log := fun hd => untouched _ hd rfl
      have crashed : .crashed j.ticket ∉ log := fun hd => untouched _ hd rfl
      simp [ended, crashed]
    · obtain ⟨known, alive⟩ := h.unfinished x hx
      exact ⟨List.mem_append_left _ known, by simpa using alive⟩
  · simp only [List.mem_append, List.mem_singleton, Deed.registered.injEq] at ht
    rcases ht with ht | rfl
    · rcases h.settled t ht with ⟨x, hx, same⟩ | gone
      · exact Or.inl ⟨x, List.mem_cons_of_mem _ hx, same⟩
      · exact Or.inr (by simpa using gone)
    · exact Or.inl ⟨_, List.mem_cons_self, rfl⟩
  · simpa using h.once t (by simpa using ht)
  · simpa [Phase.isSuperseding] using h.found t

/-- A job goes on, and whatever it has come to is neither of its ends. -/
theorem goOn (h : Roll (task :: rest) log) (phase : Phase) {deeds : List Deed}
    (mine : ∀ deed ∈ deeds, deed = .foundName task.job.ticket ∨ deed = .superseding task.job.ticket)
    (found : ∀ t, .foundName t ∈ log ++ deeds ↔ .superseding t ∈ log ++ deeds ∨
      ∃ x ∈ { job := task.job, phase } :: rest, x.job.ticket = t ∧ x.phase.isSuperseding = true) :
    Roll ({ job := task.job, phase } :: rest) (log ++ deeds) := by
  have registered : .registered task.job.ticket ∈ log := (h.unfinished task List.mem_cons_self).1
  have noRegistered (t : Ticket) : .registered t ∉ deeds := fun hd => by simpa using mine _ hd
  have noEnded (t : Ticket) : .ended t ∉ deeds := fun hd => by simpa using mine _ hd
  have noCrashed (t : Ticket) : .crashed t ∉ deeds := fun hd => by simpa using mine _ hd
  refine ⟨fun deed hd => ?_, h.distinct, fun x hx => ?_, fun t ht => ?_, fun t ht => ?_, found⟩
  · refine List.mem_append_left _ ?_
    rcases List.mem_append.1 hd with hd | hd
    · exact h.registered deed hd
    · rcases mine deed hd with rfl | rfl <;> exact registered
  · have known : ∃ y ∈ task :: rest, y.job = x.job := by
      rcases List.mem_cons.1 hx with rfl | hx
      · exact ⟨task, List.mem_cons_self, rfl⟩
      · exact ⟨x, List.mem_cons_of_mem _ hx, rfl⟩
    obtain ⟨y, hy, same⟩ := known
    simpa [noRegistered, noEnded, noCrashed, same] using h.unfinished y hy
  · simp only [List.mem_append, noRegistered, or_false] at ht
    rcases h.settled t ht with ⟨x, hx, same⟩ | gone
    · rcases List.mem_cons.1 hx with rfl | hx
      · exact Or.inl ⟨_, List.mem_cons_self, same⟩
      · exact Or.inl ⟨x, List.mem_cons_of_mem _ hx, same⟩
    · exact Or.inr (by simpa [noEnded, noCrashed] using gone)
  · simp only [List.mem_append, noCrashed, or_false] at ht
    simpa [noEnded] using h.once t ht

/-- A job comes to one of its ends. -/
theorem finish (h : Roll (task :: rest) log) (early : task.phase.isSuperseding = false) {last : Deed}
    (mine : last = .ended task.job.ticket ∨ last = .crashed task.job.ticket) :
    Roll rest (log ++ [last]) := by
  obtain ⟨registered, unended, uncrashed⟩ := h.unfinished task List.mem_cons_self
  obtain ⟨apart, distinct⟩ := List.nodup_cons.1 h.distinct
  have ticket : last.ticket = task.job.ticket := by rcases mine with rfl | rfl <;> rfl
  refine ⟨fun deed hd => ?_, distinct, fun x hx => ?_, fun t ht => ?_, fun t ht => ?_, fun t => ?_⟩
  · refine List.mem_append_left _ ?_
    rcases List.mem_append.1 hd with hd | hd
    · exact h.registered deed hd
    · rw [List.mem_singleton.1 hd, ticket]
      exact registered
  · have other : x.job.ticket ≠ task.job.ticket := fun same =>
      apart (List.mem_map.2 ⟨x, hx, same⟩)
    have alive := h.unfinished x (List.mem_cons_of_mem _ hx)
    rcases mine with rfl | rfl <;> simpa [other] using alive
  · have ht : .registered t ∈ log := by rcases mine with rfl | rfl <;> simpa using ht
    rcases h.settled t ht with ⟨x, hx, same⟩ | gone
    · rcases List.mem_cons.1 hx with rfl | hx
      · rcases mine with rfl | rfl <;> simp [same]
      · exact Or.inl ⟨x, hx, same⟩
    · exact Or.inr (gone.imp (List.mem_append_left _) (List.mem_append_left _))
  · rcases mine with rfl | rfl
    · have ht : .crashed t ∈ log := by simpa using ht
      have other : t ≠ task.job.ticket := fun same => uncrashed (same ▸ ht)
      simpa [other] using h.once t ht
    · rcases List.mem_append.1 ht with ht | ht
      · simpa using h.once t ht
      · obtain rfl : t = task.job.ticket := by simpa using ht
        simpa using unended
  · have found := h.found t
    rcases mine with rfl | rfl <;> simpa [early] using found

/-- One of the jobs takes a step. -/
theorem step (h : Roll (task :: rest) log) {s s' : Shared} {progress : Progress}
    (step : task.job.FlightStep s task.phase s' progress) :
    Roll (progress.remaining task.job ++ rest) (log ++ task.job.deeds progress) := by
  have found := h.found
  generalize now : task.phase = phase at step
  cases step with
  | @quiet _ next _ _ here there nothing =>
    rw [nothing]
    refine h.goOn next nofun fun t => ?_
    rw [List.append_nil, found]
    simp [now, here, there]
  | finds target _ here =>
    refine h.goOn (.supersede target) (fun deed hd => Or.inl (List.mem_singleton.1 hd)) fun t => ?_
    have old := found t
    rw [List.exists_mem_cons_iff, now, here] at old
    rw [List.exists_mem_cons_iff, List.mem_append, old]
    simp only [Job.deeds, List.mem_append, List.mem_singleton, Deed.foundName.injEq, reduceCtorEq, or_false,
      Bool.false_eq_true, and_false, false_or, Phase.isSuperseding_supersede, and_true,
      @eq_comm _ t task.job.ticket]
    exact or_assoc.trans (or_congr_right or_comm)
  | supersedes target =>
    refine h.goOn (.search target) (fun deed hd => Or.inr (List.mem_singleton.1 hd)) fun t => ?_
    have old := found t
    rw [List.exists_mem_cons_iff, now] at old
    rw [List.exists_mem_cons_iff, List.mem_append, old]
    simp only [Job.deeds, List.mem_append, List.mem_singleton, Deed.superseding.injEq, reduceCtorEq, or_false,
      Phase.isSuperseding_supersede, and_true, Phase.isSuperseding_search, Bool.false_eq_true, and_false,
      false_or, @eq_comm _ t task.job.ticket]
    exact or_assoc.symm
  | ends => exact h.finish (now ▸ rfl) (Or.inl rfl)
  | crashes _ here => exact h.finish (now ▸ here) (Or.inr rfl)

end Roll

/-! ## The tickets in flight -/

theorem Shared.settings_register (s : Shared) (ticket : Ticket) :
    (s.register ticket).settings = s.settings := by
  unfold register
  split <;> rfl

theorem Shared.synchronizer_register (s : Shared) (ticket : Ticket) :
    (s.register ticket).synchronizer = s.synchronizer := by
  unfold register
  split <;> rfl

/-- The deeds so far account for the tickets in flight: they are those of the jobs that are registered, have not
ended, and that no newer job has superseded. A job is cancelled by one that supersedes it. -/
structure Shared.Aloft (s : Shared) (log : List Deed) : Prop where
  inFlight : ∀ t, t ∈ s.inFlight ↔
    .registered t ∈ log ∧ .ended t ∉ log ∧ ∀ n, .superseding n ∈ log → n ≤ t
  cancelled : ∀ t ∈ s.cancelled, ∃ n, .superseding n ∈ log ∧ t < n

namespace Shared.Aloft

variable {s s' : Shared} {log : List Deed}

/-- Nothing changes but for deeds that have no effect on the jobs in flight. -/
theorem same (h : s.Aloft log) (same : s.SameFlight s') {deeds : List Deed}
    (harmless : ∀ deed ∈ deeds, (∃ t, deed = .foundName t) ∨ ∃ t, deed = .crashed t) :
    s'.Aloft (log ++ deeds) := by
  have noRegistered (t : Ticket) : .registered t ∉ deeds := fun hd => by simpa using harmless _ hd
  have noEnded (t : Ticket) : .ended t ∉ deeds := fun hd => by simpa using harmless _ hd
  have noSuperseding (t : Ticket) : .superseding t ∉ deeds := fun hd => by simpa using harmless _ hd
  constructor
  · intro t
    simpa [same.inFlight, noRegistered, noEnded, noSuperseding] using h.inFlight t
  · intro t ht
    rw [same.cancelled] at ht
    simpa [noSuperseding] using h.cancelled t ht

/-- A ticket that is above all others comes in flight. -/
theorem register (h : s.Aloft log) (discards : s.settings.discardSuperseded = true) {ticket : Ticket}
    (newest : ∀ deed ∈ log, deed.ticket < ticket) :
    (s.register ticket).Aloft (log ++ [.registered ticket]) := by
  have unended : .ended ticket ∉ log := fun hd => Nat.lt_irrefl _ (newest _ hd)
  have current : ∀ n, .superseding n ∈ log → n ≤ ticket := fun n hd => Nat.le_of_lt (newest _ hd)
  unfold Shared.register
  rw [if_pos discards]
  constructor
  · intro t
    have old := h.inFlight t
    simp only [List.mem_append, List.mem_singleton, Deed.registered.injEq, reduceCtorEq, or_false, old]
    constructor
    · rintro (⟨known, stays⟩ | rfl)
      · exact ⟨Or.inl known, stays⟩
      · exact ⟨Or.inr rfl, unended, current⟩
    · rintro ⟨known | rfl, stays⟩
      · exact Or.inl ⟨known, stays⟩
      · exact Or.inr rfl
  · intro t ht
    simpa using h.cancelled t ht

theorem supersede (h : s.Aloft log) (ticket : Ticket) :
    (s.supersede ticket).Aloft (log ++ [.superseding ticket]) := by
  constructor
  · intro t
    have old := h.inFlight t
    simp only [Shared.supersede, Shared.noteAll, List.mem_filter, decide_eq_true_eq, old,
      List.mem_append, List.mem_singleton, reduceCtorEq, or_false, Deed.superseding.injEq]
    constructor
    · rintro ⟨⟨known, unended, current⟩, le⟩
      refine ⟨known, unended, ?_⟩
      rintro n (hn | rfl)
      · exact current n hn
      · exact le
    · rintro ⟨known, unended, current⟩
      exact ⟨⟨known, unended, fun n hn => current n (Or.inl hn)⟩, current ticket (Or.inr rfl)⟩
  · intro t ht
    rcases List.mem_append.1 ht with ht | ht
    · obtain ⟨n, hn, lt⟩ := h.cancelled t ht
      exact ⟨n, List.mem_append_left _ hn, lt⟩
    · exact ⟨ticket, by simp, by simpa using (List.mem_filter.1 ht).2⟩

theorem unregister (h : s.Aloft log) (ticket : Ticket) :
    (s.unregister ticket).Aloft (log ++ [.ended ticket]) := by
  constructor
  · intro t
    have old := h.inFlight t
    simp only [Shared.unregister, List.mem_filter, decide_eq_true_eq, old, List.mem_append,
      List.mem_singleton, reduceCtorEq, or_false, Deed.ended.injEq, not_or]
    tauto
  · intro t ht
    simpa using h.cancelled t ht

theorem step (h : s.Aloft log) {j : Job} {phase : Phase} {progress : Progress}
    (step : j.FlightStep s phase s' progress) : s'.Aloft (log ++ j.deeds progress) := by
  cases step with
  | quiet same _ _ nothing =>
    rw [nothing]
    exact h.same same nofun
  | finds _ same => exact h.same same fun deed hd => Or.inl ⟨_, List.mem_singleton.1 hd⟩
  | supersedes => exact h.supersede j.ticket
  | ends => exact h.unregister j.ticket
  | crashes same => exact h.same same fun deed hd => Or.inr ⟨_, List.mem_singleton.1 hd⟩

end Shared.Aloft

/-! ## Courses -/

/-- What holds wherever a course leads. -/
structure Situation.Charted (s : Situation) (log : List Deed) : Prop where
  discards : s.reactor.shared.settings.discardSuperseded = true
  sane : s.reactor.Sane
  roll : Roll s.unfinished log
  aloft : s.reactor.shared.Aloft log
  issued : ∀ t, .registered t ∈ log → t ≤ s.reactor.shared.synchronizer.issued
  /-- A ticket that is given out and not yet registered is above all others. -/
  newest : ∀ j, s.delivery = some (.ticketed j) → j.ticket ≤ s.reactor.shared.synchronizer.issued ∧
    ∀ t, .registered t ∈ log → t < j.ticket

namespace Situation.Charted

variable {s : Situation} {log : List Deed} {w : Nat} {task : Task}

theorem below (h : s.Charted log) {deed : Deed} (hd : deed ∈ log) :
    ∀ j, s.delivery = some (.ticketed j) → deed.ticket < j.ticket :=
  fun j ticketed => (h.newest j ticketed).2 _ (h.roll.registered deed hd)

/-- A worker that takes or counts off a job leaves all else alone. -/
theorem pool (h : s.Charted log) {pool : WorkerPool Task} (accounted : pool.Accounted)
    (same : pool.jobs.Perm s.reactor.pool.jobs) :
    Charted { s with reactor := { s.reactor with pool } } log :=
  ⟨h.discards, ⟨accounted, h.sane.ticketed, fun x hx => h.sane.tasks x (same.mem_iff.1 hx)⟩,
    h.roll.perm (same.append_left _), h.aloft, h.issued, h.newest⟩

theorem change (h : s.Charted log) (edit : Editor → Editor) (pipeline : Pipeline) :
    (s.move (.change edit pipeline)).Charted log := by
  have ticketed := h.sane.ticketed
  exact ⟨h.discards, ⟨h.sane.accounted, ⟨ticketed.discards, ticketed.committed, ticketed.inFlight,
    ticketed.cancelled⟩, h.sane.tasks⟩, h.roll, ⟨h.aloft.inFlight, h.aloft.cancelled⟩, h.issued, h.newest⟩

/-- A selection that gets a job gets the next ticket. -/
theorem deliver (h : s.Charted log) (e : SelectionEvent) : (s.deliver e).Charted log := by
  obtain ⟨r, delivery⟩ := s
  cases delivery with
  | some _ => exact h
  | none =>
    simp only [Situation.deliver]
    rcases r.select_cases e with ⟨ignored, events, result⟩ | ⟨offset, length, events, selected, -⟩
    · simp only [ignored, result]
      refine ⟨h.discards, ⟨h.sane.accounted, h.sane.ticketed.noteAll events, h.sane.tasks⟩, h.roll,
        ⟨h.aloft.inFlight, h.aloft.cancelled⟩, h.issued, ?_⟩
      rintro _ ⟨⟩
    · simp only [selected]
      refine ⟨h.discards, ⟨h.sane.accounted, h.sane.ticketed.issue, fun x hx => ?_⟩, h.roll,
        ⟨h.aloft.inFlight, h.aloft.cancelled⟩, fun t ht => Nat.le_succ_of_le (h.issued t ht), ?_⟩
      · exact Nat.le_succ_of_le (h.sane.tasks x hx)
      · rintro _ ⟨⟩
        exact ⟨Nat.le_refl _, fun t ht => Nat.lt_succ_of_le (h.issued t ht)⟩

theorem proceed (h : s.Charted log) :
    s.proceed.Charted (log ++ s.delivery.toList.flatMap Delivery.deeds) := by
  obtain ⟨r, delivery⟩ := s
  cases delivery with
  | none => simpa [Situation.proceed] using h
  | some delivery =>
    cases delivery with
    | ticketed j =>
      obtain ⟨given, newest⟩ := h.newest j rfl
      have aloft := h.aloft.register h.discards fun deed hd => h.below hd j rfl
      have roll := h.roll.register (j := j) fun known => Nat.lt_irrefl _ (newest _ known)
      refine ⟨?_, ⟨h.sane.accounted, h.sane.ticketed.register given, fun x hx => ?_⟩, roll, aloft, ?_, ?_⟩
      · exact (r.shared.settings_register j.ticket) ▸ h.discards
      · exact (r.shared.synchronizer_register j.ticket) ▸ h.sane.tasks x hx
      · intro t ht
        simp only [Situation.proceed, Shared.synchronizer_register]
        rcases List.mem_append.1 ht with ht | ht
        · exact h.issued t ht
        · obtain rfl : t = j.ticket := by simpa [Delivery.deeds] using ht
          exact given
      · rintro _ ⟨⟩
    | registered j =>
      have known : .registered j.ticket ∈ log := (h.roll.unfinished { job := j } List.mem_cons_self).1
      have counted := WorkerPool.perm_jobs_count r.pool { job := j }
      change Charted _ (log ++ [])
      rw [List.append_nil]
      refine ⟨h.discards, ⟨h.sane.accounted.count _, h.sane.ticketed.noteAll _, fun x hx => ?_⟩,
        h.roll.perm counted, ⟨h.aloft.inFlight, h.aloft.cancelled⟩, h.issued, ?_⟩
      · rcases List.mem_cons.1 (counted.mem_iff.1 hx) with rfl | hx
        · exact h.issued _ known
        · exact h.sane.tasks x hx
      · rintro _ ⟨⟩
    | counted j =>
      have sent := WorkerPool.perm_jobs_send r.pool (r.pool.counted.length - 1)
      have moved := h.pool (h.sane.accounted.send _) sent
      change Charted _ (log ++ [])
      rw [List.append_nil]
      refine ⟨moved.discards, moved.sane, moved.roll, moved.aloft, moved.issued, ?_⟩
      rintro _ ⟨⟩

theorem conclude (h : s.Charted log) (running : s.reactor.pool.workers[w]? = some (.running task))
    {shared : Shared} {progress : Progress}
    (may : task.job.MayStep s.reactor.shared task.phase (shared, progress)) :
    Charted { s with reactor := s.reactor.conclude w task.job (shared, progress) }
      (log ++ task.job.deeds progress) := by
  have bound := h.sane.tasks task (WorkerPool.mem_jobs_of_running running)
  obtain ⟨ticketed, issued⟩ := may.ticketed h.sane.ticketed bound
  have step := may.flightStep h.discards
  have aloft := h.aloft.step step
  have given : (s.reactor.conclude w task.job (shared, progress)).shared.synchronizer.issued =
      s.reactor.shared.synchronizer.issued := by
    cases progress <;> exact issued
  have registered : ∀ t, .registered t ∈ log ++ task.job.deeds progress → .registered t ∈ log := by
    intro t ht
    rcases List.mem_append.1 ht with ht | ht
    · exact ht
    · exact absurd ht (task.job.registered_not_mem_deeds progress t)
  obtain ⟨rest, before, after⟩ := Reactor.perm_jobs_conclude running shared progress
  refine ⟨?_, h.sane.conclude running progress ticketed issued, ?_, ?_, fun t ht => ?_, fun j hj => ?_⟩
  · have settings : (s.reactor.conclude w task.job (shared, progress)).shared.settings = shared.settings := by
      cases progress <;> rfl
    rw [settings, step.settings]
    exact h.discards
  · -- the job of the delivery stands in front of those of the pool, and does not change
    have first (x : List Task) (y : List Task) :
        (s.delivery.toList.filterMap Delivery.waiting? ++ (x ++ y)).Perm
          (x ++ (s.delivery.toList.filterMap Delivery.waiting? ++ y)) := List.perm_append_comm_assoc ..
    have known := h.roll.perm ((before.append_left _).trans (first [task] rest)).symm
    exact (known.step step).perm ((after.append_left _).trans (first _ rest))
  · cases progress with
    | goOn | ended => exact aloft
    | crashed => exact ⟨aloft.inFlight, aloft.cancelled⟩
  · rw [given]
    exact h.issued t (registered t ht)
  · obtain ⟨low, high⟩ := h.newest j hj
    exact ⟨given ▸ low, fun t ht => high t (registered t ht)⟩

theorem run {s₀ : Situation} (h : s₀.Charted []) (course : s₀.Course log s) : s.Charted log := by
  induction course with
  | start => exact h
  | deliver _ e ih => exact ih.deliver e
  | proceed _ ih => exact ih.proceed
  | receive _ w ih => exact ih.pool (ih.sane.accounted.receive w) (WorkerPool.perm_jobs_receive _ w)
  | done _ w ih => exact ih.pool (ih.sane.accounted.done w) (WorkerPool.perm_jobs_done _ w)
  | work _ running may ih => exact ih.conclude running may
  | change _ edit pipeline ih => exact ih.change edit pipeline

theorem start (editor : Editor) {settings : Settings} (pipeline : Pipeline)
    (discards : settings.discardSuperseded = true) :
    (Situation.start editor settings pipeline).Charted [] := by
  have idle : (Situation.start editor settings pipeline).unfinished = [] :=
    WorkerPool.jobs_ofThreads settings.workerThreads
  have sane := (Reactor.Reached.start editor settings pipeline).sane
  refine ⟨discards, sane, ?_, ⟨fun t => ?_, nofun⟩, nofun, nofun⟩
  · rw [idle]
    exact ⟨nofun, List.nodup_nil, nofun, nofun, nofun, fun t => by simp⟩
  · simp [Situation.start, Reactor.start, Shared.noteAll]

/-- When the pool is idle and no selection is being delivered, every job is over. -/
theorem unfinished_eq_nil (h : s.Charted log) (idle : s.reactor.pool.isIdle = true)
    (delivered : s.delivery = none) : s.unfinished = [] := by
  rw [unfinished, delivered, h.sane.accounted.jobs_eq_nil idle]
  rfl

end Situation.Charted

/-! ## The main statement -/

/-- The tickets in flight. Take a reactor that discards superseded jobs, let selections be delivered to it one
after another, and let the jobs interleave, crash and the editor and the pipeline change in any way. Then at every
time:

* a ticket is in flight exactly if its job is registered, has not ended, and no newer job has superseded it;
* the jobs that supersede others have found an identifier, and one that has found an identifier supersedes the
  older ones by its next step;
* the job of a ticket in flight is not over, unless it has crashed;
* a job is cancelled only after one with a larger ticket has found an identifier;
* when the pool is idle and no selection is being delivered, the tickets left in flight are those of crashed jobs
  that no newer job has superseded. Without crashes there are none. -/
theorem in_flight_until_over {editor : Editor} {settings : Settings} {pipeline : Pipeline}
    (discards : settings.discardSuperseded = true) {log : List Deed} {s : Situation}
    (course : (Situation.start editor settings pipeline).Course log s) :
    let inFlight := s.reactor.shared.inFlight
    (∀ t, t ∈ inFlight ↔
      .registered t ∈ log ∧ .ended t ∉ log ∧ ∀ n, .superseding n ∈ log → n ≤ t) ∧
    (∀ n, .foundName n ∈ log ↔ .superseding n ∈ log ∨
      ∃ task ∈ s.unfinished, task.job.ticket = n ∧ task.phase.isSuperseding = true) ∧
    (∀ t ∈ inFlight, (∃ task ∈ s.unfinished, task.job.ticket = t) ∨ .crashed t ∈ log) ∧
    (∀ t, s.reactor.shared.isCancelled t = true → ∃ n, .foundName n ∈ log ∧ t < n) ∧
    (s.reactor.pool.isIdle = true → s.delivery = none →
      (∀ t, t ∈ inFlight ↔ .crashed t ∈ log ∧ ∀ n, .superseding n ∈ log → n ≤ t) ∧
      ((∀ t, .crashed t ∉ log) → inFlight = [])) := by
  intro inFlight
  have h := (Situation.Charted.start editor pipeline discards).run course
  have account := h.aloft.inFlight
  have left : ∀ t ∈ inFlight, (∃ task ∈ s.unfinished, task.job.ticket = t) ∨ .crashed t ∈ log := by
    intro t ht
    obtain ⟨known, unended, -⟩ := (account t).1 ht
    rcases h.roll.settled t known with alive | ended | crashed
    · exact Or.inl alive
    · exact absurd ended unended
    · exact Or.inr crashed
  refine ⟨account, h.roll.found, left, fun t ht => ?_, fun idle delivered => ?_⟩
  · obtain ⟨n, hn, lt⟩ := h.aloft.cancelled t (List.contains_iff_mem.1 ht)
    exact ⟨n, (h.roll.found n).2 (Or.inl hn), lt⟩
  · have crashed : ∀ t ∈ inFlight, .crashed t ∈ log := by
      intro t ht
      refine (left t ht).resolve_left ?_
      rintro ⟨task, known, -⟩
      rw [h.unfinished_eq_nil idle delivered] at known
      cases known
    refine ⟨fun t => ⟨fun ht => ⟨crashed t ht, ((account t).1 ht).2.2⟩, ?_⟩, fun calm => ?_⟩
    · rintro ⟨crash, current⟩
      exact (account t).2 ⟨h.roll.registered _ crash, h.roll.once t crash, current⟩
    · exact List.eq_nil_iff_forall_not_mem.2 fun t ht => calm t (crashed t ht)

/-- A selection is delivered without interruption. -/
def Move.select (offset : Nat) : List Move :=
  [.deliver ⟨0, .text offset 0⟩, .proceed, .proceed, .proceed]

/-- The names `a` and `b` are selected, the job of `b` overtakes that of `a`, and another selection has got as far
as to be registered. -/
def Move.overtaking : List Move :=
  Move.select 0 ++ Move.select 2 ++ List.replicate 5 (.work 0) ++ List.replicate 5 (.work 1) ++
    [.deliver ⟨0, .text 0 0⟩, .proceed]

/-- The job of `b` has cancelled that of `a` and is still in flight, beside the job that is being delivered. -/
theorem in_flight_until_over_overtaking :
    let begun := Situation.start (.twoNames (.ofName "main" true)) {} .lexical
    let s := begun.play Move.overtaking
    s.reactor.shared.inFlight = [2, 3] ∧ (∃ task ∈ s.unfinished, task.job.ticket = 2) ∧
      s.reactor.shared.isCancelled 1 = true ∧
      ∃ n, .foundName n ∈ begun.deedsAlong Move.overtaking ∧ 1 < n := by
  intro begun s
  have course : begun.Course (begun.deedsAlong Move.overtaking) s := begun.course_play _
  obtain ⟨-, -, unfinished, cancelled, -⟩ := in_flight_until_over rfl course
  have inFlight : s.reactor.shared.inFlight = [2, 3] := by decide +kernel
  have first : s.reactor.shared.isCancelled 1 = true := by decide +kernel
  have calm : .crashed 2 ∉ begun.deedsAlong Move.overtaking := by decide +kernel
  have second : 2 ∈ s.reactor.shared.inFlight := by simp [inFlight]
  exact ⟨inFlight, (unfinished 2 second).resolve_right calm, first, cancelled 1 first⟩

/-- The job of `a` crashes. All jobs are over and the pool is idle, but its ticket is still in flight, and stays
there until a newer job supersedes it. -/
theorem crashed_job_stays_in_flight :
    let begun := Situation.start (.twoNames (.ofName "main" true)) .oneWorker (.crashingAt 0)
    let moves := Move.select 0 ++ List.replicate 7 (.work 0)
    let s := begun.play moves
    Settings.oneWorker.discardSuperseded = true ∧ begun.Course (begun.deedsAlong moves) s ∧
      .crashed 1 ∈ begun.deedsAlong moves ∧ s.unfinished = [] ∧ s.reactor.pool.isIdle = true ∧
      s.delivery = none ∧ s.reactor.shared.inFlight = [1] := by
  intro begun moves s
  have nothing : s.unfinished.length = 0 := by decide +kernel
  refine ⟨rfl, begun.course_play _, ?_, List.eq_nil_of_length_eq_zero nothing, ?_, ?_, ?_⟩ <;>
    decide +kernel

end Highlight
