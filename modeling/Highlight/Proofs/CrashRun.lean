import Highlight.Proofs.LexicalSearch
import Highlight.Proofs.ReactorRun

/-!
# Runs with crashes

A resolver or an engine may crash under the search of a job. The worker catches the crash, the job is over,
and it has drawn nothing. `Reactor.CrashRun` are the runs of a reactor in which any search may crash, with
the tickets of the jobs that did.

While the editor stays as it is, the invariant of such runs follows the tickets. A job is cancelled only by a
newer one that has picked an identifier, whatever became of it then (`Stage.Holds.cancelled`), and the highest
ticket committed belongs to a job that has not crashed and whose spans are drawn. A job that picks an
identifier, is over and has not crashed was cancelled or has a ticket that is not above the committed one
(`Stage.Decided`). `Stage.Consistent` says so of a reactor, wherever its workers are.
-/

namespace Highlight

/-! ## Runs -/

/-- The ticket of a job that crashes. -/
def Progress.crashes (ticket : Ticket) : Progress → List Ticket
  | .crashed => [ticket]
  | _ => []

theorem Progress.crashes_eq_nil {progress : Progress} (survives : progress ≠ .crashed) (ticket : Ticket) :
    progress.crashes ticket = [] := by
  cases progress with
  | goOn | ended => rfl
  | crashed => exact absurd rfl survives

namespace Reactor

/-- The reactor `r` can come to a state while some selections are reported to it and the jobs with some
tickets crash. -/
inductive CrashRun (r : Reactor) : List SelectionEvent → List Ticket → Reactor → Prop where
  | start : CrashRun r [] [] r
  | select {es : List SelectionEvent} {crashed : List Ticket} {r' : Reactor}
    (before : CrashRun r es crashed r') (e : SelectionEvent) :
    CrashRun r (es ++ [e]) crashed (r'.select e.view e.selection).2
  | receive {es : List SelectionEvent} {crashed : List Ticket} {r' : Reactor}
    (before : CrashRun r es crashed r') (w : Nat) :
    CrashRun r es crashed { r' with pool := r'.pool.receive w }
  | done {es : List SelectionEvent} {crashed : List Ticket} {r' : Reactor}
    (before : CrashRun r es crashed r') (w : Nat) :
    CrashRun r es crashed { r' with pool := r'.pool.done w }
  | work {es : List SelectionEvent} {crashed : List Ticket} {r' : Reactor}
    (before : CrashRun r es crashed r') {w : Nat} {task : Task} {s : Shared} {progress : Progress}
    (running : r'.pool.workers[w]? = some (.running task))
    (may : task.job.MayStep r'.shared task.phase (s, progress)) :
    CrashRun r es (progress.crashes task.job.ticket ++ crashed) (r'.conclude w task.job (s, progress))

/-- The ticket of the job that crashes when worker `w` makes a step. -/
def crashesAt (r : Reactor) (w : Nat) : List Ticket :=
  match r.pool.workers[w]? with
  | some (.running task) => (task.job.step r.shared task.phase).2.crashes task.job.ticket
  | _ => []

/-- The tickets of the jobs that crash when the workers make steps in the given order. -/
def crashesAlong (r : Reactor) : List Nat → List Ticket
  | [] => []
  | w :: ws => (r.step w).crashesAlong ws ++ r.crashesAt w

variable {r r' : Reactor} {es : List SelectionEvent} {crashed : List Ticket}

theorem CrashRun.step (before : r.CrashRun es crashed r') (w : Nat) :
    r.CrashRun es (r'.crashesAt w ++ crashed) (r'.step w) := by
  cases here : r'.pool.workers[w]? with
  | none =>
    simp only [Reactor.step, crashesAt, here]
    exact before
  | some worker =>
    cases worker with
    | idle =>
      simp only [Reactor.step, crashesAt, here]
      exact before.receive w
    | running task =>
      simp only [Reactor.step, crashesAt, here]
      exact before.work here (.step task.phase)
    | ended =>
      simp only [Reactor.step, crashesAt, here]
      exact before.done w

theorem CrashRun.works (before : r.CrashRun es crashed r') (ws : List Nat) :
    r.CrashRun es (r'.crashesAlong ws ++ crashed) (ws.foldl Reactor.step r') := by
  induction ws generalizing r' crashed with
  | nil => exact before
  | cons w ws ih =>
    rw [crashesAlong, List.append_assoc]
    exact ih (before.step w)

end Reactor

/-! ## Invariants -/

/-- What stays the same while the jobs of a reactor work, and how it stood before: the tickets given out,
the spans drawn, and the decorations of the model shown that are not the reactor's. -/
structure Stage where
  settings : Settings
  pipeline : Pipeline
  view : ViewId
  parse : Parse
  document : Document
  model : ModelId
  base : List (Handle × Decoration)
  spans : List Span
  issued : Ticket

namespace Stage

/-- The spans for the selection of a job. -/
def spans? (c : Stage) (j : Job) : Option (List Span) :=
  c.pipeline.spansFor? c.parse.snapshot c.document.text c.settings.mode j.offset j.length

/-- How offsets of the parse and of the live document belong together. -/
def mapping (c : Stage) : Mapping := .between c.parse.snapshot.source c.document.text

/-- The identifier that the selection of a job picks. -/
def element (c : Stage) (j : Job) : Except Miss Place :=
  elementAt c.parse.snapshot c.document.text c.mapping j.offset j.length c.settings.mode

/-- The selection of a job picks an identifier. -/
def Picks (c : Stage) (j : Job) : Prop := ∃ element, c.element j = .ok element

/-- What holds of the state that the jobs share, where `jobs` are the jobs scheduled since. -/
structure Holds (c : Stage) (jobs : List Job) (s : Shared) : Prop where
  settings : s.settings = c.settings
  pipeline : s.pipeline = c.pipeline
  view : s.editor.view = c.view
  parse : s.editor.parse = some c.parse
  document : s.editor.document = some c.document
  shown : s.editor.host.shown = some c.model
  discards : s.synchronizer.discardSuperseded = true
  issued : s.synchronizer.issued = c.issued + jobs.length
  /-- The spans drawn are those of the job whose ticket is committed. -/
  drawn : ∃ spans, s.synchronizer.Draws s.editor.host c.model c.base spans ∧
    (s.synchronizer.committed ≤ c.issued ∧ spans = c.spans ∨
      ∃ j ∈ jobs, j.ticket = s.synchronizer.committed ∧ c.spans? j = some spans)
  /-- Only a newer job that picks an identifier cancels another one. It need not come to a commit. -/
  cancelled : ∀ t ∈ s.cancelled, t ≤ c.issued ∨ ∃ j ∈ jobs, t < j.ticket ∧ c.Picks j

/-- A job that is over and has not crashed picks nothing, was cancelled, or has a ticket that is not above
the committed one. -/
def Decided (c : Stage) (s : Shared) (j : Job) : Prop :=
  ¬ c.Picks j ∨ s.isCancelled j.ticket = true ∨ j.ticket ≤ s.synchronizer.committed

/-- What a job has found out so far. -/
def Knows (c : Stage) (s : Shared) (j : Job) : Phase → Prop
  | .start | .readParse => True
  | .readDocument parse => parse = c.parse
  | .supersede target | .search target =>
    ∃ element, c.element j = .ok element ∧ target = ⟨c.parse, c.document.text, c.mapping, element⟩
  | .recheck spans => s.isCancelled j.ticket = false → c.spans? j = some spans
  | .pickModel spans => c.spans? j = some spans
  | .commit spans picked => c.spans? j = some spans ∧ picked = some c.model
  | .finish => c.Decided s j

/-- Nothing that was cancelled or committed is taken back. -/
structure Grows (s s' : Shared) : Prop where
  cancelled : ∀ t, s.isCancelled t = true → s'.isCancelled t = true
  committed : s.synchronizer.committed ≤ s'.synchronizer.committed

variable {c : Stage} {jobs : List Job} {crashed : List Ticket} {s s' : Shared} {j : Job} {phase : Phase}

theorem picks_of_spans? {spans : List Span} (h : c.spans? j = some spans) : c.Picks j := by
  cases picked : c.element j with
  | ok element => exact ⟨element, picked⟩
  | error why =>
    rw [spans?, Pipeline.spansFor?_of_miss picked] at h
    cases h

theorem Grows.refl (s : Shared) : Grows s s := ⟨fun _ h => h, Nat.le_refl _⟩

theorem Grows.noteAll (g : Grows s s') (events : List Event) : Grows s (s'.noteAll events) :=
  ⟨g.cancelled, g.committed⟩

theorem Decided.grows (h : c.Decided s j) (g : Grows s s') : c.Decided s' j := by
  rcases h with h | h | h
  · exact Or.inl h
  · exact Or.inr (Or.inl (g.cancelled _ h))
  · exact Or.inr (Or.inr (Nat.le_trans h g.committed))

theorem Knows.grows (h : c.Knows s j phase) (g : Grows s s') : c.Knows s' j phase := by
  cases phase with
  | start | readParse | readDocument | supersede | search | pickModel | commit => exact h
  | recheck spans =>
    intro live
    cases cancelled : s.isCancelled j.ticket with
    | false => exact h cancelled
    | true => rw [g.cancelled _ cancelled] at live; cases live
  | finish => exact Decided.grows h g

/-! ## The steps of a job -/

/-- What a step of the job makes of the shared state and of the job. Only the step to its end can commit
its ticket. -/
def Proceeds (c : Stage) (jobs : List Job) (s : Shared) (j : Job) : Shared × Progress → Prop
  | (s', progress) => c.Holds jobs s' ∧ Grows s s' ∧
    match progress with
    | .goOn phase => c.Knows s' j phase ∧
      (s'.synchronizer.committed = s.synchronizer.committed ∨
        phase = .finish ∧ s'.synchronizer.committed = j.ticket)
    | .ended => c.Decided s' j ∧ s'.synchronizer.committed = s.synchronizer.committed
    | .crashed => s'.synchronizer.committed = s.synchronizer.committed

/-- Where the spans drawn come from after a commit. -/
theorem source_of_commit (hj : j ∈ jobs) {old spans : List Span} (found : c.spans? j = some spans)
    {committed : Ticket} (source : committed ≤ c.issued ∧ old = c.spans ∨
      ∃ i ∈ jobs, i.ticket = committed ∧ c.spans? i = some old) :
    max committed j.ticket ≤ c.issued ∧ (if j.ticket < committed then old else spans) = c.spans ∨
      ∃ i ∈ jobs, i.ticket = max committed j.ticket ∧
        c.spans? i = some (if j.ticket < committed then old else spans) := by
  by_cases stale : j.ticket < committed
  · rw [if_pos stale, Nat.max_eq_left (Nat.le_of_lt stale)]
    exact source
  · rw [if_neg stale, Nat.max_eq_right (Nat.le_of_not_lt stale)]
    exact Or.inr ⟨j, hj, rfl, found⟩

section Steps

variable (h : c.Holds jobs s)

include h

theorem Holds.noteAll (events : List Event) : c.Holds jobs (s.noteAll events) := { h with }

/-- A job that gives up has a reason to. -/
theorem Holds.decided_of_stops (knows : c.Knows s j phase) {events : List Event}
    (why : j.Stops s phase events) : c.Decided s j := by
  cases why with
  | cancelledEarly cancelled | cancelledSearching _ cancelled => exact Or.inr (Or.inl cancelled)
  | unparsed unparsed =>
    rw [h.parse] at unparsed
    cases unparsed
  | unsupported parsed unsupported =>
    obtain rfl := Option.some.inj (h.parse.symm.trans parsed)
    refine Or.inl ?_
    rintro ⟨element, picked⟩
    exact elementAt_of_unsupported unsupported _ _ _ _ _ _ picked
  | closed _ closed =>
    rw [h.document] at closed
    cases closed
  | missed opened miss =>
    obtain rfl := Option.some.inj (h.document.symm.trans opened)
    obtain rfl : _ = c.parse := knows
    rw [h.settings] at miss
    refine Or.inl ?_
    rintro ⟨element, picked⟩
    cases picked.symm.trans miss

/-- What a job reads is as the stage has it. -/
theorem Holds.knows_of_reads (knows : c.Knows s j phase) {next : Phase}
    (reads : j.Reads s phase next) : c.Knows s j next := by
  cases reads with
  | start => trivial
  | parse parsed => exact Option.some.inj (parsed.symm.trans h.parse)
  | document opened picked =>
    obtain rfl := Option.some.inj (h.document.symm.trans opened)
    obtain rfl : _ = c.parse := knows
    rw [h.settings] at picked
    exact ⟨_, picked, rfl⟩
  | keep => exact knows
  | recheck _ live => exact knows live
  | model => exact ⟨knows, h.shown⟩

/-- The job cancels the older ones because it has picked an identifier, and before it is known that it will
not crash. -/
theorem Holds.supersede (hj : j ∈ jobs) {target : Target} (knows : c.Knows s j (.supersede target)) :
    c.Proceeds jobs s j (s.supersede j.ticket, .goOn (.search target)) := by
  obtain ⟨element, picked, ht⟩ := knows
  refine ⟨Holds.noteAll ?_ _, ⟨fun t ht => ?_, Nat.le_refl _⟩, ⟨element, picked, ht⟩, Or.inl rfl⟩
  · refine { h with cancelled := fun t ht => ?_ }
    rcases List.mem_append.1 ht with ht | ht
    · exact h.cancelled t ht
    · exact Or.inr ⟨j, hj, by simpa using (List.mem_filter.1 ht).2, element, picked⟩
  · simp only [Shared.isCancelled, Shared.supersede, Shared.noteAll, List.contains_iff_mem] at ht ⊢
    exact List.mem_append_left _ ht

/-- A search that has seen no cancellation finds the spans of the selection. -/
theorem Holds.found {t : Target} (knows : c.Knows s j (.search t)) {history : Nat → Bool}
    (seen : ∀ n, history n = true → s.isCancelled j.ticket = true) {report : Report}
    (found : s.pipeline.find history t.parse.snapshot t.live t.mapping t.element = .ok report)
    (live : s.isCancelled j.ticket = false) : c.spans? j = some report.spans := by
  obtain ⟨element, picked, rfl⟩ := knows
  rw [h.pipeline, Reactor.silent_of_live seen live] at found
  exact Pipeline.spansFor?_of_element picked found

/-- A commit draws the spans of its job unless a newer one is drawn, and does not crash. -/
theorem Holds.withCommit (hj : j ∈ jobs) {spans : List Span} {picked : Option ModelId}
    (knows : c.Knows s j (.commit spans picked)) {r : CommitResult}
    (done : s.synchronizer.commitTo s.editor.host picked j.ticket spans = r) :
    c.Holds jobs (s.withCommit r) ∧
      (s.withCommit r).synchronizer.committed = max s.synchronizer.committed j.ticket ∧
      r.outcome ≠ .crashed := by
  obtain ⟨found, rfl⟩ := knows
  obtain ⟨old, draws, source⟩ := h.drawn
  have after := draws.commit h.discards j.ticket spans
  rw [done] at after
  refine ⟨{ h with
    shown := after.shown.trans h.shown
    discards := after.discards.trans h.discards
    issued := after.issued.trans h.issued
    drawn := ⟨_, after.draws, ?_⟩ }, after.committed, after.finished⟩
  rw [show (s.withCommit r).synchronizer.committed = _ from after.committed]
  exact source_of_commit hj found source

/-- Every step of a job keeps the shared state and the job as they should be. -/
theorem Holds.step (hj : j ∈ jobs) (knows : c.Knows s j phase) {result : Shared × Progress}
    (step : j.StepCase s phase result) : c.Proceeds jobs s j result := by
  cases step with
  | stops why =>
    exact ⟨h.noteAll _, (Grows.refl s).noteAll _, h.decided_of_stops knows why, Or.inl rfl⟩
  | reads reads => exact ⟨h, Grows.refl s, h.knows_of_reads knows reads, Or.inl rfl⟩
  | supersedes => exact h.supersede hj knows
  | finds seen found =>
    exact ⟨h.noteAll _, (Grows.refl s).noteAll _, h.found knows seen found, Or.inl rfl⟩
  | searchCrashes => exact ⟨h, Grows.refl s, rfl⟩
  | commits done =>
    obtain ⟨holds, committed, -⟩ := h.withCommit hj knows done
    refine ⟨(holds.noteAll _).noteAll _, ⟨fun _ ht => ht, ?_⟩, Or.inr (Or.inr ?_), ?_⟩
    · exact committed ▸ Nat.le_max_left ..
    · exact committed ▸ Nat.le_max_right ..
    · rcases Nat.le_total j.ticket s.synchronizer.committed with le | le
      · exact Or.inl (committed.trans (Nat.max_eq_left le))
      · exact Or.inr ⟨rfl, committed.trans (Nat.max_eq_right le)⟩
  | commitCrashes done crash => exact absurd crash (h.withCommit hj knows done).2.2
  | finishes => exact ⟨{ h with }, ⟨fun _ ht => ht, Nat.le_refl _⟩, knows, rfl⟩

theorem Holds.mayStep (hj : j ∈ jobs) (knows : c.Knows s j phase) {result : Shared × Progress}
    (may : j.MayStep s phase result) : c.Proceeds jobs s j result := by
  rcases may.cases with step | ⟨-, rfl⟩
  · exact h.step hj knows step
  · exact ⟨h, Grows.refl s, rfl⟩

end Steps

/-! ## The jobs that are not over -/

/-- A job that is not over: it has not crashed, and its ticket is not the committed one unless it has only
to finish. -/
structure Live (c : Stage) (jobs : List Job) (crashed : List Ticket) (s : Shared) (task : Task) :
    Prop where
  known : task.job ∈ jobs
  uncrashed : task.job.ticket ∉ crashed
  knows : c.Knows s task.job task.phase
  uncommitted : task.phase = .finish ∨ task.job.ticket ≠ s.synchronizer.committed

/-- The given tasks are the jobs that are not over, each of them once. -/
structure Tracks (c : Stage) (jobs : List Job) (crashed : List Ticket) (s : Shared)
    (tasks : List Task) : Prop where
  distinct : (tasks.map (·.job.ticket)).Nodup
  live : ∀ task ∈ tasks, c.Live jobs crashed s task
  settled : ∀ j ∈ jobs, (∃ task ∈ tasks, task.job = j) ∨ j.ticket ∈ crashed ∨ c.Decided s j
  crashes : ∀ t ∈ crashed, ∃ j ∈ jobs, j.ticket = t
  uncrashed : s.synchronizer.committed ∉ crashed

variable {task : Task} {rest : List Task}

theorem Tracks.perm {tasks tasks' : List Task} (h : c.Tracks jobs crashed s tasks)
    (p : tasks'.Perm tasks) : c.Tracks jobs crashed s tasks' := by
  refine ⟨((p.map _).nodup_iff).2 h.distinct, fun x hx => h.live x (p.mem_iff.1 hx), fun i hi => ?_,
    h.crashes, h.uncrashed⟩
  rcases h.settled i hi with ⟨x, hx, e⟩ | done
  · exact Or.inl ⟨x, p.mem_iff.2 hx, e⟩
  · exact Or.inr done

/-- The jobs that do not make the step. -/
theorem Tracks.others (h : c.Tracks jobs crashed s (task :: rest)) (g : Grows s s')
    (committed : s'.synchronizer.committed = s.synchronizer.committed ∨
      s'.synchronizer.committed = task.job.ticket) :
    (rest.map (·.job.ticket)).Nodup ∧ (∀ x ∈ rest, x.job.ticket ≠ task.job.ticket) ∧
      ∀ x ∈ rest, c.Live jobs crashed s' x := by
  obtain ⟨fresh, distinct⟩ := List.nodup_cons.1 h.distinct
  have apart (x : Task) (hx : x ∈ rest) : x.job.ticket ≠ task.job.ticket := by
    intro same
    exact fresh (List.mem_map.2 ⟨x, hx, same⟩)
  refine ⟨distinct, apart, fun x hx => ?_⟩
  have live := h.live x (List.mem_cons_of_mem _ hx)
  refine ⟨live.known, live.uncrashed, live.knows.grows g, ?_⟩
  rcases live.uncommitted with finish | ne
  · exact Or.inl finish
  · rcases committed with e | e
    · exact Or.inr (e ▸ ne)
    · exact Or.inr (e ▸ apart x hx)

/-- A job that goes on takes its own place. -/
theorem Tracks.advance (h : c.Tracks jobs crashed s (task :: rest)) (early : task.phase ≠ .finish)
    {phase : Phase} (step : c.Proceeds jobs s task.job (s', .goOn phase)) :
    c.Tracks jobs crashed s' ({ job := task.job, phase } :: rest) := by
  obtain ⟨-, grows, knows, committed⟩ := step
  have mine := h.live task List.mem_cons_self
  obtain ⟨-, -, others⟩ := h.others grows (committed.imp_right (·.2))
  refine ⟨h.distinct, fun x hx => ?_, fun i hi => ?_, h.crashes, ?_⟩
  · rcases List.mem_cons.1 hx with rfl | hx
    · refine ⟨mine.known, mine.uncrashed, knows, ?_⟩
      rcases committed with same | ⟨finish, -⟩
      · exact Or.inr (same ▸ mine.uncommitted.resolve_left early)
      · exact Or.inl finish
    · exact others x hx
  · rcases h.settled i hi with ⟨x, hx, rfl⟩ | crash | done
    · rcases List.mem_cons.1 hx with rfl | hx
      · exact Or.inl ⟨_, List.mem_cons_self, rfl⟩
      · exact Or.inl ⟨x, List.mem_cons_of_mem _ hx, rfl⟩
    · exact Or.inr (Or.inl crash)
    · exact Or.inr (Or.inr (done.grows grows))
  · rcases committed with same | ⟨-, own⟩
    · rw [same]
      exact h.uncrashed
    · rw [own]
      exact mine.uncrashed

/-- A job that is over needs no place any more. -/
theorem Tracks.finish (h : c.Tracks jobs crashed s (task :: rest))
    (step : c.Proceeds jobs s task.job (s', .ended)) : c.Tracks jobs crashed s' rest := by
  obtain ⟨-, grows, decided, same⟩ := step
  obtain ⟨distinct, -, others⟩ := h.others grows (Or.inl same)
  refine ⟨distinct, others, fun i hi => ?_, h.crashes, same ▸ h.uncrashed⟩
  rcases h.settled i hi with ⟨x, hx, rfl⟩ | crash | done
  · rcases List.mem_cons.1 hx with rfl | hx
    · exact Or.inr (Or.inr decided)
    · exact Or.inl ⟨x, hx, rfl⟩
  · exact Or.inr (Or.inl crash)
  · exact Or.inr (Or.inr (done.grows grows))

/-- A job that crashes has not committed, for it has not come to its end. -/
theorem Tracks.crash (h : c.Tracks jobs crashed s (task :: rest)) (early : task.phase ≠ .finish)
    (step : c.Proceeds jobs s task.job (s', .crashed)) :
    c.Tracks jobs (task.job.ticket :: crashed) s' rest := by
  obtain ⟨-, grows, same⟩ := step
  have mine := h.live task List.mem_cons_self
  obtain ⟨distinct, apart, others⟩ := h.others grows (Or.inl same)
  refine ⟨distinct, fun x hx => ?_, fun i hi => ?_, fun t ht => ?_, ?_⟩
  · have live := others x hx
    refine ⟨live.known, ?_, live.knows, live.uncommitted⟩
    simp [apart x hx, live.uncrashed]
  · rcases h.settled i hi with ⟨x, hx, rfl⟩ | crash | done
    · rcases List.mem_cons.1 hx with rfl | hx
      · exact Or.inr (Or.inl List.mem_cons_self)
      · exact Or.inl ⟨x, hx, rfl⟩
    · exact Or.inr (Or.inl (List.mem_cons_of_mem _ crash))
    · exact Or.inr (Or.inr (done.grows grows))
  · rcases List.mem_cons.1 ht with rfl | ht
    · exact ⟨task.job, mine.known, rfl⟩
    · exact h.crashes t ht
  · have uncommitted := mine.uncommitted.resolve_left early
    rw [same, List.mem_cons]
    rintro (own | crash)
    · exact uncommitted own.symm
    · exact h.uncrashed crash

theorem Tracks.grows {tasks : List Task} (h : c.Tracks jobs crashed s tasks) (g : Grows s s')
    (same : s'.synchronizer.committed = s.synchronizer.committed) :
    c.Tracks jobs crashed s' tasks := by
  refine ⟨h.distinct, fun x hx => ?_, fun i hi => ?_, h.crashes, same ▸ h.uncrashed⟩
  · have live := h.live x hx
    exact ⟨live.known, live.uncrashed, live.knows.grows g, same ▸ live.uncommitted⟩
  · exact (h.settled i hi).imp_right (Or.imp_right (·.grows g))

/-- One more job is scheduled; its ticket is new. -/
theorem Tracks.schedule {tasks : List Task} (h : c.Tracks jobs crashed s tasks) (j : Job)
    (newest : ∀ i ∈ jobs, i.ticket < j.ticket) (above : s.synchronizer.committed < j.ticket) :
    c.Tracks (jobs ++ [j]) crashed s ({ job := j } :: tasks) := by
  refine ⟨?_, fun x hx => ?_, fun i hi => ?_, fun t ht => ?_, h.uncrashed⟩
  · refine List.nodup_cons.2 ⟨fun old => ?_, h.distinct⟩
    obtain ⟨x, hx, e⟩ := List.mem_map.1 old
    exact Nat.ne_of_lt (newest _ (h.live x hx).known) e
  · rcases List.mem_cons.1 hx with rfl | hx
    · refine ⟨List.mem_append_right _ (List.mem_singleton.2 rfl), fun crash => ?_, trivial,
        Or.inr (Nat.ne_of_gt above)⟩
      obtain ⟨i, hi, e⟩ := h.crashes _ crash
      exact Nat.ne_of_lt (newest i hi) e
    · have live := h.live x hx
      exact ⟨List.mem_append_left _ live.known, live.uncrashed, live.knows, live.uncommitted⟩
  · rcases List.mem_append.1 hi with hi | hi
    · rcases h.settled i hi with ⟨x, hx, e⟩ | done
      · exact Or.inl ⟨x, List.mem_cons_of_mem _ hx, e⟩
      · exact Or.inr done
    · exact Or.inl ⟨_, List.mem_cons_self, (List.mem_singleton.1 hi).symm⟩
  · obtain ⟨i, hi, e⟩ := h.crashes t ht
    exact ⟨i, List.mem_append_left _ hi, e⟩

/-! ## The states of a run -/

/-- What holds of a reactor after the jobs `jobs` have been scheduled and some have crashed. -/
structure Consistent (c : Stage) (jobs : List Job) (crashed : List Ticket) (r : Reactor) : Prop where
  holds : c.Holds jobs r.shared
  accounted : r.pool.Accounted
  tracks : c.Tracks jobs crashed r.shared r.pool.jobs

variable {r : Reactor} {w : Nat}

theorem Consistent.conclude (h : c.Consistent jobs crashed r)
    (running : r.pool.workers[w]? = some (.running task)) {progress : Progress}
    (may : task.job.MayStep r.shared task.phase (s', progress)) :
    c.Consistent jobs (progress.crashes task.job.ticket ++ crashed)
      (r.conclude w task.job (s', progress)) := by
  have mine := h.tracks.live task (WorkerPool.mem_jobs_of_running running)
  have step := h.holds.mayStep mine.known mine.knows may
  cases progress with
  | goOn phase =>
    obtain ⟨rest, before, after⟩ := WorkerPool.perm_jobs_advance running { job := task.job, phase }
    refine ⟨step.1, h.accounted.advance running _, Tracks.perm ?_ after⟩
    exact (h.tracks.perm before.symm).advance (may.early nofun) step
  | ended =>
    obtain ⟨rest, before, after⟩ := WorkerPool.perm_jobs_finish running
    exact ⟨step.1, h.accounted.finish running, ((h.tracks.perm before.symm).finish step).perm after⟩
  | crashed =>
    obtain ⟨rest, before, after⟩ := WorkerPool.perm_jobs_finish running
    have tracks := ((h.tracks.perm before.symm).crash (may.early nofun) step).perm after
    exact ⟨step.1.noteAll _, h.accounted.finish running, tracks.grows ((Grows.refl s').noteAll _) rfl⟩

/-- A worker that takes or counts off a job leaves the jobs and the shared state alone. -/
theorem Consistent.pool (h : c.Consistent jobs crashed r) {pool : WorkerPool Task}
    (accounted : pool.Accounted) (same : pool.jobs.Perm r.pool.jobs) :
    c.Consistent jobs crashed { r with pool } :=
  ⟨h.holds, accounted, h.tracks.perm same⟩

theorem Holds.schedule (h : c.Holds jobs s) (j : Job) (events : List Event) :
    c.Holds (jobs ++ [j])
      (({ s with synchronizer := s.synchronizer.nextTicket.2 }.register
        s.synchronizer.nextTicket.1).noteAll events) := by
  have holds : c.Holds (jobs ++ [j]) { s with synchronizer := s.synchronizer.nextTicket.2 } := by
    obtain ⟨spans, draws, source⟩ := h.drawn
    refine { h with
      issued := by simp [Synchronizer.nextTicket, h.issued, Nat.add_assoc]
      drawn := ⟨spans, ⟨draws.cell, draws.sound⟩, source.imp_right ?_⟩
      cancelled := fun t ht => (h.cancelled t ht).imp_right ?_ }
    · rintro ⟨i, hi, drawnFor⟩
      exact ⟨i, List.mem_append_left _ hi, drawnFor⟩
    · rintro ⟨i, hi, cancels⟩
      exact ⟨i, List.mem_append_left _ hi, cancels⟩
  unfold Shared.register
  split
  · exact { holds with }
  · exact holds.noteAll events

theorem grows_schedule (s : Shared) (events : List Event) :
    Grows s (({ s with synchronizer := s.synchronizer.nextTicket.2 }.register
      s.synchronizer.nextTicket.1).noteAll events) := by
  unfold Shared.register
  split <;> exact ⟨fun _ ht => ht, Nat.le_refl _⟩

theorem committed_schedule (s : Shared) (events : List Event) :
    (({ s with synchronizer := s.synchronizer.nextTicket.2 }.register
      s.synchronizer.nextTicket.1).noteAll events).synchronizer.committed =
        s.synchronizer.committed := by
  unfold Shared.register
  split <;> rfl

/-- What is committed is not above the tickets given out. -/
theorem Holds.committed_le (h : c.Holds jobs s)
    (bounded : ∀ i ∈ jobs, i.ticket ≤ c.issued + jobs.length) :
    s.synchronizer.committed ≤ c.issued + jobs.length := by
  obtain ⟨-, -, ⟨old, -⟩ | ⟨i, hi, ticket, -⟩⟩ := h.drawn
  · exact Nat.le_trans old (Nat.le_add_right ..)
  · exact ticket ▸ bounded i hi

/-- The settings, the view and the tickets given out are those of the reactor `r₀`. -/
structure StartsFrom (c : Stage) (r₀ : Reactor) : Prop where
  settings : r₀.shared.settings = c.settings
  view : r₀.shared.editor.view = c.view
  issued : r₀.shared.synchronizer.issued = c.issued

theorem Consistent.select {r₀ : Reactor} (from₀ : c.StartsFrom r₀) {es : List SelectionEvent}
    (h : c.Consistent (r₀.scheduled es) crashed r) (e : SelectionEvent) :
    c.Consistent (r₀.scheduled (es ++ [e])) crashed (r.select e.view e.selection).2 := by
  have bounded : ∀ i ∈ r₀.scheduled es, i.ticket ≤ c.issued + (r₀.scheduled es).length := by
    intro i hi
    rw [Reactor.scheduled, Reactor.length_jobsFrom, ← from₀.issued]
    exact (Reactor.ticket_jobsFrom hi).2
  rw [Reactor.scheduled_snoc, from₀.settings, from₀.view, from₀.issued]
  generalize r₀.scheduled es = jobs at h bounded ⊢
  rcases r.select_cases e with ⟨ignored, events, result⟩ | ⟨offset, length, events, text, result⟩
  · rw [h.holds.settings, h.holds.view] at ignored
    rw [result, ignored]
    exact ⟨h.holds.noteAll events, h.accounted,
      h.tracks.grows ((Grows.refl _).noteAll events) rfl⟩
  · rw [h.holds.settings, h.holds.view] at text
    have ticket : r.shared.synchronizer.nextTicket.1 = c.issued + jobs.length + 1 :=
      congrArg (· + 1) h.holds.issued
    rw [result, text, ← ticket]
    have same := committed_schedule r.shared events
    refine ⟨h.holds.schedule _ events, h.accounted.execute _,
      Tracks.perm ?_ (WorkerPool.perm_jobs_execute r.pool _)⟩
    refine (h.tracks.grows (grows_schedule r.shared events) same).schedule _ (fun i hi => ?_) ?_
    · rw [ticket]
      exact Nat.lt_succ_of_le (bounded i hi)
    · refine Nat.lt_of_le_of_lt (Nat.le_of_eq same) ?_
      rw [ticket]
      exact Nat.lt_succ_of_le (h.holds.committed_le bounded)

theorem Consistent.run {r₀ : Reactor} (from₀ : c.StartsFrom r₀) (h : c.Consistent [] [] r₀)
    {es : List SelectionEvent} (run : r₀.CrashRun es crashed r) :
    c.Consistent (r₀.scheduled es) crashed r := by
  induction run with
  | start => exact h
  | select _ e ih => exact ih.select from₀ e
  | receive _ w ih => exact ih.pool (ih.accounted.receive w) (WorkerPool.perm_jobs_receive _ w)
  | done _ w ih => exact ih.pool (ih.accounted.done w) (WorkerPool.perm_jobs_done _ w)
  | work _ running may ih => exact ih.conclude running may

/-! ## What is drawn -/

section Idle

variable (h : c.Consistent jobs crashed r)

include h

/-- The spans drawn are those of a job that has not crashed, or they are the old ones. -/
theorem Consistent.drawn_source :
    r.undrawn = c.base ∧
      (r.shared.synchronizer.committed ≤ c.issued ∧ r.drawn = c.spans ∨
        ∃ j ∈ jobs, j.ticket = r.shared.synchronizer.committed ∧ j.ticket ∉ crashed ∧
          c.spans? j = some r.drawn) := by
  obtain ⟨spans, draws, source⟩ := h.holds.drawn
  obtain ⟨rfl, undrawn⟩ := Reactor.drawn_of_draws h.holds.shown draws
  refine ⟨undrawn, source.imp_right ?_⟩
  rintro ⟨j, hj, ticket, found⟩
  exact ⟨j, hj, ticket, ticket ▸ h.tracks.uncrashed, found⟩

/-- When all jobs are over, one that picks an identifier, has not crashed and is not cancelled has come to
its commit. -/
theorem Consistent.committed_of_live (idle : r.pool.isIdle = true) (hj : j ∈ jobs) (picks : c.Picks j)
    (uncrashed : j.ticket ∉ crashed) (live : r.shared.isCancelled j.ticket = false) :
    j.ticket ≤ r.shared.synchronizer.committed := by
  rcases h.tracks.settled j hj with ⟨task, ht, -⟩ | crash | nothing | cancelled | reached
  · rw [h.accounted.jobs_eq_nil idle] at ht
    cases ht
  · exact absurd crash uncrashed
  · exact absurd picks nothing
  · rw [live] at cancelled
    cases cancelled
  · exact reached

/-- Of the jobs that pick an identifier and have not crashed the last one has drawn its spans, unless it is
cancelled. -/
theorem Consistent.drawn_of_latest (idle : r.pool.isIdle = true)
    (unique : ∀ i ∈ jobs, ∀ j ∈ jobs, i.ticket = j.ticket → i = j) (new : c.issued < j.ticket)
    (hj : j ∈ jobs) (picks : c.Picks j) (uncrashed : j.ticket ∉ crashed)
    (latest : ∀ i ∈ jobs, j.ticket < i.ticket → c.Picks i → i.ticket ∈ crashed)
    (live : r.shared.isCancelled j.ticket = false) : c.spans? j = some r.drawn := by
  have reached := h.committed_of_live idle hj picks uncrashed live
  obtain ⟨-, ⟨old, -⟩ | ⟨i, hi, ticket, sound, found⟩⟩ := h.drawn_source
  · exact absurd (Nat.le_trans reached old) (Nat.not_le_of_lt new)
  · have same : i = j := by
      refine unique i hi j hj (Nat.le_antisymm (Nat.le_of_not_lt fun newer => ?_) (ticket ▸ reached))
      exact sound (latest i hi newer (picks_of_spans? found))
    rwa [← same]

end Idle

end Stage

/-! ## Steady states -/

/-- All jobs are over, and the editor has a parse, an open document and the healthy model `cell` to draw
in. -/
structure Reactor.Steady (r : Reactor) (parse : Parse) (document : Document) (id : ModelId)
    (cell : ModelCell) : Prop where
  idle : r.pool.isIdle = true
  parse : r.shared.editor.parse = some parse
  document : r.shared.editor.document = some document
  shown : r.shared.editor.host.shown = some id
  found : r.shared.editor.host.cell? id = some cell
  healthy : cell.Healthy
  numbered : cell.model.Numbered
  sound : r.shared.synchronizer.poisoned = false

/-- The stage on which the jobs work from a steady state on. -/
def Reactor.stage (r : Reactor) (parse : Parse) (document : Document) (id : ModelId) : Stage where
  settings := r.shared.settings
  pipeline := r.shared.pipeline
  view := r.shared.editor.view
  parse := parse
  document := document
  model := id
  base := r.undrawn
  spans := r.drawn
  issued := r.shared.synchronizer.issued

theorem Reactor.Steady.consistent {r : Reactor} {parse : Parse} {document : Document} {id : ModelId}
    {cell : ModelCell} (steady : r.Steady parse document id cell) (reached : r.Reached)
    (discards : r.shared.settings.discardSuperseded = true) :
    (r.stage parse document id).Consistent [] [] r := by
  have sane := reached.sane
  have shown : r.shownModel? = some (id, cell.model) := by
    simp [Reactor.shownModel?, steady.shown, steady.found]
  refine ⟨⟨rfl, rfl, rfl, steady.parse, steady.document, steady.shown,
    sane.ticketed.discards.trans discards, rfl, ⟨r.drawn, ⟨⟨cell, steady.found, steady.healthy, ?_⟩,
      steady.sound⟩, Or.inl ⟨sane.ticketed.committed, rfl⟩⟩,
    fun t ht => Or.inl (sane.ticketed.cancelled t ht)⟩, sane.accounted, ?_⟩
  · refine ⟨?_, ?_, steady.numbered⟩
    · simp only [Reactor.stage, Reactor.drawn, shown]
    · simp only [Reactor.stage, Reactor.undrawn, shown]
  · rw [sane.accounted.jobs_eq_nil steady.idle]
    exact ⟨List.nodup_nil, by simp, by simp, by simp, by simp⟩

end Highlight
