import Highlight.Proofs.CrashRun

/-!
# The latest selection wins

While the editor stays as it is and nothing crashes, a reactor that refuses superseded results ends up with
the highlights of the last selection that picks an identifier, however its jobs interleave.

A run in which nothing can crash is a run with crashes in which none happens (`Stage.Consistent.crashRun`),
and then every job that picks an identifier finds spans. So the job of the last selection that picks one is
neither cancelled nor refused, and once it is over its spans stay (`Stage.Consistent.drawn_of_last`).
-/

namespace Highlight

namespace Stage

variable {c : Stage} {jobs : List Job} {crashed : List Ticket} {s : Shared} {j : Job} {phase : Phase}

/-! ## Where nothing crashes -/

theorem not_picks_of_none (crashFree : c.pipeline.CrashFree c.parse.snapshot)
    (nothing : c.spans? j = none) : ¬ c.Picks j := by
  rintro ⟨element, picked⟩
  have found : (c.spans? j).isSome = true := crashFree.spansFor?_isSome picked
  rw [nothing] at found
  cases found

/-- The search for what a job has picked finds something, and its commit draws in a healthy model. -/
theorem Holds.survives (h : c.Holds jobs s) (crashFree : c.pipeline.CrashFree c.parse.snapshot)
    (hj : j ∈ jobs) (knows : c.Knows s j phase) {result : Shared × Progress}
    (step : j.StepCase s phase result) : result.2 ≠ .crashed := by
  cases step with
  | searchCrashes crash =>
    obtain ⟨element, picked, rfl⟩ := knows
    obtain ⟨report, found⟩ :=
      crashFree.find_eq_ok _ c.document.text c.mapping (mem_places_of_elementAt picked)
    rw [h.pipeline, found] at crash
    cases crash
  | commitCrashes done crash => exact absurd crash (h.withCommit hj knows done).2.2
  | stops | reads | supersedes | finds | commits | finishes => exact Progress.noConfusion

variable {r : Reactor} {w : Nat} {task : Task}

theorem Consistent.survives (h : c.Consistent jobs crashed r)
    (crashFree : c.pipeline.CrashFree c.parse.snapshot)
    (running : r.pool.workers[w]? = some (.running task)) {result : Shared × Progress}
    (step : task.job.StepCase r.shared task.phase result) : result.2 ≠ .crashed := by
  have live := h.tracks.live task (WorkerPool.mem_jobs_of_running running)
  exact h.holds.survives crashFree live.known live.knows step

theorem Consistent.crashesAt_eq_nil (h : c.Consistent jobs crashed r)
    (crashFree : c.pipeline.CrashFree c.parse.snapshot) (w : Nat) : r.crashesAt w = [] := by
  unfold Reactor.crashesAt
  split
  · rename_i task running
    exact Progress.crashes_eq_nil (h.survives crashFree running (task.job.step_cases ..)) _
  · rfl

/-- A run in which nothing can crash is one with no crashes. -/
theorem Consistent.crashRun {r₀ : Reactor} (h : c.Consistent [] [] r₀)
    (crashFree : c.pipeline.CrashFree c.parse.snapshot) (from₀ : c.StartsFrom r₀)
    {es : List SelectionEvent} (run : r₀.Run es r) : r₀.CrashRun es [] r := by
  induction run with
  | start => exact .start
  | select _ e ih => exact ih.select e
  | work _ w ih =>
    have next := ih.step w
    rwa [(h.run from₀ ih).crashesAt_eq_nil crashFree w] at next
  | @search _ r' _ w task target running searching history seen ih =>
    have step := task.job.searchUnder_cases seen target
    have may := Job.MayStep.search target history seen
    rw [← searching] at step may
    have survives := (h.run from₀ ih).survives crashFree running step
    generalize Job.searchUnder history r'.shared target = result at may survives ⊢
    have next := ih.work running may
    rwa [Progress.crashes_eq_nil survives] at next

/-! ## What is drawn -/

/-- When all jobs are over and none has crashed, the last one that picks an identifier has drawn its
spans. -/
theorem Consistent.drawn_of_last (h : c.Consistent jobs [] r) (idle : r.pool.isIdle = true)
    (unique : ∀ i ∈ jobs, ∀ j ∈ jobs, i.ticket = j.ticket → i = j) (new : c.issued < j.ticket)
    (hj : j ∈ jobs) (picks : c.Picks j) (last : ∀ i ∈ jobs, j.ticket < i.ticket → ¬ c.Picks i) :
    c.spans? j = some r.drawn := by
  have live : r.shared.isCancelled j.ticket = false := by
    rw [Bool.eq_false_iff]
    intro cancelled
    rcases h.holds.cancelled _ (List.contains_iff_mem.1 cancelled) with old | ⟨i, hi, newer, hit⟩
    · exact absurd old (Nat.not_le_of_lt new)
    · exact last i hi newer hit
  exact h.drawn_of_latest idle unique new hj picks List.not_mem_nil
    (fun i hi newer hit => absurd hit (last i hi newer)) live

/-- A job that picks no identifier only writes to the journal and leaves the jobs in flight. -/
theorem Knows.step_of_not_picks (knows : c.Knows s j phase) (nothing : ¬ c.Picks j)
    {result : Shared × Progress} (step : j.StepCase s phase result) :
    result.1.cancelled = s.cancelled ∧ result.1.editor = s.editor ∧
      result.1.synchronizer = s.synchronizer := by
  cases step with
  | supersedes =>
    obtain ⟨element, picked, -⟩ := knows
    exact absurd ⟨element, picked⟩ nothing
  | commits | commitCrashes => exact absurd (picks_of_spans? knows.1) nothing
  | stops | reads | finds | searchCrashes | finishes => exact ⟨rfl, rfl, rfl⟩

theorem Consistent.undisturbed_step (h : c.Consistent jobs crashed r)
    (running : r.pool.workers[w]? = some (.running task)) (nothing : ¬ c.Picks task.job) :
    r.Undisturbed (r.step w) := by
  have knows := (h.tracks.live task (WorkerPool.mem_jobs_of_running running)).knows
  obtain ⟨cancelled, editor, synchronizer⟩ :=
    knows.step_of_not_picks nothing (task.job.step_cases r.shared task.phase)
  have kept : (r.step w).shared.cancelled = r.shared.cancelled ∧
      (r.step w).shared.editor = r.shared.editor ∧
      (r.step w).shared.synchronizer = r.shared.synchronizer := by
    simp only [Reactor.step, running, Reactor.advance]
    generalize task.job.step r.shared task.phase = result at cancelled editor synchronizer ⊢
    obtain ⟨s', progress⟩ := result
    cases progress <;> exact ⟨cancelled, editor, synchronizer⟩
  obtain ⟨drawn, undrawn⟩ := Reactor.drawn_congr (congrArg Editor.host kept.2.1)
    (congrArg Synchronizer.held kept.2.2)
  exact ⟨kept.1, drawn, undrawn⟩

theorem Consistent.not_searching (h : c.Consistent jobs crashed r)
    (running : r.pool.workers[w]? = some (.running task)) (nothing : ¬ c.Picks task.job)
    (target : Target) : task.phase ≠ .search target := by
  intro searching
  have knows := (h.tracks.live task (WorkerPool.mem_jobs_of_running running)).knows
  rw [searching] at knows
  obtain ⟨element, picked, -⟩ := knows
  exact nothing ⟨element, picked⟩

end Stage

/-! ## The main statement -/

/-- The latest selection that picks an identifier wins. Take any idle state of a reactor that refuses
superseded results, and let the editor keep its parse, its document and a healthy model from then on, and
let nothing crash. Whatever is selected and however the jobs interleave, once all jobs are over the
highlights drawn are those of the selection with the highest ticket that picks an identifier, and the ones
drawn before if there is no such selection; all other decorations are as they were. At every point on the
way, a selection, or a step of a job that picks no identifier, cancels no job and changes nothing that is
drawn. -/
theorem latest_selection_wins {r₀ r : Reactor} {parse : Parse} {document : Document} {id : ModelId}
    {cell : ModelCell} (reached : r₀.Reached) (steady : r₀.Steady parse document id cell)
    (discards : r₀.shared.settings.discardSuperseded = true)
    (crashFree : r₀.shared.pipeline.CrashFree parse.snapshot) {es : List SelectionEvent}
    (run : r₀.Run es r) :
    let jobs := r₀.scheduled es
    let spans? (j : Job) := r₀.shared.pipeline.spansFor? parse.snapshot document.text
      r₀.shared.settings.mode j.offset j.length
    (r.pool.isIdle = true →
      (∀ j ∈ jobs, ∀ spans, spans? j = some spans →
        (∀ i ∈ jobs, j.ticket < i.ticket → spans? i = none) → r.drawn = spans) ∧
      ((∀ j ∈ jobs, spans? j = none) → r.drawn = r₀.drawn) ∧
      r.undrawn = r₀.undrawn) ∧
    (∀ e : SelectionEvent, r.Undisturbed (r.select e.view e.selection).2) ∧
    (∀ w task, r.pool.workers[w]? = some (.running task) → spans? task.job = none →
      r.Undisturbed (r.step w) ∧ ∀ target, task.phase ≠ .search target) := by
  intro jobs spans?
  have begun := steady.consistent reached discards
  have now := begun.run ⟨rfl, rfl, rfl⟩ (begun.crashRun crashFree ⟨rfl, rfl, rfl⟩ run)
  have picks (j : Job) (nothing : spans? j = none) : ¬ (r₀.stage parse document id).Picks j :=
    Stage.not_picks_of_none crashFree nothing
  obtain ⟨undrawn, source⟩ := now.drawn_source
  refine ⟨fun idle => ⟨fun j hj spans found latest => ?_, fun nothing => ?_, undrawn⟩,
    r.undisturbed_select, fun w task running nothing => ⟨?_, ?_⟩⟩
  · have drawn := now.drawn_of_last idle (fun i hi j hj => Reactor.eq_of_ticket_jobsFrom hi hj)
      (Reactor.ticket_jobsFrom hj).1 hj (Stage.picks_of_spans? found)
      fun i hi newer => picks i (latest i hi newer)
    exact Option.some.inj (drawn.symm.trans found)
  · rcases source with ⟨-, same⟩ | ⟨i, hi, -, -, found⟩
    · exact same
    · exact absurd (Stage.picks_of_spans? found) (picks i (nothing i hi))
  · exact now.undisturbed_step running (picks task.job nothing)
  · exact now.not_searching running (picks task.job nothing)

/-- A parse of the text `a b`. -/
def Parse.twoNames : Parse where
  number := 0
  snapshot :=
    { document := 0
      language := .javaScript
      revision := 0
      source := ['a', ' ', 'b']
      tree := .node ⟨"program", ⟨0, 3⟩, none⟩
        [.node ⟨"identifier", ⟨0, 1⟩, none⟩ [], .node ⟨"identifier", ⟨2, 3⟩, none⟩ []] }

/-- The document that was parsed. -/
def Document.twoNames : Document where
  id := some 0
  text := ['a', ' ', 'b']
  language := .javaScript

/-- A reactor over that document, with nothing highlighted yet. -/
def Reactor.overTwoNames : Reactor :=
  .start
    { view := 0
      document := some .twoNames
      parse := some .twoNames
      host := .ofName "main" true }
    {} .lexical

/-- The names `a` and `b` are selected, and both jobs pick their names. Then the second one goes ahead and
cancels the first, which is about to search. -/
theorem latest_selection_wins_overtaking :
    ∃ r, Reactor.overTwoNames.Run [⟨0, .text 0 0⟩, ⟨0, .text 2 0⟩] r ∧ r.pool.isIdle = true ∧
      r.shared.cancelled = [1] ∧ r.drawn = [⟨2, 1⟩] := by
  have steady : Reactor.overTwoNames.Steady .twoNames .twoNames 0 {} :=
    ⟨rfl, rfl, rfl, rfl, rfl, ⟨rfl, rfl⟩, nofun, rfl⟩
  have begun : Reactor.overTwoNames.Run [] Reactor.overTwoNames := .start
  have run := ((begun.select ⟨0, .text 0 0⟩).select ⟨0, .text 2 0⟩).works
    ([0, 1, 0, 1, 0, 1, 0, 1] ++ List.replicate 7 1 ++ List.replicate 7 0)
  obtain ⟨latest, -, -⟩ := (latest_selection_wins (.start ..) steady rfl
    (Pipeline.crashFree_lexical (by decide +kernel)) run).1 (by decide +kernel)
  refine ⟨_, run, by decide +kernel, by decide +kernel, ?_⟩
  exact latest ⟨2, 2, 0⟩ (by decide +kernel) [⟨2, 1⟩] (by decide +kernel) (by decide +kernel)

end Highlight
