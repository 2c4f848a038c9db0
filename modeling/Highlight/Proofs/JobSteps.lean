import Highlight.Reactor.Job

/-!
# The steps of a job

A step of a job gives up, reads something and goes on, cancels the older jobs in flight, searches, commits,
or takes the job out of the jobs in flight. `Job.StepCase` are these ways with their guards, and what any step
preserves is shown for each of them. Every step is one of these (`Job.step_cases`), also a search during which
other jobs go on (`Job.searchUnder_cases`).
-/

namespace Highlight

/-- The shared state with what a commit has left behind. -/
def Shared.withCommit (s : Shared) (r : CommitResult) : Shared :=
  { s with synchronizer := r.synchronizer, editor := { s.editor with host := r.host } }

namespace Job

/-- A job in some phase gives up, and reports why. -/
inductive Stops (j : Job) (s : Shared) : Phase → List Event → Prop where
  | cancelledEarly (cancelled : s.isCancelled j.ticket = true) :
    Stops j s .start [.cancelledEarly j.ticket]
  | unparsed (unparsed : s.editor.parse = none) : Stops j s .readParse [.unparsed j.ticket]
  | unsupported {parse : Parse} (parsed : s.editor.parse = some parse)
    (unsupported : parse.snapshot.language.supportsOccurrences = false) :
    Stops j s .readParse [.unsupported j.ticket parse.snapshot.language]
  | closed (parse : Parse) (closed : s.editor.document = none) :
    Stops j s (.readDocument parse) [.documentClosed j.ticket]
  | missed {parse : Parse} {d : Document} {why : Miss} (opened : s.editor.document = some d)
    (miss : elementAt parse.snapshot d.text (.between parse.snapshot.source d.text) j.offset j.length
      s.settings.mode = .error why) :
    Stops j s (.readDocument parse) (why.events ++ [.nothingAt j.ticket j.offset])
  | cancelledSearching (spans : List Span) (cancelled : s.isCancelled j.ticket = true) :
    Stops j s (.recheck spans) [.supersededSearching j.ticket]

/-- A job goes on from one phase to the next, and has changed nothing. -/
inductive Reads (j : Job) (s : Shared) : Phase → Phase → Prop where
  | start (live : s.isCancelled j.ticket = false) : Reads j s .start .readParse
  | parse {parse : Parse} (parsed : s.editor.parse = some parse)
    (supported : parse.snapshot.language.supportsOccurrences = true) :
    Reads j s .readParse (.readDocument parse)
  | document {parse : Parse} {d : Document} {element : Place} (opened : s.editor.document = some d)
    (picked : elementAt parse.snapshot d.text (.between parse.snapshot.source d.text) j.offset j.length
      s.settings.mode = .ok element) :
    Reads j s (.readDocument parse)
      (.supersede ⟨parse, d.text, .between parse.snapshot.source d.text, element⟩)
  /-- Where superseded jobs are kept, no older one is cancelled. -/
  | keep (target : Target) (keeps : s.settings.discardSuperseded = false) :
    Reads j s (.supersede target) (.search target)
  | recheck (spans : List Span) (live : s.isCancelled j.ticket = false) :
    Reads j s (.recheck spans) (.pickModel spans)
  | model (spans : List Span) : Reads j s (.pickModel spans) (.commit spans s.editor.host.shown)

/-- What a step of a job can do, each way with the guard under which it happens. -/
inductive StepCase (j : Job) (s : Shared) : Phase → Shared × Progress → Prop where
  | stops {phase : Phase} {events : List Event} (why : j.Stops s phase events) :
    StepCase j s phase (s.noteAll events, .goOn .finish)
  | reads {phase next : Phase} (reads : j.Reads s phase next) : StepCase j s phase (s, .goOn next)
  | supersedes (target : Target) (discards : s.settings.discardSuperseded = true) :
    StepCase j s (.supersede target) (s.supersede j.ticket, .goOn (.search target))
  /-- The search has ended, and a token that it has seen cancelled is so at its end. -/
  | finds {t : Target} {history : Nat → Bool} {report : Report}
    (seen : ∀ n, history n = true → s.isCancelled j.ticket = true)
    (found : s.pipeline.find history t.parse.snapshot t.live t.mapping t.element = .ok report) :
    StepCase j s (.search t)
      (s.noteAll (s.pipeline.events t.parse.number t.parse.snapshot t.element report),
        .goOn (.recheck report.spans))
  | searchCrashes {t : Target} {history : Nat → Bool}
    (crash : s.pipeline.find history t.parse.snapshot t.live t.mapping t.element = .error .crash) :
    StepCase j s (.search t) (s, .crashed)
  | commits {spans : List Span} {picked : Option ModelId} {r : CommitResult}
    (done : s.synchronizer.commitTo s.editor.host picked j.ticket spans = r)
    (survives : r.outcome ≠ .crashed) :
    StepCase j s (.commit spans picked)
      (((s.withCommit r).noteAll (r.events j.ticket)).noteAll (commitEvents j.ticket r.outcome),
        .goOn .finish)
  | commitCrashes {spans : List Span} {picked : Option ModelId} {r : CommitResult}
    (done : s.synchronizer.commitTo s.editor.host picked j.ticket spans = r)
    (crash : r.outcome = .crashed) :
    StepCase j s (.commit spans picked) ((s.withCommit r).noteAll (r.events j.ticket), .crashed)
  | finishes : StepCase j s .finish (s.unregister j.ticket, .ended)

variable (j : Job) {s : Shared} {phase : Phase}

theorem readParse_cases (s : Shared) : j.StepCase s .readParse (j.readParse s) := by
  unfold readParse
  split
  · rename_i unparsed
    exact .stops (.unparsed unparsed)
  · rename_i parse parsed
    by_cases supported : parse.snapshot.language.supportsOccurrences = true
    · rw [if_pos supported]
      exact .reads (.parse parsed supported)
    · rw [if_neg supported]
      exact .stops (.unsupported parsed (by simpa using supported))

theorem readDocument_cases (s : Shared) (parse : Parse) :
    j.StepCase s (.readDocument parse) (j.readDocument s parse) := by
  unfold readDocument
  split
  · rename_i closed
    exact .stops (.closed parse closed)
  · rename_i d opened
    dsimp only
    split
    · rename_i why miss
      exact .stops (.missed opened miss)
    · rename_i element picked
      exact .reads (.document opened picked)

/-- The search of a job, whatever other jobs do in the meantime. -/
theorem searchUnder_cases {history : Nat → Bool}
    (seen : ∀ n, history n = true → s.isCancelled j.ticket = true) (target : Target) :
    j.StepCase s (.search target) (searchUnder history s target) := by
  simp only [searchUnder]
  split
  · rename_i crash
    exact .searchCrashes crash
  · rename_i report found
    exact .finds seen found

theorem commit_cases (s : Shared) (spans : List Span) (picked : Option ModelId) :
    j.StepCase s (.commit spans picked) (j.commit s spans picked) := by
  unfold commit
  generalize done : s.synchronizer.commitTo s.editor.host picked j.ticket spans = r
  dsimp only
  split
  · rename_i crash
    exact .commitCrashes done crash
  · rename_i survives
    exact .commits done survives

theorem step_cases (s : Shared) (phase : Phase) : j.StepCase s phase (j.step s phase) := by
  cases phase with
  | start =>
    simp only [step]
    split
    · rename_i cancelled
      exact .stops (.cancelledEarly cancelled)
    · rename_i live
      exact .reads (.start (by simpa using live))
  | readParse => exact j.readParse_cases s
  | readDocument parse => exact j.readDocument_cases s parse
  | supersede target =>
    simp only [step]
    split
    · rename_i discards
      exact .supersedes target discards
    · rename_i keeps
      exact .reads (.keep target (by simpa using keeps))
  | search target => exact j.searchUnder_cases (fun _ cancelled => cancelled) target
  | recheck spans =>
    simp only [step]
    split
    · rename_i cancelled
      exact .stops (.cancelledSearching spans cancelled)
    · rename_i live
      exact .reads (.recheck spans (by simpa using live))
  | pickModel spans => exact .reads (.model spans)
  | commit spans picked => exact j.commit_cases s spans picked
  | finish => exact .finishes

variable {j}

/-- A job with a reason to give up does so. -/
theorem Stops.step_eq {events : List Event} (why : j.Stops s phase events) :
    j.step s phase = (s.noteAll events, .goOn .finish) := by
  cases why with
  | cancelledEarly cancelled | cancelledSearching _ cancelled => simp only [step, cancelled, if_true]
  | unparsed unparsed => simp only [step, readParse, unparsed]
  | unsupported parsed unsupported =>
    simp only [step, readParse, parsed, unsupported, Bool.false_eq_true, if_false]
  | closed _ closed => simp only [step, readDocument, closed]
  | missed opened miss => simp only [step, readDocument, opened, miss]

/-- A job with no such reason goes on. -/
theorem Reads.step_eq {next : Phase} (reads : j.Reads s phase next) :
    j.step s phase = (s, .goOn next) := by
  cases reads with
  | start live | recheck _ live => simp only [step, live, Bool.false_eq_true, if_false]
  | parse parsed supported => simp only [step, readParse, parsed, supported, if_true]
  | document opened picked => simp only [step, readDocument, opened, picked]
  | keep _ keeps => simp only [step, keeps, Bool.false_eq_true, if_false]
  | model => rfl

/-! ## Steps that may crash -/

/-- What a step of a job can come to, where its search may crash. -/
inductive MayStep (j : Job) (s : Shared) : Phase → Shared × Progress → Prop where
  | step (phase : Phase) : MayStep j s phase (j.step s phase)
  | search (target : Target) (history : Nat → Bool)
    (seen : ∀ n, history n = true → s.isCancelled j.ticket = true) :
    MayStep j s (.search target) (searchUnder history s target)
  | crash (target : Target) : MayStep j s (.search target) (s, .crashed)

/-- A step that may crash is one of a job, or the search just crashes. -/
theorem MayStep.cases {result : Shared × Progress} (may : j.MayStep s phase result) :
    j.StepCase s phase result ∨ (∃ target, phase = .search target) ∧ result = (s, .crashed) := by
  cases may with
  | step => exact Or.inl (j.step_cases s phase)
  | search target history seen => exact Or.inl (j.searchUnder_cases seen target)
  | crash target => exact Or.inr ⟨⟨target, rfl⟩, rfl⟩

/-- A job that has only to finish ends. -/
theorem MayStep.early {result : Shared × Progress} (may : j.MayStep s phase result)
    (goesOn : result.2 ≠ .ended) : phase ≠ .finish := by
  rintro rfl
  cases may with
  | step => exact goesOn rfl

/-- A step cancels only older jobs, and takes no cancellation back. -/
theorem StepCase.cancelled {result : Shared × Progress} (step : j.StepCase s phase result) :
    s.cancelled ⊆ result.1.cancelled ∧
      ∀ t ∈ result.1.cancelled, t ∈ s.cancelled ∨ t < j.ticket := by
  cases step with
  | supersedes =>
    refine ⟨List.subset_append_left .., fun t ht => ?_⟩
    exact (List.mem_append.1 ht).imp_right fun older => by simpa using (List.mem_filter.1 older).2
  | stops | reads | finds | searchCrashes | commits | commitCrashes | finishes =>
    exact ⟨List.Subset.refl _, fun _ ht => Or.inl ht⟩

end Job

end Highlight
