import Highlight.Proofs.DecorationHistory
import Highlight.Proofs.LatestSelection

/-!
# Jobs that fail

A job that a worker carries out while all others stand still (`Reactor.carryOut`) ends after at most nine
steps. Whether it changes a decoration model depends on how far it gets:

* without an identifier to search for it never comes to a commit (`Job.run_of_not_picks`);
* with one it commits what its search reports (`Job.Picks.run_of_report`), unless the search crashes.

A search that fails reports an empty list. The job does not tell it from a search that found nothing and
commits it. So of all failures this one changes what is drawn: `failed_job_spares_models` says exactly when a
job that meets a failure leaves all models as they are, and `failed_search_clears_highlights` is a job that
does not.
-/

namespace Highlight

/-! ## Carrying a job out -/

def Progress.isOver : Progress → Bool
  | .goOn _ => false
  | .ended | .crashed => true

namespace Job

/-- One more step, unless the job is over. -/
def resume (j : Job) : Shared × Progress → Shared × Progress
  | (s, .goOn phase) => j.step s phase
  | result => result

/-- The job from its start to its end; it has nine phases. -/
def run (j : Job) (s : Shared) : Shared × Progress := Nat.repeat j.resume 9 (s, .goOn .start)

end Job

namespace Reactor

/-- The job that worker `w` has taken and not begun. -/
def starting? (r : Reactor) (w : Nat) : Option Job :=
  match r.pool.workers[w]? with
  | some (.running ⟨job, .start⟩) => some job
  | _ => none

/-- One step of worker `w`, unless it runs no job. -/
def proceed (w : Nat) (r : Reactor) : Reactor :=
  match r.pool.workers[w]? with
  | some (.running task) => r.advance w task
  | _ => r

/-- Worker `w` carries its job out while all others stand still. -/
def carryOut (r : Reactor) (w : Nat) : Reactor := Nat.repeat (proceed w) 9 r

theorem running_of_starting? {r : Reactor} {w : Nat} {j : Job} (h : r.starting? w = some j) :
    r.pool.workers[w]? = some (.running { job := j }) := by
  unfold starting? at h
  split at h
  · rename_i job running
    rw [running, Option.some.inj h]
  · cases h

section CarryOut

variable {r : Reactor} {w : Nat} {task : Task} (running : r.pool.workers[w]? = some (.running task))

include running

theorem workers_conclude (j : Job) (s : Shared) (progress : Progress) :
    (r.conclude w j (s, progress)).pool.workers[w]? =
      some (match progress with
        | .goOn phase => .running { job := j, phase }
        | _ => .ended) := by
  have bound : w < r.pool.workers.length := (List.getElem?_eq_some_iff.1 running).1
  cases progress with
  | goOn phase => exact List.getElem?_set_self bound
  | ended | crashed =>
    simp only [conclude, WorkerPool.finish, running]
    exact List.getElem?_set_self bound

theorem conclude_conclude (j : Job) (s : Shared) (phase : Phase) (result : Shared × Progress) :
    (r.conclude w j (s, .goOn phase)).conclude w j result = r.conclude w j result := by
  have bound : w < r.pool.workers.length := (List.getElem?_eq_some_iff.1 running).1
  obtain ⟨s', progress⟩ := result
  cases progress with
  | goOn next => simp [conclude, WorkerPool.setWorker]
  | ended | crashed =>
    simp [conclude, WorkerPool.finish, WorkerPool.setWorker, running, List.getElem?_set_self bound]

theorem proceed_conclude (j : Job) (result : Shared × Progress) :
    proceed w (r.conclude w j result) = r.conclude w j (j.resume result) := by
  obtain ⟨s, progress⟩ := result
  have now := workers_conclude running j s progress
  cases progress with
  | goOn phase =>
    simp only [proceed, now, advance]
    exact conclude_conclude running j s phase _
  | ended | crashed => simp only [proceed, now, Job.resume]

/-- What a worker does alone is what its job does. -/
theorem carryOut_eq {j : Job} (start : task = { job := j }) :
    r.carryOut w = r.conclude w j (j.run r.shared) := by
  have each (n : Nat) : Nat.repeat (proceed w) n r =
      r.conclude w j (Nat.repeat j.resume n (r.shared, .goOn .start)) := by
    induction n with
    | zero =>
      obtain ⟨bound, here⟩ := List.getElem?_eq_some_iff.1 running
      rw [start] at here
      simp only [Nat.repeat, conclude, WorkerPool.setWorker, ← here, List.set_getElem_self]
    | succ n ih => rw [Nat.repeat, ih, proceed_conclude running, Nat.repeat]
  exact each 9

end CarryOut

theorem host_conclude (r : Reactor) (w : Nat) (j : Job) (result : Shared × Progress) :
    (r.conclude w j result).shared.editor.host = result.1.editor.host := by
  obtain ⟨s, progress⟩ := result
  cases progress <;> rfl

end Reactor

/-- What can be read of a model, which is nothing once its lock is poisoned. -/
def Host.contents? (h : Host) (id : ModelId) : Option (List (Handle × Decoration)) :=
  (h.cell? id).bind fun cell => if cell.poisoned then none else some cell.model.toList

theorem Host.contents?_setCell_of_ne {h : Host} {id other : ModelId} {cell : ModelCell}
    (ne : id ≠ other) : (h.setCell id cell).contents? other = h.contents? other := by
  rw [contents?, contents?, cell?, setCell, List.getElem?_set_ne ne]
  rfl

/-! ## What a job does by itself -/

namespace Job

/-- A job that is not cancelled picks an identifier. -/
structure Picks (j : Job) (s : Shared) (t : Target) : Prop where
  live : s.isCancelled j.ticket = false
  parse : s.editor.parse = some t.parse
  supported : t.parse.snapshot.language.supportsOccurrences = true
  document : s.editor.document.map (·.text) = some t.live
  mapping : t.mapping = .between t.parse.snapshot.source t.live
  element : elementAt t.parse.snapshot t.live t.mapping j.offset j.length s.settings.mode =
    .ok t.element

variable {j : Job} {s : Shared} {t : Target}

theorem run_of_not_picks (h : ∀ t, ¬ j.Picks s t) :
    (j.run s).1.editor = s.editor ∧ (j.run s).2 = .ended := by
  by_cases cancelled : s.isCancelled j.ticket = true
  · simp [run, Nat.repeat, resume, step, cancelled, Shared.noteAll, Shared.unregister]
  cases parse : s.editor.parse with
  | none =>
    simp [run, Nat.repeat, resume, step, cancelled, readParse, parse, Shared.noteAll, Shared.unregister]
  | some parsed =>
    by_cases supported : parsed.snapshot.language.supportsOccurrences = true
    · cases document : s.editor.document with
      | none =>
        simp [run, Nat.repeat, resume, step, cancelled, readParse, parse, supported, readDocument,
          document, Shared.noteAll, Shared.unregister]
      | some d =>
        cases picked : elementAt parsed.snapshot d.text (.between parsed.snapshot.source d.text)
            j.offset j.length s.settings.mode with
        | error why =>
          simp [run, Nat.repeat, resume, step, cancelled, readParse, parse, supported, readDocument,
            document, picked, Shared.noteAll, Shared.unregister]
        | ok element =>
          refine absurd ?_ (h ⟨parsed, d.text, .between parsed.snapshot.source d.text, element⟩)
          exact ⟨by simpa using cancelled, parse, supported, by rw [document]; rfl, rfl, picked⟩
    · simp [run, Nat.repeat, resume, step, cancelled, readParse, parse, supported, Shared.noteAll,
        Shared.unregister]

/-- What the search of a job that picks an identifier starts from. -/
def superseding (j : Job) (s : Shared) : Shared :=
  if s.settings.discardSuperseded then s.supersede j.ticket else s

/-- A job does not cancel itself, and cancelling the others changes nothing that is drawn. -/
theorem superseding_frame (j : Job) (s : Shared) :
    (j.superseding s).editor = s.editor ∧ (j.superseding s).pipeline = s.pipeline ∧
      (j.superseding s).synchronizer = s.synchronizer ∧
      (j.superseding s).isCancelled j.ticket = s.isCancelled j.ticket := by
  unfold superseding
  split
  · refine ⟨rfl, rfl, rfl, ?_⟩
    simp [Shared.isCancelled, Shared.supersede, Shared.noteAll, List.contains_eq_mem]
  · exact ⟨rfl, rfl, rfl, rfl⟩

theorem Picks.run_eq (h : j.Picks s t) :
    j.run s = Nat.repeat j.resume 4 (Job.searchUnder (fun _ => false) (j.superseding s) t) := by
  obtain ⟨d, document, text⟩ := Option.map_eq_some_iff.1 h.document
  have picked : elementAt t.parse.snapshot d.text (.between t.parse.snapshot.source d.text) j.offset
      j.length s.settings.mode = .ok t.element := by
    rw [text, ← h.mapping]
    exact h.element
  have target : (⟨t.parse, d.text, .between t.parse.snapshot.source d.text, t.element⟩ : Target) = t := by
    rw [text, ← h.mapping]
  have live := (superseding_frame j s).2.2.2.trans h.live
  simp only [superseding] at live
  simp [run, Nat.repeat, resume, step, h.live, readParse, h.parse, h.supported, readDocument,
    document, picked, target, superseding, search, live]

/-- A crash of the search ends the job before it draws. -/
theorem Picks.run_of_crash (h : j.Picks s t)
    (crash : s.pipeline.find (fun _ => false) t.parse.snapshot t.live t.mapping t.element =
      .error .crash) :
    (j.run s).1.editor = s.editor ∧ (j.run s).2 = .crashed := by
  obtain ⟨editor, pipeline, -, -⟩ := superseding_frame j s
  rw [h.run_eq]
  simp [searchUnder, pipeline, crash, Nat.repeat, resume, editor]

/-- A commit is the last thing that a job does, whether or not the model crashes. -/
theorem resume_commit (j : Job) (s : Shared) (spans : List Span) (picked : Option ModelId) :
    (j.resume (j.commit s spans picked)).1.editor.host =
        (s.synchronizer.commitTo s.editor.host picked j.ticket spans).host ∧
      (j.resume (j.commit s spans picked)).2.isOver = true := by
  simp only [commit]
  generalize s.synchronizer.commitTo s.editor.host picked j.ticket spans = r
  split
  · exact ⟨rfl, rfl⟩
  · exact ⟨rfl, rfl⟩

theorem repeat_resume_recheck (live : s.isCancelled j.ticket = false) (spans : List Span) :
    Nat.repeat j.resume 4 (s, .goOn (.recheck spans)) =
      j.resume (j.commit s spans s.editor.host.shown) := by
  simp only [Nat.repeat, resume, step, live, Bool.false_eq_true, if_false]

/-- A job that picks an identifier commits whatever its search reports. -/
theorem Picks.run_of_report (h : j.Picks s t) {report : Report}
    (found : s.pipeline.find (fun _ => false) t.parse.snapshot t.live t.mapping t.element =
      .ok report) :
    (j.run s).1.editor.host =
        (s.synchronizer.commitTo s.editor.host s.editor.host.shown j.ticket report.spans).host ∧
      (j.run s).2.isOver = true := by
  obtain ⟨editor, pipeline, synchronizer, live⟩ := superseding_frame j s
  rw [h.run_eq]
  simp only [searchUnder, pipeline, found]
  rw [repeat_resume_recheck (s := (j.superseding s).noteAll _) (live.trans h.live), ← editor,
    ← synchronizer]
  exact resume_commit j _ report.spans _

/-! ## Failures -/

/-- What can go wrong with a job. -/
inductive Failure where
  | cancelled
  | unparsed
  | unsupported
  | documentClosed
  | nothingPicked
  | searchFailed
  | modelUnavailable
  deriving DecidableEq, Repr

/-- A job started in this state meets the failure. -/
def Meets (j : Job) (s : Shared) : Failure → Prop
  | .cancelled => s.isCancelled j.ticket = true
  | .unparsed => s.editor.parse = none
  | .unsupported =>
    ∃ parse, s.editor.parse = some parse ∧ parse.snapshot.language.supportsOccurrences = false
  | .documentClosed => s.editor.document = none
  | .nothingPicked =>
    ∃ parse d why, s.editor.parse = some parse ∧ s.editor.document = some d ∧
      elementAt parse.snapshot d.text (.between parse.snapshot.source d.text) j.offset j.length
        s.settings.mode = .error why
  | .searchFailed =>
    ∃ t symbol reason, j.Picks s t ∧
      s.pipeline.resolver.resolve t.parse.snapshot t.element = .ok (some symbol) ∧
      ((s.pipeline.engine ⟨symbol, [t.parse.snapshot], .all⟩).exec fun _ => false).ending =
        .failed reason
  | .modelUnavailable =>
    s.synchronizer.poisoned = true ∨
      ∀ id cell, s.editor.host.shown = some id → s.editor.host.cell? id = some cell →
        cell.poisoned = true

/-- A commit of the job would replace what the synchronizer has drawn in the model `id`. -/
structure Reaches (j : Job) (s : Shared) (id : ModelId) (cell : ModelCell) : Prop where
  shown : s.editor.host.shown = some id
  found : s.editor.host.cell? id = some cell
  unlocked : cell.poisoned = false
  sound : s.synchronizer.poisoned = false
  current : s.synchronizer.discardSuperseded = true → s.synchronizer.committed ≤ j.ticket

theorem not_picks_of_meets {f : Failure} (meets : j.Meets s f) (early : f ≠ .searchFailed)
    (present : f ≠ .modelUnavailable) (t : Target) : ¬ j.Picks s t := by
  intro h
  cases f with
  | cancelled => simp [Meets, h.live] at meets
  | unparsed => simp [Meets, h.parse] at meets
  | unsupported => simp [Meets, h.parse, h.supported] at meets
  | documentClosed =>
    have open? := h.document
    rw [show s.editor.document = none from meets] at open?
    cases open?
  | nothingPicked =>
    obtain ⟨parse, d, why, hparse, hdocument, miss⟩ := meets
    obtain rfl : parse = t.parse := Option.some.inj (hparse.symm.trans h.parse)
    have text := h.document
    rw [hdocument] at text
    have hit := h.element
    rw [h.mapping, ← Option.some.inj text, miss] at hit
    cases hit
  | searchFailed => exact absurd rfl early
  | modelUnavailable => exact absurd rfl present

/-- What a commit of nothing makes of a cell is what it was, unless the model crashes or loses something. -/
theorem struck_eq_iff (cell : ModelCell) (handles : List Handle) :
    (if cell.crashNext then none else some (cell.model.without handles)) = some cell.model.toList ↔
      ¬ (cell.crashNext = true ∨ ∃ e ∈ cell.model.toList, e.1 ∈ handles) := by
  by_cases crashes : cell.crashNext = true
  · simp [crashes]
  · simp [crashes, DecorationModel.without, List.filter_eq_self]

theorem Reaches.contents?_eq {id : ModelId} {cell : ModelCell} (h : j.Reaches s id cell) :
    s.editor.host.contents? id = some cell.model.toList := by
  simp [Host.contents?, h.found, h.unlocked]

/-- Without a usable model a commit leaves all models alone. -/
theorem host_commitTo_of_unavailable (meets : j.Meets s .modelUnavailable) (spans : List Span) :
    (s.synchronizer.commitTo s.editor.host s.editor.host.shown j.ticket spans).host =
      s.editor.host := by
  have done := s.synchronizer.commitTo_cases s.editor.host s.editor.host.shown j.ticket spans
  generalize s.synchronizer.commitTo _ _ _ _ = r at done ⊢
  cases done with
  | unusable | frozen | stale => rfl
  | crashed hp hc unlocked sound =>
    rcases meets with poisoned | unusable
    · rw [sound] at poisoned
      cases poisoned
    · rw [unusable _ _ hp hc] at unlocked
      cases unlocked
  | applied hp hc healthy sound =>
    rcases meets with poisoned | unusable
    · rw [sound] at poisoned
      cases poisoned
    · have unlocked := healthy.1
      rw [unusable _ _ hp hc] at unlocked
      cases unlocked

/-- A failed search reports nothing, and so nothing tells it from one that has found nothing. -/
theorem find_of_searchFailed (meets : j.Meets s .searchFailed) :
    ∃ t report, j.Picks s t ∧ report.spans = [] ∧
      s.pipeline.find (fun _ => false) t.parse.snapshot t.live t.mapping t.element = .ok report := by
  obtain ⟨t, symbol, reason, picks, resolved, failed⟩ := meets
  refine ⟨t, .searched symbol ((s.pipeline.engine ⟨symbol, [t.parse.snapshot], .all⟩).exec
    fun _ => false) [], picks, rfl, ?_⟩
  rw [Pipeline.find_of_resolved resolved]
  simp [failed, Outcome.complete]

/-- A commit of nothing takes the highlights away from the model that it reaches, or makes it crash. -/
theorem contents?_commitTo_nil {id : ModelId} {cell : ModelCell} (h : j.Reaches s id cell) :
    (s.synchronizer.commitTo s.editor.host s.editor.host.shown j.ticket []).host.contents? id =
      if cell.crashNext then none else some (cell.model.without (s.synchronizer.held id)) := by
  have done := s.synchronizer.commitTo_cases s.editor.host s.editor.host.shown j.ticket []
  generalize s.synchronizer.commitTo _ _ _ _ = r at done ⊢
  cases done with
  | unusable refused unusable =>
    have locked := unusable id cell h.shown h.found
    rw [h.unlocked] at locked
    cases locked
  | frozen hp hc unlocked poisoned =>
    rw [h.sound] at poisoned
    cases poisoned
  | stale hp hc unlocked sound discards stale =>
    exact absurd (h.current discards) (Nat.not_le_of_lt stale)
  | @crashed top other hp hc unlocked sound current crashes =>
    obtain rfl : top = id := Option.some.inj (hp.symm.trans h.shown)
    obtain rfl : other = cell := Option.some.inj (hc.symm.trans h.found)
    rw [if_pos crashes]
    simp [Host.contents?, Host.cell?_setCell hc]
  | @applied top other drawn hp hc healthy sound current hd =>
    obtain rfl : top = id := Option.some.inj (hp.symm.trans h.shown)
    obtain rfl : other = cell := Option.some.inj (hc.symm.trans h.found)
    subst hd
    rw [if_neg (by simp [healthy.2])]
    simp [Host.contents?, Host.cell?_setCell hc, healthy.1, DecorationModel.toList_replace,
      DecorationModel.without]

theorem contents?_commitTo_of_not_reaches {id : ModelId} (h : ∀ cell, ¬ j.Reaches s id cell)
    (spans : List Span) :
    (s.synchronizer.commitTo s.editor.host s.editor.host.shown j.ticket spans).host.contents? id =
      s.editor.host.contents? id := by
  have done := s.synchronizer.commitTo_cases s.editor.host s.editor.host.shown j.ticket spans
  generalize s.synchronizer.commitTo _ _ _ _ = r at done ⊢
  cases done with
  | unusable | frozen | stale => rfl
  | crashed hp hc unlocked sound current crashes =>
    refine Host.contents?_setCell_of_ne fun same => ?_
    rw [same] at hp hc
    exact h _ ⟨hp, hc, unlocked, sound, current⟩
  | applied hp hc healthy sound current hd =>
    refine Host.contents?_setCell_of_ne fun same => ?_
    rw [same] at hp hc
    exact h _ ⟨hp, hc, healthy.1, sound, current⟩

/-- Of all failures only that of a search leads to a commit. -/
theorem run_of_meets {f : Failure} (meets : j.Meets s f) (early : f ≠ .searchFailed) :
    (j.run s).1.editor.host = s.editor.host ∧ (j.run s).2.isOver = true := by
  by_cases picks : ∃ t, j.Picks s t
  · obtain ⟨t, h⟩ := picks
    by_cases present : f = .modelUnavailable
    · rw [present] at meets
      cases found : s.pipeline.find (fun _ => false) t.parse.snapshot t.live t.mapping t.element with
      | error why =>
        obtain ⟨editor, crashed⟩ := h.run_of_crash found
        rw [editor, crashed]
        exact ⟨rfl, rfl⟩
      | ok report =>
        obtain ⟨host, isOver⟩ := h.run_of_report found
        exact ⟨host.trans (host_commitTo_of_unavailable meets _), isOver⟩
    · exact absurd h (not_picks_of_meets meets early present t)
  · obtain ⟨editor, ended⟩ := run_of_not_picks fun t h => picks ⟨t, h⟩
    rw [editor, ended]
    exact ⟨rfl, rfl⟩

theorem run_of_searchFailed (meets : j.Meets s .searchFailed) :
    (j.run s).1.editor.host =
        (s.synchronizer.commitTo s.editor.host s.editor.host.shown j.ticket []).host ∧
      (j.run s).2.isOver = true := by
  obtain ⟨t, report, picks, nothing, found⟩ := find_of_searchFailed meets
  rw [← nothing]
  exact picks.run_of_report found

theorem run_over_of_meets {f : Failure} (meets : j.Meets s f) : (j.run s).2.isOver = true := by
  by_cases failed : f = .searchFailed
  · rw [failed] at meets
    exact (run_of_searchFailed meets).2
  · exact (run_of_meets meets failed).2

end Job

/-! ## The main statement -/

/-- A job that meets a failure leaves what can be read of every decoration model as it is, unless what fails
is the search. Then the job commits an empty list: a model that this reaches loses the highlights drawn in
it, or it crashes and cannot be read any more. -/
theorem failed_job_spares_models {r : Reactor} {w : Nat} {j : Job} {f : Job.Failure}
    (starting : r.starting? w = some j) (meets : j.Meets r.shared f) :
    let before := r.shared.editor.host
    let after := (r.carryOut w).shared.editor.host
    let held := r.shared.synchronizer.held
    (r.carryOut w).pool.workers[w]? = some .ended ∧
    (f ≠ .searchFailed → after = before) ∧
    (f = .searchFailed → ∀ id,
      (∀ cell, j.Reaches r.shared id cell → after.contents? id =
        if cell.crashNext then none else some (cell.model.without (held id))) ∧
      ((∀ cell, ¬ j.Reaches r.shared id cell) → after.contents? id = before.contents? id)) ∧
    ((∀ id, after.contents? id = before.contents? id) ↔
      ¬ (f = .searchFailed ∧ ∃ id cell, j.Reaches r.shared id cell ∧
        (cell.crashNext = true ∨ ∃ e ∈ cell.model.toList, e.1 ∈ held id))) := by
  intro before after held
  have running := Reactor.running_of_starting? starting
  have carried := Reactor.carryOut_eq running rfl
  have host : after = (j.run r.shared).1.editor.host := by
    simp only [after, carried, Reactor.host_conclude]
  have ended : (r.carryOut w).pool.workers[w]? = some .ended := by
    rw [carried, Reactor.workers_conclude running]
    have isOver := Job.run_over_of_meets meets
    generalize (j.run r.shared).2 = progress at isOver ⊢
    cases progress with
    | goOn phase => cases isOver
    | ended | crashed => rfl
  have spared (early : f ≠ .searchFailed) : after = before :=
    host.trans (Job.run_of_meets meets early).1
  have struck (failed : f = .searchFailed) (id : ModelId) :
      (∀ cell, j.Reaches r.shared id cell → after.contents? id =
        if cell.crashNext then none else some (cell.model.without (held id))) ∧
      ((∀ cell, ¬ j.Reaches r.shared id cell) → after.contents? id = before.contents? id) := by
    rw [failed] at meets
    rw [host, (Job.run_of_searchFailed meets).1]
    exact ⟨fun cell reaches => Job.contents?_commitTo_nil reaches,
      fun none => Job.contents?_commitTo_of_not_reaches none []⟩
  refine ⟨ended, spared, struck, fun same => ?_, fun harmless id => ?_⟩
  · rintro ⟨failed, id, cell, reaches, harm⟩
    have now := (struck failed id).1 cell reaches
    rw [same id, reaches.contents?_eq] at now
    exact (Job.struck_eq_iff cell (held id)).1 now.symm harm
  · by_cases failed : f = .searchFailed
    · by_cases reached : ∃ cell, j.Reaches r.shared id cell
      · obtain ⟨cell, reaches⟩ := reached
        rw [(struck failed id).1 cell reaches, reaches.contents?_eq, Job.struck_eq_iff]
        exact fun harm => harmless ⟨failed, id, cell, reaches, harm⟩
      · exact (struck failed id).2 fun cell reaches => reached ⟨cell, reaches⟩
    · rw [spared failed]

/-- A pipeline whose engine fails for one name. -/
def Pipeline.failingFor (name : Text) : Pipeline where
  resolver := .lexical
  engine q := if q.symbol.name = name then .fail (.other "no answer") else Engine.lexical q

/-- The text `a b`, parsed and open. -/
def Editor.twoNames (host : Host) : Editor where
  view := 0
  document := some .twoNames
  parse := some .twoNames
  host := host

/-- The name `a` has been highlighted, then `b` selected, and worker 0 has taken the job. Its search is
going to fail. -/
def Reactor.beforeFailure : Reactor :=
  let r := Reactor.start (.twoNames (.ofName "main" true)) {} (.failingFor ['b'])
  let drawn := (List.replicate 11 0).foldl step (r.select 0 (.text 0 0)).2
  let taken := (drawn.select 0 (.text 2 0)).2.step 0
  -- the editor is the same as before, which this form shows without running the job
  { taken with shared := { taken.shared with editor := .twoNames taken.shared.editor.host } }

theorem Reactor.reached_beforeFailure : beforeFailure.Reached := by
  have begun := Reached.start (.twoNames (.ofName "main" true)) {} (.failingFor ['b'])
  have drawn := begun.run ((Run.start.select ⟨0, .text 0 0⟩).works (List.replicate 11 0))
  exact (drawn.run ((Run.start.select ⟨0, .text 2 0⟩).work 0)).change _

theorem Job.meets_beforeFailure :
    (⟨2, 2, 0⟩ : Job).Meets Reactor.beforeFailure.shared .searchFailed := by
  refine ⟨⟨.twoNames, ['a', ' ', 'b'], .between ['a', ' ', 'b'] ['a', ' ', 'b'],
    ⟨⟨⟨"identifier", ⟨2, 3⟩, none⟩, 2⟩, [⟨⟨"program", ⟨0, 3⟩, none⟩, 0⟩]⟩⟩, .free .value ['b'],
    .other "no answer", ?_, ?_, ?_⟩
  · exact ⟨by decide +kernel, rfl, by decide +kernel, rfl, rfl, by decide +kernel⟩
  · decide +kernel
  · decide +kernel

theorem failed_job_spares_models_cleared :
    let before := Reactor.beforeFailure.shared.editor.host
    let after := (Reactor.beforeFailure.carryOut 0).shared.editor.host
    Reactor.beforeFailure.starting? 0 = some ⟨2, 2, 0⟩ ∧
      before.contents? 0 = some [(1, .occurrence ⟨0, 1⟩)] ∧ after.contents? 0 = some [] := by
  have starting : Reactor.beforeFailure.starting? 0 = some ⟨2, 2, 0⟩ := by decide +kernel
  have reaches : (⟨2, 2, 0⟩ : Job).Reaches Reactor.beforeFailure.shared 0
      { model := { decorations := ⟨[(1, .occurrence ⟨0, 1⟩)]⟩, issued := 1 } } :=
    ⟨by decide +kernel, by decide +kernel, rfl, by decide +kernel, by decide +kernel⟩
  obtain ⟨-, -, struck, -⟩ := failed_job_spares_models starting Job.meets_beforeFailure
  refine ⟨starting, reaches.contents?_eq, ?_⟩
  exact ((struck rfl 0).1 _ reaches).trans (by decide +kernel)

/-- The search for `b` fails, and the highlight of `a` is gone. -/
theorem failed_search_clears_highlights :
    ∃ r w j, Reactor.Reached r ∧ r.starting? w = some j ∧ j.Meets r.shared .searchFailed ∧
      r.drawn = [⟨0, 1⟩] ∧ (r.carryOut w).drawn = [] ∧
      ¬ ∀ id, (r.carryOut w).shared.editor.host.contents? id = r.shared.editor.host.contents? id := by
  refine ⟨.beforeFailure, 0, ⟨2, 2, 0⟩, Reactor.reached_beforeFailure, by decide +kernel,
    Job.meets_beforeFailure, by decide +kernel, by decide +kernel, fun same => ?_⟩
  exact absurd (same 0) (by decide +kernel)

end Highlight
