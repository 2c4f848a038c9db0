import Highlight.Proofs.LatestSelection

/-!
# Jobs that crash

Before a job searches, it has cancelled the older jobs in flight. So a crash of its search costs more than
its own result: an older job that would have drawn its spans gives up, and nobody draws in its place
(`crash_loses_older_result`). `drawn_after_crashes` says what is left to draw.
-/

namespace Highlight

/-- What is drawn when searches may crash. Take any idle state of a reactor that refuses superseded
results, and let the editor keep its parse, its document and a healthy model from then on. Whatever is
selected, however the jobs interleave and whichever of them crash, once all jobs are over:

* the last of the jobs that picked an identifier and did not crash has its spans drawn, unless it is
  cancelled, and then a newer job picked an identifier, cancelled it and crashed;
* if every job that picks an identifier has crashed, the spans drawn are the ones drawn before;
* in any case they are the ones drawn before or those of a job that did not crash, and all other decorations
  are as they were. -/
theorem drawn_after_crashes {r₀ r : Reactor} {parse : Parse} {document : Document} {id : ModelId}
    {cell : ModelCell} (reached : r₀.Reached) (steady : r₀.Steady parse document id cell)
    (discards : r₀.shared.settings.discardSuperseded = true) {es : List SelectionEvent}
    {crashed : List Ticket} (run : r₀.CrashRun es crashed r) (idle : r.pool.isIdle = true) :
    let c := r₀.stage parse document id
    let jobs := r₀.scheduled es
    (∀ j ∈ jobs, c.Picks j → j.ticket ∉ crashed →
      (∀ i ∈ jobs, j.ticket < i.ticket → c.Picks i → i.ticket ∈ crashed) →
      (r.shared.isCancelled j.ticket = false → c.spans? j = some r.drawn) ∧
      (r.shared.isCancelled j.ticket = true →
        ∃ i ∈ jobs, j.ticket < i.ticket ∧ c.Picks i ∧ i.ticket ∈ crashed)) ∧
    ((∀ j ∈ jobs, c.Picks j → j.ticket ∈ crashed) → r.drawn = r₀.drawn) ∧
    (r.drawn = r₀.drawn ∨ ∃ j ∈ jobs, j.ticket ∉ crashed ∧ c.spans? j = some r.drawn) ∧
    r.undrawn = r₀.undrawn := by
  intro c jobs
  have now := (steady.consistent reached discards).run ⟨rfl, rfl, rfl⟩ run
  obtain ⟨undrawn, source⟩ := now.drawn_source
  refine ⟨fun j hj picks uncrashed latest => ⟨fun live => ?_, fun cancelled => ?_⟩, fun all => ?_, ?_,
    undrawn⟩
  · exact now.drawn_of_latest idle (fun i hi j hj => Reactor.eq_of_ticket_jobsFrom hi hj)
      (Reactor.ticket_jobsFrom hj).1 hj picks uncrashed latest live
  · rcases now.holds.cancelled j.ticket (List.contains_iff_mem.1 cancelled) with
      old | ⟨i, hi, newer, hit⟩
    · exact absurd old (Nat.not_le_of_lt (Reactor.ticket_jobsFrom hj).1)
    · exact ⟨i, hi, newer, hit, latest i hi newer hit⟩
  · rcases source with ⟨-, same⟩ | ⟨i, hi, -, sound, found⟩
    · exact same
    · exact absurd (all i hi (Stage.picks_of_spans? found)) sound
  · rcases source with ⟨-, same⟩ | ⟨i, hi, -, sound, found⟩
    · exact Or.inl same
    · exact Or.inr ⟨i, hi, sound, found⟩

/-- A pipeline whose resolver crashes at one byte. -/
def Pipeline.crashingAt (byte : Nat) : Pipeline where
  resolver :=
    { Resolver.lexical with
      resolve := fun file p =>
        if p.node.range.start = byte then .error .crash else Resolver.lexical.resolve file p }
  engine := .lexical

/-- A reactor over the text `a b` that crashes at `b`. -/
def Reactor.crashingAtB : Reactor :=
  .start
    { view := 0
      document := some .twoNames
      parse := some .twoNames
      host := .ofName "main" true }
    {} (.crashingAt 2)

/-- The same reactor after `a` and `b` have been selected. -/
def Reactor.bothSelected : Reactor := ((crashingAtB.select 0 (.text 0 0)).2.select 0 (.text 2 0)).2

namespace Reactor

theorem steady_crashingAtB : crashingAtB.Steady .twoNames .twoNames 0 {} :=
  ⟨rfl, rfl, rfl, rfl, rfl, ⟨rfl, rfl⟩, nofun, rfl⟩

theorem crashRun_bothSelected (ws : List Nat) :
    crashingAtB.CrashRun [⟨0, .text 0 0⟩, ⟨0, .text 2 0⟩] (bothSelected.crashesAlong ws)
      (ws.foldl step bothSelected) := by
  have begun : crashingAtB.CrashRun [] [] crashingAtB := .start
  have run := ((begun.select ⟨0, .text 0 0⟩).select ⟨0, .text 2 0⟩).works ws
  rwa [List.append_nil] at run

theorem scheduled_crashingAtB :
    crashingAtB.scheduled [⟨0, .text 0 0⟩, ⟨0, .text 2 0⟩] = [⟨1, 0, 0⟩, ⟨2, 2, 0⟩] := by
  decide +kernel

theorem spans?_crashingAtB :
    (crashingAtB.stage .twoNames .twoNames 0).spans? ⟨1, 0, 0⟩ = some [⟨0, 1⟩] := by
  decide +kernel

end Reactor

/-- The job of `a` draws before the job of `b` crashes. -/
theorem drawn_after_crashes_in_turn :
    ∃ r, Reactor.crashingAtB.CrashRun [⟨0, .text 0 0⟩, ⟨0, .text 2 0⟩] [2] r ∧
      r.pool.isIdle = true ∧ r.drawn = [⟨0, 1⟩] := by
  have run := Reactor.crashRun_bothSelected (List.replicate 18 0)
  rw [show Reactor.bothSelected.crashesAlong (List.replicate 18 0) = [2] by decide +kernel] at run
  have idle : ((List.replicate 18 0).foldl Reactor.step Reactor.bothSelected).pool.isIdle = true := by
    decide +kernel
  have reached : Reactor.crashingAtB.Reached := .start ..
  obtain ⟨latest, -⟩ := drawn_after_crashes reached Reactor.steady_crashingAtB rfl run idle
  rw [Reactor.scheduled_crashingAtB] at latest
  have drawn := (latest ⟨1, 0, 0⟩ (by simp) (Stage.picks_of_spans? Reactor.spans?_crashingAtB) (by simp)
    (by simp)).1 (by decide +kernel)
  rw [Reactor.spans?_crashingAtB] at drawn
  exact ⟨_, run, idle, (Option.some.inj drawn).symm⟩

/-- The job of `a` has picked its name when the job of `b` cancels it and crashes. It gives up, and nothing
is drawn. -/
theorem crash_loses_older_result :
    let c := Reactor.crashingAtB.stage .twoNames .twoNames 0
    let es : List SelectionEvent := [⟨0, .text 0 0⟩, ⟨0, .text 2 0⟩]
    Reactor.crashingAtB.Steady .twoNames .twoNames 0 {} ∧
    Reactor.crashingAtB.scheduled es = [⟨1, 0, 0⟩, ⟨2, 2, 0⟩] ∧ c.spans? ⟨1, 0, 0⟩ = some [⟨0, 1⟩] ∧
    ∃ r, Reactor.crashingAtB.CrashRun es [2] r ∧ r.pool.isIdle = true ∧
      r.shared.cancelled = [1] ∧ r.drawn = [] := by
  refine ⟨Reactor.steady_crashingAtB, Reactor.scheduled_crashingAtB, Reactor.spans?_crashingAtB, ?_⟩
  have run := Reactor.crashRun_bothSelected
    (List.replicate 4 0 ++ List.replicate 7 1 ++ List.replicate 5 0)
  have crashed : Reactor.bothSelected.crashesAlong
      (List.replicate 4 0 ++ List.replicate 7 1 ++ List.replicate 5 0) = [2] := by decide +kernel
  rw [crashed] at run
  exact ⟨_, run, by decide +kernel, by decide +kernel, by decide +kernel⟩

end Highlight
