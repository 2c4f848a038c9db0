import Highlight.Proofs.DecorationHistory

/-!
# Commits that are refused

A commit is refused as superseded, or because there is no model to draw in. It then changes nothing that can be
seen. At most the synchronizer gives up the handles it holds, and only when the model that issued them is not
there to remove them from (`Synchronizer.CommitCase.of_refused`). Which model this is comes from the history:
`World.lastIssued?` is the last applied commit with the handles that its model issued to it, and these are the
handles held, if any are (`World.issuedBy_run`).

A model that crashes in the middle of a commit leaves the synchronizer poisoned for ever, and then every commit
is refused (`World.poisoned_run`).
-/

namespace Highlight

namespace Commit

def isApplied : Commit → Bool
  | .applied .. => true
  | _ => false

/-- There is no model to draw in, as far as the caller is told. -/
def isUnavailable : Commit → Bool
  | .modelMissing | .modelPoisoned | .statePoisoned => true
  | _ => false

/-- The commit has ended without drawing. -/
def isRefused : Commit → Bool
  | .superseded .. => true
  | c => c.isUnavailable

theorem isApplied_iff {c : Commit} : c.isApplied = true ↔ ∃ removed added, c = .applied removed added := by
  cases c <;> simp [isApplied]

end Commit

/-- The model picked is not there to remove the handles from that were `issued` last: there is none, or its
lock is poisoned, or it is not the one that issued them. -/
inductive Host.Parts (h : Host) (picked : Option ModelId) (issued : Option (ModelId × List Handle))
    (handles : List Handle) : Prop where
  | missing (absent : picked.bind h.cell? = none)
  | locked {cell : ModelCell} (found : picked.bind h.cell? = some cell) (poisoned : cell.poisoned = true)
  | other {issuer : ModelId} (known : issued = some (issuer, handles)) (ne : picked ≠ some issuer)

namespace Synchronizer

/-- The handles held, if there are any, are those that were issued last, and the synchronizer is bound to the
model that issued them. -/
def IssuedBy (s : Synchronizer) (last : Option (ModelId × List Handle)) : Prop :=
  s.handles ≠ [] → ∃ id, s.model = some id ∧ last = some (id, s.handles)

variable {s : Synchronizer} {host : Host} {picked : Option ModelId} {ticket : Ticket}
  {spans : List Span} {r : CommitResult} {last : Option (ModelId × List Handle)}

theorem attach_cases (s : Synchronizer) (id : ModelId) :
    s.attach id = s ∨ s.model ≠ some id ∧ (s.attach id).handles = [] := by
  unfold attach
  split
  · exact .inl rfl
  · rename_i other
    exact .inr ⟨other, rfl⟩

/-- A commit that is not applied leaves the handles held as they are, or none. -/
theorem CommitCase.keeps (h : CommitCase s host picked ticket spans r)
    (unapplied : r.outcome.isApplied = false) :
    r.synchronizer.handles = [] ∨
      r.synchronizer.handles = s.handles ∧ r.synchronizer.model = s.model := by
  have attached (id : ModelId) : (s.attach id).handles = [] ∨
      (s.attach id).handles = s.handles ∧ (s.attach id).model = s.model := by
    rcases s.attach_cases id with same | ⟨-, dropped⟩
    · rw [same]
      exact .inr ⟨rfl, rfl⟩
    · exact .inl dropped
  cases h with
  | unusable => exact .inl rfl
  | frozen => exact .inr ⟨rfl, rfl⟩
  | stale => exact attached _
  | crashed => exact attached _
  | applied => cases unapplied

theorem CommitCase.issuedBy (h : CommitCase s host picked ticket spans r) (held : s.IssuedBy last) :
    r.synchronizer.IssuedBy ((if r.outcome.isApplied then
      picked.map fun id => (id, (host.model id).fresh spans.length) else none).or last) := by
  cases applied : r.outcome.isApplied with
  | false =>
    rw [if_neg Bool.false_ne_true, Option.none_or]
    rcases h.keeps applied with dropped | ⟨handles, model⟩
    · exact fun holds => absurd dropped holds
    · unfold IssuedBy
      rw [handles, model]
      exact held
  | true =>
    obtain ⟨removed, added, outcome⟩ := Commit.isApplied_iff.1 applied
    obtain ⟨id, shown, -, redrawn⟩ := h.redrawn outcome
    rw [if_pos rfl, shown, Option.map_some, Option.some_or, ← redrawn.handles]
    exact fun _ => ⟨id, redrawn.bound, rfl⟩

/-- What a refused commit leaves behind. -/
theorem CommitCase.of_refused (h : CommitCase s host picked ticket spans r)
    (refused : r.outcome.isRefused = true) (held : s.IssuedBy last) :
    r.host = host ∧ r.synchronizer.committed = s.committed ∧
      (r.synchronizer.handles = s.handles ∨
        r.synchronizer.handles = [] ∧ host.Parts picked last s.handles) := by
  cases h with
  | unusable _ unusable =>
    refine ⟨rfl, rfl, .inr ⟨rfl, ?_⟩⟩
    cases found : picked.bind host.cell? with
    | none => exact .missing found
    | some cell =>
      obtain ⟨id, hp, hc⟩ := Option.bind_eq_some_iff.1 found
      exact .locked found (unusable id cell hp hc)
  | frozen => exact ⟨rfl, rfl, .inl rfl⟩
  | @stale id cell hp =>
    refine ⟨rfl, attach_committed s id, ?_⟩
    rcases s.attach_cases id with same | ⟨unbound, dropped⟩
    · exact .inl (congrArg Synchronizer.handles same)
    · by_cases holds : s.handles = []
      · exact .inl (dropped.trans holds.symm)
      · obtain ⟨issuer, bound, known⟩ := held holds
        refine .inr ⟨dropped, .other known ?_⟩
        rw [hp, ← bound]
        exact Ne.symm unbound
  | crashed => cases refused
  | applied => cases refused

/-! ## After a crash -/

theorem CommitCase.poisoned_of_crashed (h : CommitCase s host picked ticket spans r)
    (crashed : r.outcome = .crashed) : r.synchronizer.poisoned = true := by
  cases h with
  | unusable refused => rcases refused with rfl | rfl <;> cases crashed
  | crashed => rfl
  | _ => cases crashed

theorem CommitCase.of_poisoned (h : CommitCase s host picked ticket spans r)
    (poisoned : s.poisoned = true) :
    r.outcome.isUnavailable = true ∧ r.synchronizer.poisoned = true := by
  cases h with
  | unusable refused => rcases refused with rfl | rfl <;> exact ⟨rfl, poisoned⟩
  | frozen => exact ⟨rfl, poisoned⟩
  | stale _ _ _ sound => exact absurd poisoned (by rw [sound]; exact Bool.false_ne_true)
  | crashed _ _ _ sound => exact absurd poisoned (by rw [sound]; exact Bool.false_ne_true)
  | applied _ _ _ sound => exact absurd poisoned (by rw [sound]; exact Bool.false_ne_true)

end Synchronizer

/-! ## Histories -/

namespace World

/-- The model that an operation draws in, with the handles that the model issues to it. -/
def issues? (w : World) (op : Operation) : Option (ModelId × List Handle) :=
  match w.result? op, op.spans? with
  | some r, some spans =>
    if r.outcome.isApplied then w.host.shown.map fun id => (id, (w.host.model id).fresh spans.length)
    else none
  | _, _ => none

/-- The model that the last of some operations which draw has drawn in, with the handles issued to it. -/
def lastIssued? (w : World) : List Operation → Option (ModelId × List Handle)
  | [] => none
  | op :: ops => ((w.step op).lastIssued? ops).or (w.issues? op)

variable {w : World} {last : Option (ModelId × List Handle)}

theorem issuedBy_step (h : w.synchronizer.IssuedBy last) (op : Operation) :
    (w.step op).synchronizer.IssuedBy ((w.issues? op).or last) := by
  cases op with
  | takeTicket => exact h
  | host step => exact h
  | commit ticket spans => exact (Synchronizer.commitTo_cases ..).issuedBy h
  | replaceAll spans =>
    exact (Synchronizer.commitTo_cases w.synchronizer.nextTicket.2 ..).issuedBy h

theorem issuedBy_run (h : w.synchronizer.IssuedBy last) (ops : List Operation) :
    (w.run ops).synchronizer.IssuedBy ((w.lastIssued? ops).or last) := by
  induction ops generalizing w last with
  | nil => exact h
  | cons op ops ih =>
    rw [lastIssued?, Option.or_assoc]
    exact ih (issuedBy_step h op)

theorem of_refused (h : w.synchronizer.IssuedBy last) {op : Operation} {r : CommitResult}
    (result : w.result? op = some r) (refused : r.outcome.isRefused = true) :
    r.host = w.host ∧ r.synchronizer.committed = w.synchronizer.committed ∧
      (r.synchronizer.handles = w.synchronizer.handles ∨
        r.synchronizer.handles = [] ∧ w.host.Parts w.host.shown last w.synchronizer.handles) := by
  cases op with
  | takeTicket => cases result
  | host step => cases result
  | commit ticket spans =>
    cases result
    exact (Synchronizer.commitTo_cases ..).of_refused refused h
  | replaceAll spans =>
    cases result
    exact (Synchronizer.commitTo_cases w.synchronizer.nextTicket.2 ..).of_refused refused h

theorem poisoned_of_crashed {op : Operation} {r : CommitResult} (result : w.result? op = some r)
    (crashed : r.outcome = .crashed) : (w.step op).synchronizer.poisoned = true := by
  obtain ⟨s, ticket, spans, -, -, done⟩ := commitCase_of_result? result
  rw [step_of_result? result]
  exact done.poisoned_of_crashed crashed

theorem poisoned_step (h : w.synchronizer.poisoned = true) (op : Operation) :
    (w.step op).synchronizer.poisoned = true := by
  cases op with
  | takeTicket => exact h
  | host step => exact h
  | commit ticket spans => exact ((Synchronizer.commitTo_cases ..).of_poisoned h).2
  | replaceAll spans =>
    exact ((Synchronizer.commitTo_cases w.synchronizer.nextTicket.2 ..).of_poisoned h).2

theorem poisoned_run (h : w.synchronizer.poisoned = true) (ops : List Operation) :
    (w.run ops).synchronizer.poisoned = true := by
  induction ops generalizing w with
  | nil => exact h
  | cons op ops ih => exact ih (poisoned_step h op)

end World

/-- Commits that draw nothing change nothing that can be seen. After any operations on a synchronizer and its
host:
* a commit that is refused leaves all models and the committed ticket as they are. It leaves the handles held
  as they are too, or none, and the latter only if the host shows no model, or one whose lock is poisoned, or
  not the one that issued the handles to the last applied commit;
* if a model crashes in the middle of a commit, then after whatever happens next there is no model to draw in
  for any commit, whatever the host, the model it picks, the ticket and the spans. -/
theorem refused_commits_change_nothing (discardSuperseded : Bool) (host : Host) (ops : List Operation) :
    let start := World.start discardSuperseded host
    let w := start.run ops
    (∀ op r, w.result? op = some r → r.outcome.isRefused = true →
      r.host = w.host ∧ r.synchronizer.committed = w.synchronizer.committed ∧
      (r.synchronizer.handles = w.synchronizer.handles ∨
        r.synchronizer.handles = [] ∧
          w.host.Parts w.host.shown (start.lastIssued? ops) w.synchronizer.handles)) ∧
    (∀ op r, w.result? op = some r → r.outcome = .crashed → ∀ later (host : Host) picked ticket spans,
      (((w.step op).run later).synchronizer.commitTo host picked ticket spans).outcome.isUnavailable =
        true) := by
  intro start w
  have nothing : start.synchronizer.IssuedBy none := fun holds => absurd rfl holds
  have issued : w.synchronizer.IssuedBy (start.lastIssued? ops) := by
    have run := World.issuedBy_run nothing ops
    rwa [Option.or_none] at run
  refine ⟨fun op r result refused => World.of_refused issued result refused, ?_⟩
  intro op r result crashed later host picked ticket spans
  have poisoned := World.poisoned_run (World.poisoned_of_crashed result crashed) later
  exact ((Synchronizer.commitTo_cases ..).of_poisoned poisoned).1

/-- Highlights are drawn under the ticket 2, another model is shown, and that one is about to crash. -/
def Operation.swapAndCrash : List Operation :=
  [.host (.reveal "main"), .commit 2 [⟨0, 1⟩], .host (.reveal "other"), .host .crashNext]

/-- A commit under the ticket 1 is superseded, and gives up the handle that `main` issued. One under the ticket
3 crashes, and from then on `main` cannot be drawn in either. -/
theorem refused_commits_change_nothing_swapped :
    let w := (World.start true {}).run Operation.swapAndCrash
    let stale := w.synchronizer.commit w.host 1 [⟨4, 1⟩]
    let after := (w.step (.commit 3 [⟨4, 1⟩])).run [.host (.reveal "main")]
    stale.outcome = .superseded 1 2 ∧ stale.host = w.host ∧ w.synchronizer.handles = [1] ∧
      stale.synchronizer.handles = [] ∧ w.host.Parts (some 1) (some (0, [1])) [1] ∧
      (w.synchronizer.commit w.host 3 [⟨4, 1⟩]).outcome = .crashed ∧
      (after.synchronizer.commit after.host 4 [⟨4, 1⟩]).outcome.isUnavailable = true := by
  obtain ⟨refused, frozen⟩ := refused_commits_change_nothing true {} Operation.swapAndCrash
  obtain ⟨host, -, kept | ⟨dropped, parts⟩⟩ := refused (.commit 1 [⟨4, 1⟩]) _ rfl (by decide +kernel)
  · exact absurd kept (by decide +kernel)
  · refine ⟨by decide +kernel, host, by decide +kernel, dropped, parts, by decide +kernel, ?_⟩
    exact frozen (.commit 3 [⟨4, 1⟩]) _ rfl (by decide +kernel) [.host (.reveal "main")] _ _ 4 [⟨4, 1⟩]

end Highlight
