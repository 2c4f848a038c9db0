import Highlight.Decoration.Host

/-!
# The decoration synchronizer

The synchronizer owns the occurrence highlights that are drawn. A commit carries the ticket that its job
was given and replaces the whole set; one whose ticket is older than the last applied one is refused.
Handles are removed only from the model that issued them, so the synchronizer remembers which one it was.
-/

namespace Highlight

/-- The number given to a job when it is scheduled. -/
abbrev Ticket := Nat

/-- The owner of the highlights. -/
structure Synchronizer where
  discardSuperseded : Bool := true
  /-- The last ticket given out. -/
  issued : Ticket := 0
  /-- The highest ticket applied, or 0. -/
  committed : Ticket := 0
  /-- The highlights drawn. -/
  handles : List Handle := []
  /-- The model that issued the handles. -/
  model : Option ModelId := none
  /-- A model crashed in the middle of a commit. -/
  poisoned : Bool := false
  deriving DecidableEq, Repr, Inhabited

/-- What became of a commit. -/
inductive Commit where
  | applied (removed added : Nat)
  /-- A newer ticket was applied before. -/
  | superseded (ticket committed : Ticket)
  /-- No model was shown. -/
  | modelMissing
  | modelPoisoned
  | statePoisoned
  /-- The model crashed. -/
  | crashed
  deriving DecidableEq, Repr

/-- What a commit leaves behind. -/
structure CommitResult where
  outcome : Commit
  /-- The number of handles given up because their model is not the one shown. -/
  forgotten : Nat
  synchronizer : Synchronizer
  host : Host
  deriving DecidableEq, Repr

namespace Synchronizer

/-- Give out the next ticket. -/
def nextTicket (s : Synchronizer) : Ticket × Synchronizer :=
  (s.issued + 1, { s with issued := s.issued + 1 })

/-- Give up the handles and their model. -/
def forget (s : Synchronizer) : Synchronizer := { s with handles := [], model := none }

/-- Belong to a model: the handles of any other one are given up. -/
def attach (s : Synchronizer) (id : ModelId) : Synchronizer :=
  if s.model = some id then s else { s.forget with model := some id }

/-- Replace the highlights in a model, whose lock and the synchronizer's own are both held: a crash
poisons both. -/
def draw (s : Synchronizer) (host : Host) (id : ModelId) (cell : ModelCell) (ticket : Ticket)
    (spans : List Span) : Commit × Synchronizer × Host :=
  if cell.crashNext then
    (.crashed, { s with poisoned := true }, host.setCell id { cell with poisoned := true })
  else
    let (handles, model) := cell.model.replace s.handles (spans.map Decoration.occurrence)
    (.applied s.handles.length handles.length,
      { s with handles, committed := max s.committed ticket },
      host.setCell id { cell with model })

/-- Commit to the model that the host has picked. A commit that finds no usable model gives up the handles
held. -/
def commitTo (s : Synchronizer) (host : Host) (picked : Option ModelId) (ticket : Ticket)
    (spans : List Span) : CommitResult :=
  match picked.bind fun id => (host.cell? id).map fun cell => (id, cell) with
  | none => ⟨.modelMissing, s.handles.length, s.forget, host⟩
  | some (id, cell) =>
    if cell.poisoned then ⟨.modelPoisoned, s.handles.length, s.forget, host⟩
    else if s.poisoned then ⟨.statePoisoned, 0, s, host⟩
    else
      let bound := s.attach id
      let forgotten := s.handles.length - bound.handles.length
      if s.discardSuperseded && decide (ticket < s.committed) then
        ⟨.superseded ticket s.committed, forgotten, bound, host⟩
      else
        let (outcome, s, host) := bound.draw host id cell ticket spans
        ⟨outcome, forgotten, s, host⟩

/-- Commit to the model shown. -/
def commit (s : Synchronizer) (host : Host) (ticket : Ticket) (spans : List Span) : CommitResult :=
  s.commitTo host host.shown ticket spans

/-- Commit under a new ticket. -/
def replaceAll (s : Synchronizer) (host : Host) (spans : List Span) : Ticket × CommitResult :=
  let (ticket, s) := s.nextTicket
  (ticket, s.commit host ticket spans)

end Synchronizer

namespace CommitResult

/-- What is reported of a commit under a ticket. -/
def events (r : CommitResult) (ticket : Ticket) : List Event :=
  let forgotten := if r.forgotten = 0 then [] else [Event.forgotten r.forgotten]
  match r.outcome with
  | .modelMissing => .modelMissing ticket :: forgotten
  | .modelPoisoned => .modelPoisoned ticket :: forgotten
  | .statePoisoned => [.statePoisoned ticket]
  | .superseded _ committed => forgotten ++ [.stale ticket committed]
  | .applied removed added => forgotten ++ [.replaced ticket removed added]
  | .crashed => forgotten

end CommitResult

end Highlight
