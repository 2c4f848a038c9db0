import Highlight.Reactor.Basic

/-!
# Sessions

A session lets the jobs of a reactor work one at a time and in order. A job can be held at one point of its
work until it is released; it keeps its worker busy meanwhile, so later jobs may have to wait for one.
-/

namespace Highlight

/-- A point at which a job can be held. -/
inductive HoldPoint where
  | parse
  | document
  | resolve
  /-- After the model has been picked. -/
  | model
  deriving DecidableEq, Repr

/-- The point at which a job in some phase stands. -/
def Phase.holdPoint? : Phase → Option HoldPoint
  | readParse => some .parse
  | readDocument _ => some .document
  | search _ => some .resolve
  | commit _ _ => some .model
  | _ => none

/-- The wish to hold the job of a ticket. -/
structure Hold where
  ticket : Ticket
  point : HoldPoint
  released : Bool := false
  deriving DecidableEq, Repr

/-- A reactor with the holds on its jobs. -/
structure Session where
  reactor : Reactor
  /-- The holds by number. -/
  holds : Table Nat Hold := {}
  /-- The number of holds asked for so far. -/
  asked : Nat := 0

namespace Session

/-- The number of the hold at which a task stands. -/
def heldAt? (s : Session) (task : Task) : Option Nat :=
  (s.holds.entries.find? fun (_, h) =>
    h.ticket == task.job.ticket && task.phase.holdPoint? == some h.point && !h.released).map (·.1)

/-- The worker has something to do other than to take a new job. -/
def isBusy (s : Session) : Worker Task → Bool
  | .idle => false
  | .running task => (s.heldAt? task).isNone
  | .ended => true

/-- The worker whose turn it is: one in the middle of a job, or else an idle one if a job waits. -/
def nextWorker? (s : Session) : Option Nat :=
  let pool := s.reactor.pool
  (pool.workers.findIdx? s.isBusy).or
    (if pool.channel.isEmpty then none
    else pool.workers.findIdx? fun
      | .idle => true
      | _ => false)

/-- One step of the worker whose turn it is. -/
def tick (s : Session) : Session :=
  match s.nextWorker? with
  | none => s
  | some w => { s with reactor := s.reactor.step w }

/-- More steps than the jobs at hand can take: a job takes nine, and is received and counted off. -/
def enoughSteps (s : Session) : Nat :=
  16 * (s.reactor.pool.channel.length + s.reactor.pool.workers.length)

/-- Work until nothing is left to do but to wait. -/
def settle (s : Session) : Session := Nat.repeat tick s.enoughSteps s

/-- The number of the hold at which the job of a ticket stands. -/
def heldTicket? (s : Session) (ticket : Ticket) : Option Nat :=
  s.reactor.pool.workers.findSome? fun
    | .running task => if task.job.ticket = ticket then s.heldAt? task else none
    | _ => none

/-- A selection has changed; its job is to be held at a point. The result says whether there is a job, and
the number of the hold at which it stands. -/
def select (s : Session) (view : ViewId) (selection : Selection) (point : Option HoldPoint) :
    (Bool × Option Nat) × Session :=
  let asked := if point.isSome then s.asked + 1 else s.asked
  match s.reactor.select view selection with
  | (none, reactor) => ((false, none), { s with reactor, asked })
  | (some ticket, reactor) =>
    let holds := match point with
      | none => s.holds
      | some point => s.holds.insert asked { ticket, point }
    let s := settle { reactor, holds, asked }
    ((true, s.heldTicket? ticket), s)

/-- Let a held job go on. -/
def release (s : Session) (hold : Nat) : Session :=
  settle { s with holds := s.holds.modify hold fun h => { h with released := true } }

/-- Change the editor between the steps of the jobs. -/
def changeEditor (s : Session) (f : Editor → Editor) : Session :=
  let shared := s.reactor.shared
  { s with reactor := { s.reactor with shared := { shared with editor := f shared.editor } } }

end Session

end Highlight
