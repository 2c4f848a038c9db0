import Highlight.Decoration.Synchronizer
import Highlight.Occurrences
import Highlight.Reactor.Editor
import Highlight.Settings.Basic

/-!
# Highlight jobs

A job turns one selection into highlights. It works in steps, between which other jobs may work, and its
phase holds what it has read so far:

1. `start`: give up if cancelled;
2. `readParse`: read the editor's parse;
3. `readDocument`: read the live document and pick the identifier;
4. `supersede`: cancel the older jobs that are in flight;
5. `search`: resolve the identifier and search for its symbol;
6. `recheck`: give up if cancelled;
7. `pickModel`: read which decoration model is shown;
8. `commit`: draw the spans there;
9. `finish`: leave the jobs in flight.

A job that gives up goes to `finish` at once, and its highlights stay as they are.
-/

namespace Highlight

/-- The work for one selection. -/
structure Job where
  ticket : Ticket
  offset : Nat
  length : Nat
  deriving DecidableEq, Repr, Inhabited

/-- An identifier picked by a job, with the texts it was picked from. -/
structure Target where
  parse : Parse
  live : Text
  mapping : Mapping
  element : Place

/-- How far a job has come. -/
inductive Phase where
  | start
  | readParse
  | readDocument (parse : Parse)
  | supersede (target : Target)
  | search (target : Target)
  | recheck (spans : List Span)
  | pickModel (spans : List Span)
  | commit (spans : List Span) (picked : Option ModelId)
  | finish

/-- What a step of a job comes to. -/
inductive Progress where
  | goOn (phase : Phase)
  | ended
  /-- Something from outside crashed under the job. -/
  | crashed

/-- What the jobs of one reactor share. -/
structure Shared where
  settings : Settings
  pipeline : Pipeline
  editor : Editor
  synchronizer : Synchronizer
  /-- The tickets of the jobs that are registered, in order. -/
  inFlight : List Ticket := []
  /-- The tickets of the jobs that have been cancelled. -/
  cancelled : List Ticket := []
  journal : Journal := {}

namespace Shared

/-- Write down some events. -/
def noteAll (s : Shared) (es : List Event) : Shared := { s with journal := s.journal.noteAll es }

/-- The job with this ticket has been cancelled. -/
def isCancelled (s : Shared) (ticket : Ticket) : Bool := s.cancelled.contains ticket

/-- Register a job, where superseded jobs are to be cancelled. -/
def register (s : Shared) (ticket : Ticket) : Shared :=
  if s.settings.discardSuperseded then { s with inFlight := s.inFlight ++ [ticket] } else s

/-- A job is no longer in flight. -/
def unregister (s : Shared) (ticket : Ticket) : Shared :=
  { s with inFlight := s.inFlight.filter (· ≠ ticket) }

/-- Cancel all jobs in flight that are older than this one. -/
def supersede (s : Shared) (ticket : Ticket) : Shared :=
  let older := s.inFlight.filter (· < ticket)
  { s with
    inFlight := s.inFlight.filter (ticket ≤ ·)
    cancelled := s.cancelled ++ older }.noteAll (older.map (.cancels ticket))

end Shared

namespace Job

/-- What is reported of the outcome of a job's commit. -/
def commitEvents (ticket : Ticket) : Commit → List Event
  | .applied removed added => [.shown ticket added removed]
  | .superseded _ committed => [.dropped ticket committed]
  | .modelMissing | .modelPoisoned | .statePoisoned => [.modelUnavailable ticket]
  | .crashed => []

/-- The editor's parse, if it is there and its language has symbols. -/
def readParse (j : Job) (s : Shared) : Shared × Progress :=
  match s.editor.parse with
  | none => (s.noteAll [.unparsed j.ticket], .goOn .finish)
  | some parse =>
    if parse.snapshot.language.supportsOccurrences then (s, .goOn (.readDocument parse))
    else (s.noteAll [.unsupported j.ticket parse.snapshot.language], .goOn .finish)

/-- The identifier that the selection picks in the live document. -/
def readDocument (j : Job) (s : Shared) (parse : Parse) : Shared × Progress :=
  match s.editor.document with
  | none => (s.noteAll [.documentClosed j.ticket], .goOn .finish)
  | some d =>
    let mapping := Mapping.between parse.snapshot.source d.text
    match elementAt parse.snapshot d.text mapping j.offset j.length s.settings.mode with
    | .error why => (s.noteAll (why.events ++ [.nothingAt j.ticket j.offset]), .goOn .finish)
    | .ok element => (s, .goOn (.supersede ⟨parse, d.text, mapping, element⟩))

/-- The occurrences of the symbol that the identifier names; `cancelled` is the history of the job's token
during the search. -/
def searchUnder (cancelled : Nat → Bool) (s : Shared) (t : Target) : Shared × Progress :=
  let file := t.parse.snapshot
  match s.pipeline.find cancelled file t.live t.mapping t.element with
  | .error .crash => (s, .crashed)
  | .ok report =>
    (s.noteAll (s.pipeline.events t.parse.number file t.element report), .goOn (.recheck report.spans))

/-- The search of a job whose token does not change meanwhile. -/
def search (j : Job) (s : Shared) (t : Target) : Shared × Progress :=
  searchUnder (fun _ => s.isCancelled j.ticket) s t

/-- Draw the spans in the model that was picked. -/
def commit (j : Job) (s : Shared) (spans : List Span) (picked : Option ModelId) :
    Shared × Progress :=
  let r := s.synchronizer.commitTo s.editor.host picked j.ticket spans
  let s := { s with
    synchronizer := r.synchronizer
    editor := { s.editor with host := r.host } }.noteAll (r.events j.ticket)
  match r.outcome with
  | .crashed => (s, .crashed)
  | outcome => (s.noteAll (commitEvents j.ticket outcome), .goOn .finish)

/-- One step of a job. -/
def step (j : Job) (s : Shared) : Phase → Shared × Progress
  | .start =>
    if s.isCancelled j.ticket then (s.noteAll [.cancelledEarly j.ticket], .goOn .finish)
    else (s, .goOn .readParse)
  | .readParse => j.readParse s
  | .readDocument parse => j.readDocument s parse
  | .supersede target =>
    (if s.settings.discardSuperseded then s.supersede j.ticket else s, .goOn (.search target))
  | .search target => j.search s target
  | .recheck spans =>
    if s.isCancelled j.ticket then (s.noteAll [.supersededSearching j.ticket], .goOn .finish)
    else (s, .goOn (.pickModel spans))
  | .pickModel spans => (s, .goOn (.commit spans s.editor.host.shown))
  | .commit spans picked => j.commit s spans picked
  | .finish => (s.unregister j.ticket, .ended)

end Job

end Highlight
