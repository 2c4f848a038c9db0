import Highlight.Language
import Highlight.Text.Quoted

/-!
# The log

What the highlighter reports of its work. An event says what happened; `Event.level` and `Event.message`
are the one place that words it. The scope index of a parse is announced when it is first needed, so a
journal remembers which parses were announced.
-/

namespace Highlight

/-- How much an event matters. -/
inductive Level where
  | error
  | warn
  | debug
  | trace
  deriving DecidableEq, Repr

/-- The level as it is written. -/
def Level.render : Level → String
  | error => "ERROR"
  | warn => "WARN"
  | debug => "DEBUG"
  | trace => "TRACE"

/-- Something that happened. -/
inductive Event where
  /-- The scope index of the parse with this number was made. -/
  | indexed (parse scopes declarations : Nat)
  | languageChanged (old new : Language)
  | reparsed (start oldEnd newEnd : Nat)
  | unchanged
  | reparseFailed (language : Language)
  | fullParseFailed (language : Language)
  | parseFailed (language : Language)
  | unresolved (kind : String) (range : ByteRange)
  | searchFailed (name : Text) (found : Nat) (reason : String)
  | textChanged (range : ByteRange) (name : Text)
  | nameGrown (range : ByteRange) (name : Text)
  | placed (found spans : Nat)
  | identifierEdited (offset : Nat)
  | selectionLeaves (offset stop : Nat)
  | modelMissing (ticket : Nat)
  | modelPoisoned (ticket : Nat)
  | statePoisoned (ticket : Nat)
  | forgotten (count : Nat)
  | stale (ticket committed : Nat)
  | replaced (ticket removed added : Nat)
  | started (view workers : Nat)
  | foreignView (view : Nat)
  | scheduled (ticket offset : Nat)
  | cancelledEarly (ticket : Nat)
  | unparsed (ticket : Nat)
  | unsupported (ticket : Nat) (language : Language)
  | documentClosed (ticket : Nat)
  | nothingAt (ticket offset : Nat)
  | cancels (ticket older : Nat)
  | supersededSearching (ticket : Nat)
  | shown (ticket added removed : Nat)
  | dropped (ticket committed : Nat)
  | modelUnavailable (ticket : Nat)
  | jobCrashed (worker : Nat)
  deriving DecidableEq, Repr

namespace Event

/-- How much the event matters. -/
def level : Event → Level
  | fullParseFailed _ | parseFailed _ => .error
  | reparseFailed _ | modelPoisoned _ | statePoisoned _ | jobCrashed _ => .warn
  | languageChanged _ _ | searchFailed _ _ _ | modelMissing _ | forgotten _ | stale _ _
  | started _ _ | unparsed _ | documentClosed _ | dropped _ _ | modelUnavailable _ => .debug
  | _ => .trace

/-- The event in words. -/
def message : Event → String
  | indexed _ scopes declarations =>
    s!"Scope index built: {scopes} scopes, {declarations} declarations"
  | languageChanged old new =>
    "Language changed from " ++ old.title ++ " to " ++ new.title ++ ", doing full parse"
  | reparsed start oldEnd newEnd =>
    s!"Incremental parse: edit at byte {start}..{oldEnd} -> {start}..{newEnd}"
  | unchanged => "Source unchanged, reusing cached tree"
  | reparseFailed language =>
    "Incremental parse failed for " ++ language.title ++ ", falling back to full parse"
  | fullParseFailed language => "Full parse also failed for " ++ language.title
  | parseFailed language => "Parse failed for " ++ language.title
  | unresolved kind range => kind ++ " at " ++ range.render ++ " does not resolve"
  | searchFailed name found reason =>
    "Occurrence search for " ++ Quoted.quote name ++ s!" failed after {found} matches: " ++ reason
  | textChanged range name =>
    "Dropping match at " ++ range.render ++ ": live text no longer reads " ++ Quoted.quote name
  | nameGrown range name =>
    "Dropping match at " ++ range.render ++ ": " ++ Quoted.quote name ++ " now part of a longer token"
  | placed found spans => s!"{found} matches, {spans} spans"
  | identifierEdited offset => s!"Identifier at {offset} was edited since the parse"
  | selectionLeaves offset stop => s!"Selection {offset}..{stop} leaves the identifier"
  | modelMissing ticket => s!"Ticket {ticket}: no decoration model, skipping"
  | modelPoisoned ticket => s!"Ticket {ticket}: decoration model lock poisoned"
  | statePoisoned ticket => s!"Ticket {ticket}: decoration state lock poisoned"
  | forgotten count => s!"Forgetting {count} decorations of a gone model"
  | stale ticket committed => s!"Ticket {ticket} superseded by committed ticket {committed}"
  | replaced ticket removed added =>
    s!"Ticket {ticket}: replaced {removed} decorations with {added}"
  | started view workers => s!"Selection reactor for view ViewId({view}) with {workers} workers"
  | foreignView view => s!"Ignoring selection in foreign view ViewId({view})"
  | scheduled ticket offset => s!"Scheduling ticket {ticket} at offset {offset}"
  | cancelledEarly ticket => s!"Ticket {ticket} cancelled before start"
  | unparsed ticket => s!"Ticket {ticket}: no parsed file"
  | unsupported ticket language => s!"Ticket {ticket}: " ++ language.title ++ " has no symbols"
  | documentClosed ticket => s!"Ticket {ticket}: document closed"
  | nothingAt ticket offset => s!"Ticket {ticket}: nothing at offset {offset}"
  | cancels ticket older => s!"Ticket {ticket} cancels ticket {older}"
  | supersededSearching ticket => s!"Ticket {ticket} superseded while searching"
  | shown ticket added removed => s!"Ticket {ticket}: {added} occurrences (was {removed})"
  | dropped ticket committed => s!"Ticket {ticket} dropped, {committed} already shown"
  | modelUnavailable ticket => s!"Ticket {ticket}: decoration model unavailable"
  | jobCrashed worker => s!"Job panicked on occurrences-{worker}"

/-- The line of the log for an event. -/
def render (e : Event) : String := e.level.render ++ " " ++ e.message

end Event

/-- The events so far, and the parses whose index has been announced. -/
structure Journal where
  events : List Event := []
  announced : List Nat := []
  deriving DecidableEq, Repr, Inhabited

namespace Journal

/-- Write down one event; an index is announced once. -/
def note (j : Journal) (e : Event) : Journal :=
  match e with
  | .indexed parse _ _ =>
    if j.announced.contains parse then j
    else { events := j.events ++ [e], announced := parse :: j.announced }
  | _ => { j with events := j.events ++ [e] }

/-- Write down some events. -/
def noteAll (j : Journal) (es : List Event) : Journal := es.foldl note j

/-- The events since the journal was last read, and the journal to go on with. -/
def read (j : Journal) : List Event × Journal := (j.events, { j with events := [] })

end Journal

end Highlight
