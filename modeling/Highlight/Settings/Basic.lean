import Highlight.Selection

/-!
# Settings

What a user can choose, with the choices made by default, and the text that the settings are kept as.
-/

namespace Highlight

/-- The choices of a user. -/
structure Settings where
  enabled : Bool := true
  /-- The number of background workers. -/
  workerThreads : Nat := 2
  mode : SelectionMode := .start
  /-- Results of jobs older than the last one shown are refused. -/
  discardSuperseded : Bool := true
  deriving DecidableEq, Repr, Inhabited

/-- The name of a selection mode. -/
def SelectionMode.name : SelectionMode → String
  | start => "start"
  | enclosing => "enclosing"

namespace Settings

/-- The settings as they are used: there is at least one worker. -/
def normalized (s : Settings) : Settings :=
  if s.workerThreads = 0 then { s with workerThreads := 1 } else s

/-- The settings as they are written to a file. -/
def render (s : Settings) : String :=
  "enabled: " ++ toString s.enabled ++ "\n" ++
    "worker_threads: " ++ toString s.workerThreads ++ "\n" ++
    "range_selection: " ++ s.mode.name ++ "\n" ++
    "discard_superseded: " ++ toString s.discardSuperseded ++ "\n"

end Settings

end Highlight
