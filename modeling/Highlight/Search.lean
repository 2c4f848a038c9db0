import Highlight.Symbol

/-!
# Searching for a symbol

An engine answers a query by a run: it reports matches, polls whether it has been cancelled, and ends well,
with an error or with a crash. A run is data, so it can be carried out against any history of the
cancellation token.

* `Run.exec` carries a run out.
* `Engine.lexical` looks at every captured node of every file and reports those that resolve to the symbol.
* `Outcome.complete` is what is left of an outcome for a caller who wants all matches or none.
-/

namespace Highlight

/-! ## Queries and matches -/

/-- Whether a match declares the symbol or refers to it. -/
inductive OccurrenceKind where
  | declaration
  | reference
  deriving DecidableEq, Repr

/-- The kinds of matches that a query asks for. -/
inductive Limit where
  | declarations
  | references
  | all
  deriving DecidableEq, Repr, Inhabited

/-- The limit lets matches of this kind through. -/
def Limit.accepts : Limit → OccurrenceKind → Bool
  | declarations, kind => kind == .declaration
  | references, kind => kind == .reference
  | all, _ => true

/-- A question for the occurrences of a symbol in some files. -/
structure Query where
  symbol : Symbol
  files : List Snapshot
  limit : Limit

/-- A syntax node that an engine found. -/
structure ElementMatch where
  file : Snapshot
  /-- Where the node stands in the snapshot. -/
  range : ByteRange
  nodeKind : String
  kind : OccurrenceKind

/-- What an engine reports. -/
inductive Match where
  | element (found : ElementMatch)
  /-- Plain text without a syntax node behind it. -/
  | text (file : Snapshot) (range : ByteRange)

/-- Why a search failed. -/
inductive SearchError where
  | cancelled
  | noQuery (language : Language)
  | other (message : String)
  deriving DecidableEq, Repr

/-- The error in words. -/
def SearchError.message : SearchError → String
  | cancelled => "search cancelled"
  | noQuery language => "no identifier query for " ++ language.title
  | other message => message

/-! ## Runs -/

/-- The behaviour of an engine on one query. -/
inductive Run where
  /-- Everything has been reported. -/
  | finish
  | fail (reason : SearchError)
  | crash
  | report (found : Match) (rest : Run)
  /-- Ask whether the search has been cancelled and go on accordingly. -/
  | poll (cancelled live : Run)
  /-- Look into the scope index of the file being searched. -/
  | readScopes (rest : Run)

/-- How a run ended. -/
inductive Ending where
  | finished
  | failed (reason : SearchError)
  | crashed
  deriving DecidableEq, Repr

/-- What came out of a run. -/
structure Outcome where
  found : List Match
  ending : Ending
  /-- Whether a scope index was looked into. -/
  readScopes : Bool
  /-- The number of steps taken. -/
  steps : Nat

namespace Run

/-- Carry out a run of which `n` steps are taken; `cancelled n` says whether the token is cancelled when
`n` steps have been taken. -/
def execFrom (cancelled : Nat → Bool) (n : Nat) : Run → Outcome
  | finish => ⟨[], .finished, false, n⟩
  | fail reason => ⟨[], .failed reason, false, n⟩
  | crash => ⟨[], .crashed, false, n⟩
  | report found rest =>
    let o := execFrom cancelled (n + 1) rest
    { o with found := found :: o.found }
  | poll onCancelled onLive =>
    if cancelled n then execFrom cancelled (n + 1) onCancelled
    else execFrom cancelled (n + 1) onLive
  | readScopes rest => { execFrom cancelled (n + 1) rest with readScopes := true }

/-- Carry out a run. -/
def exec (cancelled : Nat → Bool) (run : Run) : Outcome := execFrom cancelled 0 run

/-- The number of steps after which a run that is not cancelled has made `k` reports. -/
def stepsToReports : Nat → Run → Option Nat
  | 0, _ => some 0
  | k + 1, report _ rest => (stepsToReports k rest).map (· + 1)
  | k + 1, poll _ live => (stepsToReports (k + 1) live).map (· + 1)
  | k + 1, readScopes rest => (stepsToReports (k + 1) rest).map (· + 1)
  | _ + 1, _ => none

/-- The history of a token that is cancelled right after the `k`-th report of the run. -/
def cancelledAfter (k : Nat) (run : Run) (n : Nat) : Bool :=
  match stepsToReports k run with
  | some steps => decide (steps ≤ n)
  | none => false

end Run

namespace Outcome

/-- All matches of a run that finished, and none of another one. -/
def complete (o : Outcome) : List Match :=
  match o.ending with
  | .finished => o.found
  | _ => []

end Outcome

/-- An engine gives every query a run. -/
abbrev Engine := Query → Run

namespace Engine

/-! ## The lexical engine -/

/-- An identifier that starts and ends like a declaration of its file declares. -/
def occurrenceKind (file : Snapshot) (range : ByteRange) : OccurrenceKind :=
  match file.scopes.declarationAt? range.start with
  | some d => if d.range = range then .declaration else .reference
  | none => .reference

/-- What to do about a captured node whose text is the name searched for, once it has been resolved. -/
def judge (q : Query) (file : Snapshot) (node : Node) (symbol : Option Symbol) (rest : Run) : Run :=
  if symbol = some q.symbol then
    match file.index with
    | .error .crash => .crash
    | .ok _ =>
      let kind := occurrenceKind file node.range
      .readScopes
        (if q.limit.accepts kind then .report (.element ⟨file, node.range, node.kind, kind⟩) rest
        else rest)
  else rest

/-- What to do about a captured node. -/
def visit (resolver : Resolver) (q : Query) (file : Snapshot) (p : Place) (rest : Run) : Run :=
  .poll (.fail .cancelled)
    (match Text.read file.source p.node.range with
    | .error .crash => .crash
    | .ok text =>
      if text = some q.symbol.name then
        match resolver.resolve file p with
        | .error .crash => .crash
        | .ok symbol =>
          let judged := judge q file p.node symbol rest
          if resolver.readsScopes file p then .readScopes judged else judged
      else rest)

/-- The places of a file that its language's query captures. -/
def captures (g : Grammar) (file : Snapshot) : List Place :=
  file.places.filter (g.captures.contains ·.node.kind)

/-- Search one file and then go on. -/
def searchFile (resolver : Resolver) (q : Query) (file : Snapshot) (rest : Run) : Run :=
  .poll (.fail .cancelled)
    (match file.grammar with
    | none => .fail (.noQuery file.language)
    | some g => (captures g file).foldr (visit resolver q file) rest)

/-- The engine that reports the captured nodes which the resolver gives the symbol. -/
def searching (resolver : Resolver) : Engine := fun q =>
  q.files.foldr (searchFile resolver q) .finish

/-- The engine that searches by lexical scopes. -/
def lexical : Engine := searching Resolver.lexical

/-- The engine that reports the same matches for every query and then ends as given. -/
def reporting (found : List Match) (ending : Run) : Engine := fun _ => found.foldr .report ending

end Engine

end Highlight
