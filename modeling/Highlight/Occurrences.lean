import Highlight.Document
import Highlight.Search
import Highlight.Selection
import Highlight.Span

/-!
# Occurrences of the symbol under a selection

A pipeline joins a resolver and an engine. A selection picks an identifier of a snapshot, the resolver says
which symbol it names, the engine searches the file for it, and every match of the same document that still
stands in the live text gives a span.

* `elementAt` picks the identifier or says why there is none.
* `Pipeline.find` searches for the symbol of an element; its report says everything that happened.
* `Pipeline.select` does both.
-/

namespace Highlight

/-! ## Picking an element -/

/-- Why a selection picks no identifier. -/
inductive Miss where
  /-- The selection begins behind the text or inside an edit. -/
  | startUnmapped
  | noIdentifier
  /-- The identifier does not stand in the live text as it was parsed. -/
  | notIntact (offset : Nat) (range : ByteRange) (reason : Drop)
  /-- The selection ends behind the text or inside an edit. -/
  | stopUnmapped
  /-- The selection `offset..stop` ends outside the identifier. -/
  | leaves (offset stop : Nat)
  deriving DecidableEq, Repr

/-- What is reported of a selection that picks nothing. -/
def Miss.events : Miss → List Event
  | notIntact offset range reason => reason.events range ++ [.identifierEdited offset]
  | leaves offset stop => [.selectionLeaves offset stop]
  | _ => []

/-- The parsed byte offset of a live character offset. -/
def parsedByte? (live : Text) (m : Mapping) (offset : Nat) : Option Nat :=
  (Text.byteOffset? live offset).bind m.toParsed

/-- Where a selection of `length` characters at `offset` ends, as a machine word of 64 bits. -/
def selectionStop (offset length : Nat) : Nat := (offset + length) % UInt64.size

theorem selectionStop_eq {offset length : Nat} (small : offset + length < UInt64.size) :
    selectionStop offset length = offset + length := Nat.mod_eq_of_lt small

/-- The identifier that a selection of `length` characters at `offset` picks. It must still stand in the
live text. -/
def elementAt (file : Snapshot) (live : Text) (m : Mapping) (offset length : Nat)
    (mode : SelectionMode) : Except Miss Place :=
  match parsedByte? live m offset with
  | none => .error .startUnmapped
  | some start =>
    match file.identifierAt? start with
    | none => .error .noIdentifier
    | some element =>
      match Span.derive file element.node.range element.node.kind live m with
      | .error reason => .error (.notIntact offset element.node.range reason)
      | .ok _ =>
        if mode = .enclosing ∧ 0 < length then
          match parsedByte? live m (selectionStop offset length) with
          | none => .error .stopUnmapped
          | some stop =>
            if element.node.range.stop < stop then
              .error (.leaves offset (selectionStop offset length))
            else .ok element
        else .ok element

/-! ## Finding occurrences -/

/-- A resolver and an engine. -/
structure Pipeline where
  resolver : Resolver
  engine : Engine

/-- The pipeline that works by lexical scopes. -/
def Pipeline.lexical : Pipeline := ⟨Resolver.lexical, Engine.lexical⟩

/-- What was done about an element. -/
inductive Report where
  /-- The element names no symbol. -/
  | unresolved (node : Node)
  /-- A search for the symbol was made; each match of the document was placed or dropped. -/
  | searched (symbol : Symbol) (outcome : Outcome) (placed : List (ByteRange × Except Drop Span))

namespace Report

/-- The spans of the matches that were placed, in the order of the engine. -/
def spans : Report → List Span
  | unresolved _ => []
  | searched _ _ placed => placed.filterMap (·.2.toOption)

end Report

namespace Pipeline

/-- A match of a document, placed in the live text. -/
def place? (document : DocumentId) (live : Text) (m : Mapping) :
    Match → Option (ByteRange × Except Drop Span)
  | .element found =>
    if found.file.document = document then
      some (found.range, Span.derive found.file found.range found.nodeKind live m)
    else none
  | .text _ _ => none

/-- Search for the symbol that an element names; `cancelled` is the history of the token during the
search. -/
def find (p : Pipeline) (cancelled : Nat → Bool) (file : Snapshot) (live : Text) (m : Mapping)
    (element : Place) : Except Crash Report := do
  match ← p.resolver.resolve file element with
  | none => return .unresolved element.node
  | some symbol =>
    let outcome := (p.engine ⟨symbol, [file], .all⟩).exec cancelled
    if outcome.ending = .crashed then .error .crash
    else return .searched symbol outcome (outcome.complete.filterMap (place? file.document live m))

/-- What came of a selection. -/
inductive Selected where
  | missed (why : Miss)
  | found (element : Place) (report : Report)

/-- The occurrences for a selection of text. -/
def select (p : Pipeline) (cancelled : Nat → Bool) (file : Snapshot) (live : Text)
    (offset length : Nat) (mode : SelectionMode) : Except Crash Selected := do
  let m := Mapping.between file.source live
  match elementAt file live m offset length mode with
  | .error why => return .missed why
  | .ok element => return .found element (← p.find cancelled file live m element)

/-- The spans for a selection; none where it picks no identifier. -/
def Selected.spans? : Selected → Option (List Span)
  | missed _ => none
  | found _ report => some report.spans

/-! ## What is reported -/

/-- The announcement of a snapshot's index. -/
def indexEvent (parse : Nat) (file : Snapshot) : Event :=
  .indexed parse file.scopes.scopes.length file.scopes.declarations.length

/-- The log of a search for the symbol of an element of the parse with the given number. A file without
a grammar has no index to announce. -/
def events (p : Pipeline) (parse : Nat) (file : Snapshot) (element : Place) (report : Report) :
    List Event :=
  let index := if file.grammar.isSome then [indexEvent parse file] else []
  (if p.resolver.readsScopes file element then index else []) ++
    match report with
    | .unresolved node => [.unresolved node.kind node.range]
    | .searched symbol outcome placed =>
      (if outcome.readScopes then index else []) ++
        (match outcome.ending with
        | .failed reason =>
          [.searchFailed symbol.name outcome.found.length reason.message]
        | _ => []) ++
        placed.flatMap (fun (range, result) =>
          match result with
          | .error reason => reason.events range
          | .ok _ => []) ++
        [.placed outcome.complete.length report.spans.length]

end Pipeline

end Highlight
