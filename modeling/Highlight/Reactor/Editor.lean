import Highlight.Decoration.Host
import Highlight.Parse.Cache
import Highlight.Selection

/-!
# The editor around a reactor

One view with its document, the last parse of it, and the decoration models drawn over it.
-/

namespace Highlight

/-- A snapshot with a number that tells it from every other parse. -/
structure Parse where
  number : Nat
  snapshot : Snapshot

/-- An editor view. -/
structure Editor where
  view : ViewId
  document : Option Document
  parse : Option Parse := none
  /-- The number of parses so far. -/
  parses : Nat := 0
  cache : ParseCache := {}
  host : Host

namespace Editor

/-- The editor with another parse of its document, or without one. -/
def setSnapshot (e : Editor) (snapshot : Option Snapshot) : Editor :=
  { e with parse := snapshot.map (⟨e.parses, ·⟩), parses := e.parses + 1 }

/-- Parse the document as it is now. -/
def reparse (e : Editor) (parser : Parser) (editing : TreeEditing := fun tree _ => tree) :
    Editor × List Event :=
  match e.document with
  | none => (e.setSnapshot none, [])
  | some d =>
    let r := e.cache.parse parser (.ofDocument d) editing
    ({ e with cache := r.cache }.setSnapshot r.snapshot, r.events)

/-- Change the document. -/
def edit (e : Editor) (change : Document → Except EditError Document) : Except EditError Editor :=
  match e.document with
  | none => .ok e
  | some d => (change d).map fun d => { e with document := some d }

/-- Close the document: it is gone, and so are its parse and its decorations. -/
def close (e : Editor) : Editor :=
  { e with document := none, parse := none, host := e.host.hide }

end Editor

end Highlight
