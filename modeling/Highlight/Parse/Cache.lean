import Highlight.Document
import Highlight.Log
import Highlight.Text.Edit

/-!
# The parse cache

The cache keeps the last tree of every document with the text and language it was parsed from, so that a
parser can start from it. The parser itself comes from outside: it is given a text and, where there is one,
an older tree in which the edit since then has been marked. How an edit is marked in a tree comes from
outside as well.
-/

namespace Highlight

/-- A parser may refuse a text. In the older tree the edit that leads to the text has been marked. -/
abbrev Parser := Language → Text → Option Tree → Option Tree

/-- A way to mark an edit in a tree. -/
abbrev TreeEditing := Tree → Edit → Tree

/-- The last parse of a document. -/
structure CachedParse where
  language : Language
  source : Text
  tree : Tree

/-- The last parses by document. -/
structure ParseCache where
  entries : Table DocumentId CachedParse := {}

/-- A text to be parsed. -/
structure ParseRequest where
  document : DocumentId
  path : Option Path := none
  language : Language
  revision : Nat
  source : Text

/-- What came of a request. -/
structure ParseResult where
  snapshot : Option Snapshot
  cache : ParseCache
  events : List Event

namespace ParseRequest

/-- The snapshot with a tree for the request. -/
def snapshot (q : ParseRequest) (tree : Tree) : Snapshot :=
  { document := q.document, path := q.path, language := q.language, revision := q.revision
    source := q.source, tree }

/-- The request for the text of a document. Documents without a number share number 0. -/
def ofDocument (d : Document) : ParseRequest :=
  { document := d.id.getD 0, path := d.path, language := d.language, revision := d.revision
    source := d.text }

end ParseRequest

namespace ParseCache

/-- Keep a tree and answer with it. -/
def keep (c : ParseCache) (q : ParseRequest) (tree : Tree) (events : List Event) : ParseResult where
  snapshot := some (q.snapshot tree)
  cache := ⟨c.entries.insert q.document ⟨q.language, q.source, tree⟩⟩
  events := events

/-- Parse without an older tree. -/
def parseFull (c : ParseCache) (parser : Parser) (q : ParseRequest) (events : List Event)
    (failure : Event) : ParseResult :=
  match parser q.language q.source none with
  | some tree => c.keep q tree events
  | none => { snapshot := none, cache := c, events := events ++ [failure] }

/-- Parse from the tree of the document's entry, and without it should that fail. The edit is marked in
the entry itself, which keeps its old text, so that an entry whose tree the parser refuses has to go. -/
def reparse (c : ParseCache) (parser : Parser) (q : ParseRequest) (old : CachedParse) (edit : Edit)
    (editing : TreeEditing := fun tree _ => tree) : ParseResult :=
  let edited := editing old.tree edit
  let c : ParseCache := ⟨c.entries.insert q.document { old with tree := edited }⟩
  let events := [Event.reparsed edit.start edit.oldEnd edit.newEnd]
  match parser q.language q.source (some edited) with
  | some tree => c.keep q tree events
  | none =>
    parseFull ⟨c.entries.erase q.document⟩ parser q (events ++ [.reparseFailed q.language])
      (.fullParseFailed q.language)

/-- Parse a text. An unchanged text gets the cached tree; a text in another language than before is
parsed anew; plain text is not parsed. -/
def parse (c : ParseCache) (parser : Parser) (q : ParseRequest)
    (editing : TreeEditing := fun tree _ => tree) : ParseResult :=
  if q.language = .plainText then { snapshot := none, cache := c, events := [] }
  else
    match c.entries.get? q.document with
    | none => c.parseFull parser q [] (.parseFailed q.language)
    | some old =>
      if old.language = q.language then
        match Edit.between old.source q.source with
        | some edit => c.reparse parser q old edit editing
        | none => { snapshot := some (q.snapshot old.tree), cache := c, events := [.unchanged] }
      else
        c.parseFull parser q [.languageChanged old.language q.language] (.parseFailed q.language)

/-- Forget a document. -/
def clear (c : ParseCache) (document : DocumentId) : ParseCache := ⟨c.entries.erase document⟩

end ParseCache

end Highlight
