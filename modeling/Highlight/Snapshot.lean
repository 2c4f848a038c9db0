import Highlight.Scope.Walk

/-!
# Snapshots

A snapshot is a text of one moment with the tree that was parsed from it. The places of the tree and its
scope index are made with it and never change.
-/

namespace Highlight

/-- The number of a document. -/
abbrev DocumentId := Nat

/-- The index of a tree in some language; without a grammar it is empty. -/
def ScopeIndex.ofSource (language : Language) (source : Text) (t : Tree) : ScopeIndex :=
  match language.grammar with
  | none => {}
  | some g => ScopeIndex.ofTree g source t

/-- A parsed text. -/
structure Snapshot where
  document : DocumentId
  path : Option Path := none
  language : Language
  /-- The revision of the document that was parsed. -/
  revision : Nat
  source : Text
  tree : Tree
  /-- The places of the tree, kept because many questions need them. -/
  places : List Place := tree.places
  places_eq : places = tree.places := by rfl
  /-- The index of the tree, kept for the same reason. -/
  scopes : ScopeIndex := ScopeIndex.ofSource language source tree
  scopes_eq : scopes = ScopeIndex.ofSource language source tree := by rfl

namespace Snapshot

/-- The grammar table of the language. -/
def grammar (s : Snapshot) : Option Grammar := s.language.grammar

/-- The place is an identifier of the language. -/
def isIdentifier (s : Snapshot) (p : Place) : Bool := s.grammar.any (·.isIdentifier p.node.kind)

/-- The scope index as it is built when it is first asked for. -/
def index (s : Snapshot) : Except Crash ScopeIndex :=
  if s.grammar.any fun g => ScopeIndex.crashes g s.source s.places then .error .crash
  else .ok s.scopes

/-- The text of a byte range. -/
def textOf? (s : Snapshot) (r : ByteRange) : Option Text := Text.slice? s.source r

/-- The identifier around a byte. Its end is excluded, so there is none right behind it. -/
def identifierAt? (s : Snapshot) (byte : Nat) : Option Place := do
  let g ← s.grammar
  if byte < Text.byteLength s.source then
    let p ← Place.deepestAt? s.places byte
    if g.isIdentifier p.node.kind && p.node.range.contains byte then some p else none
  else none

/-- The identifiers that stand around some byte, each once, from the first byte on. -/
def identifiers (s : Snapshot) : List Place :=
  ((List.range (Text.byteLength s.source)).filterMap s.identifierAt?).foldr
    (fun p found => if found.head?.map (·.node.index) = some p.node.index then found else p :: found)
    []

theorem index_eq_build {s : Snapshot} {g : Grammar} (grammar : s.grammar = some g) :
    s.index = ScopeIndex.build g s.source s.tree := by
  have language : s.language.grammar = some g := grammar
  have scopes : s.scopes = ScopeIndex.ofTree g s.source s.tree := by
    rw [s.scopes_eq, ScopeIndex.ofSource, language]
  rw [index, ScopeIndex.build, grammar, Option.any_some, s.places_eq, scopes]

end Snapshot

end Highlight
