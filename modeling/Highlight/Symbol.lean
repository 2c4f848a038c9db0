import Highlight.Snapshot

/-!
# Symbols

An identifier names a symbol: one that is declared in its file, known by its canonical declaration, or a
free one, known by its name alone. `Symbol.lexical?` reads the symbol off the scopes of a file.
`Symbol.resolve` does so as far as the names that it needs can be read.

A resolver is any rule that gives elements symbols. It comes from outside, so it may crash.
-/

namespace Highlight

/-- What an identifier refers to. -/
inductive Symbol where
  /-- Declared in a file; `declaration` is where its canonical declaring identifier stands. -/
  | bound (document : DocumentId) (space : Namespace) (name : Text) (declaration : ByteRange)
  /-- Without a declaration in scope: a global, a builtin, a member. -/
  | free (space : Namespace) (name : Text)
  deriving DecidableEq, Repr, Inhabited

namespace Symbol

/-- The name of the symbol. -/
def name : Symbol → Text
  | bound _ _ name _ => name
  | free _ name => name

/-- The namespace of the symbol. -/
def space : Symbol → Namespace
  | bound _ space _ _ => space
  | free space _ => space

/-! ## Lexical resolution -/

/-- The name and the namespace of a place that names something: an identifier with some text. -/
def named? (g : Grammar) (source : Text) (p : Place) : Option (Namespace × Text) :=
  if g.isIdentifier p.node.kind && !p.node.range.isEmpty then do
    let name ← Text.slice? source p.node.range
    let space ← g.classify p.node.kind p.parentKind? p.node.field
    return (space, name)
  else none

/-- The declaration that an identifier of some name means: the one it makes itself, or what a lookup from
its start finds. -/
def meaning? (x : ScopeIndex) (space : Namespace) (name : Text) (range : ByteRange) :
    Option Declaration :=
  match x.declarationAt? range.start with
  | some d =>
    if d.space = space ∧ d.range = range then some (x.canonical d)
    else x.lookup? space name range.start
  | none => x.lookup? space name range.start

/-- The symbol of a place in a file of the given grammar, text and index. Members are free by rule. -/
def resolveIn? (g : Grammar) (document : DocumentId) (source : Text) (x : ScopeIndex) (p : Place) :
    Option Symbol :=
  (named? g source p).map fun (space, name) =>
    if space = .member then free .member name
    else
      match meaning? x space name p.node.range with
      | some d => bound document space name d.range
      | none => free space name

/-- The symbol of a place in a snapshot. -/
def lexical? (s : Snapshot) (p : Place) : Option Symbol :=
  s.grammar.bind fun g => resolveIn? g s.document s.source s.scopes p

/-- Finding the lexical symbol needs the scope index, as it does for all names but members. -/
def needsScopes (s : Snapshot) (p : Place) : Bool :=
  match s.grammar.bind fun g => named? g s.source p with
  | some (space, _) => space ≠ .member
  | none => false

/-- The text of a place is read to resolve it: that of an identifier, unless it is empty. -/
def readsText (s : Snapshot) (p : Place) : Bool := s.isIdentifier p && !p.node.range.isEmpty

/-- Resolve a place of a snapshot. Its text is read first, and for all names but members the scope index is
built. -/
def resolve (s : Snapshot) (p : Place) : Except Crash (Option Symbol) :=
  if readsText s p && decide (Text.byteLength s.source < p.node.range.stop) then .error .crash
  else if needsScopes s p then s.index.map fun _ => lexical? s p
  else .ok (lexical? s p)

/-! ## Names of places -/

section Names

variable {g : Grammar} {source : Text} {p : Place} {space : Namespace} {name : Text}

theorem named?_eq (classified : g.classify p.node.kind p.parentKind? p.node.field = some space)
    (inhabited : p.node.range.isEmpty = false) (text : Text.slice? source p.node.range = some name) :
    named? g source p = some (space, name) := by
  have identifier := Grammar.isIdentifier_of_classify classified
  simp [named?, identifier, inhabited, text, classified]

theorem named?_eq_some (h : named? g source p = some (space, name)) :
    g.isIdentifier p.node.kind = true ∧ p.node.range.isEmpty = false ∧
      Text.slice? source p.node.range = some name ∧
      g.classify p.node.kind p.parentKind? p.node.field = some space := by
  unfold named? at h
  split at h
  · rename_i identifier
    simp only [Bool.and_eq_true, Bool.not_eq_true'] at identifier
    simp only [Option.bind_eq_bind, Option.bind_eq_some_iff, Option.pure_def, Option.some.injEq,
      Prod.mk.injEq] at h
    obtain ⟨name', slice, space', classified, rfl, rfl⟩ := h
    exact ⟨identifier.1, identifier.2, slice, classified⟩
  · cases h

/-- A place that resolves is an identifier and reads like the name of its symbol. -/
theorem named?_of_resolveIn? {document : DocumentId} {x : ScopeIndex} {symbol : Symbol}
    (h : resolveIn? g document source x p = some symbol) :
    named? g source p = some (symbol.space, symbol.name) := by
  simp only [resolveIn?, Option.map_eq_some_iff] at h
  obtain ⟨⟨space, name⟩, named, rfl⟩ := h
  rw [named]
  split
  · rename_i member
    have member : space = .member := member
    rw [member]
    rfl
  · split <;> rfl

variable {s : Snapshot} {symbol : Symbol}

theorem lexical?_eq (grammar : s.grammar = some g) :
    lexical? s p = resolveIn? g s.document s.source s.scopes p := by
  rw [lexical?, grammar, Option.bind_some]

theorem named?_of_lexical? (grammar : s.grammar = some g) (h : lexical? s p = some symbol) :
    named? g s.source p = some (symbol.space, symbol.name) := by
  rw [lexical?_eq grammar] at h
  exact named?_of_resolveIn? h

theorem slice?_of_lexical? (h : lexical? s p = some symbol) :
    Text.slice? s.source p.node.range = some symbol.name := by
  cases grammar : s.grammar with
  | none => simp [lexical?, grammar] at h
  | some g => exact (named?_eq_some (named?_of_lexical? grammar h)).2.2.1

/-- A place that resolves reads like the name of its symbol. -/
theorem read_of_lexical? (h : lexical? s p = some symbol) :
    Text.read s.source p.node.range = .ok (some symbol.name) := by
  have slice := slice?_of_lexical? h
  cases grammar : s.grammar with
  | none => simp [lexical?, grammar] at h
  | some g =>
    have inhabited := (named?_eq_some (named?_of_lexical? grammar h)).2.1
    rw [Text.read_eq_slice? (Text.stop_le_of_slice? slice) inhabited, slice]

/-- An identifier with some text in the source names a symbol. -/
theorem lexical?_isSome (grammar : s.grammar = some g) (identifier : g.isIdentifier p.node.kind = true)
    (inhabited : p.node.range.isEmpty = false)
    (slice : Text.slice? s.source p.node.range = some name) : ∃ symbol, lexical? s p = some symbol := by
  obtain ⟨space, found⟩ := Option.isSome_iff_exists.1 identifier
  apply Option.isSome_iff_exists.1
  simp [lexical?, grammar, resolveIn?, named?, identifier, inhabited, slice, Grammar.classify, found]

end Names

end Symbol

/-! ## Resolvers -/

/-- A rule that says which symbol an element names, if it names one. -/
structure Resolver where
  resolve : Snapshot → Place → Except Crash (Option Symbol)
  /-- Whether the answer is read off the scope index. -/
  readsScopes : Snapshot → Place → Bool := fun _ _ => false

namespace Resolver

/-- Resolution by lexical scopes. -/
def lexical : Resolver where
  resolve := Symbol.resolve
  readsScopes := Symbol.needsScopes

/-- The resolver with one answer for everything. -/
def constant (answer : Option Symbol) : Resolver where
  resolve _ _ := .ok answer

/-- The resolver that never answers. -/
def crashing : Resolver where
  resolve _ _ := .error .crash

end Resolver

end Highlight
