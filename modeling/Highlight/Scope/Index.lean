import Highlight.Grammar.Tables
import Highlight.Table

/-!
# The scope index

The scopes of one text and the names declared in them, in the order in which a walk over its tree meets
them. Two tables find declarations by the byte at which they start and by their name.

A reference is looked up outward from the innermost scope around it, first among the declarations that
are visible there, then among all.
-/

namespace Highlight

/-- A part of a text in which names can be declared. -/
structure Scope where
  range : ByteRange
  /-- The number of the scope around this one. -/
  parent : Option Nat
  /-- How many scopes are around this one. -/
  depth : Nat
  deriving DecidableEq, Repr, Inhabited

/-- A name brought in by a declaring identifier. -/
structure Declaration where
  space : Namespace
  name : Text
  /-- Where the declaring identifier stands. -/
  range : ByteRange
  /-- The number of the scope that the name is bound in. -/
  scope : Nat
  /-- The first byte at which references see the declaration. -/
  visibleFrom : Nat
  deriving DecidableEq, Repr, Inhabited

/-- The scopes and declarations of one text. -/
structure ScopeIndex where
  scopes : List Scope := []
  declarations : List Declaration := []
  /-- The number of the declaration that starts at a byte. -/
  byStart : Table Nat Nat := {}
  /-- The numbers of the declarations of a name. -/
  byName : Table (Namespace × Text) (List Nat) := {}
  rebinding : Option Rebinding := none
  deriving DecidableEq, Repr, Inhabited

namespace ScopeIndex

/-! ## Growth -/

/-- The index with one more scope. -/
def addScope (x : ScopeIndex) (s : Scope) : ScopeIndex := { x with scopes := x.scopes ++ [s] }

/-- The index with one more declaration. Of two that start at one byte the later one is found there. -/
def addDeclaration (x : ScopeIndex) (d : Declaration) : ScopeIndex :=
  let number := x.declarations.length
  let key := (d.space, d.name)
  { x with
    declarations := x.declarations ++ [d]
    byStart := x.byStart.insert d.range.start number
    byName := x.byName.insert key ((x.byName.get? key).getD [] ++ [number]) }

/-! ## Declarations -/

/-- The declaration whose identifier starts at the byte. -/
def declarationAt? (x : ScopeIndex) (byte : Nat) : Option Declaration := do
  let number ← x.byStart.get? byte
  x.declarations[number]?

/-- The declarations of a name, if there are any. -/
def named? (x : ScopeIndex) (space : Namespace) (name : Text) : Option (List Declaration) :=
  (x.byName.get? (space, name)).map (·.filterMap (x.declarations[·]?))

/-- The declaration that stands for the symbol which `d` declares: where a name is rebound, the first one
of that name in its scope. -/
def canonical (x : ScopeIndex) (d : Declaration) : Declaration :=
  if x.rebinding = some .reassign then
    (((x.named? d.space d.name).getD []).find? (·.scope == d.scope)).getD d
  else d

/-! ## Scopes around a byte -/

/-- The deeper of two numbered scopes, and of two equally deep ones the later. -/
def deeper (best : Option (Scope × Nat)) (s : Scope × Nat) : Option (Scope × Nat) :=
  match best with
  | none => some s
  | some b => if b.1.depth ≤ s.1.depth then some s else some b

/-- The number of the innermost scope around the byte; the root scope where none is. -/
def innermost? (x : ScopeIndex) (byte : Nat) : Option Nat :=
  match (x.scopes.zipIdx.filter (·.1.range.contains byte)).foldl deeper none with
  | some s => some s.2
  | none => if x.scopes.isEmpty then none else some 0

/-- The number of a scope and those of the scopes around it, from the inside out. A scope is always
numbered after the one around it, so the way outward ends. -/
def outward (x : ScopeIndex) (n : Nat) : List Nat :=
  n :: match (x.scopes[n]?).bind (·.parent) with
    | none => []
    | some p => if p < n then x.outward p else []
termination_by n

/-- The numbers of the scopes around a byte, from the inside out. -/
def chain (x : ScopeIndex) (byte : Nat) : List Nat :=
  match x.innermost? byte with
  | none => []
  | some n => x.outward n

/-! ## Lookup -/

/-- The declaration among `candidates` that a reference at `byte` sees in one scope. -/
def visibleIn? (x : ScopeIndex) (candidates : List Declaration) (byte scope : Nat) :
    Option Declaration :=
  let inScope := candidates.filter (·.scope == scope)
  if x.rebinding = some .reassign then inScope.head?
  else (inScope.filter (·.visibleFrom ≤ byte)).getLast?

/-- What a reference to a name at a byte means: the declaration visible in the nearest scope that has
one, or else the first declaration in the nearest scope that has any. -/
def lookup? (x : ScopeIndex) (space : Namespace) (name : Text) (byte : Nat) :
    Option Declaration := do
  let candidates ← x.named? space name
  let chain := x.chain byte
  let found ← (chain.findSome? (x.visibleIn? candidates byte)).or
    (chain.findSome? fun scope => candidates.find? (·.scope == scope))
  return x.canonical found

end ScopeIndex

end Highlight
