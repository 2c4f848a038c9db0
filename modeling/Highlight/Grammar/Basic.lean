import Highlight.Language

/-!
# Grammar tables

Syntax trees name their nodes by kind. A grammar table says which kinds name a symbol and in which
namespace, which open a lexical scope, which places below a parent declare a name, and which places
belong to another namespace than the kind says.
-/

namespace Highlight

/-- A class of names. Equal names meet only inside one namespace. -/
inductive Namespace where
  /-- Variables, functions and parameters. -/
  | value
  /-- Types. -/
  | type
  /-- Properties, fields and path segments, which are matched by name alone. -/
  | member
  deriving DecidableEq, Repr, Inhabited

/-- From where on a declared name is visible in its scope. -/
inductive Visibility where
  /-- From the start of the scope. -/
  | hoisted
  /-- From the end of the declaring construct. -/
  | afterDeclaration
  deriving DecidableEq, Repr

/-- What a second declaration of a name in one scope means. -/
inductive Rebinding where
  /-- A new symbol that hides the one before. -/
  | shadow
  /-- The same symbol again. -/
  | reassign
  deriving DecidableEq, Repr

/-- An identifier in `field` of a `parent` node declares a name; without a field the rule speaks of the
children that have none. -/
structure DeclarationRule where
  parent : String
  field : Option String
  /-- The name is bound around the parent and not inside it. -/
  bindsOutside : Bool
  visibility : Visibility
  deriving DecidableEq, Repr

/-- An identifier in `field` of a `parent` node belongs to `space`. -/
structure Reclassification where
  parent : String
  field : String
  space : Namespace
  deriving DecidableEq, Repr

/-- What is known of the syntax trees of one language. -/
structure Grammar where
  language : Language
  identifiers : List (String × Namespace)
  scopes : List String
  declarations : List DeclarationRule
  reclassifications : List Reclassification
  rebinding : Rebinding
  /-- The kinds that a search looks at. -/
  captures : List String
  deriving DecidableEq, Repr

namespace Grammar

/-- The namespace of an identifier kind. -/
def namespaceOf (g : Grammar) (kind : String) : Option Namespace := g.identifiers.lookup kind

/-- Nodes of this kind name a symbol. -/
def isIdentifier (g : Grammar) (kind : String) : Bool := (g.namespaceOf kind).isSome

/-- Nodes of this kind open a scope. -/
def isScope (g : Grammar) (kind : String) : Bool := g.scopes.contains kind

/-- The namespace that a place below a parent has instead of its kind's. -/
def reclassify? (g : Grammar) (parent field : Option String) : Option Namespace := do
  let parent ← parent
  let field ← field
  let r ← g.reclassifications.find? fun r => r.parent == parent && r.field == field
  return r.space

/-- The namespace of an identifier at its place. -/
def classify (g : Grammar) (kind : String) (parent field : Option String) : Option Namespace :=
  (g.namespaceOf kind).map fun space => (g.reclassify? parent field).getD space

theorem isIdentifier_of_classify {g : Grammar} {kind : String} {parent field : Option String}
    {space : Namespace} (h : g.classify kind parent field = some space) :
    g.isIdentifier kind = true := by
  obtain ⟨plain, found, -⟩ := Option.map_eq_some_iff.1 h
  rw [isIdentifier, found]
  rfl

/-- The rule under which an identifier at `field` of `parent` declares a name. -/
def declarationRule? (g : Grammar) (parent : String) (field : Option String) :
    Option DeclarationRule :=
  g.declarations.find? fun r => r.parent == parent && r.field == field

/-- The tree query that captures every identifier. -/
def identifierQuery (g : Grammar) : String :=
  g.captures.foldl (fun text kind => text ++ "(" ++ kind ++ ") @occurrence\n")
    "; Every node that can name a symbol\n\n"

end Grammar

end Highlight
