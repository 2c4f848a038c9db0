import Highlight.Decoration.Model

/-!
# The host of decoration models

The host keeps decoration models and shows at most one of them. A model is known by a number that no other
model ever gets, and some models also have a name. The lock of a model can be poisoned, and a model can be
made to crash the next time something is replaced in it.
-/

namespace Highlight

/-- The number of a decoration model. -/
abbrev ModelId := Nat

/-- A decoration model behind its lock. -/
structure ModelCell where
  model : DecorationModel := {}
  poisoned : Bool := false
  /-- The next replacement crashes before it changes anything. -/
  crashNext : Bool := false
  deriving DecidableEq, Repr, Inhabited

/-- The models, with the names of those that have one, and the one shown. -/
structure Host where
  /-- The models by number. A model that has lost its name may still be held by someone. -/
  cells : List ModelCell := []
  names : Table String ModelId := {}
  shown : Option ModelId := none
  deriving DecidableEq, Repr, Inhabited

namespace Host

/-- The model with a number. -/
def cell? (h : Host) (id : ModelId) : Option ModelCell := h.cells[id]?

/-- The host with one of its models changed. -/
def setCell (h : Host) (id : ModelId) (cell : ModelCell) : Host :=
  { h with cells := h.cells.set id cell }

/-- The host after the shown model has been changed; without one nothing happens. -/
def changeShown (h : Host) (f : ModelCell → ModelCell) : Host :=
  match h.shown with
  | none => h
  | some id =>
    match h.cell? id with
    | none => h
    | some cell => h.setCell id (f cell)

/-- The number of the model with a name, which is made if there is none. -/
def modelNamed (h : Host) (name : String) : ModelId × Host :=
  match h.names.get? name with
  | some id => (id, h)
  | none =>
    let id := h.cells.length
    (id, { h with cells := h.cells ++ [{}], names := h.names.insert name id })

/-- Show the model with a name. -/
def reveal (h : Host) (name : String) : Host :=
  let (id, h) := h.modelNamed name
  { h with shown := some id }

/-- Show no model. -/
def hide (h : Host) : Host := { h with shown := none }

/-- Take the name from a model; it is no longer shown. -/
def forget (h : Host) (name : String) : Host :=
  match h.names.get? name with
  | none => h
  | some id =>
    { h with names := h.names.erase name, shown := if h.shown = some id then none else h.shown }

/-- The host's own addition to the shown model. -/
def decorate (h : Host) (d : Decoration) : Host :=
  h.changeShown fun cell => { cell with model := (cell.model.replace [] [d]).2 }

/-- Poison the lock of the shown model. -/
def poison (h : Host) : Host := h.changeShown fun cell => { cell with poisoned := true }

/-- Make the next replacement in the shown model crash. -/
def crashNext (h : Host) : Host := h.changeShown fun cell => { cell with crashNext := true }

/-- A host with one empty model of the given name, shown or not. -/
def ofName (name : String) (visible : Bool) : Host :=
  let h : Host := {}
  if visible then h.reveal name else (h.modelNamed name).2

/-- The models that have a name, by name. -/
def named (h : Host) : List (String × ModelCell) :=
  h.names.entries.filterMap fun (name, id) => (h.cell? id).map fun cell => (name, cell)

end Host

end Highlight
