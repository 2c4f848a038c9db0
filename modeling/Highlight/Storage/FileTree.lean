import Highlight.Storage.Path
import Highlight.Table

/-!
# File trees

Directories and files in memory. A place in the tree is the list of names that lead to it. Paths are walked
name by name, so everything before the last name must be a directory.
-/

namespace Highlight

/-! ## Entries -/

/-- What stands at a place. -/
inductive Entry where
  | file (content : List UInt8)
  | directory (children : Table Text Entry)

namespace Entry

/-- What stands at a place below an entry. -/
def get? : Entry → List Text → Option Entry
  | e, [] => some e
  | file _, _ :: _ => none
  | directory children, name :: rest =>
    match children.get? name with
    | some e => e.get? rest
    | none => none

/-- The entry with another one at a place below it. Directories that are missing on the way are made. -/
def put (new : Entry) : Entry → List Text → Entry
  | _, [] => new
  | file content, _ :: _ => file content
  | directory children, name :: rest =>
    directory (children.insert name (put new ((children.get? name).getD (directory {})) rest))

/-- The entry is a directory. -/
def isDirectory : Entry → Bool
  | file _ => false
  | directory _ => true

end Entry

/-! ## Failures -/

/-- Why a file cannot be had. -/
inductive FileError where
  | notFound
  | isDirectory
  | notDirectory
  /-- The path has a zero character. -/
  | invalidPath
  /-- The path or a name in it is too long. -/
  | nameTooLong
  /-- The content is no text. -/
  | invalidData
  deriving DecidableEq, Repr

/-- The greatest length of a name in bytes. -/
def maxNameLength : Nat := 255

/-- The greatest length of a path in bytes. -/
def maxPathLength : Nat := 4095

/-- Why a path cannot be used, whatever the tree holds. -/
def Path.fault? (p : Path) : Option FileError :=
  if p.contains '\x00' then some .invalidPath
  else if maxPathLength < Text.byteLength p then some .nameTooLong
  else none

/-! ## Trees -/

/-- The directory that everything lies in. -/
structure FileTree where
  children : Table Text Entry := {}

namespace FileTree

/-- What stands at a place. -/
def entry? (t : FileTree) (place : List Text) : Option Entry := (Entry.directory t.children).get? place

/-- The tree with an entry at a place below its root. -/
def put (t : FileTree) (place : List Text) (e : Entry) : FileTree :=
  match Entry.put e (.directory t.children) place with
  | .directory children => ⟨children⟩
  | .file _ => t

/-- The place is a directory. -/
def isDirectory (t : FileTree) (place : List Text) : Bool := (t.entry? place).any Entry.isDirectory

/-- The steps of a path. A slash at the end is a step to the directory itself. -/
def steps (p : Path) : List Text :=
  (p.splitOn '/').filter (· ≠ []) ++ (if p.getLast? = some '/' then [['.']] else [])

/-- Where one step leads from a directory. -/
def stepTo (here : List Text) (step : Text) : Except FileError (List Text) :=
  if step = ['.'] then .ok here
  else if step = ['.', '.'] then .ok here.dropLast
  else if maxNameLength < Text.byteLength step then .error .nameTooLong
  else .ok (here ++ [step])

/-- The place that some steps lead to from `here`. -/
def walk (t : FileTree) (here : List Text) : List Text → Except FileError (List Text)
  | [] => .ok here
  | step :: rest =>
    match t.entry? here with
    | none => .error .notFound
    | some (.file _) => .error .notDirectory
    | some (.directory _) => do t.walk (← stepTo here step) rest

/-- The place of a path. -/
def locate (t : FileTree) (p : Path) : Except FileError (List Text) :=
  match p.fault? with
  | some e => .error e
  | none => t.walk [] (steps p)

/-- The text of a file. -/
def read (t : FileTree) (p : Path) : Except FileError Text := do
  match t.entry? (← t.locate p) with
  | none => throw .notFound
  | some (.directory _) => throw .isDirectory
  | some (.file content) =>
    match String.fromUTF8? ⟨content.toArray⟩ with
    | some s => return s.toList
    | none => throw .invalidData

/-- The tree with a file at the path, whose directory must be there. -/
def write (t : FileTree) (p : Path) (content : List UInt8) : Except FileError FileTree := do
  let place ← t.locate p
  if t.isDirectory place then throw .isDirectory
  else
    match t.entry? place.dropLast with
    | none => throw .notFound
    | some (.file _) => throw .notDirectory
    | some (.directory _) => return t.put place (.file content)

/-- Make the directories that some steps from `here` need, one after the other. What was made before a
failure stays. -/
def makeAlong (t : FileTree) (here : List Text) : List Text → FileTree × Except FileError Unit
  | [] => (t, .ok ())
  | step :: rest =>
    match stepTo here step with
    | .error e => (t, .error e)
    | .ok there =>
      match t.entry? there with
      | some (.file _) => (t, .error .notDirectory)
      | some (.directory _) => t.makeAlong there rest
      | none => makeAlong (t.put there (.directory {})) there rest

/-- Make a directory at the path, and all directories above it. -/
def makeDirectories (t : FileTree) (p : Path) : FileTree × Except FileError Unit :=
  match p.fault? with
  | some e => (t, .error e)
  | none => t.makeAlong [] (steps p)

/-- Make the directory that the path lies in, and all directories above that one. -/
def makeParents (t : FileTree) (p : Path) : FileTree × Except FileError Unit :=
  t.makeDirectories p.parent

end FileTree

end Highlight
