import Highlight.Document
import Highlight.Settings.Reader
import Highlight.Storage.FileTree
import Highlight.Storage.Location

/-!
# Settings and documents in files

Settings that cannot be read are the defaults, so loading never fails. Storing makes the directories that
it needs, and says which of its steps failed.
-/

namespace Highlight

/-- Why something could not be stored. -/
inductive StorageError where
  /-- The directory for the settings could not be made. -/
  | settingsDirectory
  | settingsFile (path : Path)
  | directory (path : Path)
  deriving DecidableEq, Repr

/-- The error in words, without what the operating system says of it. -/
def StorageError.message : StorageError → String
  | settingsDirectory => "Failed to create config directory"
  | settingsFile path => "Failed to write config to " ++ String.ofList path
  | directory path => "Failed to create directory " ++ String.ofList path

namespace FileTree

/-- The settings kept at a path; the defaults where there are none that can be read. -/
def loadSettings (t : FileTree) (p : Path) : Settings :=
  match t.read p with
  | .ok text => Settings.ofText text
  | .error _ => {}

/-- Keep the settings at a path, for which directories are made. -/
def saveSettings (t : FileTree) (p : Path) (s : Settings) : FileTree × Except StorageError Unit :=
  match t.makeParents p with
  | (t, .error _) => (t, .error .settingsDirectory)
  | (t, .ok ()) =>
    match t.write p (Text.bytes s.render.toList) with
    | .error _ => (t, .error (.settingsFile p))
    | .ok t => (t, .ok ())

/-- Make a directory. -/
def ensure (t : FileTree) (p : Path) : FileTree × Except StorageError Path :=
  match t.makeDirectories p with
  | (t, .error _) => (t, .error (.directory p))
  | (t, .ok ()) => (t, .ok p)

/-- Make the directory of the program and then the one of its logs. -/
def ensureLogs (t : FileTree) (directory : Path) : FileTree × Except StorageError Path :=
  match t.ensure directory with
  | (t, .error e) => (t, .error e)
  | (t, .ok _) => t.ensure (Location.logs directory)

/-- Open the document of a file; its language goes by its name. -/
def openDocument (t : FileTree) (p : Path) : Except FileError Document := do
  let text ← t.read p
  return { text, path := some p, language := Language.ofPath p }

end FileTree

end Highlight
