import Highlight.Text.Basic

/-!
# Paths

Slash-separated paths. Empty and `.` components say nothing about where a path leads, so the name of a
path is its last other component; `..` is no name.
-/

namespace Highlight

/-- A slash-separated path. -/
abbrev Path := Text

namespace Path

/-- The part between two slashes says nothing about where a path leads. -/
def isSilent (part : Text) : Bool := part = [] || part = ['.']

/-- The components that say where the path leads. -/
def components (p : Path) : List Text := (p.splitOn '/').filter fun part => !isSilent part

/-- The name of what the path leads to. -/
def name? (p : Path) : Option Text :=
  match p.components.getLast? with
  | none => none
  | some part => if part = ['.', '.'] then none else some part

/-- What stands behind the last dot of the name, unless that dot begins the name. -/
def extension? (p : Path) : Option Text := do
  let name ← name? p
  let behind := name.reverse.takeWhile (· ≠ '.')
  let front := name.length - behind.length
  -- `front` counts the dot: none means no dot, one means that the dot begins the name
  if front ≤ 1 then none else some behind.reverse

/-- Some parts of a path without those at the end that say nothing. -/
def trimmed (parts : List Text) : List Text := (parts.reverse.dropWhile isSilent).reverse

/-- The path without its last component, as far as it is written before that. -/
def parent (p : Path) : Path := ['/'].intercalate (trimmed (trimmed (p.splitOn '/')).dropLast)

/-- The path of `part` inside `base`. -/
def join (base part : Path) : Path :=
  if base = [] || base.getLast? = some '/' then base ++ part else base ++ '/' :: part

end Path

end Highlight
