import Highlight.Settings.Basic
import Highlight.Yaml.Node

/-!
# Reading settings

Settings are kept as a YAML mapping. Unknown keys are passed over and missing ones have their defaults, but a
key given twice or a value of the wrong form makes the whole text unreadable.
-/

namespace Highlight.Settings

/-! ## Values -/

/-- The text of a scalar that is read by its looks: a plain one, or a literal one with the tag of the type. -/
def typedText? (type : String) (s : Yaml.Scalar) : Option Text :=
  match s.style with
  | .plain => some s.value
  | .literal =>
    if s.tag = some (Text.bytes ("tag:yaml.org,2002:" ++ type).toList) then some s.value else none
  | _ => none

/-- A truth value. -/
def bool? (s : Yaml.Scalar) : Option Bool := do
  let value := String.ofList (← typedText? "bool" s)
  if value ∈ ["true", "True", "TRUE"] then some true
  else if value ∈ ["false", "False", "FALSE"] then some false
  else none

/-- The bases of numbers by the letter behind a zero. -/
def bases : List (Char × Nat) := [('x', 16), ('o', 8), ('b', 2)]

/-- A number of 64 bits as it is written: with a plus sign or none, in one of the bases, and in decimal
without leading zeros. -/
def unsigned? (t : Text) : Option Nat := do
  let t := if t.head? = some '+' then t.drop 1 else t
  let n ← match t with
    | '0' :: c :: digits =>
      match bases.lookup c with
      | some base => Yaml.number? base digits
      | none => none
    | _ => Yaml.number? 10 t
  if n < UInt64.size then some n else none

/-- A count. -/
def count? (s : Yaml.Scalar) : Option Nat := do unsigned? (← typedText? "int" s)

/-- The selection mode of a name. -/
def modeNamed? (name : Text) : Option SelectionMode :=
  [SelectionMode.start, .enclosing].find? (·.name.toList = name)

/-- Nothing, as it is written. -/
def isNull (s : Yaml.Scalar) : Bool :=
  s.style = .plain && String.ofList s.value ∈ ["", "~", "null", "Null", "NULL"]

/-- The name that a tag gives, if it is a local tag and a text. -/
def tagName? : Yaml.Tag → Option Text
  | 0x21 :: name => (String.fromUTF8? ⟨name.toArray⟩).map String.toList
  | _ => none

/-- A selection mode: its name as a scalar of any style, or as the local tag of nothing. -/
def mode? (s : Yaml.Scalar) : Option SelectionMode :=
  match s.tag.bind tagName? with
  | some name => if isNull s then modeNamed? name else none
  | none => modeNamed? s.value

/-! ## Fields -/

/-- The settings found so far. -/
structure Found where
  enabled : Option Bool := none
  workerThreads : Option Nat := none
  mode : Option SelectionMode := none
  discardSuperseded : Option Bool := none

/-- Take in the value of a field, which may be given only once and is a scalar. -/
def Found.take? (f : Found) (key : Text) (value : Option Yaml.Scalar) : Option Found :=
  match String.ofList key with
  | "enabled" =>
    if f.enabled.isSome then none else (value.bind bool?).map fun b => { f with enabled := some b }
  | "worker_threads" =>
    if f.workerThreads.isSome then none
    else (value.bind count?).map fun n => { f with workerThreads := some n }
  | "range_selection" =>
    if f.mode.isSome then none else (value.bind mode?).map fun m => { f with mode := some m }
  | "discard_superseded" =>
    if f.discardSuperseded.isSome then none
    else (value.bind bool?).map fun b => { f with discardSuperseded := some b }
  | _ => some f

/-- The settings, with the defaults for what was not found. -/
def Found.settings (f : Found) : Settings :=
  let d : Settings := {}
  { enabled := f.enabled.getD d.enabled
    workerThreads := f.workerThreads.getD d.workerThreads
    mode := f.mode.getD d.mode
    discardSuperseded := f.discardSuperseded.getD d.discardSuperseded }

/-- Take in an entry of a document's mapping, whose key is a scalar. -/
def Found.takeEntry? (d : Yaml.Document) (f : Found) (entry : Yaml.Node × Yaml.Node) : Option Found := do
  f.take? (← d.scalar? entry.1).value (d.scalar? entry.2)

/-! ## Texts -/

/-- The settings that a document writes: the defaults if it has no content, and else those of a mapping. -/
def ofDocument? (d : Yaml.Document) : Option Settings :=
  match d.root with
  | none => some {}
  | some (.mapping _ entries) => (entries.foldlM (Found.takeEntry? d) {}).map Found.settings
  | some _ => none

/-- The settings that a text writes. -/
def read? (t : Text) : Option Settings := do ofDocument? (← Yaml.document? t)

/-- The settings to use for a text; the defaults where it cannot be read. -/
def ofText (t : Text) : Settings := ((read? t).map normalized).getD {}

end Highlight.Settings
