import Highlight.Table
import Highlight.Yaml.TokenStream

/-!
# YAML nodes

The nodes of a YAML document, composed from its tokens. An alias keeps the number of its anchor, and what
the anchor stands for is looked up in the finished document.
-/

namespace Highlight.Yaml

/-! ## Scalars and nodes -/

/-- A scalar of a document. -/
structure Scalar where
  style : ScalarStyle := .plain
  tag : Option Tag := none
  value : Text := []
  deriving DecidableEq, Repr

/-- A node of a document. -/
inductive Node where
  | scalar (s : Scalar)
  | sequence (tag : Option Tag) (items : List Node)
  | mapping (tag : Option Tag) (entries : List (Node × Node))
  /-- The node with the anchor of this number again. -/
  | alias (number : Nat)
  deriving Repr

/-- The scalar that stands where a node is left out. -/
def Node.empty : Node := .scalar {}

/-! ## Anchors -/

/-- The anchors of a document. An anchor is numbered by the different names before it, so a name that comes
again may share its number with the next new name; a number stands for the node that got it last. -/
structure Anchors where
  numbers : Table Text Nat := {}
  /-- The scalar of a number, or nothing if a collection has the number. -/
  targets : Table Nat (Option Scalar) := {}
  deriving DecidableEq, Repr

namespace Anchors

/-- The anchors with one more, at a scalar or at a collection. -/
def insert (a : Anchors) (name : Text) (target : Option Scalar) : Anchors :=
  let number := a.numbers.entries.length
  { numbers := a.numbers.insert name number, targets := a.targets.insert number target }

/-- The scalar that the anchor of a number stands for. -/
def scalar? (a : Anchors) (number : Nat) : Option Scalar := (a.targets.get? number).join

end Anchors

/-! ## Composition -/

/-- The tokens to come, the anchors so far, and the tag handles of the document. -/
structure Feed where
  tokens : List Token
  anchors : Anchors := {}
  handles : Table Text Tag := {}

/-- Composition from a feed, which fails on a malformed document. -/
abbrev Compose := StateT Feed Option

namespace Compose

/-- The next token. -/
def peek : Compose Token := do return (← get).tokens.headD .streamEnd

/-- Go on to the token behind the next one. -/
def skip : Compose Unit := modify fun f => { f with tokens := f.tokens.drop 1 }

/-- Go on if the next token is `t`. -/
def accept (t : Token) : Compose Bool := do
  if (← peek) = t then
    skip
    return true
  else return false

/-- Let an anchor, if there is one, stand for a scalar or for a collection. -/
def bindAnchor (anchor : Option Text) (target : Option Scalar) : Compose Unit :=
  match anchor with
  | none => pure ()
  | some name => modify fun f => { f with anchors := f.anchors.insert name target }

/-- The anchor before a node. -/
def anchor? : Compose (Option Text) := do
  match ← peek with
  | .anchor name => do skip; return some name
  | _ => return none

/-- The full tag before a node, whose handle must be known. -/
def tag? : Compose (Option Tag) := do
  match ← peek with
  | .tag handle suffix => do
    skip
    if handle.isEmpty then return some suffix
    else
      match (← get).handles.get? handle with
      | some stem => return some (stem ++ suffix)
      | none => failure
  | _ => return none

/-- The anchor and the tag before a node, in either order. -/
def properties : Compose (Option Text × Option Tag) := do
  match ← anchor? with
  | some name => return (some name, ← tag?)
  | none => do
    let tag ← tag?
    if tag.isSome then return (← anchor?, tag) else return (none, none)

/-- The tokens before which a node of a flow collection may be left out. -/
def endsFlowItem (close : Token) (t : Token) : Bool := t = .flowEntry || t = close

mutual

/-- A node. Block collections stand only in blocks, and a sequence at the column of the mapping around it
only as a part of that mapping. -/
def node (block indentless : Bool) : Nat → Compose Node
  | 0 => failure
  | fuel + 1 => do
    match ← peek with
    | .alias name => do
      skip
      match (← get).anchors.numbers.get? name with
      | some number => return .alias number
      | none => failure
    | _ => do
      let (anchor, tag) ← properties
      match ← peek with
      | .scalar style value => do
        skip
        let s : Scalar := { style, tag, value }
        bindAnchor anchor s
        return .scalar s
      | .flowSequenceStart => do
        skip
        bindAnchor anchor none
        return .sequence tag (← flowItems true fuel)
      | .flowMappingStart => do
        skip
        bindAnchor anchor none
        return .mapping tag (← flowEntries true fuel)
      | t =>
        if indentless && t = .blockEntry then do
          bindAnchor anchor none
          return .sequence tag (← indentlessItems fuel)
        else if block && t = .blockSequenceStart then do
          skip
          bindAnchor anchor none
          return .sequence tag (← blockItems fuel)
        else if block && t = .blockMappingStart then do
          skip
          bindAnchor anchor none
          return .mapping tag (← blockEntries fuel)
        else if anchor.isSome || tag.isSome then do
          let s : Scalar := { tag }
          bindAnchor anchor s
          return .scalar s
        else failure

/-- The items of a block sequence. -/
def blockItems : Nat → Compose (List Node)
  | 0 => failure
  | fuel + 1 => do
    if ← accept .blockEntry then
      let t ← peek
      let item ← if t = .blockEntry || t = .blockEnd then pure .empty else node true false fuel
      return item :: (← blockItems fuel)
    else if ← accept .blockEnd then return []
    else failure

/-- The items of a sequence at the column of the mapping around it, which ends with them. -/
def indentlessItems : Nat → Compose (List Node)
  | 0 => failure
  | fuel + 1 => do
    if ← accept .blockEntry then
      let t ← peek
      let missing := t = .blockEntry || t = .key || t = .value || t = .blockEnd
      let item ← if missing then pure .empty else node true false fuel
      return item :: (← indentlessItems fuel)
    else return []

/-- A key or value of a block mapping behind its indicator. -/
def blockPart : Nat → Compose Node
  | 0 => failure
  | fuel + 1 => do
    let t ← peek
    if t = .key || t = .value || t = .blockEnd then return .empty else node true true fuel

/-- The entries of a block mapping. -/
def blockEntries : Nat → Compose (List (Node × Node))
  | 0 => failure
  | fuel + 1 => do
    if ← accept .key then
      let key ← blockPart fuel
      let value ← if ← accept .value then blockPart fuel else pure .empty
      return (key, value) :: (← blockEntries fuel)
    else if ← accept .blockEnd then return []
    else failure

/-- A value of a flow collection, if there is one. -/
def flowValue (close : Token) : Nat → Compose Node
  | 0 => failure
  | fuel + 1 => do
    if ← accept .value then
      if endsFlowItem close (← peek) then return .empty else node false false fuel
    else return .empty

/-- An entry of a flow sequence that is itself a mapping of one entry. A key that is left out takes the
token in its place with it. -/
def flowPair : Nat → Compose Node
  | 0 => failure
  | fuel + 1 => do
    let t ← peek
    let key ←
      if t = .value || endsFlowItem .flowSequenceEnd t then do
        skip
        pure .empty
      else node false false fuel
    return .mapping none [(key, ← flowValue .flowSequenceEnd fuel)]

/-- The items of a flow sequence; a comma stands before all but the first. -/
def flowItems (first : Bool) : Nat → Compose (List Node)
  | 0 => failure
  | fuel + 1 => do
    if ← accept .flowSequenceEnd then return []
    else if ← if first then pure true else accept .flowEntry then
      if ← accept .key then
        let item ← flowPair fuel
        return item :: (← flowItems false fuel)
      else if ← accept .flowSequenceEnd then return []
      else
        let item ← node false false fuel
        return item :: (← flowItems false fuel)
    else failure

/-- The entries of a flow mapping; a comma stands before all but the first. -/
def flowEntries (first : Bool) : Nat → Compose (List (Node × Node))
  | 0 => failure
  | fuel + 1 => do
    if ← accept .flowMappingEnd then return []
    else if ← if first then pure true else accept .flowEntry then
      if ← accept .key then
        let t ← peek
        let key ←
          if t = .value || endsFlowItem .flowMappingEnd t then pure .empty else node false false fuel
        let value ← flowValue .flowMappingEnd fuel
        return (key, value) :: (← flowEntries false fuel)
      else if ← accept .flowMappingEnd then return []
      else
        let key ← node false false fuel
        return (key, .empty) :: (← flowEntries false fuel)
    else failure

end

/-! ## Documents -/

/-- Read the directives of a document. The version is 1.1 or 1.2 and given once, as is every handle. -/
def directives : Nat → Bool → Table Text Tag → Compose (Table Text Tag)
  | 0, _, handles => pure handles
  | fuel + 1, versioned, handles => do
    match ← peek with
    | .version major minor =>
      if versioned || major ≠ 1 || (minor ≠ 1 && minor ≠ 2) then failure
      else do
        skip
        directives fuel true handles
    | .tagDirective handle stem =>
      if (handles.get? handle).isSome then failure
      else do
        skip
        directives fuel versioned (handles.insert handle stem)
    | _ => return handles

/-- The handles that every document knows. -/
def standardHandles : List (Text × Tag) :=
  [(['!'], Text.bytes ['!']), (['!', '!'], Text.bytes "tag:yaml.org,2002:".toList)]

/-- Let the handles stand for what the directives or else the standard say. -/
def setHandles (given : Table Text Tag) : Compose Unit :=
  modify fun f => { f with
    handles := standardHandles.foldl
      (fun t (h : Text × Tag) => if (t.get? h.1).isSome then t else t.insert h.1 h.2) given }

/-- The token begins something outside the content of a document. -/
def isOutside : Token → Bool
  | .version _ _ | .tagDirective _ _ | .documentStart | .documentEnd | .streamEnd => true
  | _ => false

/-- The root of the one document of a stream; none if the stream is empty. -/
def root (fuel : Nat) : Compose (Option Node) := do
  match ← peek with
  | .streamEnd => return none
  | t => do
    let explicit := isOutside t && t ≠ .documentEnd
    let root ← if explicit then do
        setHandles (← directives fuel false {})
        if ← accept .documentStart then
          if isOutside (← peek) then pure .empty else node true false fuel
        else failure
      else do
        setHandles {}
        node true false fuel
    modify fun f => { f with tokens := f.tokens.dropWhile (· = .documentEnd) }
    match ← peek with
    | .streamEnd => return some root
    | _ => failure

end Compose

/-- A document. Without content it has no root. -/
structure Document where
  root : Option Node
  anchors : Anchors
  deriving Repr

/-- The scalar that a node of the document is or is an alias of. -/
def Document.scalar? (d : Document) : Node → Option Scalar
  | .scalar s => some s
  | .alias number => d.anchors.scalar? number
  | .sequence _ _ | .mapping _ _ => none

/-- The document that a text holds, if the text is well formed and holds no more than one. -/
def document? (t : Text) : Option Document := do
  let tokens ← tokens? t
  let (root, feed) ← (Compose.root (4 * tokens.length + 16)).run { tokens }
  return { root, anchors := feed.anchors }

end Highlight.Yaml
