import Highlight.Yaml.Token

/-!
# The tokens of a YAML text

Tokens are read one after the other. Block collections begin and end by indentation, so the stream keeps the
columns of those that are open. A mapping key is known only by the colon behind it: until then its place
among the tokens is remembered as a possible key, on one line and for at most 1024 bytes.
-/

namespace Highlight.Yaml

/-- A place at which a key may begin. -/
structure PossibleKey where
  /-- There must be a key, since nothing else can stand at this column. -/
  required : Bool
  /-- The number of tokens before it. -/
  position : Nat
  /-- The number of bytes before it. -/
  index : Nat
  line : Nat
  column : Nat
  deriving DecidableEq, Repr

/-- The tokens read so far and what is open. -/
structure TokenStream where
  reader : Reader
  tokens : List Token := []
  /-- The possible key of the block and of every open flow collection, the innermost first. -/
  keys : List (Option PossibleKey) := [none]
  /-- The column of the innermost open block collection. -/
  indent : Int := -1
  /-- The columns of the collections around it. -/
  outer : List Int := []
  /-- A key may begin here. -/
  keyAllowed : Bool := true

namespace TokenStream

/-- The number of open flow collections. -/
def flowDepth (s : TokenStream) : Nat := s.keys.length - 1

/-- Inside a flow collection. -/
def inFlow (s : TokenStream) : Bool := s.flowDepth ≠ 0

/-- Add a token. -/
def push (s : TokenStream) (t : Token) : TokenStream := { s with tokens := s.tokens ++ [t] }

/-- Add a token of `n` characters. -/
def consume (s : TokenStream) (t : Token) (n : Nat) : TokenStream :=
  { s.push t with reader := s.reader.skip n }

/-! ## Indentation -/

/-- Open a block collection at a column to the right of the ones open; its token stands before the token
at `position`. -/
def roll (s : TokenStream) (column position : Nat) (t : Token) : TokenStream :=
  if !s.inFlow && decide (s.indent < column) then
    { s with
      tokens := s.tokens.insertIdx position t
      indent := column
      outer := s.indent :: s.outer }
  else s

/-- Close the columns right of `column`: the number of block collections closed and the columns left. -/
def unrolled (column indent : Int) : List Int → Nat × Int × List Int
  | [] => (0, indent, [])
  | o :: outer =>
    if column < indent then
      let (n, indent, outer) := unrolled column o outer
      (n + 1, indent, outer)
    else (0, indent, o :: outer)

/-- Close the block collections that stand right of a column. -/
def unroll (s : TokenStream) (column : Int) : TokenStream :=
  if s.inFlow then s
  else
    let (n, indent, outer) := unrolled column s.indent s.outer
    { s with tokens := s.tokens ++ List.replicate n .blockEnd, indent, outer }

/-! ## Possible keys -/

/-- The possible key of the innermost collection. -/
def key? (s : TokenStream) : Option PossibleKey := s.keys.head?.join

/-- Replace the possible key of the innermost collection. -/
def setKey (s : TokenStream) (k : Option PossibleKey) : TokenStream :=
  { s with keys := k :: s.keys.drop 1 }

/-- Give up the possible key, unless it is required. -/
def dropKey? (s : TokenStream) : Option TokenStream :=
  if s.key?.any (·.required) then none else some (s.setKey none)

/-- A key may begin with the next token. -/
def saveKey? (s : TokenStream) : Option TokenStream :=
  if s.keyAllowed then do
    let s ← s.dropKey?
    return s.setKey (some
      { required := !s.inFlow && s.indent == (s.reader.column : Int)
        position := s.tokens.length
        index := s.reader.index
        line := s.reader.line
        column := s.reader.column })
  else some s

/-- The possible key can no longer become one. -/
def PossibleKey.isStale (r : Reader) (k : PossibleKey) : Bool :=
  decide (k.line < r.line) || decide (k.index + 1024 < r.index)

/-- Give up the keys that are stale, none of which may be required. -/
def dropStaleKeys? (s : TokenStream) : Option TokenStream :=
  if s.keys.any (·.any fun k => PossibleKey.isStale s.reader k && k.required) then none
  else some { s with keys := s.keys.map (·.filter fun k => !PossibleKey.isStale s.reader k) }

/-! ## Between tokens -/

/-- Go on to the next token. Tabs are passed over only where no key can begin, and a byte order mark only at
the start of a line. -/
def skipToToken : Nat → TokenStream → TokenStream
  | 0, s => s
  | fuel + 1, s =>
    let r := s.reader
    let r := if r.column = 0 && r.sees '\ufeff' then r.skip 1 else r
    let tabs := s.inFlow || !s.keyAllowed
    let r := (r.readWhile fun c => c == ' ' || (tabs && c == '\t')).2.skipComment
    if r.peek?.any isBreak then
      skipToToken fuel
        { s with reader := r.readBreak.2, keyAllowed := s.keyAllowed || !s.inFlow }
    else { s with reader := r }

/-! ## Single tokens -/

/-- The end of the text closes everything. -/
def streamEnd? (s : TokenStream) : Option TokenStream := do
  let s ← (s.unroll (-1)).dropKey?
  return { s with keyAllowed := false }.push .streamEnd

/-- A directive stands outside every document. -/
def directiveToken? (s : TokenStream) : Option TokenStream := do
  let s ← (s.unroll (-1)).dropKey?
  let (t, reader) ← directive? s.reader
  return { s with keyAllowed := false, reader }.push t

/-- The start or end of a document. -/
def documentMarker? (s : TokenStream) (t : Token) : Option TokenStream := do
  let s ← (s.unroll (-1)).dropKey?
  return { s with keyAllowed := false }.consume t 3

/-- An opening bracket, which may itself begin a key. -/
def flowStart? (s : TokenStream) (t : Token) : Option TokenStream := do
  let s ← s.saveKey?
  return { s with keys := none :: s.keys, keyAllowed := true }.consume t 1

/-- A closing bracket. -/
def flowEnd? (s : TokenStream) (t : Token) : Option TokenStream := do
  let s ← s.dropKey?
  return { s with keys := if s.inFlow then s.keys.drop 1 else s.keys, keyAllowed := false }.consume t 1

/-- A comma in a flow collection. -/
def flowEntry? (s : TokenStream) : Option TokenStream := do
  let s ← s.dropKey?
  return { s with keyAllowed := true }.consume .flowEntry 1

/-- The dash of a block sequence. -/
def blockEntry? (s : TokenStream) : Option TokenStream := do
  if !s.inFlow && !s.keyAllowed then none
  else
    let s ← (s.roll s.reader.column s.tokens.length .blockSequenceStart).dropKey?
    return { s with keyAllowed := true }.consume .blockEntry 1

/-- The question mark of a key. -/
def keyToken? (s : TokenStream) : Option TokenStream := do
  if !s.inFlow && !s.keyAllowed then none
  else
    let s ← (s.roll s.reader.column s.tokens.length .blockMappingStart).dropKey?
    return { s with keyAllowed := !s.inFlow }.consume .key 1

/-- The colon of a value. A possible key before it becomes one. -/
def valueToken? (s : TokenStream) : Option TokenStream :=
  match s.key? with
  | some k =>
    let s := { s with tokens := s.tokens.insertIdx k.position .key }
    let s := (s.roll k.column k.position .blockMappingStart).setKey none
    some ({ s with keyAllowed := false }.consume .value 1)
  | none =>
    if !s.inFlow && !s.keyAllowed then none
    else
      let s := s.roll s.reader.column s.tokens.length .blockMappingStart
      some ({ s with keyAllowed := !s.inFlow }.consume .value 1)

/-- A token that may begin a key, read by `read?`. -/
def word? (s : TokenStream) (read? : Reader → Option (Token × Reader)) : Option TokenStream := do
  let s ← s.saveKey?
  let (t, reader) ← read? s.reader
  return { s with keyAllowed := false, reader }.push t

/-- A block scalar, behind which a key may begin. -/
def blockScalar? (s : TokenStream) (literal : Bool) : Option TokenStream := do
  let s ← s.dropKey?
  let (value, reader) ← block? literal s.indent s.reader
  return { s with keyAllowed := true, reader }.push
    (.scalar (if literal then .literal else .folded) value)

/-- A plain scalar. If it ended with its line a key may begin behind it. -/
def plainScalar? (s : TokenStream) : Option TokenStream := do
  let s ← s.saveKey?
  let (value, broken, reader) ← plain? s.inFlow s.indent s.reader
  return { s with keyAllowed := broken, reader }.push (.scalar .plain value)

/-- Characters that begin no plain scalar, or only before a character of a word. -/
def indicators : List Char := "-?:,[]\x7b\x7d#&*!|>'\"%@`".toList

/-- A plain scalar can begin with `c` before `next`. -/
def beginsPlain (flow : Bool) (c : Char) (next : Option Char) : Bool :=
  !(isBlank c || indicators.contains c) ||
    (c == '-' && !next.any isBlank) ||
    (!flow && (c == '?' || c == ':') && !endsWord next)

/-- Read the token that begins with `c` before `next`. -/
def token? (s : TokenStream) (c : Char) (next : Option Char) : Option TokenStream :=
  if s.reader.column = 0 && c == '%' then s.directiveToken?
  else if s.reader.seesMarker '-' then s.documentMarker? .documentStart
  else if s.reader.seesMarker '.' then s.documentMarker? .documentEnd
  else if c == '[' then s.flowStart? .flowSequenceStart
  else if c == '\x7b' then s.flowStart? .flowMappingStart
  else if c == ']' then s.flowEnd? .flowSequenceEnd
  else if c == '\x7d' then s.flowEnd? .flowMappingEnd
  else if c == ',' then s.flowEntry?
  else if c == '-' && endsWord next then s.blockEntry?
  else if c == '?' && (s.inFlow || endsWord next) then s.keyToken?
  else if c == ':' && (s.inFlow || endsWord next) then s.valueToken?
  else if c == '*' then s.word? fun r => (anchorName? r).map fun (name, r) => (.alias name, r)
  else if c == '&' then s.word? fun r => (anchorName? r).map fun (name, r) => (.anchor name, r)
  else if c == '!' then s.word? (tag? s.inFlow)
  else if c == '|' && !s.inFlow then s.blockScalar? true
  else if c == '>' && !s.inFlow then s.blockScalar? false
  else if c == '\'' then
    s.word? fun r => (quoted? false r).map fun (value, r) => (.scalar .singleQuoted value, r)
  else if c == '"' then
    s.word? fun r => (quoted? true r).map fun (value, r) => (.scalar .doubleQuoted value, r)
  else if beginsPlain s.inFlow c next then s.plainScalar?
  else none

/-- Read all tokens. Every token takes at least one character, and the last one stands for the end. -/
def readAll? : Nat → TokenStream → Option (List Token)
  | 0, _ => none
  | fuel + 1, s => do
    let s ← (skipToToken (s.reader.rest.length + 1) s).dropStaleKeys?
    let s := s.unroll s.reader.column
    match s.reader.peek? with
    | none => return (← s.streamEnd?).tokens
    | some c => readAll? fuel (← s.token? c (s.reader.peekAt? 1))

end TokenStream

/-- The tokens of a text, all of whose characters must be allowed. -/
def tokens? (t : Text) : Option (List Token) :=
  if t.all isAllowed then TokenStream.readAll? (t.length + 1) { reader := ⟨t, 0, 0, 0⟩ } else none

end Highlight.Yaml
