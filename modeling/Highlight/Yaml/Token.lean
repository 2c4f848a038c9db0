import Highlight.Yaml.Scalar

/-!
# YAML tokens

The tokens of a YAML text, and the lexemes of directives, anchors and tags.
-/

namespace Highlight.Yaml

/-- A tag or a part of one. It is kept as bytes, since the escapes in it write bytes that need not make up a
text. -/
abbrev Tag := List UInt8

/-- A token. -/
inductive Token where
  | version (major minor : Nat)
  /-- Tags that begin with `handle` begin with `stem` instead. -/
  | tagDirective (handle : Text) (stem : Tag)
  | documentStart
  | documentEnd
  | blockSequenceStart
  | blockMappingStart
  | blockEnd
  | flowSequenceStart
  | flowSequenceEnd
  | flowMappingStart
  | flowMappingEnd
  | blockEntry
  | flowEntry
  | key
  | value
  | alias (name : Text)
  | anchor (name : Text)
  | tag (handle : Text) (suffix : Tag)
  | scalar (style : ScalarStyle) (value : Text)
  | streamEnd
  deriving DecidableEq, Repr

/-! ## Tags -/

/-- Read a tag handle, which begins with an exclamation mark and may end with another one. -/
def tagHandle? (r : Reader) : Option (Text × Reader) :=
  if r.sees '!' then
    let (word, r) := (r.skip 1).readWhile isWord
    if r.sees '!' then some ('!' :: word ++ ['!'], r.skip 1) else some ('!' :: word, r)
  else none

/-- A character of a tag other than a percent sign. Commas and brackets stand only in verbatim tags. -/
def isTagChar (verbatim : Bool) (c : Char) : Bool :=
  isWord c || ";/?:@&=+$.!~*'()".toList.contains c || (verbatim && ",[]".toList.contains c)

/-- The byte of a percent escape at the start of a text. -/
def percentByte? : Text → Option Nat
  | '%' :: a :: b :: _ => number? 16 [a, b]
  | _ => none

/-- The number of bytes of the UTF-8 sequence that begins with this byte. -/
def sequenceLength? (lead : Nat) : Option Nat :=
  if lead < 0x80 then some 1
  else if lead < 0xc0 then none
  else if lead < 0xe0 then some 2
  else if lead < 0xf0 then some 3
  else if lead < 0xf8 then some 4
  else none

/-- The `n` bytes that percent escapes continue a sequence with. Nothing more is asked of them than to be
continuation bytes. -/
def continuation? : Nat → Text → Option Tag
  | 0, _ => some []
  | n + 1, t => do
    let b ← percentByte? t
    if b / 0x40 = 2 then return b.toUInt8 :: (← continuation? n (t.drop 3)) else none

/-- The bytes of the UTF-8 sequence that percent escapes at the start of a text write. -/
def percentBytes? (t : Text) : Option Tag := do
  let lead ← percentByte? t
  let n ← sequenceLength? lead
  return lead.toUInt8 :: (← continuation? (n - 1) (t.drop 3))

/-- Read the characters of a tag. -/
def tagChars? (verbatim : Bool) : Nat → Tag → Reader → Option (Tag × Reader)
  | 0, read, r => some (read, r)
  | fuel + 1, read, r =>
    match r.peek? with
    | none => some (read, r)
    | some c =>
      if c == '%' then do
        let bytes ← percentBytes? r.rest
        tagChars? verbatim fuel (read ++ bytes) (r.skip (3 * bytes.length))
      else if isTagChar verbatim c then
        tagChars? verbatim fuel (read ++ Text.bytes [c]) (r.skip 1)
      else some (read, r)

/-- Read the rest of a tag behind `start`, not all of which may be missing. The tag ends at the first zero
byte in it, whatever comes behind. -/
def tagRest? (verbatim : Bool) (start : Text) (r : Reader) : Option (Tag × Reader) := do
  let (read, next) ← tagChars? verbatim r.rest.length [] r
  if start.isEmpty && read.isEmpty then none
  else some ((Text.bytes (start.drop 1) ++ read).takeWhile (· ≠ 0), next)

/-- Read the handle and the suffix of a tag. -/
def tagParts? (r : Reader) : Option (Text × Tag × Reader) :=
  if r.peekAt? 1 == some '<' then do
    let (suffix, r) ← tagRest? true [] (r.skip 2)
    if r.sees '>' then some ([], suffix, r.skip 1) else none
  else do
    let (handle, r) ← tagHandle? r
    if handle.length > 1 && handle.getLast? == some '!' then
      let (suffix, r) ← tagRest? false [] r
      some (handle, suffix, r)
    else
      let (suffix, r) ← tagRest? false handle r
      some (if suffix.isEmpty then ([], Text.bytes ['!'], r) else (['!'], suffix, r))

/-- Read a tag. -/
def tag? (flow : Bool) (r : Reader) : Option (Token × Reader) := do
  let (handle, suffix, r) ← tagParts? r
  if endsWord r.peek? || (flow && r.sees ',') then some (.tag handle suffix, r) else none

/-! ## Anchors -/

/-- Read the name of an anchor or alias behind its indicator. -/
def anchorName? (r : Reader) : Option (Text × Reader) :=
  let (name, r) := (r.skip 1).readWhile isWord
  if !name.isEmpty && (endsWord r.peek? || r.peek?.any ("?:,]\x7d%@`".toList.contains ·)) then
    some (name, r)
  else none

/-! ## Directives -/

/-- Read a part of a version number, of at most nine digits. -/
def versionNumber? (r : Reader) : Option (Nat × Reader) := do
  let (digits, r) := r.readWhile Char.isDigit
  if digits.length ≤ 9 then return (← number? 10 digits, r) else none

/-- Read the version of a version directive. -/
def versionDirective? (r : Reader) : Option (Token × Reader) := do
  let (major, r) ← versionNumber? r.skipBlanks
  if r.sees '.' then
    let (minor, r) ← versionNumber? (r.skip 1)
    some (.version major minor, r)
  else none

/-- Read the handle of a tag directive and what it stands for. -/
def tagDirective? (r : Reader) : Option (Token × Reader) := do
  let (handle, r) ← tagHandle? r.skipBlanks
  if (handle == ['!'] || (handle.length > 1 && handle.getLast? == some '!')) && r.peek?.any isBlank then
    let (stem, r) ← tagRest? true [] r.skipBlanks
    if endsWord r.peek? then some (.tagDirective handle stem, r) else none
  else none

/-- Read a directive and its line. -/
def directive? (r : Reader) : Option (Token × Reader) := do
  let (name, r) := (r.skip 1).readWhile isWord
  if endsWord r.peek? then
    let (token, r) ←
      if name == "YAML".toList then versionDirective? r
      else if name == "TAG".toList then tagDirective? r
      else none
    return (token, ← r.skipLineEnd?)
  else none

end Highlight.Yaml
