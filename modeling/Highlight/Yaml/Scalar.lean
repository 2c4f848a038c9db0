import Highlight.Yaml.Reader

/-!
# YAML scalars

The text of a scalar in each of its styles. Lines are folded in all styles but the literal one: a single
line break between two lines is a space, and further ones are kept.
-/

namespace Highlight.Yaml

/-- How a scalar is written. -/
inductive ScalarStyle where
  | plain
  | singleQuoted
  | doubleQuoted
  | literal
  | folded
  deriving DecidableEq, Repr

/-! ## Blanks between words -/

/-- Blanks and line breaks between two words of a scalar. -/
structure Gap where
  /-- The blanks before the first line break. -/
  blanks : Text := []
  /-- There was a line break. -/
  broken : Bool := false
  /-- The first line break; none where it was escaped. -/
  first : Text := []
  /-- The line breaks behind the first one. -/
  more : Text := []
  deriving DecidableEq, Repr

namespace Gap

/-- What stands for the gap in the text of the scalar. -/
def fold (g : Gap) : Text :=
  if !g.broken then g.blanks
  else if g.first.head? == some '\n' then (if g.more.isEmpty then [' '] else g.more)
  else g.first ++ g.more

/-- Read the rest of a gap. A tab left of column `limit` is refused once a line has ended. -/
def read? (limit : Int) : Nat → Gap → Reader → Option (Gap × Reader)
  | 0, g, r => some (g, r)
  | fuel + 1, g, r =>
    match r.peek? with
    | none => some (g, r)
    | some c =>
      if isBlank c then
        if g.broken && c == '\t' && decide ((r.column : Int) < limit) then none
        else read? limit fuel (if g.broken then g else { g with blanks := g.blanks ++ [c] }) (r.skip 1)
      else if isBreak c then
        let (kept, r) := r.readBreak
        read? limit fuel
          (if g.broken then { g with more := g.more ++ kept }
          else { g with blanks := [], broken := true, first := kept }) r
      else some (g, r)

end Gap

/-! ## Plain scalars -/

/-- The length of the plain word at the start of a text. Inside flow collections a colon must not be
followed by an indicator. -/
def plainWord? (flow : Bool) : Text → Option Nat
  | [] => some 0
  | c :: t =>
    if isBlank c || isBreak c then some 0
    else if flow && c == ':' && t.head?.any (",?[]\x7b\x7d".toList.contains ·) then none
    else if (c == ':' && endsWord t.head?) || (flow && ",[]\x7b\x7d".toList.contains c) then some 0
    else (plainWord? flow t).map (· + 1)

/-- Read words and gaps up to the end of a plain scalar that stands in a block indented by `indent`. The
result also says whether the last line has ended. -/
def plainFrom? (flow : Bool) (indent : Int) : Nat → Text → Gap → Reader →
    Option (Text × Bool × Reader)
  | 0, read, gap, r => some (read, gap.broken, r)
  | fuel + 1, read, gap, r =>
    if r.seesDocumentMarker || r.sees '#' then some (read, gap.broken, r)
    else do
      let n ← plainWord? flow r.rest
      let (read, gap) := if n = 0 then (read, gap) else (read ++ gap.fold ++ r.rest.take n, {})
      let r := r.skip n
      if r.peek?.any fun c => isBlank c || isBreak c then
        let (gap, r) ← gap.read? (indent + 1) r.rest.length r
        if !flow && decide ((r.column : Int) < indent + 1) then some (read, gap.broken, r)
        else plainFrom? flow indent fuel read gap r
      else some (read, gap.broken, r)

/-- Read a plain scalar. -/
def plain? (flow : Bool) (indent : Int) (r : Reader) : Option (Text × Bool × Reader) :=
  plainFrom? flow indent (r.rest.length + 1) [] {} r

/-! ## Quoted scalars -/

/-- A word of a quoted scalar. -/
structure QuotedWord where
  value : Text := []
  /-- The number of characters it is written with. -/
  length : Nat := 0
  /-- An escaped line break follows. -/
  escapedBreak : Bool := false

/-- A word with one more character, written with `n`, before it. -/
def QuotedWord.cons (c : Char) (n : Nat) (w : QuotedWord) : QuotedWord :=
  { w with value := c :: w.value, length := w.length + n }

/-- The word at the start of a text in single quotes, where a quote is written twice. -/
def singleWord : Text → QuotedWord
  | '\'' :: '\'' :: t => (singleWord t).cons '\'' 2
  | c :: t =>
    if c == '\'' || isBlank c || isBreak c then {} else (singleWord t).cons c 1
  | [] => {}

/-- The characters behind a backslash that stand for one character. -/
def escapes : List (Char × Char) :=
  [('0', '\x00'), ('a', '\x07'), ('b', '\x08'), ('t', '\t'), ('\t', '\t'), ('n', '\n'), ('v', '\x0b'),
    ('f', '\x0c'), ('r', '\r'), ('e', '\x1b'), (' ', ' '), ('"', '"'), ('/', '/'), ('\\', '\\'),
    ('N', '\x85'), ('_', '\xa0'), ('L', '\u2028'), ('P', '\u2029')]

/-- The characters behind a backslash that begin a code point, and its number of digits. -/
def codeEscapes : List (Char × Nat) := [('x', 2), ('u', 4), ('U', 8)]

/-- The value of a digit up to base 16. -/
def digitValue? (c : Char) : Option Nat :=
  if c.isDigit then some (c.toNat - '0'.toNat)
  else if 'a' ≤ c ∧ c ≤ 'f' then some (c.toNat - 'a'.toNat + 10)
  else if 'A' ≤ c ∧ c ≤ 'F' then some (c.toNat - 'A'.toNat + 10)
  else none

/-- The number that some digits write in a base. -/
def number? (base : Nat) (digits : Text) : Option Nat :=
  if digits.isEmpty then none
  else digits.foldlM (fun n c => do
    let d ← digitValue? c
    if d < base then some (n * base + d) else none) 0

/-- The character of a code point written with exactly `n` hexadecimal digits. -/
def codePoint? (n : Nat) (t : Text) : Option Char := do
  let digits := t.take n
  if digits.length < n then none
  else
    let code ← number? 16 digits
    if h : code.isValidChar then some (Char.ofNatAux code h) else none

/-- The character that an escape stands for, and the number of characters behind its backslash. -/
def escape? : Text → Option (Char × Nat)
  | [] => none
  | c :: t =>
    match escapes.lookup c with
    | some e => some (e, 1)
    | none => do
      let n ← codeEscapes.lookup c
      let e ← codePoint? n t
      return (e, n + 1)

/-- The word at the start of a text in double quotes. -/
def doubleWord? : Nat → Text → Option QuotedWord
  | fuel + 1, '\\' :: t =>
    if t.head?.any isBreak then some { escapedBreak := true }
    else do
      let (c, n) ← escape? t
      return (← doubleWord? fuel (t.drop n)).cons c (n + 1)
  | fuel + 1, c :: t =>
    if c == '"' || isBlank c || isBreak c then some {}
    else (doubleWord? fuel t).map (·.cons c 1)
  | _, _ => some {}

/-- Read words and gaps up to the closing quote. -/
def quotedFrom? (double : Bool) : Nat → Text → Reader → Option (Text × Reader)
  | 0, _, _ => none
  | fuel + 1, read, r =>
    if r.seesDocumentMarker || r.peek?.isNone then none
    else do
      let word ← if double then doubleWord? r.rest.length r.rest else some (singleWord r.rest)
      let r := r.skip word.length
      let r := if word.escapedBreak then (r.skip 1).readBreak.2 else r
      let read := read ++ word.value
      if r.sees (if double then '"' else '\'') then some (read, r.skip 1)
      else
        let (gap, r) ← Gap.read? 0 r.rest.length { broken := word.escapedBreak } r
        quotedFrom? double fuel (read ++ gap.fold) r

/-- Read a quoted scalar from its opening quote on. -/
def quoted? (double : Bool) (r : Reader) : Option (Text × Reader) :=
  quotedFrom? double (r.rest.length + 1) [] (r.skip 1)

/-! ## Block scalars -/

/-- What becomes of the line breaks at the end of a block scalar. -/
inductive Chomping where
  | strip
  | clip
  | keep
  deriving DecidableEq, Repr

/-- The header of a block scalar: chomping and indentation in either order. -/
structure BlockHeader where
  chomping : Chomping := .clip
  /-- The indentation given, or 0. -/
  increment : Nat := 0
  deriving DecidableEq, Repr

namespace BlockHeader

/-- Read a chomping indicator. -/
def readChomping (h : BlockHeader) (r : Reader) : BlockHeader × Reader :=
  if r.sees '+' then ({ h with chomping := .keep }, r.skip 1)
  else if r.sees '-' then ({ h with chomping := .strip }, r.skip 1)
  else (h, r)

/-- Read an indentation indicator, which is not zero. -/
def readIncrement? (h : BlockHeader) (r : Reader) : Option (BlockHeader × Reader) :=
  match r.peek? with
  | some c =>
    if c.isDigit then
      if c == '0' then none else some ({ h with increment := c.toNat - '0'.toNat }, r.skip 1)
    else some (h, r)
  | none => some (h, r)

/-- Read a header from behind its indicator to the end of the line. -/
def read? (r : Reader) : Option (BlockHeader × Reader) := do
  let h : BlockHeader := {}
  let (h, r) ←
    if r.sees '+' || r.sees '-' then
      let (h, r) := h.readChomping r
      h.readIncrement? r
    else
      let (h, r) ← h.readIncrement? r
      some (if h.increment = 0 then (h, r) else h.readChomping r)
  return (h, ← r.skipLineEnd?)

end BlockHeader

/-- Read empty lines of a block scalar that is indented by `indent`, or by what they show if that is 0. The
result has the line breaks and the greatest indentation seen. -/
def emptyLines? (indent : Nat) : Nat → Text → Nat → Reader → Option (Text × Nat × Reader)
  | 0, breaks, widest, r => some (breaks, widest, r)
  | fuel + 1, breaks, widest, r =>
    let spaces := (r.rest.takeWhile (· == ' ')).length
    let r := r.skip (if indent = 0 then spaces else min spaces (indent - r.column))
    let widest := max widest r.column
    if (indent = 0 || r.column < indent) && r.sees '\t' then none
    else if r.peek?.any isBreak then
      let (kept, r) := r.readBreak
      emptyLines? indent fuel (breaks ++ kept) widest r
    else some (breaks, widest, r)

/-- The state of reading a block scalar. -/
structure BlockLines where
  read : Text := []
  /-- The line break behind the last line. -/
  last : Text := []
  /-- The line breaks behind that one. -/
  more : Text := []
  /-- The last line began with a blank. -/
  afterBlank : Bool := false

/-- Read the lines of a block scalar that is indented by `indent`. -/
def blockLines? (literal : Bool) (indent : Nat) : Nat → BlockLines → Reader →
    Option (BlockLines × Reader)
  | 0, b, r => some (b, r)
  | fuel + 1, b, r =>
    if r.column = indent ∧ r.peek?.isSome then do
      let blank := r.peek?.any isBlank
      let folds := !literal && b.last.head? == some '\n' && !b.afterBlank && !blank
      let joint := if folds then (if b.more.isEmpty then [' '] else []) else b.last
      let (line, r) := r.readWhile (!isBreak ·)
      let (last, r) := r.readBreak
      let (more, _, r) ← emptyLines? indent r.rest.length [] 0 r
      blockLines? literal indent fuel
        { read := b.read ++ joint ++ b.more ++ line, last, more, afterBlank := blank } r
    else some (b, r)

/-- Read a block scalar from its indicator on, inside a block indented by `outer`. -/
def block? (literal : Bool) (outer : Int) (r : Reader) : Option (Text × Reader) := do
  let (h, r) ← BlockHeader.read? (r.skip 1)
  let given := if h.increment = 0 then 0 else outer.toNat + h.increment
  let (breaks, widest, r) ← emptyLines? given r.rest.length [] 0 r
  let indent := if given = 0 then max (max widest (outer + 1).toNat) 1 else given
  let (b, r) ← blockLines? literal indent (r.rest.length + 1) { more := breaks } r
  let last := if h.chomping = .strip then [] else b.last
  let more := if h.chomping = .keep then b.more else []
  return (b.read ++ last ++ more, r)

end Highlight.Yaml
