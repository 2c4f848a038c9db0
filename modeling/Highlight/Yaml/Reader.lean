import Highlight.Text.Basic

/-!
# Reading YAML text

A reader stands before the rest of a text and knows where it is by line and column, and how many bytes lie
behind it. Line breaks are those of YAML 1.1; the end of the text counts as one where a line has to end.
-/

namespace Highlight.Yaml

/-! ## Characters -/

/-- A space or a tab. -/
def isBlank (c : Char) : Bool := c == ' ' || c == '\t'

/-- A line break. -/
def isBreak (c : Char) : Bool :=
  c == '\n' || c == '\r' || c == '\x85' || c == '\u2028' || c == '\u2029'

/-- A character of anchors, tag handles and directive names. -/
def isWord (c : Char) : Bool := c.isAlphanum || c == '_' || c == '-'

/-- A character that may stand in a document at all. -/
def isAllowed (c : Char) : Bool :=
  let n := c.toNat
  n == 0x09 || n == 0x0a || n == 0x0d || (0x20 ≤ n && n ≤ 0x7e) || n == 0x85 ||
    (0xa0 ≤ n && n ≤ 0xd7ff) || (0xe000 ≤ n && n ≤ 0xfffd) || 0x10000 ≤ n

/-- A line break or the end of the text. -/
def endsLine : Option Char → Bool
  | none => true
  | some c => isBreak c

/-- A blank, a line break or the end of the text. -/
def endsWord : Option Char → Bool
  | none => true
  | some c => isBlank c || isBreak c

/-! ## Readers -/

/-- A place in a text. -/
structure Reader where
  rest : Text
  /-- The number of bytes before this place. -/
  index : Nat := 0
  line : Nat := 0
  column : Nat := 0
  deriving Repr

namespace Reader

/-- The next character. -/
def peek? (r : Reader) : Option Char := r.rest.head?

/-- The character `n` places on. -/
def peekAt? (r : Reader) (n : Nat) : Option Char := r.rest[n]?

/-- The next character is `c`. -/
def sees (r : Reader) (c : Char) : Bool := r.peek? == some c

/-- Go on by `n` characters of the same line. -/
def skip (r : Reader) (n : Nat) : Reader :=
  { r with
    rest := r.rest.drop n
    index := r.index + Text.byteLength (r.rest.take n)
    column := r.column + n }

/-- Go on over a line break and say how it is kept in a text: line feeds stand for all but the Unicode
separators. -/
def readBreak (r : Reader) : Text × Reader :=
  match r.rest with
  | '\r' :: '\n' :: rest => (['\n'], ⟨rest, r.index + 2, r.line + 1, 0⟩)
  | c :: rest =>
    if isBreak c then
      (if c == '\u2028' || c == '\u2029' then [c] else ['\n'],
        ⟨rest, r.index + c.utf8Size, r.line + 1, 0⟩)
    else ([], r)
  | [] => ([], r)

/-- Read the characters that `p` holds for, which are no line breaks. -/
def readWhile (r : Reader) (p : Char → Bool) : Text × Reader :=
  let taken := r.rest.takeWhile p
  (taken, r.skip taken.length)

/-- Go on over blanks. -/
def skipBlanks (r : Reader) : Reader := (r.readWhile isBlank).2

/-- Go on over a comment to the end of its line. -/
def skipComment (r : Reader) : Reader :=
  if r.sees '#' then (r.readWhile (!isBreak ·)).2 else r

/-- Go on over blanks, a comment and the end of the line, before which nothing else may stand. -/
def skipLineEnd? (r : Reader) : Option Reader :=
  let r := r.skipBlanks.skipComment
  if endsLine r.peek? then some r.readBreak.2 else none

/-- A document marker of three times `c` begins a line here. -/
def seesMarker (r : Reader) (c : Char) : Bool :=
  r.column == 0 && r.rest.take 3 == [c, c, c] && endsWord (r.peekAt? 3)

/-- A document begins or ends here. -/
def seesDocumentMarker (r : Reader) : Bool := r.seesMarker '-' || r.seesMarker '.'

end Reader

end Highlight.Yaml
