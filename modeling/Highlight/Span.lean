import Highlight.Log
import Highlight.Mapping
import Highlight.Snapshot
import Highlight.Text.Alphanumeric

/-!
# Spans

A span is where an occurrence stands in the live text, in characters. A match of a snapshot has a span as
long as the identifier still reads the same in the live text and has not been glued to a neighbour;
otherwise `Span.derive` says why it has none.
-/

namespace Highlight

/-- A range of characters. -/
structure Span where
  offset : Nat
  length : Nat
  deriving DecidableEq, Repr, Inhabited

/-- Why a match has no span. -/
inductive Drop where
  /-- The language of the file has no symbols. -/
  | noGrammar
  | notIdentifier
  | emptyRange
  /-- The range cannot be cut out of the parsed text. -/
  | notInText
  /-- The range touches what was edited since the parse. -/
  | edited
  /-- The range cannot be cut out of the live text. -/
  | notInLiveText
  /-- The live text reads something else than `name`. -/
  | changed (name : Text)
  /-- A neighbour of `name` has become part of it. -/
  | grown (name : Text)
  /-- The span does not fit the document. -/
  | outside
  deriving DecidableEq, Repr

namespace Span

/-- The offset behind the span. -/
def stop (s : Span) : Nat := s.offset + s.length

/-- The span has some length and lies in a document of `length` characters. -/
def fits (s : Span) (length : Nat) : Bool := decide (0 < s.length) && decide (s.stop ≤ length)

/-- The order by offset, then by length. -/
def before (s t : Span) : Bool :=
  decide (s.offset < t.offset) || (s.offset == t.offset && decide (s.length ≤ t.length))

/-- A neighbour, or nothing, that was no part of an identifier has become one. -/
def grewInto (parsed live : Option Char) : Bool :=
  !parsed.any isIdentifierChar && live.any isIdentifierChar

/-- The span of a name cut out of the live text, if it stands there as it was parsed. -/
def ofCuts (parsed live : Text.Cut) (length : Nat) : Except Drop Span :=
  if live.inside ≠ parsed.inside then .error (.changed parsed.inside)
  else if grewInto parsed.before.getLast? live.before.getLast?
      || grewInto parsed.after.head? live.after.head? then .error (.grown parsed.inside)
  else
    let span : Span := ⟨live.before.length, parsed.inside.length⟩
    if span.fits length then .ok span else .error .outside

/-- The span in the live text of the identifier of kind `kind` at `range` of a snapshot. -/
def derive (file : Snapshot) (range : ByteRange) (kind : String) (live : Text) (m : Mapping) :
    Except Drop Span :=
  match file.grammar with
  | none => .error .noGrammar
  | some g =>
    if !g.isIdentifier kind then .error .notIdentifier
    else if range.isEmpty then .error .emptyRange
    else
      match Text.cut? file.source range with
      | none => .error .notInText
      | some parsed =>
        match m.rangeToLive range with
        | none => .error .edited
        | some liveRange =>
          match Text.cut? live liveRange with
          | none => .error .notInLiveText
          | some liveCut => ofCuts parsed liveCut live.length

/-- The span, if there is one. -/
def derive? (file : Snapshot) (range : ByteRange) (kind : String) (live : Text) (m : Mapping) :
    Option Span :=
  (derive file range kind live m).toOption

end Span

/-- What is reported of a dropped match at `range`. -/
def Drop.events (range : ByteRange) : Drop → List Event
  | .changed name => [.textChanged range name]
  | .grown name => [.nameGrown range name]
  | _ => []

end Highlight
