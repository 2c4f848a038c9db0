/-!
# Texts and byte ranges

A text is the list of its characters. Syntax trees speak of it in UTF-8 byte offsets and editors in
character offsets, so both measures live here, with the cuts that join them: `splitAt?` cuts a text at
a byte offset and answers only where the offset falls between two characters, and `cut?` and `slice?`
cut out a byte range. A tree need not fit its text; `read` is how the text of a node is read.

Main statement: `splitAt?_eq_some_iff` says that a cut loses nothing and stands where it was asked for.
-/

namespace Highlight

/-- A text, character by character. -/
abbrev Text := List Char

/-- The end of a computation that gives no answer. -/
inductive Crash where
  | crash
  deriving DecidableEq, Repr, Inhabited

/-! ## Byte ranges -/

/-- A range of byte offsets, its end excluded. The bounds may stand the wrong way round. -/
structure ByteRange where
  start : Nat
  stop : Nat
  deriving DecidableEq, Repr, Inhabited

namespace ByteRange

/-- No offset lies in the range. -/
def isEmpty (r : ByteRange) : Bool := !decide (r.start < r.stop)

/-- The offset `b` lies in the range. -/
def contains (r : ByteRange) (b : Nat) : Bool := decide (r.start ≤ b) && decide (b < r.stop)

/-- The range as it is written in messages. -/
def render (r : ByteRange) : String := toString r.start ++ ".." ++ toString r.stop

theorem isEmpty_eq_false_iff {r : ByteRange} : r.isEmpty = false ↔ r.start < r.stop := by
  simp [isEmpty]

theorem contains_iff {r : ByteRange} {b : Nat} :
    r.contains b = true ↔ r.start ≤ b ∧ b < r.stop := by
  simp [contains]

end ByteRange

namespace Text

/-! ## Measures -/

/-- The length of a text in bytes. -/
def byteLength : Text → Nat
  | [] => 0
  | c :: t => c.utf8Size + byteLength t

/-- The bytes of a text. -/
def bytes (t : Text) : List UInt8 := t.flatMap String.utf8EncodeChar

@[simp] theorem byteLength_nil : byteLength [] = 0 := rfl

@[simp] theorem byteLength_cons (c : Char) (t : Text) :
    byteLength (c :: t) = c.utf8Size + byteLength t := rfl

@[simp] theorem byteLength_append (s t : Text) :
    byteLength (s ++ t) = byteLength s + byteLength t := by
  induction s with
  | nil => simp
  | cons c s ih => simp [ih, Nat.add_assoc]

@[simp] theorem bytes_nil : bytes [] = [] := rfl

@[simp] theorem bytes_append (s t : Text) : bytes (s ++ t) = bytes s ++ bytes t := by
  simp [bytes]

@[simp] theorem length_bytes (t : Text) : (bytes t).length = byteLength t := by
  induction t with
  | nil => rfl
  | cons c t ih => simp [bytes, byteLength, String.length_utf8EncodeChar, ← ih]

/-! ## Cuts -/

/-- The text before and after byte offset `n`, if `n` falls between two characters. -/
def splitAt? : Text → Nat → Option (Text × Text)
  | t, 0 => some ([], t)
  | [], _ + 1 => none
  | c :: t, n + 1 =>
    if c.utf8Size ≤ n + 1 then
      (splitAt? t (n + 1 - c.utf8Size)).map fun parts => (c :: parts.1, parts.2)
    else none

/-- A text taken apart around a byte range. -/
structure Cut where
  before : Text
  inside : Text
  after : Text
  deriving DecidableEq, Repr

/-- The text apart at the bounds of `r`, if both fall between characters and stand in order. -/
def cut? (t : Text) (r : ByteRange) : Option Cut := do
  let (front, after) ← splitAt? t r.stop
  let (before, inside) ← splitAt? front r.start
  return { before, inside, after }

/-- The text of a byte range. -/
def slice? (t : Text) (r : ByteRange) : Option Text := (cut? t r).map (·.inside)

/-- The text of a node that stands at `r`: its bytes, if they are whole characters. No node ends before it
starts, but one may end behind the text, and then reading it crashes. -/
def read (t : Text) (r : ByteRange) : Except Crash (Option Text) :=
  if byteLength t < r.stop then .error .crash
  else if r.isEmpty then .ok (some [])
  else .ok (slice? t r)

/-- The byte offset of the character offset `n`, which may be the length of the text. -/
def byteOffset? (t : Text) (n : Nat) : Option Nat :=
  if n ≤ t.length then some (byteLength (t.take n)) else none

theorem splitAt?_eq_some_iff {t a b : Text} {n : Nat} :
    splitAt? t n = some (a, b) ↔ t = a ++ b ∧ byteLength a = n := by
  fun_induction splitAt? t n generalizing a with
  | case1 t =>
    constructor
    · rintro ⟨⟩; simp
    · rintro ⟨rfl, h⟩
      cases a with
      | nil => rfl
      | cons c a => have := Char.utf8Size_pos c; simp at h; omega
  | case2 n =>
    simp only [reduceCtorEq, false_iff, not_and]
    intro h
    obtain ⟨rfl, -⟩ := List.append_eq_nil_iff.1 h.symm
    simp
  | case3 c t n h ih =>
    constructor
    · intro e
      obtain ⟨⟨x, y⟩, e', p⟩ := Option.map_eq_some_iff.1 e
      cases p
      obtain ⟨rfl, l⟩ := ih.1 e'
      exact ⟨rfl, by simp [l]; omega⟩
    · rintro ⟨e, l⟩
      cases a with
      | nil => simp at l
      | cons d a =>
        obtain ⟨rfl, rfl⟩ := List.cons.inj e
        simp only [byteLength_cons] at l
        rw [ih.2 ⟨rfl, by omega⟩]
        rfl
  | case4 c t n h =>
    simp only [reduceCtorEq, false_iff, not_and]
    intro e l
    cases a with
    | nil => simp at l
    | cons d a =>
      obtain ⟨rfl, -⟩ := List.cons.inj e
      simp only [byteLength_cons] at l
      omega

theorem cut?_eq_some_iff {t : Text} {r : ByteRange} {c : Cut} :
    cut? t r = some c ↔ t = c.before ++ c.inside ++ c.after ∧
      byteLength c.before = r.start ∧ byteLength (c.before ++ c.inside) = r.stop := by
  simp only [cut?, Option.bind_eq_bind, Option.bind_eq_some_iff, Prod.exists,
    splitAt?_eq_some_iff, Option.pure_def, Option.some.injEq]
  constructor
  · rintro ⟨front, after, ⟨rfl, hs⟩, before, inside, ⟨rfl, hb⟩, rfl⟩
    exact ⟨rfl, hb, hs⟩
  · rintro ⟨rfl, hb, hs⟩
    exact ⟨_, _, ⟨rfl, hs⟩, _, _, ⟨rfl, hb⟩, rfl⟩

theorem stop_le_of_cut? {t : Text} {r : ByteRange} {c : Cut} (h : cut? t r = some c) :
    r.stop ≤ byteLength t := by
  obtain ⟨whole, -, stop⟩ := cut?_eq_some_iff.1 h
  rw [whole, byteLength_append, stop]
  exact Nat.le_add_right ..

theorem stop_le_of_slice? {t s : Text} {r : ByteRange} (h : slice? t r = some s) :
    r.stop ≤ byteLength t := by
  obtain ⟨c, cut, -⟩ := Option.map_eq_some_iff.1 h
  exact stop_le_of_cut? cut

/-! ## Reading -/

theorem read_eq_crash_iff {t : Text} {r : ByteRange} :
    read t r = .error .crash ↔ byteLength t < r.stop := by
  unfold read
  split
  · simp [*]
  · split <;> simp [*]

theorem read_eq_slice? {t : Text} {r : ByteRange} (inside : r.stop ≤ byteLength t)
    (inhabited : r.isEmpty = false) : read t r = .ok (slice? t r) := by
  rw [read, if_neg (Nat.not_lt.2 inside), inhabited]
  rfl

theorem read_eq_ok {t : Text} {r : ByteRange} (inside : r.stop ≤ byteLength t) :
    ∃ s, read t r = .ok s := by
  rw [read, if_neg (Nat.not_lt.2 inside)]
  split
  · exact ⟨_, rfl⟩
  · exact ⟨_, rfl⟩

end Text

end Highlight
