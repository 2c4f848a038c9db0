import Highlight.Text.Basic

/-!
# Characters read off their bytes

The bytes of one character are never the front of those of another, and only the first of them can begin a
character. So a text is known by its bytes (`bytes_injective`), and where the bytes of a text with some
characters stand among those of another one, they begin and end between two of its characters
(`of_bytes_eq_append_append`).
-/

namespace Highlight.Text

/-! ## Fronts -/

theorem encode_append_inj {c d : Char} {x y : List UInt8}
    (h : String.utf8EncodeChar c ++ x = String.utf8EncodeChar d ++ y) : c = d ∧ x = y := by
  have decoded := congrArg (fun bytes : List UInt8 => bytes.toByteArray.utf8DecodeChar? 0) h
  simp only [List.toByteArray_append, ByteArray.utf8DecodeChar?_utf8EncodeChar_append,
    Option.some.injEq] at decoded
  subst decoded
  exact ⟨rfl, List.append_cancel_left h⟩

theorem bytes_cons (c : Char) (t : Text) : bytes (c :: t) = String.utf8EncodeChar c ++ bytes t := rfl

theorem bytes_eq_nil_iff {t : Text} : bytes t = [] ↔ t = [] := by
  constructor
  · intro nothing
    cases t with
    | nil => rfl
    | cons c t => exact absurd (List.append_eq_nil_iff.1 nothing).1 String.utf8EncodeChar_ne_nil
  · rintro rfl
    rfl

/-- The bytes of a text at the front of those of another one are the bytes of its front. -/
theorem of_bytes_eq_append {t s : Text} {rest : List UInt8} (h : bytes t = bytes s ++ rest) :
    ∃ u, t = s ++ u ∧ bytes u = rest := by
  induction s generalizing t with
  | nil => exact ⟨t, rfl, h⟩
  | cons c s ih =>
    rw [bytes_cons, List.append_assoc] at h
    cases t with
    | nil => exact absurd (List.append_eq_nil_iff.1 h.symm).1 String.utf8EncodeChar_ne_nil
    | cons d t =>
      obtain ⟨rfl, rest⟩ := encode_append_inj h
      obtain ⟨u, rfl, behind⟩ := ih rest
      exact ⟨u, rfl, behind⟩

theorem bytes_injective {s t : Text} (h : bytes s = bytes t) : s = t := by
  have front : bytes s = bytes t ++ [] := by rw [h, List.append_nil]
  obtain ⟨u, rfl, nothing⟩ := of_bytes_eq_append front
  rw [bytes_eq_nil_iff.1 nothing, List.append_nil]

/-! ## First bytes -/

/-- Only the first byte of a character can begin one. -/
theorem front_of_encode {c : Char} {front back : List UInt8} {b : UInt8}
    (h : String.utf8EncodeChar c = front ++ b :: back) (first : b.IsUTF8FirstByte) : front = [] := by
  have here : front.length < (String.utf8EncodeChar c).length := by simp [h]
  have byte : (String.utf8EncodeChar c)[front.length] = b := by simp [h]
  rw [← byte, UInt8.isUTF8FirstByte_getElem_utf8EncodeChar] at first
  exact List.length_eq_zero_iff.1 first

theorem isUTF8FirstByte_of_bytes {s : Text} {b : UInt8} {rest : List UInt8} (h : bytes s = b :: rest) :
    b.IsUTF8FirstByte := by
  cases s with
  | nil => cases h
  | cons c s =>
    have inhabited : 0 < (String.utf8EncodeChar c).length := by simp [Char.utf8Size_pos]
    have byte : (String.utf8EncodeChar c)[0] = b := by
      have first := congrArg (·[0]?) h
      rw [bytes_cons, List.getElem?_append_left inhabited, List.getElem?_eq_getElem inhabited] at first
      exact Option.some.inj first
    rw [← byte]
    exact UInt8.isUTF8FirstByte_getElem_zero_utf8EncodeChar

/-! ## Parts -/

/-- A text that has some characters and is found among the bytes of another one stands between its
characters. -/
theorem of_bytes_eq_append_append {t s : Text} {front back : List UInt8} (inhabited : s ≠ [])
    (h : bytes t = front ++ bytes s ++ back) :
    ∃ a b, t = a ++ s ++ b ∧ bytes a = front ∧ bytes b = back := by
  obtain ⟨first, rest, begins⟩ := List.exists_cons_of_ne_nil (mt bytes_eq_nil_iff.1 inhabited)
  induction t generalizing front with
  | nil => simp [begins] at h
  | cons d t ih =>
    rw [bytes_cons, List.append_assoc] at h
    rcases List.append_eq_append_iff.1 h with ⟨z, rfl, later⟩ | ⟨z, split, inside⟩
    · rw [← List.append_assoc] at later
      obtain ⟨a, b, rfl, ha, hb⟩ := ih later
      exact ⟨d :: a, b, rfl, by rw [bytes_cons, ha], hb⟩
    · cases z with
      | nil =>
        have later : bytes t = [] ++ bytes s ++ back := inside.symm
        obtain ⟨a, b, rfl, ha, hb⟩ := ih later
        rw [List.append_nil] at split
        exact ⟨d :: a, b, rfl, by rw [bytes_cons, ha, List.append_nil, split], hb⟩
      | cons byte z =>
        -- the part begins inside the bytes of `d`, so it begins with the first of them
        have same : first = byte := by
          rw [begins] at inside
          exact (List.cons.inj inside).1
        have nothing := front_of_encode split (same ▸ isUTF8FirstByte_of_bytes begins)
        subst nothing
        obtain ⟨u, whole, hb⟩ := of_bytes_eq_append (t := d :: t) h
        exact ⟨[], u, whole, rfl, hb⟩

end Highlight.Text
