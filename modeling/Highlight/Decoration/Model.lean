import Highlight.Span
import Highlight.Table

/-!
# Decoration models

A decoration model keeps what is drawn over a text. Every decoration has a handle, and handles are issued
upward from 1 and never again.
-/

namespace Highlight

/-- The number under which a model keeps a decoration. -/
abbrev Handle := Nat

/-- Something drawn over a span. -/
structure Decoration where
  category : String
  description : String := ""
  span : Span
  deriving DecidableEq, Repr, Inhabited

/-- The highlight of an occurrence. -/
def Decoration.occurrence (span : Span) : Decoration := { category := "occurrence", span }

/-- The decorations of one document. -/
structure DecorationModel where
  /-- The decorations in the order of their handles. -/
  decorations : Table Handle Decoration := {}
  /-- The number of handles issued so far, which is the last one. -/
  issued : Nat := 0
  deriving DecidableEq, Repr, Inhabited

namespace DecorationModel

/-- The handles that the next `n` decorations get. -/
def fresh (m : DecorationModel) (n : Nat) : List Handle := List.range' (m.issued + 1) n

/-- Remove some decorations and add others in one go; handles that are not there are passed over. The
result has the handles of the added ones, in their order. -/
def replace (m : DecorationModel) (remove : List Handle) (add : List Decoration) :
    List Handle × DecorationModel :=
  let handles := m.fresh add.length
  (handles,
    { decorations := ⟨m.decorations.entries.filter (!remove.contains ·.1) ++ handles.zip add⟩
      issued := m.issued + add.length })

/-- The decoration with a handle. -/
def get? (m : DecorationModel) (h : Handle) : Option Decoration := m.decorations.get? h

/-- The number of decorations. -/
def size (m : DecorationModel) : Nat := m.decorations.entries.length

/-- The decorations with their handles, in the order of the handles. -/
def toList (m : DecorationModel) : List (Handle × Decoration) := m.decorations.entries

/-- The spans of the decorations of a category, in order. -/
def spans (m : DecorationModel) (category : String) : List Span :=
  ((m.toList.filter (·.2.category == category)).map (·.2.span)).mergeSort Span.before

@[simp] theorem length_fresh (m : DecorationModel) (n : Nat) : (m.fresh n).length = n := by
  simp [fresh]

end DecorationModel

end Highlight
