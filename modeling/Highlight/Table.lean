/-!
# Tables

A table keeps values under keys, in the order in which the keys were first put in.
-/

namespace Highlight

/-- Values under keys, in the order of first insertion. -/
structure Table (κ ν : Type) where
  entries : List (κ × ν) := []
  deriving DecidableEq, Repr, Inhabited

namespace Table

variable {κ ν : Type} [DecidableEq κ]

/-- The value under a key. -/
def get? (t : Table κ ν) (k : κ) : Option ν := t.entries.lookup k

/-- Put the value under the key into a list of entries. -/
def put (k : κ) (v : ν) : List (κ × ν) → List (κ × ν)
  | [] => [(k, v)]
  | e :: es => if e.1 = k then (k, v) :: es else e :: put k v es

/-- The table with `v` under `k`; a key that is there keeps its place. -/
def insert (t : Table κ ν) (k : κ) (v : ν) : Table κ ν := ⟨put k v t.entries⟩

/-- The table without the key. -/
def erase (t : Table κ ν) (k : κ) : Table κ ν := ⟨t.entries.filter (·.1 ≠ k)⟩

/-- The table with the value under `k` changed by `f`, if there is one. -/
def modify (t : Table κ ν) (k : κ) (f : ν → ν) : Table κ ν :=
  ⟨t.entries.map fun e => if e.1 = k then (e.1, f e.2) else e⟩

/-- The keys in order. -/
def keys (t : Table κ ν) : List κ := t.entries.map (·.1)

@[simp] theorem get?_empty (k : κ) : get? (⟨[]⟩ : Table κ ν) k = none := rfl

theorem lookup_cons_eq (k : κ) (e : κ × ν) (es : List (κ × ν)) :
    (e :: es).lookup k = if k = e.1 then some e.2 else es.lookup k := by
  obtain ⟨k', v⟩ := e
  rw [List.lookup_cons]
  by_cases h : k = k'
  · rw [beq_iff_eq.2 h, if_pos h]
  · rw [beq_eq_false_iff_ne.2 h, if_neg h]

theorem lookup_put (k k' : κ) (v : ν) (es : List (κ × ν)) :
    (put k v es).lookup k' = if k' = k then some v else es.lookup k' := by
  induction es with
  | nil => simp [put, lookup_cons_eq]
  | cons e es ih =>
    by_cases he : e.1 = k
    · rw [put, if_pos he, lookup_cons_eq, lookup_cons_eq]; grind
    · rw [put, if_neg he, lookup_cons_eq, lookup_cons_eq, ih]; grind

theorem get?_insert (t : Table κ ν) (k k' : κ) (v : ν) :
    (t.insert k v).get? k' = if k' = k then some v else t.get? k' := lookup_put k k' v t.entries

end Table

end Highlight
