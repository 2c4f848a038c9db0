import Highlight.Tree.Basic

/-!
# Where the nodes of a tree stand

In a well-formed tree the children of a node lie inside it, one behind the other. Then a node lies inside
every node above it (`range_above`), and of two nodes of which neither is above the other the first in
pre-order ends before the second begins (`pairwise_places`). So the deepest place at a byte is the one that
covers it and has nothing below it that does (`deepestAt?_eq_some_iff`).
-/

namespace Highlight

namespace Tree

mutual

/-- The children of every node lie inside it, one behind the other. -/
def WellFormed : Tree → Prop
  | .node l ts => l.range.start ≤ l.range.stop ∧ WellFormedAll l.range.start l.range.stop ts

/-- Well-formed trees that lie between two offsets, one behind the other. -/
def WellFormedAll (start stop : Nat) : List Tree → Prop
  | [] => True
  | t :: ts => start ≤ t.label.range.start ∧ t.label.range.stop ≤ stop ∧ t.WellFormed ∧
      WellFormedAll t.label.range.stop stop ts

end

mutual

/-- Well-formedness can be computed. -/
def decidableWellFormed : (t : Tree) → Decidable t.WellFormed
  | .node l ts =>
    have := decidableWellFormedAll l.range.start l.range.stop ts
    inferInstanceAs (Decidable (_ ∧ _))

/-- So can that of neighbours. -/
def decidableWellFormedAll (start stop : Nat) :
    (ts : List Tree) → Decidable (WellFormedAll start stop ts)
  | [] => inferInstanceAs (Decidable True)
  | t :: ts =>
    have := t.decidableWellFormed
    have := decidableWellFormedAll t.label.range.stop stop ts
    inferInstanceAs (Decidable (_ ∧ _ ∧ _ ∧ _))

end

instance (t : Tree) : Decidable t.WellFormed := t.decidableWellFormed

theorem WellFormed.label_range {t : Tree} (h : t.WellFormed) :
    t.label.range.start ≤ t.label.range.stop := by
  cases t
  exact h.1

/-! ## Ranges -/

mutual

theorem range_placesFrom (above : List Node) (n : Nat) :
    (t : Tree) → t.WellFormed → ∀ p ∈ t.placesFrom above n,
      t.label.range.start ≤ p.node.range.start ∧ p.node.range.start ≤ p.node.range.stop ∧
        p.node.range.stop ≤ t.label.range.stop
  | .node l ts, h, p, hp => by
    rw [placesFrom] at hp
    rcases List.mem_cons.1 hp with rfl | hp
    · exact ⟨Nat.le_refl _, h.1, Nat.le_refl _⟩
    · exact range_placesFromAll _ _ ts h.2 p hp

theorem range_placesFromAll (above : List Node) (n : Nat) {start stop : Nat} :
    (ts : List Tree) → WellFormedAll start stop ts → ∀ p ∈ placesFromAll above n ts,
      start ≤ p.node.range.start ∧ p.node.range.start ≤ p.node.range.stop ∧
        p.node.range.stop ≤ stop
  | [], _, p, hp => by cases hp
  | t :: ts, ⟨first, last, ht, hts⟩, p, hp => by
    rw [placesFromAll] at hp
    rcases List.mem_append.1 hp with hp | hp
    · have := range_placesFrom above n t ht p hp
      omega
    · have := range_placesFromAll above (n + t.size) ts hts p hp
      have := ht.label_range
      omega

end

mutual

theorem range_above_placesFrom (above : List Node) (n : Nat) :
    (t : Tree) → t.WellFormed → ∀ p ∈ t.placesFrom above n, ∀ a ∈ p.above,
      a ∈ above ∨ a.range.start ≤ p.node.range.start ∧ p.node.range.stop ≤ a.range.stop
  | .node l ts, h, p, hp, a, ha => by
    rw [placesFrom] at hp
    rcases List.mem_cons.1 hp with rfl | hp
    · exact Or.inl ha
    · rcases range_above_placesFromAll _ _ ts h.2 p hp a ha with ha | inside
      · rcases List.mem_cons.1 ha with rfl | ha
        · have := range_placesFromAll _ _ ts h.2 p hp
          exact Or.inr ⟨this.1, this.2.2⟩
        · exact Or.inl ha
      · exact Or.inr inside

theorem range_above_placesFromAll (above : List Node) (n : Nat) {start stop : Nat} :
    (ts : List Tree) → WellFormedAll start stop ts → ∀ p ∈ placesFromAll above n ts, ∀ a ∈ p.above,
      a ∈ above ∨ a.range.start ≤ p.node.range.start ∧ p.node.range.stop ≤ a.range.stop
  | [], _, p, hp, _, _ => by cases hp
  | t :: ts, ⟨_, _, ht, hts⟩, p, hp, a, ha => by
    rw [placesFromAll] at hp
    rcases List.mem_append.1 hp with hp | hp
    · exact range_above_placesFrom above n t ht p hp a ha
    · exact range_above_placesFromAll above (n + t.size) ts hts p hp a ha

end

/-- A node lies inside every node above it. -/
theorem range_above {t : Tree} (h : t.WellFormed) {p : Place} (hp : p ∈ t.places) {a : Node}
    (ha : a ∈ p.above) : a.range.start ≤ p.node.range.start ∧ p.node.range.stop ≤ a.range.stop := by
  rcases range_above_placesFrom [] 0 t h p hp a ha with nothing | inside
  · cases nothing
  · exact inside

/-! ## Order -/

/-- `p` is above `q` or ends before `q` begins. -/
def Precedes (p q : Place) : Prop := p.node ∈ q.above ∨ p.node.range.stop ≤ q.node.range.start

mutual

theorem mem_above_placesFrom (above : List Node) (n : Nat) :
    (t : Tree) → ∀ p ∈ t.placesFrom above n, ∀ a ∈ above, a ∈ p.above
  | .node l ts, p, hp, a, ha => by
    rw [placesFrom] at hp
    rcases List.mem_cons.1 hp with rfl | hp
    · exact ha
    · exact mem_above_placesFromAll _ _ ts p hp a (List.mem_cons_of_mem _ ha)

theorem mem_above_placesFromAll (above : List Node) (n : Nat) :
    (ts : List Tree) → ∀ p ∈ placesFromAll above n ts, ∀ a ∈ above, a ∈ p.above
  | [], p, hp, _, _ => by cases hp
  | t :: ts, p, hp, a, ha => by
    rw [placesFromAll] at hp
    rcases List.mem_append.1 hp with hp | hp
    · exact mem_above_placesFrom above n t p hp a ha
    · exact mem_above_placesFromAll above (n + t.size) ts p hp a ha

end

mutual

theorem pairwise_placesFrom (above : List Node) (n : Nat) :
    (t : Tree) → t.WellFormed → (t.placesFrom above n).Pairwise Precedes
  | .node l ts, h => by
    rw [placesFrom, List.pairwise_cons]
    refine ⟨fun q hq => Or.inl ?_, pairwise_placesFromAll _ _ ts h.2⟩
    exact mem_above_placesFromAll _ _ ts q hq _ (List.mem_cons_self ..)

theorem pairwise_placesFromAll (above : List Node) (n : Nat) {start stop : Nat} :
    (ts : List Tree) → WellFormedAll start stop ts → (placesFromAll above n ts).Pairwise Precedes
  | [], _ => List.Pairwise.nil
  | t :: ts, ⟨_, _, ht, hts⟩ => by
    rw [placesFromAll, List.pairwise_append]
    refine ⟨pairwise_placesFrom above n t ht, pairwise_placesFromAll _ _ ts hts, ?_⟩
    intro p hp q hq
    -- `p` ends no later than its tree, and every later tree begins behind that
    have hp := range_placesFrom above n t ht p hp
    have hq := range_placesFromAll above (n + t.size) ts hts q hq
    exact Or.inr (Nat.le_trans hp.2.2 hq.1)

end

/-- Of two places the first one in pre-order is above the second or ends before it begins. -/
theorem pairwise_places {t : Tree} (h : t.WellFormed) : t.places.Pairwise Precedes :=
  pairwise_placesFrom [] 0 t h

/-- A place stands where its number says. -/
theorem getElem?_places {t : Tree} {p : Place} (hp : p ∈ t.places) :
    t.places[p.node.index]? = some p := by
  obtain ⟨i, hi, rfl⟩ := List.getElem_of_mem hp
  have numbered : (t.places.map (·.node.index))[i]? = (List.range t.size)[i]? := by
    rw [index_places]
  rw [length_places] at hi
  have number : t.places[i].node.index = i := by simpa [hi] using numbered
  simp [number, hi]

theorem nodup_places (t : Tree) : t.places.Nodup := by
  have numbers : (t.places.map (·.node.index)).Nodup := by
    rw [index_places]
    exact List.nodup_range
  refine (List.pairwise_map.1 numbers).imp ?_
  rintro p _ different rfl
  exact different rfl

/-- The number makes two places the same. -/
theorem eq_of_index {t : Tree} {p q : Place} (hp : p ∈ t.places) (hq : q ∈ t.places)
    (h : p.node.index = q.node.index) : p = q := by
  have := getElem?_places hp
  rw [h, getElem?_places hq] at this
  exact (Option.some.inj this).symm

theorem precedes_of_index_lt {t : Tree} (h : t.WellFormed) {p q : Place} (hp : p ∈ t.places)
    (hq : q ∈ t.places) (before : p.node.index < q.node.index) : Precedes p q := by
  obtain ⟨hi, ei⟩ := List.getElem?_eq_some_iff.1 (getElem?_places hp)
  obtain ⟨hj, ej⟩ := List.getElem?_eq_some_iff.1 (getElem?_places hq)
  have := List.pairwise_iff_getElem.1 (pairwise_places h) _ _ hi hj before
  rwa [ei, ej] at this

/-- Two places are the same, or one of them is above the other, or they lie apart. -/
theorem places_trichotomy {t : Tree} (h : t.WellFormed) {p q : Place} (hp : p ∈ t.places)
    (hq : q ∈ t.places) : p = q ∨ Precedes p q ∨ Precedes q p := by
  rcases Nat.lt_trichotomy p.node.index q.node.index with before | same | behind
  · exact Or.inr (Or.inl (precedes_of_index_lt h hp hq before))
  · exact Or.inl (eq_of_index hp hq same)
  · exact Or.inr (Or.inr (precedes_of_index_lt h hq hp behind))

/-! ## The nodes above -/

mutual

theorem parent_placesFrom (above : List Node) (n : Nat) :
    (t : Tree) → ∀ p ∈ t.placesFrom above n, p = ⟨⟨t.label, n⟩, above⟩ ∨
      ∃ a rest, p.above = a :: rest ∧ ⟨a, rest⟩ ∈ t.placesFrom above n ∧ a.index < p.node.index
  | .node l ts, p, hp => by
    rw [placesFrom] at hp ⊢
    rcases List.mem_cons.1 hp with rfl | hp
    · exact Or.inl rfl
    · right
      rcases parent_placesFromAll _ _ ts p hp with ⟨above, later⟩ | ⟨a, rest, above, ha, later⟩
      · exact ⟨_, _, above, List.mem_cons_self .., later⟩
      · exact ⟨a, rest, above, List.mem_cons_of_mem _ ha, later⟩

theorem parent_placesFromAll (above : List Node) (n : Nat) :
    (ts : List Tree) → ∀ p ∈ placesFromAll above n ts, p.above = above ∧ n ≤ p.node.index ∨
      ∃ a rest, p.above = a :: rest ∧ ⟨a, rest⟩ ∈ placesFromAll above n ts ∧ a.index < p.node.index
  | [], p, hp => by cases hp
  | t :: ts, p, hp => by
    rw [placesFromAll] at hp ⊢
    rcases List.mem_append.1 hp with hp | hp
    · rcases parent_placesFrom above n t p hp with rfl | ⟨a, rest, above, ha, later⟩
      · exact Or.inl ⟨rfl, Nat.le_refl n⟩
      · exact Or.inr ⟨a, rest, above, List.mem_append_left _ ha, later⟩
    · rcases parent_placesFromAll above (n + t.size) ts p hp with
        ⟨above, later⟩ | ⟨a, rest, above, ha, later⟩
      · exact Or.inl ⟨above, Nat.le_trans (Nat.le_add_right ..) later⟩
      · exact Or.inr ⟨a, rest, above, List.mem_append_right _ ha, later⟩

end

/-- The node right above a place has its own place and a smaller number. -/
theorem parent_place {t : Tree} {a : Node} {node : Node} {rest : List Node}
    (h : ⟨node, a :: rest⟩ ∈ t.places) : ⟨a, rest⟩ ∈ t.places ∧ a.index < node.index := by
  rcases parent_placesFrom [] 0 t _ h with root | ⟨_, _, above, ha, later⟩
  · cases root
  · cases above
    exact ⟨ha, later⟩

theorem parent?_place {t : Tree} {p : Place} {a : Node} (hp : p ∈ t.places) (h : p.parent? = some a) :
    ∃ rest, ⟨a, rest⟩ ∈ t.places ∧ p.above = a :: rest := by
  obtain ⟨node, above⟩ := p
  obtain ⟨rest, rfl⟩ := List.head?_eq_some_iff.1 h
  exact ⟨rest, (parent_place hp).1, rfl⟩

/-- So has every node above. -/
theorem above_place {t : Tree} {node a : Node} {inner rest : List Node}
    (h : ⟨node, inner ++ a :: rest⟩ ∈ t.places) : ⟨a, rest⟩ ∈ t.places ∧ a.index < node.index := by
  induction inner generalizing node with
  | nil => exact parent_place h
  | cons b inner ih =>
    obtain ⟨hb, below⟩ := parent_place h
    obtain ⟨ha, above⟩ := ih hb
    exact ⟨ha, Nat.lt_trans above below⟩

/-! ## The deepest place -/

/-- No node below the place covers the byte. -/
def Bare (t : Tree) (b : Nat) (p : Place) : Prop :=
  ∀ q ∈ t.places, p.node ∈ q.above → q.node.range.contains b = false

/-- The place covers the byte, and no node below it does. -/
structure Innermost (t : Tree) (b : Nat) (p : Place) : Prop where
  place : p ∈ t.places
  covers : p.node.range.contains b = true
  bare : t.Bare b p

instance (t : Tree) (b : Nat) (p : Place) : Decidable (t.Bare b p) :=
  inferInstanceAs (Decidable (∀ _ ∈ _, _))

theorem pairwise_index (t : Tree) : t.places.Pairwise fun p q => p.node.index < q.node.index := by
  have ordered : (t.places.map (·.node.index)).Pairwise (· < ·) := by
    rw [index_places]
    exact List.pairwise_lt_range
  exact List.pairwise_map.1 ordered

theorem index_lt_of_above {t : Tree} {p q : Place} (hq : q ∈ t.places) (above : p.node ∈ q.above) :
    p.node.index < q.node.index := by
  obtain ⟨inner, rest, split⟩ := List.append_of_mem above
  have whole : (⟨q.node, inner ++ p.node :: rest⟩ : Place) ∈ t.places := by
    rw [← split]
    exact hq
  exact (above_place whole).2

/-- The deepest place at a byte is the innermost one that covers it. -/
theorem deepestAt?_eq_some_iff {t : Tree} (h : t.WellFormed) {p : Place} {b : Nat}
    (covers : p.node.range.contains b = true) :
    Place.deepestAt? t.places b = some p ↔ t.Innermost b p := by
  constructor
  · intro deepest
    rcases Option.or_eq_some_iff.1 deepest with found | ⟨nothing, first⟩
    · rw [List.findRev?_eq_find?_reverse, List.find?_eq_some_iff_append] at found
      obtain ⟨-, behind, front, split, unmet⟩ := found
      rw [List.reverse_eq_iff, List.reverse_append, List.reverse_cons, List.append_assoc] at split
      have hp : p ∈ t.places := by simp [split]
      refine ⟨hp, covers, fun q hq above => ?_⟩
      -- a node below `p` has a greater number, so it stands behind `p`
      have later := index_lt_of_above hq above
      have ordered := t.pairwise_index
      rw [split, List.pairwise_append] at ordered
      have place : q ∈ behind := by
        rw [split] at hq
        simp only [List.mem_append, List.mem_reverse, List.mem_singleton] at hq
        rcases hq with front | rfl | behind
        · have earlier := ordered.2.2 q (List.mem_reverse.2 front) p (by simp)
          omega
        · omega
        · exact behind
      simpa using unmet q place
    · rw [List.findRev?_eq_find?_reverse, List.find?_eq_none] at nothing
      have hp : p ∈ t.places := List.mem_of_head? first
      exact absurd covers (nothing p (List.mem_reverse.2 hp))
  · rintro ⟨hp, -, bare⟩
    obtain ⟨front, back, split⟩ := List.append_of_mem hp
    have ordered := pairwise_places h
    rw [split, List.pairwise_append, List.pairwise_cons] at ordered
    have behind : ∀ q ∈ back, q.node.range.contains b = false := by
      intro q hq
      rcases ordered.2.1.1 q hq with above | apart
      · exact bare q (by rw [split]; simp [hq]) above
      · rw [ByteRange.contains_iff] at covers
        rw [← Bool.not_eq_true, ByteRange.contains_iff]
        omega
    have found : t.places.findRev? (fun p => p.node.range.contains b) = some p := by
      rw [List.findRev?_eq_find?_reverse, split, List.reverse_append, List.reverse_cons,
        List.append_assoc, List.find?_append]
      have none : back.reverse.find? (fun p => p.node.range.contains b) = none := by
        simpa using behind
      rw [none]
      simp [covers]
    rw [Place.deepestAt?, found, Option.some_or]

/-- The innermost place at a byte of a node is that node or stands below it. -/
theorem Innermost.below {t : Tree} (h : t.WellFormed) {p q : Place} {b : Nat} (inner : t.Innermost b p)
    (hq : q ∈ t.places) (covers : q.node.range.contains b = true) : p = q ∨ q.node ∈ p.above := by
  have here := ByteRange.contains_iff.1 inner.covers
  have there := ByteRange.contains_iff.1 covers
  rcases places_trichotomy h inner.place hq with same | (above | apart) | (below | apart)
  · exact Or.inl same
  · rw [inner.bare q hq above] at covers
    cases covers
  · omega
  · exact Or.inr below
  · omega

end Tree

end Highlight
