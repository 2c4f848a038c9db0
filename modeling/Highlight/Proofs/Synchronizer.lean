import Highlight.Decoration.Synchronizer

/-!
# Commits to a healthy model

A model is healthy while its lock is not poisoned and it does not crash. `Synchronizer.Draws` says that
the highlights drawn in such a model are given spans, behind the decorations of others, which no commit
touches.

Main statement: `Synchronizer.Draws.commit` says what one commit leaves behind. It draws its own spans, or
keeps the ones drawn if it is stale, and the highest ticket so far is the one committed.
-/

namespace Highlight

namespace DecorationModel

/-- Every decoration has a handle that has been issued. -/
def Numbered (m : DecorationModel) : Prop := ∀ e ∈ m.toList, e.1 ≤ m.issued

/-- The spans of the decorations under the given handles. -/
def spansUnder (m : DecorationModel) (handles : List Handle) : List Span :=
  (m.toList.filter (handles.contains ·.1)).map (·.2.span)

/-- The decorations under other handles than the given ones. -/
def without (m : DecorationModel) (handles : List Handle) : List (Handle × Decoration) :=
  m.toList.filter (!handles.contains ·.1)

/-- The model holds decorations of `spans` under `handles`, and besides them the decorations `base`. -/
structure Shows (m : DecorationModel) (base : List (Handle × Decoration)) (handles : List Handle)
    (spans : List Span) : Prop where
  own : m.spansUnder handles = spans
  others : m.without handles = base
  numbered : m.Numbered

theorem mem_fresh_iff {m : DecorationModel} {n : Nat} {h : Handle} :
    h ∈ m.fresh n ↔ m.issued < h ∧ h ≤ m.issued + n := by
  rw [fresh, List.mem_range'_1, Nat.add_right_comm, Nat.lt_succ_iff]
  exact Iff.rfl

/-- Decorations added under fresh handles, behind some that have none of these handles. -/
theorem filter_zip_fresh {m : DecorationModel} {base : List (Handle × Decoration)}
    (issued : ∀ e ∈ base, e.1 ≤ m.issued) (ds : List Decoration) :
    (base ++ (m.fresh ds.length).zip ds).filter ((m.fresh ds.length).contains ·.1) =
        (m.fresh ds.length).zip ds ∧
      (base ++ (m.fresh ds.length).zip ds).filter (!(m.fresh ds.length).contains ·.1) = base := by
  have foreign : ∀ e ∈ base, e.1 ∉ m.fresh ds.length := by
    intro e he fresh
    exact Nat.not_lt_of_le (issued e he) (mem_fresh_iff.1 fresh).1
  have own : ∀ e ∈ (m.fresh ds.length).zip ds, e.1 ∈ m.fresh ds.length :=
    fun e he => (List.of_mem_zip he).1
  constructor
  · rw [List.filter_append, List.filter_eq_nil_iff.2 fun e he => by simp [foreign e he],
      List.filter_eq_self.2 fun e he => by simp [own e he], List.nil_append]
  · rw [List.filter_append, List.filter_eq_self.2 fun e he => by simp [foreign e he],
      List.filter_eq_nil_iff.2 fun e he => by simp [own e he], List.append_nil]

/-- Replacing the decorations under some handles leaves all others. -/
theorem Shows.replace {m : DecorationModel} {base : List (Handle × Decoration)}
    {handles : List Handle} {old : List Span} (h : m.Shows base handles old) (new : List Span) :
    (m.replace handles (new.map Decoration.occurrence)).2.Shows base
      (m.replace handles (new.map Decoration.occurrence)).1 new := by
  have issued : ∀ e ∈ base, e.1 ≤ m.issued := by
    intro e he
    rw [← h.others] at he
    exact h.numbered e (List.mem_filter.1 he).1
  have entries : (m.replace handles (new.map Decoration.occurrence)).2.toList =
      base ++ (m.fresh (new.map Decoration.occurrence).length).zip (new.map Decoration.occurrence) :=
    congrArg (· ++ _) h.others
  obtain ⟨own, others⟩ := filter_zip_fresh issued (new.map Decoration.occurrence)
  constructor
  · rw [spansUnder, entries]
    refine (congrArg (List.map _) own).trans ?_
    have split : (fun e : Handle × Decoration => e.2.span) = Decoration.span ∘ Prod.snd := rfl
    rw [split, ← List.map_map, List.map_snd_zip (by simp), List.map_map]
    exact List.map_id _
  · rw [without, entries]
    exact others
  · intro e he
    rw [entries] at he
    rcases List.mem_append.1 he with he | he
    · exact Nat.le_trans (issued e he) (Nat.le_add_right ..)
    · exact (mem_fresh_iff.1 (List.of_mem_zip he).1).2

end DecorationModel

/-- The lock of the model is not poisoned, and its next replacement does not crash. -/
def ModelCell.Healthy (c : ModelCell) : Prop := c.poisoned = false ∧ c.crashNext = false

namespace Host

theorem cell?_setCell {h : Host} {id : ModelId} {old : ModelCell} (hc : h.cell? id = some old)
    (new : ModelCell) : (h.setCell id new).cell? id = some new :=
  List.getElem?_set_self (List.getElem?_eq_some_iff.1 hc).1

end Host

namespace Synchronizer

/-- The handles held in a model. -/
def held (s : Synchronizer) (id : ModelId) : List Handle := if s.model = some id then s.handles else []

theorem held_of_model {s : Synchronizer} {id : ModelId} (h : s.model = some id) :
    s.held id = s.handles := if_pos h

theorem attach_handles (s : Synchronizer) (id : ModelId) : (s.attach id).handles = s.held id := by
  unfold attach held
  split <;> rfl

/-- In the healthy model `id` the synchronizer has drawn `spans`, and the other decorations there are
`base`. No crash has poisoned the synchronizer. -/
structure Draws (s : Synchronizer) (host : Host) (id : ModelId) (base : List (Handle × Decoration))
    (spans : List Span) : Prop where
  cell : ∃ cell, host.cell? id = some cell ∧ cell.Healthy ∧ cell.model.Shows base (s.held id) spans
  sound : s.poisoned = false

theorem attach_committed (s : Synchronizer) (id : ModelId) : (s.attach id).committed = s.committed := by
  unfold attach
  split <;> rfl

theorem attach_issued (s : Synchronizer) (id : ModelId) : (s.attach id).issued = s.issued := by
  unfold attach
  split <;> rfl

theorem attach_poisoned (s : Synchronizer) (id : ModelId) : (s.attach id).poisoned = s.poisoned := by
  unfold attach
  split <;> rfl

theorem attach_discardSuperseded (s : Synchronizer) (id : ModelId) :
    (s.attach id).discardSuperseded = s.discardSuperseded := by
  unfold attach
  split <;> rfl

theorem attach_model (s : Synchronizer) (id : ModelId) : (s.attach id).model = some id := by
  unfold attach
  split
  · assumption
  · rfl

/-- The synchronizer after it has drawn highlights under new handles in a model. -/
def drawing (s : Synchronizer) (id : ModelId) (handles : List Handle) (ticket : Ticket) :
    Synchronizer :=
  { s.attach id with handles, committed := max s.committed ticket }

theorem held_drawing (s : Synchronizer) (id : ModelId) (handles : List Handle) (ticket : Ticket) :
    (s.drawing id handles ticket).held id = handles := if_pos (attach_model s id)

/-- What a commit can do, each way with the guard under which it happens. -/
inductive CommitCase (s : Synchronizer) (host : Host) (picked : Option ModelId) (ticket : Ticket)
    (spans : List Span) : CommitResult → Prop where
  /-- Without a usable model the handles are given up. -/
  | unusable {outcome : Commit} (refused : outcome = .modelMissing ∨ outcome = .modelPoisoned)
      (unusable : ∀ id cell, picked = some id → host.cell? id = some cell → cell.poisoned = true) :
      CommitCase s host picked ticket spans ⟨outcome, s.handles.length, s.forget, host⟩
  /-- After a crash nothing happens any more. -/
  | frozen {id : ModelId} {cell : ModelCell} (hp : picked = some id)
      (hc : host.cell? id = some cell) (unlocked : cell.poisoned = false)
      (poisoned : s.poisoned = true) :
      CommitCase s host picked ticket spans ⟨.statePoisoned, 0, s, host⟩
  /-- A stale commit only binds the synchronizer to the model. -/
  | stale {id : ModelId} {cell : ModelCell} (hp : picked = some id)
      (hc : host.cell? id = some cell) (unlocked : cell.poisoned = false)
      (sound : s.poisoned = false) (discards : s.discardSuperseded = true)
      (stale : ticket < s.committed) :
      CommitCase s host picked ticket spans
        ⟨.superseded ticket s.committed, s.handles.length - (s.held id).length, s.attach id, host⟩
  /-- A crash of the model poisons it and the synchronizer. -/
  | crashed {id : ModelId} {cell : ModelCell} (hp : picked = some id)
      (hc : host.cell? id = some cell) (unlocked : cell.poisoned = false)
      (sound : s.poisoned = false) (current : s.discardSuperseded = true → s.committed ≤ ticket)
      (crashes : cell.crashNext = true) :
      CommitCase s host picked ticket spans
        ⟨.crashed, s.handles.length - (s.held id).length, { s.attach id with poisoned := true },
          host.setCell id { cell with poisoned := true }⟩
  /-- Any other commit replaces the highlights held in the model. -/
  | applied {id : ModelId} {cell : ModelCell} {drawn : List Handle × DecorationModel}
      (hp : picked = some id) (hc : host.cell? id = some cell) (healthy : cell.Healthy)
      (sound : s.poisoned = false) (current : s.discardSuperseded = true → s.committed ≤ ticket)
      (hd : cell.model.replace (s.held id) (spans.map Decoration.occurrence) = drawn) :
      CommitCase s host picked ticket spans
        ⟨.applied (s.held id).length drawn.1.length, s.handles.length - (s.held id).length,
          s.drawing id drawn.1 ticket, host.setCell id { cell with model := drawn.2 }⟩

theorem commitTo_cases (s : Synchronizer) (host : Host) (picked : Option ModelId) (ticket : Ticket)
    (spans : List Span) :
    CommitCase s host picked ticket spans (s.commitTo host picked ticket spans) := by
  unfold commitTo
  split
  · rename_i none
    refine .unusable (.inl rfl) ?_
    rintro id cell rfl hc
    simp [hc] at none
  · rename_i id cell found
    obtain ⟨id, rfl, found⟩ := Option.bind_eq_some_iff.1 found
    obtain ⟨cell, hc, pair⟩ := Option.map_eq_some_iff.1 found
    cases pair
    by_cases unlocked : cell.poisoned = true
    · rw [if_pos unlocked]
      refine .unusable (.inr rfl) ?_
      intro other cell' same hc'
      cases same
      cases hc.symm.trans hc'
      exact unlocked
    · rw [if_neg unlocked]
      rw [Bool.not_eq_true] at unlocked
      by_cases sound : s.poisoned = true
      · rw [if_pos sound]
        exact .frozen rfl hc unlocked sound
      · rw [if_neg sound]
        rw [Bool.not_eq_true] at sound
        dsimp only
        rw [attach_handles]
        by_cases stale : (s.discardSuperseded && decide (ticket < s.committed)) = true
        · rw [if_pos stale]
          rw [Bool.and_eq_true, decide_eq_true_eq] at stale
          exact .stale rfl hc unlocked sound stale.1 stale.2
        · rw [if_neg stale]
          have current : s.discardSuperseded = true → s.committed ≤ ticket := by
            intro discards
            simpa [discards] using stale
          unfold draw
          by_cases crashes : cell.crashNext = true
          · rw [if_pos crashes]
            exact .crashed rfl hc unlocked sound current crashes
          · rw [if_neg crashes]
            rw [Bool.not_eq_true] at crashes
            dsimp only
            rw [attach_handles, attach_committed]
            exact .applied rfl hc ⟨unlocked, crashes⟩ sound current rfl

/-- No commit gives out tickets or changes the rule for superseded ones, and the committed ticket rises at
most to its own. -/
theorem commitTo_bounds (s : Synchronizer) (host : Host) (picked : Option ModelId) (ticket : Ticket)
    (spans : List Span) :
    (s.commitTo host picked ticket spans).synchronizer.issued = s.issued ∧
      (s.commitTo host picked ticket spans).synchronizer.discardSuperseded = s.discardSuperseded ∧
      (s.commitTo host picked ticket spans).synchronizer.committed ≤ max s.committed ticket := by
  have keeps : s.committed ≤ max s.committed ticket := Nat.le_max_left ..
  have attached id : (s.attach id).committed ≤ max s.committed ticket := by
    rw [attach_committed]
    exact keeps
  have done := commitTo_cases s host picked ticket spans
  generalize s.commitTo host picked ticket spans = r at done ⊢
  cases done with
  | unusable => exact ⟨rfl, rfl, keeps⟩
  | frozen => exact ⟨rfl, rfl, keeps⟩
  | stale => exact ⟨attach_issued s _, attach_discardSuperseded s _, attached _⟩
  | crashed => exact ⟨attach_issued s _, attach_discardSuperseded s _, attached _⟩
  | applied => exact ⟨attach_issued s _, attach_discardSuperseded s _, Nat.le_refl _⟩

section Commit

variable {s : Synchronizer} {host : Host} {id : ModelId} {cell : ModelCell} {ticket : Ticket}
  {spans : List Span}

/-- A stale commit to a healthy model only binds the synchronizer to it. -/
theorem commitTo_stale (hc : host.cell? id = some cell) (healthy : cell.Healthy)
    (sound : s.poisoned = false) (discards : s.discardSuperseded = true)
    (stale : ticket < s.committed) :
    s.commitTo host (some id) ticket spans =
      ⟨.superseded ticket s.committed, s.handles.length - (s.held id).length, s.attach id, host⟩ := by
  simp [commitTo, hc, healthy.1, sound, discards, stale, attach_handles]

/-- Any other commit to a healthy model replaces the highlights. -/
theorem commitTo_current (hc : host.cell? id = some cell) (healthy : cell.Healthy)
    (sound : s.poisoned = false) (current : s.committed ≤ ticket) :
    s.commitTo host (some id) ticket spans =
      let drawn := cell.model.replace (s.held id) (spans.map Decoration.occurrence)
      ⟨.applied (s.held id).length drawn.1.length, s.handles.length - (s.held id).length,
        s.drawing id drawn.1 ticket, host.setCell id { cell with model := drawn.2 }⟩ := by
  have fresh : ¬ ticket < s.committed := Nat.not_lt_of_le current
  simp [commitTo, hc, healthy.1, sound, fresh, draw, healthy.2, attach_committed, attach_handles, drawing]

end Commit

/-- What a commit leaves of the synchronizer, whose highlights were `old`. -/
structure Committed (s : Synchronizer) (host : Host) (id : ModelId)
    (base : List (Handle × Decoration)) (old : List Span) (ticket : Ticket) (spans : List Span)
    (r : CommitResult) : Prop where
  draws : r.synchronizer.Draws r.host id base (if ticket < s.committed then old else spans)
  committed : r.synchronizer.committed = max s.committed ticket
  issued : r.synchronizer.issued = s.issued
  discards : r.synchronizer.discardSuperseded = s.discardSuperseded
  model : r.synchronizer.model = some id
  shown : r.host.shown = host.shown
  finished : r.outcome ≠ .crashed

/-- One commit to a healthy model, where stale ones are refused. -/
theorem Draws.commit {s : Synchronizer} {host : Host} {id : ModelId}
    {base : List (Handle × Decoration)} {old : List Span} (h : s.Draws host id base old)
    (discards : s.discardSuperseded = true) (ticket : Ticket) (spans : List Span) :
    s.Committed host id base old ticket spans (s.commitTo host (some id) ticket spans) := by
  obtain ⟨⟨cell, hc, healthy, shows⟩, sound⟩ := h
  by_cases stale : ticket < s.committed
  · rw [commitTo_stale hc healthy sound discards stale]
    refine ⟨?_, ?_, attach_issued s id, attach_discardSuperseded s id, attach_model s id, rfl, by simp⟩
    · rw [if_pos stale]
      refine ⟨⟨cell, hc, healthy, ?_⟩, (attach_poisoned s id).trans sound⟩
      rwa [held_of_model (attach_model s id), attach_handles]
    · rw [attach_committed, Nat.max_eq_left (Nat.le_of_lt stale)]
  · rw [commitTo_current hc healthy sound (Nat.le_of_not_lt stale)]
    refine ⟨?_, rfl, attach_issued s id, attach_discardSuperseded s id, attach_model s id, rfl, by simp⟩
    rw [if_neg stale]
    refine ⟨⟨_, Host.cell?_setCell hc _, healthy, ?_⟩, (attach_poisoned s id).trans sound⟩
    rw [held_drawing]
    exact shows.replace spans

end Synchronizer

end Highlight
