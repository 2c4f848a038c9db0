import Mathlib.Data.List.Nodup
import Highlight.Proofs.Synchronizer

/-!
# Histories of decorations

A world is a synchronizer and its host with a record of who put what into the models, commits or the host
itself. The record is taken by comparing each model before and after an operation, so it owes nothing to the
handles that the synchronizer holds.

Main statement: `World.balanced_run` says that after any operations the decorations which commits put into a
model and which are still there are those that the synchronizer has given up, followed by those that it holds,
and that all other decorations of the model are the host's, of which none has been lost.
-/

namespace Highlight

/-! ## Models -/

namespace DecorationModel

/-- The handles of the decorations rise, and all have been issued. -/
structure Ordered (m : DecorationModel) : Prop where
  rising : (m.toList.map (·.1)).Pairwise (· < ·)
  numbered : m.Numbered

/-- The decorations that a later state of the model has and this one has not. -/
def gained (m later : DecorationModel) : List (Handle × Decoration) :=
  later.toList.filter (· ∉ m.toList)

theorem gained_self (m : DecorationModel) : m.gained m = [] := by
  simp [gained]

theorem toList_replace (m : DecorationModel) (remove : List Handle) (add : List Decoration) :
    (m.replace remove add).2.toList =
      m.toList.filter (!remove.contains ·.1) ++ (m.fresh add.length).zip add := rfl

theorem map_fst_zip_fresh (m : DecorationModel) (add : List Decoration) :
    ((m.fresh add.length).zip add).map (·.1) = m.fresh add.length :=
  List.map_fst_zip (by simp)

variable {m : DecorationModel}

theorem ordered_empty : Ordered {} := ⟨List.Pairwise.nil, nofun⟩

theorem issued_lt_of_mem_zip_fresh {add : List Decoration} {e : Handle × Decoration}
    (h : e ∈ (m.fresh add.length).zip add) : m.issued < e.1 :=
  (mem_fresh_iff.1 (List.of_mem_zip h).1).1

theorem Ordered.not_mem_zip_fresh (h : m.Ordered) {add : List Decoration} {e : Handle × Decoration}
    (he : e ∈ m.toList) : e ∉ (m.fresh add.length).zip add :=
  fun fresh => Nat.not_lt_of_le (h.numbered e he) (issued_lt_of_mem_zip_fresh fresh)

theorem Ordered.eq_of_handle (h : m.Ordered) {d e : Handle × Decoration} (hd : d ∈ m.toList)
    (he : e ∈ m.toList) (same : d.1 = e.1) : d = e :=
  List.inj_on_of_nodup_map (h.rising.imp Nat.ne_of_lt) hd he same

theorem Ordered.replace (h : m.Ordered) (remove : List Handle) (add : List Decoration) :
    (m.replace remove add).2.Ordered := by
  constructor
  · rw [toList_replace, List.map_append, map_fst_zip_fresh, List.pairwise_append]
    refine ⟨h.rising.sublist (List.filter_sublist.map _), List.pairwise_lt_range', ?_⟩
    intro old hold new hnew
    obtain ⟨e, he, rfl⟩ := List.mem_map.1 hold
    exact Nat.lt_of_le_of_lt (h.numbered e (List.mem_filter.1 he).1) (mem_fresh_iff.1 hnew).1
  · intro e he
    rw [toList_replace] at he
    rcases List.mem_append.1 he with he | he
    · exact Nat.le_trans (h.numbered e (List.mem_filter.1 he).1) (Nat.le_add_right ..)
    · exact (mem_fresh_iff.1 (List.of_mem_zip he).1).2

/-- What a replacement adds is what the model gains by it. -/
theorem Ordered.gained_replace (h : m.Ordered) (remove : List Handle) (add : List Decoration) :
    m.gained (m.replace remove add).2 = (m.fresh add.length).zip add := by
  rw [gained, toList_replace, List.filter_append, List.filter_eq_nil_iff.2, List.nil_append,
    List.filter_eq_self.2]
  · intro e he
    exact decide_eq_true fun old => h.not_mem_zip_fresh old he
  · intro e he
    simp [(List.mem_filter.1 he).1]

end DecorationModel

namespace Host

/-- The model with a number, or an empty one where there is none. -/
def model (h : Host) (id : ModelId) : DecorationModel := ((h.cell? id).map (·.model)).getD {}

variable {h : Host} {id : ModelId} {cell : ModelCell}

theorem model_of_cell? (hc : h.cell? id = some cell) : h.model id = cell.model := by
  rw [model, hc]
  rfl

theorem model_setCell (hc : h.cell? id = some cell) (new : ModelCell) (other : ModelId) :
    (h.setCell id new).model other = if other = id then new.model else h.model other := by
  by_cases same : other = id
  · rw [same, if_pos rfl, model_of_cell? (cell?_setCell hc new)]
  · rw [if_neg same, model, model, cell?, setCell, List.getElem?_set_ne (Ne.symm same)]
    rfl

theorem changeShown_of_shown (shown : h.shown = some id) (hc : h.cell? id = some cell)
    (f : ModelCell → ModelCell) : h.changeShown f = h.setCell id (f cell) := by
  simp only [changeShown, shown, hc]

theorem model_changeShown (h : Host) (f : ModelCell → ModelCell) (id : ModelId) :
    (h.changeShown f).model id = h.model id ∨ h.shown = some id ∧ ∃ cell, h.cell? id = some cell ∧
      (h.changeShown f).model id = (f cell).model := by
  unfold changeShown
  split
  · exact .inl rfl
  · rename_i top shown
    split
    · exact .inl rfl
    · rename_i cell hc
      rw [model_setCell hc]
      by_cases same : id = top
      · rw [if_pos same, same]
        exact .inr ⟨shown, cell, hc, rfl⟩
      · rw [if_neg same]
        exact .inl rfl

theorem model_modelNamed (h : Host) (name : String) (id : ModelId) :
    (h.modelNamed name).2.model id = h.model id := by
  unfold modelNamed
  split
  · rfl
  · simp only [model, cell?, List.getElem?_append]
    split
    · rfl
    · rename_i beyond
      -- the new model is as empty as one that is not there
      rw [List.getElem?_eq_none (Nat.le_of_not_lt beyond)]
      cases id - h.cells.length <;> rfl

end Host

/-! ## Operations -/

/-- Something that the host does on its own. -/
inductive HostStep where
  /-- Show the model of a name, a new one or one that was shown before. -/
  | reveal (name : String)
  | hide
  | forget (name : String)
  /-- Add a decoration of its own to the shown model. -/
  | decorate (d : Decoration)
  | poison
  | crashNext
  deriving DecidableEq, Repr

def Host.act (h : Host) : HostStep → Host
  | .reveal name => h.reveal name
  | .hide => h.hide
  | .forget name => h.forget name
  | .decorate d => h.decorate d
  | .poison => h.poison
  | .crashNext => h.crashNext

/-- The host only ever adds to models. -/
theorem Host.model_act (h : Host) (step : HostStep) (id : ModelId) :
    (h.act step).model id = h.model id ∨
      ∃ d, step = .decorate d ∧ (h.act step).model id = ((h.model id).replace [] [d]).2 := by
  cases step with
  | reveal name => exact .inl (model_modelNamed h name id)
  | hide => exact .inl rfl
  | forget name =>
    left
    show (h.forget name).model id = h.model id
    unfold Host.forget
    split <;> rfl
  | decorate d =>
    rcases model_changeShown h _ id with same | ⟨-, cell, hc, changed⟩
    · exact .inl same
    · rw [model_of_cell? hc]
      exact .inr ⟨d, rfl, changed⟩
  | poison =>
    rcases model_changeShown h _ id with same | ⟨-, cell, hc, changed⟩
    · exact .inl same
    · exact .inl (changed.trans (model_of_cell? hc).symm)
  | crashNext =>
    rcases model_changeShown h _ id with same | ⟨-, cell, hc, changed⟩
    · exact .inl same
    · exact .inl (changed.trans (model_of_cell? hc).symm)

/-- An operation on a synchronizer or its host. -/
inductive Operation where
  | takeTicket
  | commit (ticket : Ticket) (spans : List Span)
  /-- Commit under a new ticket. -/
  | replaceAll (spans : List Span)
  | host (step : HostStep)
  deriving DecidableEq, Repr

/-- The spans that an operation commits. -/
def Operation.spans? : Operation → Option (List Span)
  | .commit _ spans => some spans
  | .replaceAll spans => some spans
  | _ => none

/-- A synchronizer and its host, with a record of what was put into each model. -/
structure World where
  synchronizer : Synchronizer
  host : Host
  /-- What commits have put into a model. -/
  drawn : ModelId → List (Handle × Decoration)
  /-- What was in a model at the start and what the host has put there since. -/
  placed : ModelId → List (Handle × Decoration)
  /-- The handles of a model that the synchronizer held when it turned away from it. -/
  abandoned : ModelId → List Handle

namespace World

def start (discardSuperseded : Bool) (host : Host) : World where
  synchronizer := { discardSuperseded }
  host := host
  drawn _ := []
  placed id := (host.model id).toList
  abandoned _ := []

/-- The world after a commit with the given result. -/
def record (w : World) (r : CommitResult) : World where
  synchronizer := r.synchronizer
  host := r.host
  drawn id := w.drawn id ++ (w.host.model id).gained (r.host.model id)
  placed := w.placed
  abandoned id :=
    w.abandoned id ++ if r.synchronizer.model = some id then [] else w.synchronizer.held id

/-- The result of the commit that an operation makes, if it makes one. -/
def result? (w : World) : Operation → Option CommitResult
  | .commit ticket spans => some (w.synchronizer.commit w.host ticket spans)
  | .replaceAll spans => some (w.synchronizer.replaceAll w.host spans).2
  | _ => none

def step (w : World) : Operation → World
  | .takeTicket => { w with synchronizer := w.synchronizer.nextTicket.2 }
  | .commit ticket spans => w.record (w.synchronizer.commit w.host ticket spans)
  | .replaceAll spans => w.record (w.synchronizer.replaceAll w.host spans).2
  | .host step =>
    { w with
      host := w.host.act step
      placed := fun id => w.placed id ++ (w.host.model id).gained ((w.host.act step).model id) }

def run (w : World) (ops : List Operation) : World := ops.foldl step w

/-- The decorations of a model that commits have put there, as far as they are still there. -/
def live (w : World) (id : ModelId) : List (Handle × Decoration) :=
  (w.host.model id).toList.filter (· ∈ w.drawn id)

theorem run_append (w : World) (ops more : List Operation) :
    w.run (ops ++ more) = (w.run ops).run more := List.foldl_append

theorem step_of_result? {w : World} {op : Operation} {r : CommitResult} (h : w.result? op = some r) :
    w.step op = w.record r := by
  cases op <;> cases h <;> rfl

end World

/-! ## The account of one model -/

/-- The record of a model agrees with what is in it: of what commits have put there the given-up and the
held decorations are left, and of what others have put there everything. -/
structure Account (m : DecorationModel) (drawn placed : List (Handle × Decoration))
    (abandoned held : List Handle) : Prop where
  ordered : m.Ordered
  issued : ∀ e ∈ drawn, e.1 ≤ m.issued
  own : (m.toList.filter (· ∈ drawn)).map (·.1) = abandoned ++ held
  others : m.toList.filter (· ∉ drawn) = placed

namespace Account

variable {m : DecorationModel} {drawn placed : List (Handle × Decoration)}
  {abandoned held : List Handle}

theorem nodup (h : Account m drawn placed abandoned held) : (abandoned ++ held).Nodup := by
  rw [← h.own]
  exact (h.ordered.rising.sublist (List.filter_sublist.map _)).imp Nat.ne_of_lt

theorem mem_drawn (h : Account m drawn placed abandoned held) {e : Handle × Decoration}
    (he : e ∈ m.toList) (mine : e.1 ∈ abandoned ++ held) : e ∈ drawn := by
  rw [← h.own] at mine
  obtain ⟨d, hd, same⟩ := List.mem_map.1 mine
  obtain ⟨hd, member⟩ := List.mem_filter.1 hd
  rw [← h.ordered.eq_of_handle hd he same]
  exact of_decide_eq_true member

/-- A commit that does not touch the model: the handles stay held, or they are given up. -/
theorem commit_elsewhere (h : Account m drawn placed abandoned held) {gone kept : List Handle}
    (split : held = gone ++ kept) : Account m (drawn ++ m.gained m) placed (abandoned ++ gone) kept := by
  rw [DecorationModel.gained_self, List.append_nil]
  exact ⟨h.ordered, h.issued, by rw [h.own, split, List.append_assoc], h.others⟩

theorem filter_decorate (h : Account m drawn placed abandoned held) (d : Decoration) :
    (m.replace [] [d]).2.toList.filter (· ∈ drawn) = m.toList.filter (· ∈ drawn) ∧
      (m.replace [] [d]).2.toList.filter (· ∉ drawn) =
        m.toList.filter (· ∉ drawn) ++ m.gained (m.replace [] [d]).2 := by
  have entries : (m.replace [] [d]).2.toList = m.toList ++ (m.fresh [d].length).zip [d] := by
    rw [DecorationModel.toList_replace]
    simp
  -- its handle is higher than any that a commit was given
  have foreign : ∀ e ∈ (m.fresh [d].length).zip [d], e ∉ drawn := fun e fresh old =>
    Nat.not_lt_of_le (h.issued e old) (DecorationModel.issued_lt_of_mem_zip_fresh fresh)
  have own : ((m.fresh [d].length).zip [d]).filter (· ∈ drawn) = [] :=
    List.filter_eq_nil_iff.2 fun e he => by simp [foreign e he]
  have others : ((m.fresh [d].length).zip [d]).filter (· ∉ drawn) = (m.fresh [d].length).zip [d] :=
    List.filter_eq_self.2 fun e he => by simp [foreign e he]
  constructor
  · rw [entries, List.filter_append, own, List.append_nil]
  · rw [entries, List.filter_append, others, h.ordered.gained_replace]

theorem decorate (h : Account m drawn placed abandoned held) (d : Decoration) :
    Account (m.replace [] [d]).2 drawn (placed ++ m.gained (m.replace [] [d]).2) abandoned held := by
  obtain ⟨own, others⟩ := h.filter_decorate d
  exact ⟨h.ordered.replace [] [d], fun e he => Nat.le_succ_of_le (h.issued e he),
    by rw [own, h.own], by rw [others, h.others]⟩

/-- A commit that draws in the model leaves what was given up before and adds its own. -/
theorem filter_drawn_replace (h : Account m drawn placed abandoned held) (add : List Decoration) :
    (m.replace held add).2.toList.filter (· ∈ drawn ++ m.gained (m.replace held add).2) =
      (m.toList.filter (· ∈ drawn)).filter (·.1 ∉ held) ++ (m.fresh add.length).zip add := by
  have own : ((m.fresh add.length).zip add).filter (· ∈ drawn ++ (m.fresh add.length).zip add) =
      (m.fresh add.length).zip add := List.filter_eq_self.2 fun e he => by simp [he]
  rw [h.ordered.gained_replace, DecorationModel.toList_replace, List.filter_append, own,
    List.filter_filter, List.filter_filter]
  congr 1
  apply List.filter_congr
  intro e he
  simp [h.ordered.not_mem_zip_fresh he, Bool.and_comm]

theorem map_fst_abandoned (h : Account m drawn placed abandoned held) :
    ((m.toList.filter (· ∈ drawn)).filter (·.1 ∉ held)).map (·.1) = abandoned := by
  have split : ((m.toList.filter (· ∈ drawn)).filter (·.1 ∉ held)).map (·.1) =
      (abandoned ++ held).filter (· ∉ held) := by
    rw [← h.own, List.filter_map]
    rfl
  have apart := (List.nodup_append.1 h.nodup).2.2
  rw [split, List.filter_append, List.filter_eq_self.2, List.filter_eq_nil_iff.2, List.append_nil]
  · intro handle hh
    simp [hh]
  · intro handle hh
    exact decide_eq_true fun hheld => apart handle hh handle hheld rfl

theorem redraw (h : Account m drawn placed abandoned held) (add : List Decoration) :
    Account (m.replace held add).2 (drawn ++ m.gained (m.replace held add).2) placed abandoned
      (m.fresh add.length) := by
  refine ⟨h.ordered.replace held add, ?_, ?_, ?_⟩
  · intro e he
    rw [h.ordered.gained_replace] at he
    rcases List.mem_append.1 he with he | he
    · exact Nat.le_trans (h.issued e he) (Nat.le_add_right ..)
    · exact (DecorationModel.mem_fresh_iff.1 (List.of_mem_zip he).1).2
  · rw [h.filter_drawn_replace, List.map_append, h.map_fst_abandoned,
      DecorationModel.map_fst_zip_fresh]
  · rw [h.ordered.gained_replace, DecorationModel.toList_replace, List.filter_append,
      List.filter_filter]
    have own : ((m.fresh add.length).zip add).filter (· ∉ drawn ++ (m.fresh add.length).zip add) = [] :=
      List.filter_eq_nil_iff.2 fun e he => by simp [he]
    rw [own, List.append_nil, ← h.others]
    apply List.filter_congr
    intro e he
    -- what others have put there is under no handle that is held
    have kept : e ∉ drawn → e.1 ∉ held := fun foreign hheld =>
      foreign (h.mem_drawn he (List.mem_append_right _ hheld))
    by_cases foreign : e ∉ drawn
    · simp [h.ordered.not_mem_zip_fresh he, foreign, kept foreign]
    · simp [foreign]

end Account

/-! ## Commits -/

namespace Synchronizer

/-- A commit of `spans` has replaced the highlights that were held in the model. -/
structure Redrawn (s : Synchronizer) (host : Host) (spans : List Span) (id : ModelId)
    (r : CommitResult) : Prop where
  model : r.host.model id =
    ((host.model id).replace (s.held id) (spans.map Decoration.occurrence)).2
  bound : r.synchronizer.model = some id
  handles : r.synchronizer.handles = (host.model id).fresh spans.length

/-- What a commit does to one model. -/
inductive CommitEffect (s : Synchronizer) (host : Host) (spans : List Span) (id : ModelId)
    (r : CommitResult) : Prop where
  /-- Neither the model nor what is held in it changes. -/
  | kept (model : r.host.model id = host.model id) (held : r.synchronizer.held id = s.held id)
      (bound : r.synchronizer.model = some id ∨ s.held id = [])
  /-- The synchronizer turns away from the model. -/
  | left (model : r.host.model id = host.model id) (unbound : r.synchronizer.model ≠ some id)
  | redrawn (redrawn : Redrawn s host spans id r)

variable {s : Synchronizer} {host : Host} {picked : Option ModelId} {ticket : Ticket}
  {spans : List Span} {r : CommitResult}

theorem held_of_ne {id : ModelId} (h : s.model ≠ some id) : s.held id = [] := if_neg h

theorem CommitEffect.of_attach {top : ModelId} (id : ModelId) (model : r.host.model id = host.model id)
    (bound : r.synchronizer.model = some top) (handles : r.synchronizer.handles = s.held top) :
    CommitEffect s host spans id r := by
  by_cases same : id = top
  · subst same
    exact .kept model ((held_of_model bound).trans handles) (.inl bound)
  · refine .left model ?_
    rw [bound]
    exact fun h => same (Option.some.inj h).symm

theorem redrawn_of_replace {id : ModelId} {cell : ModelCell} {drawn : List Handle × DecorationModel}
    (hc : host.cell? id = some cell)
    (hd : cell.model.replace (s.held id) (spans.map Decoration.occurrence) = drawn) (outcome : Commit)
    (forgotten : Nat) (ticket : Ticket) :
    Redrawn s host spans id ⟨outcome, forgotten, s.drawing id drawn.1 ticket,
      host.setCell id { cell with model := drawn.2 }⟩ := by
  refine ⟨?_, attach_model s id, ?_⟩
  · rw [Host.model_setCell hc, if_pos rfl, Host.model_of_cell? hc, hd]
  · have fresh : drawn.1 = cell.model.fresh (spans.map Decoration.occurrence).length :=
      (congrArg Prod.fst hd).symm
    rwa [List.length_map, ← Host.model_of_cell? hc] at fresh

theorem CommitCase.redrawn (h : CommitCase s host picked ticket spans r) {removed added : Nat}
    (applied : r.outcome = .applied removed added) :
    ∃ id, picked = some id ∧ r.host.shown = host.shown ∧ Redrawn s host spans id r := by
  cases h with
  | unusable refused => rcases refused with rfl | rfl <;> cases applied
  | frozen => cases applied
  | stale => cases applied
  | crashed => cases applied
  | applied hp hc _ _ _ hd => exact ⟨_, hp, rfl, redrawn_of_replace hc hd ..⟩

theorem CommitCase.effect (h : CommitCase s host picked ticket spans r) (id : ModelId) :
    CommitEffect s host spans id r := by
  cases h with
  | unusable => exact .left rfl nofun
  | frozen =>
    by_cases bound : s.model = some id
    · exact .kept rfl rfl (.inl bound)
    · exact .kept rfl rfl (.inr (held_of_ne bound))
  | stale => exact .of_attach id rfl (attach_model s _) (attach_handles s _)
  | @crashed top cell _ hc =>
    refine .of_attach id ?_ (attach_model s top) (attach_handles s top)
    rw [Host.model_setCell hc]
    split
    · rename_i same
      rw [same, Host.model_of_cell? hc]
    · rfl
  | @applied top _ _ _ hc _ _ _ hd =>
    by_cases same : id = top
    · subst same
      exact .redrawn (redrawn_of_replace hc hd ..)
    · refine .left ?_ ?_
      · rw [Host.model_setCell hc, if_neg same]
      · show (s.attach top).model ≠ some id
        rw [attach_model]
        exact fun h => same (Option.some.inj h).symm

end Synchronizer

/-! ## Worlds -/

namespace World

/-- The record of every model agrees with what is in it. -/
def Balanced (w : World) : Prop := ∀ id, Account (w.host.model id) (w.drawn id) (w.placed id)
  (w.abandoned id) (w.synchronizer.held id)

theorem balanced_start (discardSuperseded : Bool) {host : Host}
    (ordered : ∀ id, (host.model id).Ordered) : (start discardSuperseded host).Balanced :=
  fun id => ⟨ordered id, nofun, by simp [start, Synchronizer.held], by simp [start]⟩

/-- An operation that commits does so for the world's synchronizer, which may have taken a ticket first. -/
theorem commitCase_of_result? {w : World} {op : Operation} {r : CommitResult}
    (h : w.result? op = some r) :
    ∃ (s : Synchronizer) (ticket : Ticket) (spans : List Span), op.spans? = some spans ∧
      s.held = w.synchronizer.held ∧ s.CommitCase w.host w.host.shown ticket spans r := by
  cases op with
  | takeTicket => cases h
  | commit ticket spans =>
    cases h
    exact ⟨_, ticket, spans, rfl, rfl, Synchronizer.commitTo_cases ..⟩
  | replaceAll spans =>
    cases h
    exact ⟨w.synchronizer.nextTicket.2, _, spans, rfl, rfl, Synchronizer.commitTo_cases ..⟩
  | host step => cases h

theorem Balanced.record {w : World} (h : w.Balanced) (op : Operation) {r : CommitResult}
    (result : w.result? op = some r) : (w.record r).Balanced := by
  obtain ⟨s, ticket, spans, -, same, done⟩ := commitCase_of_result? result
  intro id
  have account := h id
  -- a ticket taken first changes nothing that is held
  rw [← same] at account
  simp only [World.record, ← same]
  cases done.effect id with
  | kept model held bound =>
    rw [model, held]
    rcases bound with bound | nothing
    · rw [if_pos bound]
      exact account.commit_elsewhere rfl
    · rw [nothing] at account ⊢
      rw [ite_self]
      exact account.commit_elsewhere rfl
  | left model unbound =>
    rw [model, if_neg unbound, Synchronizer.held_of_ne unbound]
    exact account.commit_elsewhere (List.append_nil _).symm
  | redrawn drawing =>
    rw [drawing.model, if_pos drawing.bound, List.append_nil,
      Synchronizer.held_of_model drawing.bound, drawing.handles]
    have redrawn := account.redraw (spans.map Decoration.occurrence)
    rwa [List.length_map] at redrawn

/-- After an applied commit the live decorations of the shown model are those which were given up, and one for
each span. -/
theorem Balanced.live_of_applied {w : World} (h : w.Balanced) {op : Operation} {spans : List Span}
    (asked : op.spans? = some spans) {r : CommitResult} (result : w.result? op = some r)
    {removed added : Nat} (applied : r.outcome = .applied removed added) :
    ∃ id, r.host.shown = some id ∧ r.synchronizer.handles.length = spans.length ∧
      ∃ leftover, leftover.map (·.1) = w.abandoned id ∧ (w.record r).live id =
        leftover ++ r.synchronizer.handles.zip (spans.map Decoration.occurrence) := by
  obtain ⟨s, ticket, committed, asked', same, done⟩ := commitCase_of_result? result
  cases asked.symm.trans asked'
  obtain ⟨id, shown, shows, redrawn⟩ := done.redrawn applied
  have account := h id
  rw [← same] at account
  refine ⟨id, shows.trans shown, by rw [redrawn.handles, DecorationModel.length_fresh], _,
    account.map_fst_abandoned, ?_⟩
  have filtered := account.filter_drawn_replace (spans.map Decoration.occurrence)
  rw [List.length_map, ← redrawn.model, ← redrawn.handles] at filtered
  exact filtered

theorem Balanced.step {w : World} (h : w.Balanced) (op : Operation) : (w.step op).Balanced := by
  cases op with
  | takeTicket => exact h
  | commit ticket spans => exact h.record (.commit ticket spans) rfl
  | replaceAll spans => exact h.record (.replaceAll spans) rfl
  | host step =>
    intro id
    show Account ((w.host.act step).model id) _ (w.placed id ++ (w.host.model id).gained _) _ _
    rcases w.host.model_act step id with same | ⟨d, -, changed⟩
    · rw [same, DecorationModel.gained_self, List.append_nil]
      exact h id
    · rw [changed]
      exact (h id).decorate d

/-- Every world that operations lead to is balanced. -/
theorem balanced_run {w : World} (h : w.Balanced) (ops : List Operation) : (w.run ops).Balanced := by
  induction ops generalizing w with
  | nil => exact h
  | cons op ops ih => exact ih (h.step op)

end World

end Highlight
