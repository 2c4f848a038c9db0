import Mathlib.Data.List.Perm.Subperm
import Highlight.Proofs.WorkerPool

/-!
# What happens in a worker pool

Callers count jobs and send them, workers receive them, run them and count them off, and other callers wait
until nothing is counted. These moves come in any order. `WaitedPool.chronicle` lists what they bring about,
read off the pool before each move: a job is counted, sent, started, ended or counted off, or a wait begins or
is over.

`WorkerPool.Recorded` ties a pool to what has happened in it, and every move keeps it
(`WorkerPool.Recorded.move`). With a single worker the jobs that are over come before the one that runs
(`WorkerPool.Serial`). While anything is counted some move gets ahead with it (`WaitedPool.exists_ahead`), and
each move ahead lowers `WorkerPool.todo`, so nothing is left behind (`WaitedPool.exists_rest`).
-/

namespace Highlight

variable {α : Type}

/-! ## Moves -/

/-- What can happen next in and around a pool. -/
inductive PoolMove (α : Type) where
  /-- A caller counts a job. -/
  | count (job : α)
  /-- The caller of the `i`-th of the counted jobs sends it, which ends the call. -/
  | send (i : Nat)
  | receive (w : Nat)
  /-- The job of worker `w` comes to its end, which may be a crash that the worker catches. -/
  | finish (w : Nat) (crashed : Bool)
  | done (w : Nat)
  /-- A caller begins to wait. -/
  | wait (caller : Nat)
  /-- A caller looks at the count, and if it waits and nothing is counted its wait is over. -/
  | look (caller : Nat)
  deriving DecidableEq, Repr

/-- The job that a move brings to the pool. -/
def PoolMove.counted? : PoolMove α → Option α
  | .count job => some job
  | _ => none

/-- What has happened in and around a pool. -/
inductive PoolEvent (α : Type) where
  | counted (job : α)
  | sent (job : α)
  | started (job : α)
  | ended (job : α) (crashed : Bool)
  | countedOff
  | waits (caller : Nat)
  | returns (caller : Nat)
  deriving DecidableEq, Repr

namespace PoolEvent

@[simp] def counted? : PoolEvent α → Option α
  | .counted job => some job
  | _ => none

@[simp] def sent? : PoolEvent α → Option α
  | .sent job => some job
  | _ => none

@[simp] def started? : PoolEvent α → Option α
  | .started job => some job
  | _ => none

/-- The job that has come to its end, whether or not by a crash. -/
@[simp] def ended? : PoolEvent α → Option α
  | .ended job _ => some job
  | _ => none

@[simp] def isCountedOff : PoolEvent α → Bool
  | .countedOff => true
  | _ => false

end PoolEvent

/-- A pool and the callers that wait for it. -/
structure WaitedPool (α : Type) where
  pool : WorkerPool α
  waiting : List Nat := []
  deriving DecidableEq, Repr

namespace WaitedPool

/-- A pool of so many workers, for which nobody waits. -/
def ofThreads (threads : Nat) : WaitedPool α := { pool := .ofThreads threads }

/-- The pool after one move. A move that is not possible changes nothing. -/
def move (s : WaitedPool α) : PoolMove α → WaitedPool α
  | .count job => { s with pool := s.pool.count job }
  | .send i => { s with pool := s.pool.send i }
  | .receive w => { s with pool := s.pool.receive w }
  | .finish w _ => { s with pool := s.pool.finish w }
  | .done w => { s with pool := s.pool.done w }
  | .wait caller => { s with waiting := caller :: s.waiting }
  | .look caller => if s.pool.isIdle then { s with waiting := s.waiting.erase caller } else s

/-- What a move brings about. -/
def news (s : WaitedPool α) : PoolMove α → List (PoolEvent α)
  | .count job => [.counted job]
  | .send i => (s.pool.counted[i]?).toList.map .sent
  | .receive w =>
    match s.pool.workers[w]?, s.pool.channel with
    | some .idle, job :: _ => [.started job]
    | _, _ => []
  | .finish w crashed =>
    match s.pool.workers[w]? with
    | some (.running job) => [.ended job crashed]
    | _ => []
  | .done w =>
    match s.pool.workers[w]? with
    | some .ended => [.countedOff]
    | _ => []
  | .wait caller => [.waits caller]
  | .look caller => if s.waiting.contains caller && s.pool.isIdle then [.returns caller] else []

/-- The pool after some moves. -/
def play (s : WaitedPool α) (moves : List (PoolMove α)) : WaitedPool α := moves.foldl move s

/-- What some moves bring about. -/
def chronicle (s : WaitedPool α) : List (PoolMove α) → List (PoolEvent α)
  | [] => []
  | m :: moves => s.news m ++ (s.move m).chronicle moves

/-- What a move can do to a pool, with the guard under which it does it and what it brings about. -/
inductive MoveCase (s : WaitedPool α) : PoolMove α → List (PoolEvent α) → WorkerPool α → Prop where
  | count (job : α) : MoveCase s (.count job) [.counted job] (s.pool.count job)
  | send {i : Nat} {job : α} (counted : s.pool.counted[i]? = some job) :
    MoveCase s (.send i) [.sent job] (s.pool.send i)
  | receive {w : Nat} {job : α} {rest : List α} (idle : s.pool.workers[w]? = some .idle)
    (next : s.pool.channel = job :: rest) :
    MoveCase s (.receive w) [.started job] (s.pool.receive w)
  | finish {w : Nat} {job : α} (running : s.pool.workers[w]? = some (.running job)) (crashed : Bool) :
    MoveCase s (.finish w crashed) [.ended job crashed] (s.pool.finish w)
  | done {w : Nat} (ended : s.pool.workers[w]? = some .ended) :
    MoveCase s (.done w) [.countedOff] (s.pool.done w)
  | wait (caller : Nat) : MoveCase s (.wait caller) [.waits caller] s.pool
  | look {caller : Nat} (idle : s.pool.isIdle = true) :
    MoveCase s (.look caller) [.returns caller] s.pool
  | impossible {m : PoolMove α} (nothing : m.counted? = none) : MoveCase s m [] s.pool

theorem move_cases (s : WaitedPool α) (m : PoolMove α) : MoveCase s m (s.news m) (s.move m).pool := by
  cases m with
  | count job => exact .count job
  | send i =>
    cases counted : s.pool.counted[i]? with
    | none =>
      simp only [move, news, WorkerPool.send, counted]
      exact .impossible rfl
    | some job =>
      simp only [move, news, counted]
      exact .send counted
  | receive w =>
    simp only [move, news]
    split
    · rename_i job rest idle next
      exact .receive idle next
    · rename_i blocked
      have same : s.pool.receive w = s.pool := by
        unfold WorkerPool.receive
        split
        · rename_i job rest idle next
          exact absurd next (blocked job rest idle)
        · rfl
      rw [same]
      exact .impossible rfl
  | finish w crashed =>
    simp only [move, news]
    split
    · rename_i job running
      exact .finish running crashed
    · rename_i free
      have same : s.pool.finish w = s.pool := by
        unfold WorkerPool.finish
        split
        · rename_i job running
          exact absurd running (free job)
        · rfl
      rw [same]
      exact .impossible rfl
  | done w =>
    simp only [move, news]
    split
    · rename_i ended
      exact .done ended
    · rename_i busy
      have same : s.pool.done w = s.pool := by
        unfold WorkerPool.done
        split
        · rename_i ended
          exact absurd ended busy
        · rfl
      rw [same]
      exact .impossible rfl
  | wait caller => exact .wait caller
  | look caller =>
    simp only [move, news]
    by_cases idle : s.pool.isIdle = true
    · by_cases waits : s.waiting.contains caller = true
      · simp only [idle, waits, if_true, Bool.and_self]
        exact .look idle
      · simp only [idle, waits, if_true, Bool.and_true]
        exact .impossible rfl
    · simp only [idle, Bool.and_false, Bool.false_eq_true, if_false]
      exact .impossible rfl

/-- A wait is over only when nothing is counted. -/
theorem isIdle_of_returns {s : WaitedPool α} {caller : Nat}
    (h : s.news (.look caller) = [.returns caller]) : s.pool.isIdle = true := by
  have done := s.move_cases (.look caller)
  generalize (s.move (.look caller)).pool = p at done
  rw [h] at done
  cases done with
  | look idle => exact idle

theorem play_append (s : WaitedPool α) (moves more : List (PoolMove α)) :
    s.play (moves ++ more) = (s.play moves).play more := List.foldl_append

theorem chronicle_append (s : WaitedPool α) (moves more : List (PoolMove α)) :
    s.chronicle (moves ++ more) = s.chronicle moves ++ (s.play moves).chronicle more := by
  induction moves generalizing s with
  | nil => rfl
  | cons m moves ih =>
    rw [List.cons_append, chronicle, chronicle, ih, List.append_assoc]
    rfl

/-- What every move keeps true of the pool and of what has happened, a run keeps true. -/
theorem keeps_play {P : WorkerPool α → List (PoolEvent α) → Prop}
    (keeps : ∀ {s : WaitedPool α} {log} (_ : P s.pool log) (m : PoolMove α),
      P (s.move m).pool (log ++ s.news m))
    {s : WaitedPool α} {log : List (PoolEvent α)} (h : P s.pool log) (moves : List (PoolMove α)) :
    P (s.play moves).pool (log ++ s.chronicle moves) := by
  induction moves generalizing s log with
  | nil => simpa [play, chronicle] using h
  | cons m moves ih =>
    rw [chronicle, ← List.append_assoc]
    exact ih (keeps h m)

end WaitedPool

/-! ## The record of a pool -/

namespace WorkerPool

/-- What has happened in a pool agrees with how it stands. -/
structure Recorded (p : WorkerPool α) (log : List (PoolEvent α)) : Prop where
  accounted : p.Accounted
  /-- What is counted has not been counted off. -/
  tallied : p.pending + log.countP PoolEvent.isCountedOff = (log.filterMap PoolEvent.counted?).length
  /-- A job that was counted has been sent, or is still to be. -/
  delivered : (log.filterMap PoolEvent.counted?).Perm (p.counted ++ log.filterMap PoolEvent.sent?)
  /-- The jobs are started in the order in which they are sent. -/
  ordered : log.filterMap PoolEvent.sent? = log.filterMap PoolEvent.started? ++ p.channel
  /-- A job that was started is over, or a worker runs it. -/
  carried : (log.filterMap PoolEvent.started?).Perm
    (p.workers.filterMap Worker.job? ++ log.filterMap PoolEvent.ended?)

theorem recorded_ofThreads (threads : Nat) : (ofThreads threads : WorkerPool α).Recorded [] := by
  refine ⟨accounted_ofThreads threads, rfl, List.Perm.refl _, rfl, ?_⟩
  simp [ofThreads, List.filterMap_replicate, Worker.job?]

theorem perm_append_right_comm (xs ys zs : List α) : (xs ++ ys ++ zs).Perm (xs ++ zs ++ ys) := by
  rw [List.append_assoc, List.append_assoc]
  exact List.perm_append_comm.append_left xs

namespace Recorded

variable {p : WorkerPool α} {log : List (PoolEvent α)} {w : Nat} {job : α}

theorem count (h : p.Recorded log) (job : α) : (p.count job).Recorded (log ++ [.counted job]) := by
  refine ⟨h.accounted.count job, ?_, ?_, ?_, ?_⟩
  · have tallied := h.tallied
    simp [WorkerPool.count]
    omega
  · have delivered := (h.delivered.append_right [job]).trans (perm_append_right_comm ..)
    simpa [WorkerPool.count, List.filterMap_cons] using delivered
  · simpa [WorkerPool.count, List.filterMap_cons] using h.ordered
  · simpa [WorkerPool.count, List.filterMap_cons] using h.carried

theorem send (h : p.Recorded log) {i : Nat} (counted : p.counted[i]? = some job) :
    (p.send i).Recorded (log ++ [.sent job]) := by
  have accounted := h.accounted.send i
  simp only [WorkerPool.send, counted] at accounted ⊢
  refine ⟨accounted, ?_, ?_, ?_, ?_⟩
  · simpa [List.filterMap_cons] using h.tallied
  · obtain ⟨inside, rfl⟩ := List.getElem?_eq_some_iff.1 counted
    have moved : p.counted.Perm (p.counted.eraseIdx i ++ [p.counted[i]]) :=
      (List.getElem_cons_eraseIdx_perm inside).symm.trans (List.perm_append_singleton _ _).symm
    have delivered := h.delivered.trans ((moved.append_right _).trans (perm_append_right_comm ..))
    simpa [List.filterMap_cons] using delivered
  · simp [List.filterMap_cons, h.ordered]
  · simpa [List.filterMap_cons] using h.carried

theorem receive (h : p.Recorded log) {rest : List α} (idle : p.workers[w]? = some .idle)
    (next : p.channel = job :: rest) : (p.receive w).Recorded (log ++ [.started job]) := by
  have accounted := h.accounted.receive w
  simp only [WorkerPool.receive, idle, next] at accounted ⊢
  refine ⟨accounted, ?_, ?_, ?_, ?_⟩
  · simpa [setWorker, List.filterMap_cons] using h.tallied
  · simpa [setWorker, List.filterMap_cons] using h.delivered
  · simp [List.filterMap_cons, h.ordered, next]
  · obtain ⟨others, before, after⟩ := perm_filterMap_set idle (.running job)
    have carried := (h.carried.trans (before.append_right _)).cons job
    have started := (List.perm_append_singleton job _).trans (carried.trans (after.append_right _).symm)
    simpa [setWorker, List.filterMap_cons] using started

theorem finish (h : p.Recorded log) (running : p.workers[w]? = some (.running job)) (crashed : Bool) :
    (p.finish w).Recorded (log ++ [.ended job crashed]) := by
  have accounted := h.accounted.finish running
  simp only [WorkerPool.finish, running] at accounted ⊢
  refine ⟨accounted, ?_, ?_, ?_, ?_⟩
  · simpa [setWorker, List.filterMap_cons] using h.tallied
  · simpa [setWorker, List.filterMap_cons] using h.delivered
  · simpa [setWorker, List.filterMap_cons] using h.ordered
  · obtain ⟨others, before, after⟩ := perm_filterMap_set running .ended
    have carried := h.carried.trans (before.append_right _)
    have moved : (job :: (others ++ log.filterMap PoolEvent.ended?)).Perm
        (others ++ (log.filterMap PoolEvent.ended? ++ [job])) := by
      rw [← List.append_assoc]
      exact (List.perm_append_singleton _ _).symm
    have finished := (carried.trans moved).trans (after.append_right _).symm
    simpa [setWorker, List.filterMap_cons] using finished

theorem done (h : p.Recorded log) (ended : p.workers[w]? = some .ended) :
    (p.done w).Recorded (log ++ [.countedOff]) := by
  have accounted := h.accounted.done w
  have counts := h.accounted.pending_pos ended
  simp only [WorkerPool.done, ended] at accounted ⊢
  refine ⟨accounted, ?_, ?_, ?_, ?_⟩
  · have tallied := h.tallied
    simp [List.filterMap_cons]
    omega
  · simpa [setWorker, List.filterMap_cons] using h.delivered
  · simpa [setWorker, List.filterMap_cons] using h.ordered
  · obtain ⟨others, before, after⟩ := perm_filterMap_set ended .idle
    have carried := h.carried.trans ((before.trans after.symm).append_right _)
    simpa [setWorker, List.filterMap_cons] using carried

/-- A caller who begins to wait, or whose wait is over, does not concern the jobs. -/
theorem aside (h : p.Recorded log) {e : PoolEvent α} {caller : Nat}
    (waits : e = .waits caller ∨ e = .returns caller) : p.Recorded (log ++ [e]) := by
  obtain ⟨accounted, tallied, delivered, ordered, carried⟩ := h
  rcases waits with rfl | rfl <;> refine ⟨accounted, ?_, ?_, ?_, ?_⟩ <;>
    simpa [List.filterMap_cons]

/-- Every move keeps the record. -/
theorem move {s : WaitedPool α} (h : s.pool.Recorded log) (m : PoolMove α) :
    (s.move m).pool.Recorded (log ++ s.news m) := by
  have done := s.move_cases m
  generalize s.news m = events, (s.move m).pool = p at done ⊢
  cases done with
  | count job => exact h.count job
  | send counted => exact h.send counted
  | receive idle next => exact h.receive idle next
  | finish running crashed => exact h.finish running crashed
  | done ended => exact h.done ended
  | wait caller => exact h.aside (.inl rfl)
  | look => exact h.aside (.inr rfl)
  | impossible => rwa [List.append_nil]

/-- Every job counted is still to be started, or has been. -/
theorem perm_started (h : p.Recorded log) : (log.filterMap PoolEvent.counted?).Perm
    (p.counted ++ p.channel ++ log.filterMap PoolEvent.started?) := by
  have delivered := h.delivered
  rw [h.ordered, ← List.append_assoc] at delivered
  exact delivered.trans (perm_append_right_comm ..)

/-- Every job counted is still to be carried out, or is over. -/
theorem perm_jobs (h : p.Recorded log) :
    (log.filterMap PoolEvent.counted?).Perm (p.jobs ++ log.filterMap PoolEvent.ended?) := by
  have carried := h.carried.append_left (p.counted ++ p.channel)
  rw [← List.append_assoc] at carried
  exact h.perm_started.trans carried

/-- In an idle pool every job counted is over. -/
theorem perm_of_idle (h : p.Recorded log) (idle : p.isIdle = true) :
    (log.filterMap PoolEvent.counted?).Perm (log.filterMap PoolEvent.ended?) := by
  have jobs := h.perm_jobs
  rwa [h.accounted.jobs_eq_nil idle, List.nil_append] at jobs

theorem subperm_of_idle (h : p.Recorded log) (idle : p.isIdle = true) :
    (log.filterMap PoolEvent.sent?).Subperm (log.filterMap PoolEvent.ended?) := by
  have sent : (log.filterMap PoolEvent.sent?).Sublist (p.counted ++ log.filterMap PoolEvent.sent?) :=
    List.sublist_append_right ..
  exact sent.subperm.trans (h.delivered.symm.trans (h.perm_of_idle idle)).subperm

end Recorded

/-! ## A single worker -/

/-- The jobs that the only worker has started are those that are over, and then the one that it runs. -/
def Serial (p : WorkerPool α) (log : List (PoolEvent α)) : Prop :=
  ∃ v, p.workers = [v] ∧
    log.filterMap PoolEvent.started? = log.filterMap PoolEvent.ended? ++ v.job?.toList

theorem Serial.move {s : WaitedPool α} {log : List (PoolEvent α)} (h : s.pool.Serial log)
    (m : PoolMove α) : (s.move m).pool.Serial (log ++ s.news m) := by
  obtain ⟨v, single, started⟩ := h
  -- the only worker is the one with the number 0
  have only {w : Nat} {u : Worker α} (there : s.pool.workers[w]? = some u) : w = 0 ∧ v = u := by
    rw [single] at there
    obtain ⟨bound, same⟩ := List.getElem?_eq_some_iff.1 there
    obtain rfl : w = 0 := by simpa using bound
    exact ⟨rfl, same⟩
  have done := s.move_cases m
  generalize s.news m = events, (s.move m).pool = p at done ⊢
  cases done with
  | count job => exact ⟨v, single, by simpa [List.filterMap_cons] using started⟩
  | send counted =>
    refine ⟨v, ?_, by simpa [List.filterMap_cons] using started⟩
    simp only [WorkerPool.send, counted, single]
  | @receive w job rest idle next =>
    obtain ⟨rfl, rfl⟩ := only idle
    refine ⟨.running job, ?_, ?_⟩
    · simp [WorkerPool.receive, next, setWorker, single]
    · simpa [List.filterMap_cons, Worker.job?] using started
  | @finish w job running crashed =>
    obtain ⟨rfl, rfl⟩ := only running
    refine ⟨.ended, ?_, ?_⟩
    · simp [WorkerPool.finish, setWorker, single]
    · simpa [List.filterMap_cons, Worker.job?] using started
  | @done w ended =>
    obtain ⟨rfl, rfl⟩ := only ended
    refine ⟨.idle, ?_, ?_⟩
    · simp [WorkerPool.done, setWorker, single]
    · simpa [List.filterMap_cons, Worker.job?] using started
  | wait caller => exact ⟨v, single, by simpa [List.filterMap_cons] using started⟩
  | look => exact ⟨v, single, by simpa [List.filterMap_cons] using started⟩
  | impossible => exact ⟨v, single, by simpa using started⟩

/-! ## Getting ahead -/

/-- How many moves it takes to carry out what is counted: a job is sent, received, finished and counted off. -/
def todo (p : WorkerPool α) : Nat :=
  4 * p.counted.length + 3 * p.channel.length + p.engaged + (p.workers.filterMap Worker.job?).length

theorem length_filterMap_set {ws : List (Worker α)} {w : Nat} {old : Worker α} (new : Worker α)
    (h : ws[w]? = some old) :
    ((ws.set w new).filterMap Worker.job?).length + old.job?.toList.length =
      (ws.filterMap Worker.job?).length + new.job?.toList.length := by
  obtain ⟨rest, before, after⟩ := perm_filterMap_set h new
  have before := before.length_eq
  have after := after.length_eq
  simp only [List.length_append] at before after
  omega

theorem todo_send {p : WorkerPool α} {i : Nat} {job : α} (counted : p.counted[i]? = some job) :
    (p.send i).todo + 1 = p.todo := by
  have inside := (List.getElem?_eq_some_iff.1 counted).1
  simp only [todo, send, counted, engaged, List.length_append, List.length_singleton,
    List.length_eraseIdx_of_lt inside]
  omega

theorem todo_receive {p : WorkerPool α} {w : Nat} {job : α} {rest : List α}
    (idle : p.workers[w]? = some .idle) (next : p.channel = job :: rest) :
    (p.receive w).todo + 1 = p.todo := by
  have engaged := countP_set (.running job) idle
  have running := length_filterMap_set (.running job) idle
  simp only [Worker.isEngaged, Worker.job?, Bool.false_eq_true, if_false, if_true, Option.toList_none,
    Option.toList_some, List.length_nil, List.length_singleton] at engaged running
  simp only [todo, receive, idle, next, WorkerPool.engaged, setWorker, List.length_cons]
  omega

theorem todo_finish {p : WorkerPool α} {w : Nat} {job : α} (running : p.workers[w]? = some (.running job)) :
    (p.finish w).todo + 1 = p.todo := by
  have engaged := countP_set .ended running
  have fewer := length_filterMap_set .ended running
  simp only [Worker.isEngaged, Worker.job?, if_true, Option.toList_none, Option.toList_some,
    List.length_nil, List.length_singleton] at engaged fewer
  simp only [todo, finish, running, WorkerPool.engaged, setWorker]
  omega

theorem todo_done {p : WorkerPool α} {w : Nat} (ended : p.workers[w]? = some .ended) :
    (p.done w).todo + 1 = p.todo := by
  have engaged := countP_set .idle ended
  have same := length_filterMap_set .idle ended
  simp only [Worker.isEngaged, Worker.job?, Bool.false_eq_true, if_false, if_true] at engaged same
  simp only [todo, done, ended, WorkerPool.engaged, setWorker]
  omega

end WorkerPool

namespace WaitedPool

variable {s : WaitedPool α}

/-- While something is counted, a caller or a worker can get ahead with it. -/
theorem exists_ahead (accounted : s.pool.Accounted) (staffed : s.pool.workers ≠ [])
    (busy : s.pool.isIdle = false) :
    ∃ m : PoolMove α, m.counted? = none ∧ (s.move m).pool.todo + 1 = s.pool.todo := by
  by_cases engaged : 0 < s.pool.engaged
  · obtain ⟨v, hv, mine⟩ := List.countP_pos_iff.1 engaged
    obtain ⟨w, there⟩ := List.mem_iff_getElem?.1 hv
    cases v with
    | idle => cases mine
    | running job => exact ⟨.finish w false, rfl, WorkerPool.todo_finish there⟩
    | ended => exact ⟨.done w, rfl, WorkerPool.todo_done there⟩
  · by_cases unsent : s.pool.counted = []
    · -- nobody is engaged and nothing is to be sent, so what is counted is in the channel
      have sent : s.pool.channel ≠ [] := by
        intro empty
        simp only [WorkerPool.Accounted, unsent, empty, List.length_nil] at accounted
        simp only [WorkerPool.isIdle, beq_eq_false_iff_ne] at busy
        omega
      obtain ⟨job, rest, next⟩ := List.exists_cons_of_ne_nil sent
      obtain ⟨v, others, workers⟩ := List.exists_cons_of_ne_nil staffed
      have first : s.pool.workers[0]? = some v := by rw [workers]; rfl
      have idle : v = .idle := by
        cases v with
        | idle => rfl
        | running job | ended =>
          exact absurd (List.countP_pos_iff.2 ⟨_, List.mem_of_getElem? first, rfl⟩) engaged
      rw [idle] at first
      exact ⟨.receive 0, rfl, WorkerPool.todo_receive first next⟩
    · obtain ⟨job, rest, counted⟩ := List.exists_cons_of_ne_nil unsent
      have first : s.pool.counted[0]? = some job := by rw [counted]; rfl
      exact ⟨.send 0, rfl, WorkerPool.todo_send first⟩

/-- No move changes the number of workers. -/
theorem threads_move (s : WaitedPool α) (m : PoolMove α) : (s.move m).pool.threads = s.pool.threads := by
  have done := s.move_cases m
  generalize s.news m = events, (s.move m).pool = p at done ⊢
  cases done with
  | send counted => simp [WorkerPool.threads, WorkerPool.send, counted]
  | receive idle next => simp [WorkerPool.threads, WorkerPool.receive, idle, next, WorkerPool.setWorker]
  | finish running => simp [WorkerPool.threads, WorkerPool.finish, running, WorkerPool.setWorker]
  | done ended => simp [WorkerPool.threads, WorkerPool.done, ended, WorkerPool.setWorker]
  | _ => rfl

theorem threads_play (s : WaitedPool α) (moves : List (PoolMove α)) :
    (s.play moves).pool.threads = s.pool.threads := by
  induction moves generalizing s with
  | nil => rfl
  | cons m moves ih => exact (ih (s.move m)).trans (s.threads_move m)

/-- The jobs counted are those that the moves bring. -/
theorem counted_chronicle (s : WaitedPool α) (moves : List (PoolMove α)) :
    (s.chronicle moves).filterMap PoolEvent.counted? = moves.filterMap PoolMove.counted? := by
  have brought (s : WaitedPool α) (m : PoolMove α) :
      (s.news m).filterMap PoolEvent.counted? = m.counted?.toList := by
    have done := s.move_cases m
    generalize s.news m = events, (s.move m).pool = p at done
    cases done with
    | impossible nothing => rw [nothing]; rfl
    | _ => rfl
  induction moves generalizing s with
  | nil => rfl
  | cons m moves ih =>
    rw [chronicle, List.filterMap_append, brought, ih, List.filterMap_cons]
    cases m.counted? <;> rfl

theorem recorded_play (threads : Nat) (moves : List (PoolMove α)) :
    ((ofThreads threads).play moves).pool.Recorded ((ofThreads threads).chronicle moves) := by
  have begun : (ofThreads threads : WaitedPool α).pool.Recorded [] := WorkerPool.recorded_ofThreads threads
  exact keeps_play WorkerPool.Recorded.move begun moves

theorem serial_play {threads : Nat} (single : threads ≤ 1) (moves : List (PoolMove α)) :
    ((ofThreads threads).play moves).pool.Serial ((ofThreads threads).chronicle moves) := by
  have one : max threads 1 = 1 := Nat.max_eq_right single
  have begun : (ofThreads threads : WaitedPool α).pool.Serial [] :=
    ⟨.idle, by simp [ofThreads, WorkerPool.ofThreads, one], rfl⟩
  exact keeps_play WorkerPool.Serial.move begun moves

theorem threads_pos (threads : Nat) (moves : List (PoolMove α)) :
    0 < ((ofThreads threads).play moves).pool.threads := by
  rw [threads_play]
  show 0 < (List.replicate (max threads 1) (Worker.idle : Worker α)).length
  rw [List.length_replicate]
  exact Nat.lt_of_lt_of_le Nat.one_pos (Nat.le_max_right ..)

/-- Without new jobs a pool can come to rest. -/
theorem exists_rest {log : List (PoolEvent α)} (h : s.pool.Recorded log) (staffed : 0 < s.pool.threads) :
    ∃ more : List (PoolMove α), more.filterMap PoolMove.counted? = [] ∧
      (s.play more).pool.isIdle = true := by
  induction left : s.pool.todo using Nat.strongRecOn generalizing s log with
  | ind n ih =>
    by_cases idle : s.pool.isIdle = true
    · exact ⟨[], rfl, idle⟩
    · rw [Bool.not_eq_true] at idle
      obtain ⟨m, old, ahead⟩ := exists_ahead h.accounted (List.ne_nil_of_length_pos staffed) idle
      have staffed' : 0 < (s.move m).pool.threads := by rwa [threads_move]
      obtain ⟨more, none, rest⟩ := ih _ (by omega) (h.move m) staffed' rfl
      refine ⟨m :: more, ?_, rest⟩
      rw [List.filterMap_cons_none old, none]

end WaitedPool

/-- A worker pool runs every job once. However many workers and callers there are, in whatever order they move,
and whichever jobs crash, at every time:
* what is counted are the jobs counted and not yet counted off, so counting off never stops at zero;
* every job counted waits to be started or has been started, as often as it was counted, and is still to be
  carried out or over. Without new jobs the pool can come to rest, and then every job is over;
* a caller who begins to wait now can return only when every job sent before is over;
* the jobs are started in the order in which they are sent, and with a single worker they are over in that order
  too, the one that runs being next. -/
theorem every_job_runs_once (threads : Nat) (moves : List (PoolMove α)) :
    let begun : WaitedPool α := .ofThreads threads
    let now := begun.play moves
    let log := begun.chronicle moves
    let jobs (kind : PoolEvent α → Option α) := log.filterMap kind
    (now.pool.pending + log.countP PoolEvent.isCountedOff = (jobs PoolEvent.counted?).length ∧
      ∀ w, now.pool.workers[w]? = some .ended →
        (now.pool.done w).pending + 1 = now.pool.pending) ∧
    ((jobs PoolEvent.counted?).Perm
        (now.pool.counted ++ now.pool.channel ++ jobs PoolEvent.started?) ∧
      (jobs PoolEvent.counted?).Perm (now.pool.jobs ++ jobs PoolEvent.ended?) ∧
      ∃ more : List (PoolMove α), more.filterMap PoolMove.counted? = [] ∧
        (now.play more).pool.isIdle = true ∧
        (jobs PoolEvent.counted?).Perm
          ((begun.chronicle (moves ++ more)).filterMap PoolEvent.ended?)) ∧
    (∀ caller between,
      (begun.play (moves ++ .wait caller :: between)).news (.look caller) = [.returns caller] →
      (jobs PoolEvent.sent?).Subperm
        ((begun.chronicle (moves ++ .wait caller :: between)).filterMap PoolEvent.ended?)) ∧
    (jobs PoolEvent.sent? = jobs PoolEvent.started? ++ now.pool.channel ∧
      (threads ≤ 1 → ∃ worker, now.pool.workers = [worker] ∧
        jobs PoolEvent.sent? =
          jobs PoolEvent.ended? ++ worker.job?.toList ++ now.pool.channel)) := by
  intro begun now log jobs
  have h : now.pool.Recorded log := WaitedPool.recorded_play threads moves
  refine ⟨⟨h.tallied, ?_⟩, ⟨h.perm_started, h.perm_jobs, ?_⟩, ?_, h.ordered, ?_⟩
  · intro w ended
    have counts := h.accounted.pending_pos ended
    simp only [WorkerPool.done, ended]
    omega
  · obtain ⟨more, none, rest⟩ := WaitedPool.exists_rest h (WaitedPool.threads_pos threads moves)
    refine ⟨more, none, rest, ?_⟩
    rw [← WaitedPool.play_append] at rest
    have finished := (WaitedPool.recorded_play threads (moves ++ more)).perm_of_idle rest
    rw [WaitedPool.counted_chronicle, List.filterMap_append, none, List.append_nil,
      ← WaitedPool.counted_chronicle begun] at finished
    exact finished
  · intro caller between returns
    have finished := (WaitedPool.recorded_play threads (moves ++ .wait caller :: between)).subperm_of_idle
      (WaitedPool.isIdle_of_returns returns)
    have before : (jobs PoolEvent.sent?).Sublist
        ((begun.chronicle (moves ++ .wait caller :: between)).filterMap PoolEvent.sent?) := by
      rw [WaitedPool.chronicle_append, List.filterMap_append]
      exact List.sublist_append_left ..
    exact before.subperm.trans finished
  · intro single
    obtain ⟨worker, alone, started⟩ := WaitedPool.serial_play single moves
    refine ⟨worker, alone, ?_⟩
    rw [← started]
    exact h.ordered

/-- Two callers whose calls cross, a job that crashes on the single worker, and a caller who waits. -/
def PoolMove.crossing : List (PoolMove Nat) :=
  [.count 7, .count 8, .send 1, .send 0, .receive 0, .finish 0 true]

/-- The job 8 was sent first and is over, by a crash, and 7 is next. The caller who begins to wait now can return
only when 7 is over too. -/
theorem every_job_runs_once_crossing :
    let begun : WaitedPool Nat := .ofThreads 0
    let now := begun.play PoolMove.crossing
    let log := begun.chronicle PoolMove.crossing
    let between := [.look 5, .done 0, .receive 0, .finish 0 false, .done 0]
    let later := PoolMove.crossing ++ .wait 5 :: between
    log.filterMap PoolEvent.sent? = [8, 7] ∧ log.filterMap PoolEvent.ended? = [8] ∧
      now.pool.channel = [7] ∧ now.pool.pending = 2 ∧ (now.pool.done 0).pending + 1 = 2 ∧
      (∃ worker, now.pool.workers = [worker] ∧ [8, 7] = [8] ++ worker.job?.toList ++ [7]) ∧
      (begun.play later).news (.look 5) = [.returns 5] ∧
      [8, 7].Subperm ((begun.chronicle later).filterMap PoolEvent.ended?) := by
  obtain ⟨⟨-, counts⟩, -, waits, -, serial⟩ := every_job_runs_once 0 PoolMove.crossing
  refine ⟨rfl, rfl, rfl, rfl, counts 0 rfl, serial (by decide), rfl, ?_⟩
  exact waits 5 [.look 5, .done 0, .receive 0, .finish 0 false, .done 0] rfl

end Highlight
