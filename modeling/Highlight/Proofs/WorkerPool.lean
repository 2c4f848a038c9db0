import Mathlib.Data.List.Perm.Basic
import Highlight.WorkerPool

/-!
# The jobs of a worker pool

`WorkerPool.jobs` lists the jobs that a pool has not carried out to their end: those counted but not sent,
those in the channel, and those that a worker runs. For every operation of the pool there is one lemma that
says which jobs it brings in or takes away.

`WorkerPool.Accounted` says that the count of a pool is the number of these jobs and of the workers that
have still to count one off. Every operation keeps it, so a pool that is idle has no jobs left
(`Accounted.jobs_eq_nil`).
-/

namespace Highlight

variable {α : Type}

namespace Worker

/-- The job that a worker runs. -/
def job? : Worker α → Option α
  | .running job => some job
  | _ => none

/-- The worker has a job that is still counted. -/
def isEngaged : Worker α → Bool
  | .idle => false
  | _ => true

end Worker

namespace WorkerPool

/-- The jobs that are not over: counted, sent or running. -/
def jobs (p : WorkerPool α) : List α := p.counted ++ p.channel ++ p.workers.filterMap Worker.job?

/-- The number of workers with a job that is still counted. -/
def engaged (p : WorkerPool α) : Nat := p.workers.countP Worker.isEngaged

/-- What is counted is on its way to a worker or with one. -/
def Accounted (p : WorkerPool α) : Prop :=
  p.pending = p.counted.length + p.channel.length + p.engaged

/-! ## Changing one worker -/

theorem mem_jobs_iff {p : WorkerPool α} {x : α} :
    x ∈ p.jobs ↔ x ∈ p.counted ∨ x ∈ p.channel ∨ .running x ∈ p.workers := by
  have running (v : Worker α) : v.job? = some x ↔ v = .running x := by
    cases v <;> simp [Worker.job?]
  simp [jobs, List.mem_filterMap, running]

theorem mem_set_iff {ws : List (Worker α)} {w : Nat} {old new v : Worker α}
    (h : ws[w]? = some old) :
    v ∈ ws.set w new ↔ v = new ∨ ∃ i, i ≠ w ∧ ws[i]? = some v := by
  have bound : w < ws.length := (List.getElem?_eq_some_iff.1 h).1
  rw [List.mem_iff_getElem?]
  constructor
  · rintro ⟨i, hi⟩
    by_cases e : w = i
    · subst e
      rw [List.getElem?_set_self bound] at hi
      exact Or.inl (Option.some.inj hi).symm
    · rw [List.getElem?_set_ne e] at hi
      exact Or.inr ⟨i, Ne.symm e, hi⟩
  · rintro (rfl | ⟨i, hi, hv⟩)
    · exact ⟨w, List.getElem?_set_self bound⟩
    · exact ⟨i, by rw [List.getElem?_set_ne hi.symm]; exact hv⟩

theorem mem_of_mem_set {ws : List (Worker α)} {w : Nat} {old new v : Worker α}
    (h : ws[w]? = some old) (hv : v ∈ ws.set w new) : v = new ∨ v ∈ ws := by
  rcases (mem_set_iff h).1 hv with rfl | ⟨i, -, hi⟩
  · exact Or.inl rfl
  · exact Or.inr (List.mem_of_getElem? hi)

theorem mem_set_of_mem {ws : List (Worker α)} {w : Nat} {old v : Worker α} (new : Worker α)
    (h : ws[w]? = some old) (hv : v ∈ ws) : v = old ∨ v ∈ ws.set w new := by
  obtain ⟨i, hi⟩ := List.mem_iff_getElem?.1 hv
  by_cases e : i = w
  · subst e
    rw [h] at hi
    exact Or.inl (Option.some.inj hi).symm
  · exact Or.inr ((mem_set_iff h).2 (Or.inr ⟨i, e, hi⟩))

theorem countP_set {ws : List (Worker α)} {w : Nat} {old : Worker α} (new : Worker α)
    (h : ws[w]? = some old) :
    (ws.set w new).countP Worker.isEngaged + (if old.isEngaged then 1 else 0) =
      ws.countP Worker.isEngaged + (if new.isEngaged then 1 else 0) := by
  induction ws generalizing w with
  | nil => simp at h
  | cons v ws ih =>
    cases w with
    | zero =>
      obtain rfl : v = old := by simpa using h
      simp only [List.set_cons_zero, List.countP_cons]
      omega
    | succ w =>
      have := ih (w := w) (by simpa using h)
      simp only [List.set_cons_succ, List.countP_cons]
      omega

/-! ## Bringing jobs in -/

theorem execute_eq (p : WorkerPool α) (job : α) :
    p.execute job =
      { p with pending := p.pending + 1, channel := p.channel ++ [job] } := by
  have last : (p.counted ++ [job])[p.counted.length]? = some job := by simp
  have rest : (p.counted ++ [job]).eraseIdx p.counted.length = p.counted := by
    rw [List.eraseIdx_append_of_length_le (Nat.le_refl _)]
    simp
  simp only [execute, count, send, last, rest]

theorem mem_jobs_execute {p : WorkerPool α} {job x : α} :
    x ∈ (p.execute job).jobs ↔ x ∈ p.jobs ∨ x = job := by
  rw [execute_eq, mem_jobs_iff, mem_jobs_iff]
  simp only [List.mem_append, List.mem_singleton]
  constructor
  · rintro (h | (h | h) | h)
    · exact Or.inl (Or.inl h)
    · exact Or.inl (Or.inr (Or.inl h))
    · exact Or.inr h
    · exact Or.inl (Or.inr (Or.inr h))
  · rintro ((h | h | h) | h)
    · exact Or.inl h
    · exact Or.inr (Or.inl (Or.inl h))
    · exact Or.inr (Or.inr h)
    · exact Or.inr (Or.inl (Or.inr h))

theorem Accounted.execute {p : WorkerPool α} (h : p.Accounted) (job : α) :
    (p.execute job).Accounted := by
  rw [execute_eq]
  simp only [Accounted, engaged, List.length_append, List.length_singleton] at h ⊢
  omega

theorem Accounted.count {p : WorkerPool α} (h : p.Accounted) (job : α) : (p.count job).Accounted := by
  simp only [Accounted, engaged, WorkerPool.count, List.length_append, List.length_singleton] at h ⊢
  omega

theorem Accounted.send {p : WorkerPool α} (h : p.Accounted) (i : Nat) : (p.send i).Accounted := by
  unfold WorkerPool.send
  split
  · exact h
  · rename_i job counted
    have inside := (List.getElem?_eq_some_iff.1 counted).1
    simp only [Accounted, engaged, List.length_append, List.length_singleton,
      List.length_eraseIdx_of_lt inside] at h ⊢
    omega

/-! ## Carrying jobs out -/

theorem mem_jobs_receive {p : WorkerPool α} {w : Nat} {x : α} :
    x ∈ (p.receive w).jobs ↔ x ∈ p.jobs := by
  unfold receive
  split
  · rename_i job rest idle sent
    rw [mem_jobs_iff, mem_jobs_iff, sent]
    simp only [setWorker, List.mem_cons]
    constructor
    · rintro (h | h | h)
      · exact Or.inl h
      · exact Or.inr (Or.inl (Or.inr h))
      · rcases mem_of_mem_set idle h with e | h
        · exact Or.inr (Or.inl (Or.inl (Worker.running.inj e)))
        · exact Or.inr (Or.inr h)
    · rintro (h | (rfl | h) | h)
      · exact Or.inl h
      · exact Or.inr (Or.inr ((mem_set_iff idle).2 (Or.inl rfl)))
      · exact Or.inr (Or.inl h)
      · rcases mem_set_of_mem (.running job) idle h with e | h
        · cases e
        · exact Or.inr (Or.inr h)
  · rfl

theorem Accounted.receive {p : WorkerPool α} (h : p.Accounted) (w : Nat) :
    (p.receive w).Accounted := by
  unfold WorkerPool.receive
  split
  · rename_i job rest idle sent
    have count := countP_set (.running job) idle
    simp only [Accounted, engaged, setWorker, sent, Worker.isEngaged, List.length_cons] at h count ⊢
    simp only [Bool.false_eq_true, if_false, if_true] at count
    omega
  · exact h

theorem mem_jobs_done {p : WorkerPool α} {w : Nat} {x : α} : x ∈ (p.done w).jobs ↔ x ∈ p.jobs := by
  unfold done
  split
  · rename_i ended
    rw [mem_jobs_iff, mem_jobs_iff]
    simp only [setWorker]
    constructor
    · rintro (h | h | h)
      · exact Or.inl h
      · exact Or.inr (Or.inl h)
      · rcases mem_of_mem_set ended h with e | h
        · cases e
        · exact Or.inr (Or.inr h)
    · rintro (h | h | h)
      · exact Or.inl h
      · exact Or.inr (Or.inl h)
      · rcases mem_set_of_mem .idle ended h with e | h
        · cases e
        · exact Or.inr (Or.inr h)
  · rfl

theorem Accounted.done {p : WorkerPool α} (h : p.Accounted) (w : Nat) : (p.done w).Accounted := by
  unfold WorkerPool.done
  split
  · rename_i ended
    have count := countP_set .idle ended
    simp only [Accounted, engaged, setWorker, Worker.isEngaged] at h count ⊢
    simp only [Bool.false_eq_true, if_false, if_true] at count
    omega
  · exact h

/-- A job that is over but still counted keeps the count above zero. -/
theorem Accounted.pending_pos {p : WorkerPool α} (h : p.Accounted) {w : Nat}
    (ended : p.workers[w]? = some .ended) : 0 < p.pending := by
  have engaged : 0 < p.engaged :=
    List.countP_pos_iff.2 ⟨.ended, List.mem_of_getElem? ended, rfl⟩
  simp only [Accounted] at h
  omega

section Running

variable {p : WorkerPool α} {w : Nat} {old new x : α} (h : p.workers[w]? = some (.running old))

include h

theorem mem_jobs_of_running : old ∈ p.jobs :=
  mem_jobs_iff.2 (Or.inr (Or.inr (List.mem_of_getElem? h)))

theorem mem_of_mem_jobs_advance (hx : x ∈ (p.setWorker w (.running new)).jobs) :
    x = new ∨ x ∈ p.jobs := by
  rw [mem_jobs_iff] at hx ⊢
  rcases hx with hx | hx | hx
  · exact Or.inr (Or.inl hx)
  · exact Or.inr (Or.inr (Or.inl hx))
  · rcases mem_of_mem_set h hx with e | hx
    · exact Or.inl (Worker.running.inj e)
    · exact Or.inr (Or.inr (Or.inr hx))

theorem Accounted.advance (ha : p.Accounted) (new : α) :
    (p.setWorker w (.running new)).Accounted := by
  have count := countP_set (.running new) h
  simp only [Accounted, engaged, setWorker, Worker.isEngaged] at ha count ⊢
  omega

theorem mem_of_mem_jobs_finish (hx : x ∈ (p.finish w).jobs) : x ∈ p.jobs := by
  simp only [finish, h, setWorker, mem_jobs_iff] at hx ⊢
  rcases hx with hx | hx | hx
  · exact Or.inl hx
  · exact Or.inr (Or.inl hx)
  · rcases mem_of_mem_set h hx with e | hx
    · cases e
    · exact Or.inr (Or.inr hx)

theorem Accounted.finish (ha : p.Accounted) : (p.finish w).Accounted := by
  have count := countP_set .ended h
  simp only [WorkerPool.finish, h, Accounted, engaged, setWorker, Worker.isEngaged] at ha count ⊢
  omega

end Running

/-! ## No job twice

The lists of jobs up to their order, where membership is not enough. -/

theorem perm_jobs_execute (p : WorkerPool α) (job : α) :
    (p.execute job).jobs.Perm (job :: p.jobs) := by
  rw [execute_eq]
  simp only [jobs, List.append_assoc, List.cons_append, List.nil_append]
  rw [← List.append_assoc, ← List.append_assoc]
  exact List.perm_middle

theorem perm_jobs_count (p : WorkerPool α) (job : α) : (p.count job).jobs.Perm (job :: p.jobs) := by
  simp only [jobs, count, List.append_assoc, List.cons_append, List.nil_append]
  exact List.perm_middle

theorem perm_jobs_send (p : WorkerPool α) (i : Nat) : (p.send i).jobs.Perm p.jobs := by
  unfold send
  split
  · exact List.Perm.refl _
  · rename_i job counted
    obtain ⟨inside, rfl⟩ := List.getElem?_eq_some_iff.1 counted
    have moved : (p.counted.eraseIdx i ++ [p.counted[i]]).Perm p.counted :=
      (List.perm_append_singleton _ _).trans (List.getElem_cons_eraseIdx_perm inside)
    have sent : (p.counted.eraseIdx i ++ (p.channel ++ [p.counted[i]])).Perm (p.counted ++ p.channel) := by
      refine (List.perm_append_comm.append_left _).trans ?_
      rw [← List.append_assoc]
      exact moved.append_right _
    exact sent.append_right _

/-- When one worker changes, the others keep their jobs. -/
theorem perm_filterMap_set {ws : List (Worker α)} {w : Nat} {old : Worker α}
    (h : ws[w]? = some old) (new : Worker α) :
    ∃ rest, (ws.filterMap Worker.job?).Perm (old.job?.toList ++ rest) ∧
      ((ws.set w new).filterMap Worker.job?).Perm (new.job?.toList ++ rest) := by
  obtain ⟨bound, here⟩ := List.getElem?_eq_some_iff.1 h
  obtain ⟨left, right, split, -, changed⟩ :
      ∃ left right, ws = left ++ ws[w] :: right ∧ left.length = w ∧
        ws.set w new = left ++ new :: right := List.exists_of_set bound
  have aside (v : Worker α) : ((left ++ v :: right).filterMap Worker.job?).Perm
      (v.job?.toList ++ (left.filterMap Worker.job? ++ right.filterMap Worker.job?)) := by
    rw [List.filterMap_append, List.filterMap_cons]
    cases v.job? with
    | none => exact List.Perm.refl _
    | some job => exact List.perm_middle
  refine ⟨_, ?_, changed ▸ aside new⟩
  rw [split, here]
  exact aside old

theorem perm_jobs_setWorker {p : WorkerPool α} {w : Nat} {old : Worker α}
    (h : p.workers[w]? = some old) (new : Worker α) :
    ∃ rest, p.jobs.Perm (old.job?.toList ++ rest) ∧
      (p.setWorker w new).jobs.Perm (new.job?.toList ++ rest) := by
  obtain ⟨rest, before, after⟩ := perm_filterMap_set h new
  refine ⟨p.counted ++ p.channel ++ rest, ?_, ?_⟩
  · exact (before.append_left _).trans (List.perm_append_comm_assoc ..)
  · exact (after.append_left _).trans (List.perm_append_comm_assoc ..)

theorem perm_jobs_receive (p : WorkerPool α) (w : Nat) : (p.receive w).jobs.Perm p.jobs := by
  unfold receive
  split
  · rename_i job waiting idle sent
    obtain ⟨rest, before, after⟩ := perm_filterMap_set idle (.running job)
    simp only [jobs, sent, setWorker, List.append_assoc]
    refine List.Perm.append_left _ ((after.append_left waiting).trans ?_)
    exact List.perm_middle.trans ((before.symm.append_left waiting).cons job)
  · exact List.Perm.refl _

theorem perm_jobs_done (p : WorkerPool α) (w : Nat) : (p.done w).jobs.Perm p.jobs := by
  unfold done
  split
  · rename_i ended
    obtain ⟨rest, before, after⟩ := perm_jobs_setWorker ended .idle
    exact after.trans before.symm
  · exact List.Perm.refl _

theorem perm_jobs_advance {p : WorkerPool α} {w : Nat} {old : α}
    (h : p.workers[w]? = some (.running old)) (new : α) :
    ∃ rest, p.jobs.Perm (old :: rest) ∧ (p.setWorker w (.running new)).jobs.Perm (new :: rest) :=
  perm_jobs_setWorker h (.running new)

theorem perm_jobs_finish {p : WorkerPool α} {w : Nat} {old : α}
    (h : p.workers[w]? = some (.running old)) :
    ∃ rest, p.jobs.Perm (old :: rest) ∧ (p.finish w).jobs.Perm rest := by
  simp only [finish, h]
  exact perm_jobs_setWorker h .ended

/-! ## The beginning and the end -/

theorem jobs_ofThreads (threads : Nat) : (ofThreads threads : WorkerPool α).jobs = [] := by
  simp [ofThreads, jobs, List.filterMap_replicate, Worker.job?]

theorem accounted_ofThreads (threads : Nat) : (ofThreads threads : WorkerPool α).Accounted := by
  simp [ofThreads, Accounted, engaged, List.countP_replicate, Worker.isEngaged]

/-- An idle pool has no jobs left. -/
theorem Accounted.jobs_eq_nil {p : WorkerPool α} (h : p.Accounted) (idle : p.isIdle = true) :
    p.jobs = [] := by
  have none : p.pending = 0 := by simpa [isIdle] using idle
  simp only [Accounted, engaged] at h
  have counted : p.counted = [] := List.eq_nil_of_length_eq_zero (by omega)
  have channel : p.channel = [] := List.eq_nil_of_length_eq_zero (by omega)
  have free : ∀ v ∈ p.workers, ¬ v.isEngaged = true := List.countP_eq_zero.1 (by omega)
  refine List.eq_nil_iff_forall_not_mem.2 fun x hx => ?_
  rw [mem_jobs_iff, counted, channel] at hx
  rcases hx with hx | hx | hx
  · simp at hx
  · simp at hx
  · exact free _ hx rfl

end WorkerPool

end Highlight
