/-!
# Worker pools

A fixed number of workers take jobs from one channel in the order in which they were sent. A caller first
counts a job and then sends it; a worker receives a job, runs it to its end, whether good or bad, and then
counts it off. The pool is idle when nothing is counted.
-/

namespace Highlight

/-- What a worker is doing. -/
inductive Worker (α : Type) where
  | idle
  | running (job : α)
  /-- The job is over but still counted. -/
  | ended
  deriving DecidableEq, Repr, Inhabited

/-- Workers and the jobs on their way to them. -/
structure WorkerPool (α : Type) where
  /-- The number of jobs counted and not counted off. -/
  pending : Nat := 0
  /-- The jobs counted and not yet sent. -/
  counted : List α := []
  /-- The jobs sent and not yet received, the oldest first. -/
  channel : List α := []
  workers : List (Worker α)
  deriving DecidableEq, Repr, Inhabited

namespace WorkerPool

variable {α : Type}

/-- A pool of so many workers, but at least one. -/
def ofThreads (threads : Nat) : WorkerPool α :=
  { workers := List.replicate (max threads 1) .idle }

/-- The number of workers. -/
def threads (p : WorkerPool α) : Nat := p.workers.length

/-- Nothing is counted. -/
def isIdle (p : WorkerPool α) : Bool := p.pending == 0

/-! ## Steps -/

/-- A caller counts a job. -/
def count (p : WorkerPool α) (job : α) : WorkerPool α :=
  { p with pending := p.pending + 1, counted := p.counted ++ [job] }

/-- The `i`-th of the counted jobs is sent. -/
def send (p : WorkerPool α) (i : Nat) : WorkerPool α :=
  match p.counted[i]? with
  | none => p
  | some job => { p with counted := p.counted.eraseIdx i, channel := p.channel ++ [job] }

/-- Count a job and send it. -/
def execute (p : WorkerPool α) (job : α) : WorkerPool α := (p.count job).send p.counted.length

/-- The pool after worker `w` has changed. -/
def setWorker (p : WorkerPool α) (w : Nat) (worker : Worker α) : WorkerPool α :=
  { p with workers := p.workers.set w worker }

/-- An idle worker takes the oldest job. -/
def receive (p : WorkerPool α) (w : Nat) : WorkerPool α :=
  match p.workers[w]?, p.channel with
  | some .idle, job :: rest => { p.setWorker w (.running job) with channel := rest }
  | _, _ => p

/-- The job of a worker is over. -/
def finish (p : WorkerPool α) (w : Nat) : WorkerPool α :=
  match p.workers[w]? with
  | some (.running _) => p.setWorker w .ended
  | _ => p

/-- A worker counts off the job that is over. The count stops at zero. -/
def done (p : WorkerPool α) (w : Nat) : WorkerPool α :=
  match p.workers[w]? with
  | some .ended => { p.setWorker w .idle with pending := p.pending - 1 }
  | _ => p

end WorkerPool

end Highlight
