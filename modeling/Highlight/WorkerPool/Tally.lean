import Highlight.Log
import Highlight.WorkerPool

/-!
# Tallies

A pool whose jobs add numbers to a sum or crash, with its jobs carried out in the order of the channel.
-/

namespace Highlight

/-- A job that adds a number, or crashes. -/
inductive TallyJob where
  | add (n : Int)
  | crash
  deriving DecidableEq, Repr

/-- A pool of such jobs and the numbers added so far, in order. -/
structure Tally where
  pool : WorkerPool TallyJob
  ran : List Int := []
  events : List Event := []
  deriving DecidableEq, Repr

namespace Tally

/-- A tally with so many workers. -/
def ofThreads (threads : Nat) : Tally := { pool := .ofThreads threads }

/-- The sum of the numbers added. -/
def sum (t : Tally) : Int := t.ran.foldl (· + ·) 0

/-- Queue a job. -/
def execute (t : Tally) (job : TallyJob) : Tally := { t with pool := t.pool.execute job }

/-- One step of worker `w`. A crash is caught and reported. -/
def step (t : Tally) (w : Nat) : Tally :=
  match t.pool.workers[w]? with
  | none => t
  | some .idle => { t with pool := t.pool.receive w }
  | some (.running (.add n)) => { t with pool := t.pool.finish w, ran := t.ran ++ [n] }
  | some (.running .crash) =>
    { t with pool := t.pool.finish w, events := t.events ++ [.jobCrashed w] }
  | some .ended => { t with pool := t.pool.done w }

/-- Work until the pool is idle: every job is received, run and counted off. -/
def drain (t : Tally) : Tally := Nat.repeat (step · 0) (3 * t.pool.pending) t

/-- What a caller does with a tally. -/
inductive Command where
  | job (job : TallyJob)
  | wait
  deriving DecidableEq, Repr

/-- Carry out a command; waiting writes down the sum. -/
def run : Tally × List Int → Command → Tally × List Int
  | (t, waits), .job job => (t.execute job, waits)
  | (t, waits), .wait => (t.drain, waits ++ [t.drain.sum])

/-- Carry out some commands and the jobs left in the end. -/
def runAll (threads : Nat) (commands : List Command) : Tally × List Int :=
  let (t, waits) := commands.foldl run (ofThreads threads, [])
  (t.drain, waits)

end Tally

end Highlight
