import Highlight.Reactor.Job
import Highlight.WorkerPool

/-!
# The selection reactor

The reactor of an editor view gives every selection of text a ticket and a job, and the workers of its pool
carry the jobs out, step by step.
-/

namespace Highlight

/-- A job and how far it has come. -/
structure Task where
  job : Job
  phase : Phase := .start

/-- A reactor: what its jobs share, and the workers that carry them out. -/
structure Reactor where
  shared : Shared
  pool : WorkerPool Task

namespace Reactor

/-- A reactor of a view. -/
def start (editor : Editor) (settings : Settings) (pipeline : Pipeline) : Reactor :=
  let pool := WorkerPool.ofThreads settings.workerThreads
  let shared : Shared :=
    { settings, pipeline, editor
      synchronizer := { discardSuperseded := settings.discardSuperseded } }
  ⟨shared.noteAll [.started editor.view pool.threads], pool⟩

/-- A selection has changed in some view. Text selected in the reactor's own view gets a job; the result
has its ticket. -/
def select (r : Reactor) (view : ViewId) (selection : Selection) : Option Ticket × Reactor :=
  if !r.shared.settings.enabled then (none, r)
  else if view ≠ r.shared.editor.view then
    (none, { r with shared := r.shared.noteAll [.foreignView view] })
  else
    match selection with
    | .other => (none, r)
    | .text offset length =>
      let (ticket, synchronizer) := r.shared.synchronizer.nextTicket
      let shared := { r.shared with synchronizer }.register ticket
      (some ticket,
        { shared := shared.noteAll [.scheduled ticket offset]
          pool := r.pool.execute { job := { ticket, offset, length } } })

/-- The reactor after the job that worker `w` runs has made a step. A crash is caught and reported, but
leaves the job in flight. -/
def conclude (r : Reactor) (w : Nat) (job : Job) : Shared × Progress → Reactor
  | (shared, .goOn phase) => { shared, pool := r.pool.setWorker w (.running { job, phase }) }
  | (shared, .ended) => { shared, pool := r.pool.finish w }
  | (shared, .crashed) => { shared := shared.noteAll [.jobCrashed w], pool := r.pool.finish w }

/-- One step of the job that worker `w` runs. -/
def advance (r : Reactor) (w : Nat) (task : Task) : Reactor :=
  r.conclude w task.job (task.job.step r.shared task.phase)

/-- One step of worker `w`: take a job, advance it, or count it off. -/
def step (r : Reactor) (w : Nat) : Reactor :=
  match r.pool.workers[w]? with
  | none => r
  | some .idle => { r with pool := r.pool.receive w }
  | some (.running task) => r.advance w task
  | some .ended => { r with pool := r.pool.done w }

end Reactor

end Highlight
