import Mathlib

/-!
# The instance stop queue

`Queue` of package `instancestop`. As in the check queue, times are nanoseconds since Go's zero time,
every reading of the clock is an input, and what runs under the lock is one function. What
`ProcessBatch` returns is an input of the worker that calls it.
-/

namespace Dogx.InstanceStop

/-- `Config`, as `NewQueue` accepts it. -/
structure Config where
  capacity : ℕ
  concurrency : ℕ
  runTimeout : ℤ
  maxBatches : ℕ
  capacity_pos : 0 < capacity
  concurrency_pos : 0 < concurrency
  runTimeout_pos : 0 < runTimeout
  maxBatches_pos : 0 < maxBatches

/-- Where a worker stands; `batches` counts the calls of `ProcessBatch` in its turn. -/
inductive Worker where
  | ready
  /-- In `process`, before a batch. -/
  | turning (id : ℤ) (batches : ℕ) (limit : ℤ)
  | calling (id : ℤ) (batches : ℕ) (limit : ℤ)
  /-- Before `complete`. -/
  | completing (id : ℤ) (more : Bool)
  | exited
  deriving DecidableEq

/-- `canceled` says that `runCtx` has ended. -/
structure Queue where
  started : Bool
  stopping : Bool
  draining : Bool
  completed : Bool
  canceled : Bool
  fullLogged : Bool
  entries : List ℤ
  pending : List ℤ
  workers : ℕ → Worker

inductive QueueMove where
  | start
  | hint (id : ℤ)
  | stop
  | drain
  | expire
  | take (now : ℤ) (i : ℕ)
  /-- Worker `i` begins a batch, unless the context of its turn has ended. -/
  | batch (i : ℕ) (ended : Bool)
  /-- `ProcessBatch` returns to worker `i`: an error, or whether there is more. -/
  | processed (now : ℤ) (i : ℕ) (more : Option Bool)
  | complete (i : ℕ)
  | finish

namespace Queue

def init : Queue :=
  { started := false, stopping := false, draining := false, completed := false, canceled := false,
    fullLogged := false, entries := [], pending := [], workers := fun _ => .ready }

/-- `Hint`, with its answer. -/
def hint (q : Queue) (cfg : Config) (id : ℤ) : Bool × Queue :=
  if id ≤ 0 || !q.started || q.stopping then (false, q)
  else if id ∈ q.entries then (true, q)
  else if q.entries.length = cfg.capacity then (false, { q with fullLogged := true })
  else (true, { q with entries := q.entries ++ [id], pending := q.pending ++ [id] })

def start (q : Queue) : Option Queue :=
  if q.started || q.stopping then none else some { q with started := true }

def stop (q : Queue) : Queue :=
  if q.stopping then q
  else if q.started then { q with stopping := true }
  else { q with stopping := true, completed := true, canceled := true }

def drain (q : Queue) : Queue :=
  let q := q.stop
  if q.completed then q else { q with draining := true }

def setWorker (q : Queue) (i : ℕ) (w : Worker) : Queue :=
  { q with workers := Function.update q.workers i w }

/-- `take` by worker `i`, up to the start of its turn; `none` where it waits. -/
def take (q : Queue) (cfg : Config) (now : ℤ) (i : ℕ) : Option Queue :=
  if q.canceled || (q.stopping && q.entries.isEmpty) then some (q.setWorker i .exited)
  else
    match q.pending with
    | id :: pending => some ({ q with pending }.setWorker i (.turning id 0 (now + cfg.runTimeout)))
    | [] => none

def complete (q : Queue) (id : ℤ) (more : Bool) : Queue :=
  if more && !q.canceled then { q with pending := q.pending ++ [id] }
  else { q with entries := q.entries.erase id, fullLogged := false }

/-- `finish`, once every worker has exited. -/
def finish (q : Queue) (cfg : Config) : Option Queue :=
  if q.started && !q.completed && (List.range cfg.concurrency).all (q.workers · = .exited) then
    some { q with pending := [], entries := [], canceled := true, completed := true }
  else none

def step (cfg : Config) (q : Queue) : QueueMove → Option Queue
  | .start => q.start
  | .hint id => some (q.hint cfg id).2
  | .stop => some q.stop
  | .drain => some q.drain
  | .expire => if q.draining then some { q with canceled := true } else none
  | .take now i =>
    if q.started && i < cfg.concurrency && q.workers i = .ready then q.take cfg now i else none
  | .batch i ended =>
    match q.workers i with
    | .turning id batches limit =>
      if ended then some (q.setWorker i (.completing id false))
      else if batches < cfg.maxBatches then some (q.setWorker i (.calling id (batches + 1) limit))
      else some (q.setWorker i (.completing id true))
    | _ => none
  | .processed now i more =>
    match q.workers i, more with
    | .calling id batches limit, some true =>
      some (q.setWorker i (if limit ≤ now then .completing id true else .turning id batches limit))
    | .calling id _ _, _ => some (q.setWorker i (.completing id false))
    | _, _ => none
  | .complete i =>
    match q.workers i with
    | .completing id more => some ((q.complete id more).setWorker i .ready)
    | _ => none
  | .finish => q.finish cfg

end Queue

end Dogx.InstanceStop
