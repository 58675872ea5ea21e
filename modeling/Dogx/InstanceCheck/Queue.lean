import Mathlib

/-!
# The instance check queue

`Queue` of package `instancecheck`. Times are nanoseconds since Go's zero time, which is 0, and every
reading of the clock is an input. What runs under the lock is one function. A call that waits for a
change tries again at any later moment, so the `changed` channel is left out.

What `Check` returns is an input of the worker that calls it.
-/

namespace Dogx.InstanceCheck

def mergeWindow : ℤ := 100000000

/-- `Config`, as `NewQueue` accepts it, without the timeout of a check. -/
structure Config where
  capacity : ℕ
  concurrency : ℕ
  capacity_pos : 0 < capacity
  concurrency_pos : 0 < concurrency

structure CheckEntry where
  id : ℤ
  due : ℤ
  processing : Bool
  nextDue : ℤ
  deriving DecidableEq

inductive Worker where
  /-- In `take`. -/
  | ready
  | checking (id : ℤ)
  | exited
  deriving DecidableEq

/-- `pending` lists entries by their IDs; `canceled` says that `runCtx` has ended. -/
structure Queue where
  started : Bool
  stopping : Bool
  draining : Bool
  completed : Bool
  canceled : Bool
  fullLogged : Bool
  entries : List CheckEntry
  pending : List ℤ
  workers : ℕ → Worker

/-- What a recovery call meets under the lock. -/
inductive WaitResult where
  | failed
  | done (q : Queue)
  /-- No space: the call waits. -/
  | full

inductive QueueMove where
  | start
  | hint (now id : ℤ)
  | stop
  | drain
  | expire
  | take (now : ℤ) (i : ℕ)
  /-- `Check` returns to worker `i`; `terminal` is `OutcomeTerminal` without an error. -/
  | checked (i : ℕ) (terminal : Bool)
  | finish

namespace Queue

def init : Queue :=
  { started := false, stopping := false, draining := false, completed := false, canceled := false,
    fullLogged := false, entries := [], pending := [], workers := fun _ => .ready }

/-- `q.entries[id]`. -/
def entryAt (q : Queue) (id : ℤ) : Option CheckEntry := q.entries.find? (·.id == id)

def update (q : Queue) (id : ℤ) (f : CheckEntry → CheckEntry) : Queue :=
  { q with entries := q.entries.map fun e => if e.id = id then f e else e }

def mergeLocked (q : Queue) (now id : ℤ) : Option Queue :=
  if (q.entryAt id).isSome then
    some (q.update id fun e =>
      if e.processing && e.nextDue == 0 then { e with nextDue := now + mergeWindow } else e)
  else none

def addLocked (q : Queue) (now id : ℤ) : Queue :=
  { q with
    entries := q.entries ++ [{ id, due := now + mergeWindow, processing := false, nextDue := 0 }]
    pending := q.pending ++ [id] }

/-- `Hint`, with its answer. -/
def hint (q : Queue) (cfg : Config) (now id : ℤ) : Bool × Queue :=
  if id ≤ 0 || !q.started || q.stopping then (false, q)
  else
    match q.mergeLocked now id with
    | some q => (true, q)
    | none =>
      if q.entries.length = cfg.capacity then (false, { q with fullLogged := true })
      else (true, q.addLocked now id)

/-- `waitRecovery`: one turn of its loop; `expired` says that the context of the call has ended. -/
def waitRecovery (q : Queue) (cfg : Config) (now : ℤ) (expired : Bool) (id : ℤ) : WaitResult :=
  if expired then .failed
  else if !q.started || q.stopping || q.canceled then .failed
  else
    match if 0 < id then q.mergeLocked now id else none with
    | some q => .done q
    | none =>
      if q.entries.length < max 1 (cfg.capacity / 2) then
        .done (if 0 < id then q.addLocked now id else q)
      else .full

def waitRecoveryCapacity (q : Queue) (cfg : Config) (now : ℤ) (expired : Bool) : WaitResult :=
  q.waitRecovery cfg now expired 0

def hintRecovery (q : Queue) (cfg : Config) (now : ℤ) (expired : Bool) (id : ℤ) : WaitResult :=
  if id ≤ 0 then .failed else q.waitRecovery cfg now expired id

def start (q : Queue) : Option Queue :=
  if q.started || q.stopping then none else some { q with started := true }

def stop (q : Queue) : Queue :=
  if q.stopping then q
  else if q.started then { q with stopping := true }
  else { q with stopping := true, completed := true, canceled := true }

def drain (q : Queue) : Queue :=
  let q := q.stop
  if q.completed then q else { q with draining := true }

def due (q : Queue) (now id : ℤ) : Bool := (q.entryAt id).any fun e => e.due ≤ now

/-- `take` by worker `i`; `none` where it waits. -/
def take (q : Queue) (now : ℤ) (i : ℕ) : Option Queue :=
  if q.canceled || (q.stopping && q.entries.isEmpty) then
    some { q with workers := Function.update q.workers i .exited }
  else
    match q.pending.find? (q.due now) with
    | some id =>
      some { q.update id fun e => { e with processing := true } with
        pending := q.pending.erase id
        workers := Function.update q.workers i (.checking id) }
    | none => none

def complete (q : Queue) (id : ℤ) (terminal : Bool) : Queue :=
  if !terminal && (q.entryAt id).any (·.nextDue != 0) && !q.canceled then
    { q.update id fun e => { e with processing := false, due := e.nextDue, nextDue := 0 } with
      pending := q.pending ++ [id] }
  else { q with entries := q.entries.filter (·.id ≠ id), fullLogged := false }

/-- `finish`, once every worker has exited. -/
def finish (q : Queue) (cfg : Config) : Option Queue :=
  if q.started && !q.completed && (List.range cfg.concurrency).all (q.workers · = .exited) then
    some { q with pending := [], entries := [], canceled := true, completed := true }
  else none

def step (cfg : Config) (q : Queue) : QueueMove → Option Queue
  | .start => q.start
  | .hint now id => some (q.hint cfg now id).2
  | .stop => some q.stop
  | .drain => some q.drain
  | .expire => if q.draining then some { q with canceled := true } else none
  | .take now i =>
    if q.started && i < cfg.concurrency && q.workers i = .ready then q.take now i else none
  | .checked i terminal =>
    match q.workers i with
    | .checking id =>
      some { q.complete id terminal with workers := Function.update q.workers i .ready }
    | _ => none
  | .finish => q.finish cfg

end Queue

end Dogx.InstanceCheck
