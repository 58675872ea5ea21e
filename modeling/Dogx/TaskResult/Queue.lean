import Dogx.Machine.Run

/-!
# The task result queue

Bounded, volatile retention of reports in the scheduler. `Accept` admits a report or refuses it; save
workers take reports in the order of their due times. `Drain` closes admission and waits for the
workers; the context of the first call bounds the shutdown.

Every function is one critical section or the code between two of them. `saved` lists the reports whose
successful save its worker has recorded, `succeeded` those for which a call of `Save` returned nil, both
by the sequence number of the admission.
-/

namespace Dogx.TaskResult

/-! ## Configuration -/

structure QueueConfig where
  capacity : Int := 0
  concurrency : Int := 0

/-- The settings of a queue, all of them positive. -/
structure Config where
  capacity : ℕ
  concurrency : ℕ
  capacity_pos : 0 < capacity
  concurrency_pos : 0 < concurrency

def defaultQueueCapacity : ℕ := 512

def defaultSaveConcurrency : ℕ := 8

/-- The settings that `NewQueue` keeps. -/
def QueueConfig.defaults (c : QueueConfig) : Except String Config :=
  if h : c.capacity < 0 ∨ c.concurrency < 0 then
    .error "task result queue settings must not be negative"
  else
    .ok
      { capacity := if c.capacity = 0 then defaultQueueCapacity else c.capacity.toNat
        concurrency := if c.concurrency = 0 then defaultSaveConcurrency else c.concurrency.toNat
        capacity_pos := by unfold defaultQueueCapacity; split <;> omega
        concurrency_pos := by unfold defaultSaveConcurrency; split <;> omega }

/-! ## State -/

structure RetainedResult (ρ : Type) where
  report : ρ
  due : ℕ
  sequence : ℕ
  failures : ℕ
  deriving DecidableEq

/-- A save worker between two of its critical sections. -/
inductive Worker (ρ : Type) where
  | absent
  | ready
  | took (entry : RetainedResult ρ)
  /-- `bounded` if a shutdown context was found. -/
  | bounding (entry : RetainedResult ρ) (bounded : Bool)
  | saving (entry : RetainedResult ρ)
  | settling (entry : RetainedResult ρ) (ok : Bool)
  | exited
  deriving DecidableEq

inductive CtxError where
  | canceled | deadlineExceeded
  deriving DecidableEq, Repr

inductive DrainError where
  | context (e : CtxError)
  /-- "task result workers exited with unsaved reports" -/
  | unsaved
  deriving DecidableEq, Repr

/-- A call of `Drain`; `first` if its context bounds the shutdown. -/
inductive DrainCall where
  | idle
  | stopped
  | waiting (first : Bool)
  | blocked (first : Bool)
  | finishing
  | returned (err : Option DrainError)
  deriving DecidableEq

structure Queue (ρ : Type) where
  started : Bool
  stopping : Bool
  completed : Bool
  canceled : Bool
  retained : ℕ
  sequence : ℕ
  pending : List (RetainedResult ρ)
  /-- The call of `Drain` whose context is `drainCtx`. -/
  drainCtx : Option ℕ
  drainErr : Option DrainError
  workers : ℕ → Worker ρ
  calls : ℕ → DrainCall
  /-- The contexts of the calls of `Drain`. -/
  ended : ℕ → Option CtxError
  /-- The first half of `finish` is done. -/
  finished : Bool
  saved : List ℕ
  succeeded : List ℕ

namespace Queue

variable {ρ : Type}

def init : Queue ρ :=
  { started := false, stopping := false, completed := false, canceled := false
    retained := 0, sequence := 0, pending := [], drainCtx := none, drainErr := none
    workers := fun _ => .absent, calls := fun _ => .idle, ended := fun _ => none
    finished := false, saved := [], succeeded := [] }

def setWorker (q : Queue ρ) (w : ℕ) (st : Worker ρ) : Queue ρ :=
  { q with workers := Function.update q.workers w st }

def setCall (q : Queue ρ) (c : ℕ) (st : DrainCall) : Queue ρ :=
  { q with calls := Function.update q.calls c st }

/-- `resultHeap.Less`. -/
def less (a b : RetainedResult ρ) : Bool :=
  if a.due = b.due then a.sequence < b.sequence else a.due < b.due

/-- `heap.Push`: the head of the list is the entry at the top of the heap. -/
def push (e : RetainedResult ρ) (l : List (RetainedResult ρ)) : List (RetainedResult ρ) :=
  l.orderedInsert (fun a b => less a b = true) e

/-! ## Admission and lifecycle -/

def launch (cfg : Config) (q : Queue ρ) : Queue ρ :=
  { q with
    started := true
    workers := fun i => if i < cfg.concurrency then .ready else .absent }

def start (cfg : Config) (q : Queue ρ) : Option (Queue ρ) :=
  if q.started || q.stopping then none else some (q.launch cfg)

inductive AcceptError where
  | context | notReady
  deriving DecidableEq, Repr

def enroll (q : Queue ρ) (now : ℕ) (report : ρ) : Queue ρ :=
  { q with
    sequence := q.sequence + 1
    pending := push { report, due := now, sequence := q.sequence + 1, failures := 0 } q.pending
    retained := q.retained + 1 }

def accept (cfg : Config) (expired : Bool) (q : Queue ρ) (now : ℕ) (report : ρ) :
    Except AcceptError Bool × Queue ρ :=
  if expired then (.error .context, q)
  else if !q.started || q.stopping then (.error .notReady, q)
  else if q.retained = cfg.capacity then (.ok false, q)
  else (.ok true, q.enroll now report)

def stop (q : Queue ρ) : Queue ρ :=
  if !q.started && !q.completed then
    { q with stopping := true, completed := true, canceled := true }
  else { q with stopping := true }

/-! ## Draining -/

/-- `Drain` after its call of `Stop`, up to its call of `Wait`. -/
def register (q : Queue ρ) (c : ℕ) : Queue ρ :=
  if q.completed then q.setCall c (.returned q.drainErr)
  else if q.drainCtx.isNone then { q.setCall c (.waiting true) with drainCtx := some c }
  else q.setCall c (.waiting false)

/-- `Wait` has given the error of the caller's context. -/
def giveUp (q : Queue ρ) (c : ℕ) (first : Bool) (e : CtxError) : Queue ρ :=
  { q.setCall c (.returned (some (.context e))) with canceled := q.canceled || first }

/-- A step of a call of `Drain`. -/
def drain (q : Queue ρ) (c : ℕ) : Option (Queue ρ) :=
  match q.calls c with
  | .idle => some (q.stop.setCall c .stopped)
  | .stopped => some (q.register c)
  | .waiting first => some (q.setCall c (if q.completed then .finishing else .blocked first))
  | .blocked _ => if q.completed then some (q.setCall c .finishing) else none
  | .finishing => some (q.setCall c (.returned q.drainErr))
  | .returned _ => none

/-- The select of `Wait` takes the end of the caller's context. -/
def abort (q : Queue ρ) (c : ℕ) : Option (Queue ρ) :=
  match q.calls c, q.ended c with
  | .blocked first, some e => some (q.giveUp c first e)
  | _, _ => none

/-! ## Workers -/

/-- The steps of `saveRetryDelay`, by the number of failures. -/
def retryStep (failures : ℕ) : ℕ :=
  1000000000 * ([1, 2, 4, 8, 16, 30].getD (min (failures - 1) 5) 30)

/-- `d` is one of the values of `saveRetryDelay`: between 0.8 and 1.2 of the step. -/
def isRetryDelay (failures d : ℕ) : Bool :=
  8 * retryStep failures ≤ 10 * d && 10 * d ≤ 12 * retryStep failures

inductive SaveOutcome where
  | ok | failed | panicked
  deriving DecidableEq, Repr

/-- `take`; `none` while there is nothing to take. -/
def take (q : Queue ρ) (w now : ℕ) : Option (Queue ρ) :=
  if q.canceled || (q.stopping && q.retained = 0) then some (q.setWorker w .exited)
  else match q.pending with
    | [] => none
    | e :: es => if e.due ≤ now then some ({ q with pending := es }.setWorker w (.took e)) else none

def save (q : Queue ρ) (w : ℕ) (e : RetainedResult ρ) : SaveOutcome → Queue ρ
  | .ok => { q with succeeded := q.succeeded ++ [e.sequence] }.setWorker w (.settling e true)
  | .failed | .panicked => q.setWorker w (.settling e false)

/-- The failures counted after one more; six stand for all later ones. -/
def failuresAfter (failures : ℕ) : ℕ := if failures < 6 then failures + 1 else failures

/-- The critical section at the end of a worker's pass. -/
def settle (q : Queue ρ) (w : ℕ) (e : RetainedResult ρ) (ok : Bool) (finishedAt delay : ℕ) :
    Queue ρ :=
  if ok then
    { q with retained := q.retained - 1, saved := q.saved ++ [e.sequence] }.setWorker w .ready
  else if q.canceled then q.setWorker w .ready
  else
    { q with
      pending := push { e with failures := failuresAfter e.failures, due := finishedAt + delay }
        q.pending }.setWorker w .ready

def allExited (cfg : Config) (q : Queue ρ) : Bool :=
  (List.range cfg.concurrency).all fun i =>
    match q.workers i with
    | .exited => true
    | _ => false

/-- The error that `finish` leaves when reports are still retained. -/
def unfinishedErr (q : Queue ρ) : DrainError :=
  match q.drainCtx.bind q.ended with
  | some e => .context e
  | none => if q.canceled then .context .canceled else .unsaved

/-- The first critical section of `finish`. -/
def finish (q : Queue ρ) : Queue ρ :=
  { q with
    drainErr := if q.retained ≠ 0 then some q.unfinishedErr else q.drainErr
    pending := [], retained := 0, canceled := true, finished := true }

/-! ## Steps -/

end Queue

inductive Move (ρ : Type) where
  | start
  | accept (expired : Bool) (now : ℕ) (report : ρ)
  | stop
  | drain (c : ℕ)
  | abort (c : ℕ)
  | expire (c : ℕ) (e : CtxError)
  /-- The function registered with `context.AfterFunc` runs. -/
  | afterFunc
  | take (w now : ℕ)
  | bound (w : ℕ)
  /-- The call of `Save`, unless its context has ended; `late` if a deadline has passed. -/
  | call (w : ℕ) (late : Bool)
  | save (w : ℕ) (outcome : Queue.SaveOutcome)
  | settle (w finishedAt delay : ℕ)
  | finish
  | complete

namespace Queue

variable {ρ : Type}

def step (cfg : Config) (q : Queue ρ) : Move ρ → Option (Queue ρ)
  | .start => q.start cfg
  | .accept expired now report => some (q.accept cfg expired now report).2
  | .stop => some q.stop
  | .drain c => q.drain c
  | .abort c => q.abort c
  | .expire c e =>
    if (q.ended c).isNone then some { q with ended := Function.update q.ended c (some e) } else none
  | .afterFunc =>
    if (q.drainCtx.bind q.ended).isSome then some { q with canceled := true } else none
  | .take w now =>
    match q.workers w with
    | .ready => q.take w now
    | _ => none
  | .bound w =>
    match q.workers w with
    | .took e => some (q.setWorker w (.bounding e q.drainCtx.isSome))
    | _ => none
  | .call w late =>
    match q.workers w with
    | .bounding e bounded =>
      some (q.setWorker w (if q.canceled || (late && bounded) then .settling e false else .saving e))
    | _ => none
  | .save w outcome =>
    match q.workers w with
    | .saving e => some (q.save w e outcome)
    | _ => none
  | .settle w finishedAt delay =>
    match q.workers w with
    | .settling e ok =>
      if isRetryDelay (failuresAfter e.failures) delay then
        some (q.settle w e ok finishedAt delay)
      else none
    | _ => none
  | .finish => if q.started && q.allExited cfg && !q.finished then some q.finish else none
  | .complete =>
    if q.finished && !q.completed then some { q with completed := true } else none

end Queue

/-- The result queue of a process, from its construction. -/
def resultQueue (ρ : Type) (cfg : Config) : Machine (Queue ρ) (Move ρ) where
  init := .init
  step := Queue.step cfg

end Dogx.TaskResult
