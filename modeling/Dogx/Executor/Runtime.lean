import Dogx.Executor.Adapter
import Dogx.Machine.Run

/-!
# The runtime

`Runtime` with its queue, its active map, its workers and its reporter, as one machine. A move is a
section of code that no other goroutine can see the inside of: what runs under `mu`, an operation
on a channel, or what a worker does on its own. `Accept` takes two moves, because a worker can
receive from the queue between its send and its insertion; the mutex is held in between.

Activities are shared by reference: `heap` holds them, the queue, the active map and the workers
refer to them. `call`, `invoked`, `returned`, `handed` and `discarded` are the history of an activity:
which call of `Accept` sent it, how often the processor was called for it and came back, its result
was taken by the reporter, and a discard at shutdown was counted for it.
-/

namespace Dogx.Executor

/-! ## State -/

structure Activity where
  call : ℕ
  invocation : Invocation
  cancelled : Bool
  /-- The business context, once there is one: whether it has been cancelled. -/
  ctx : Option Bool
  invoked : ℕ
  returned : ℕ
  handed : ℕ
  discarded : ℕ

def Activity.new (call : ℕ) (inv : Invocation) : Activity :=
  { call, invocation := inv, cancelled := false, ctx := none
    invoked := 0, returned := 0, handed := 0, discarded := 0 }

/-- The mark of a cancellation, and the signal to a context that is there. -/
def Activity.cancel (act : Activity) : Activity :=
  { act with cancelled := true, ctx := act.ctx.map fun _ => true }

inductive Worker where
  | absent
  /-- At the receive of `work`. -/
  | idle
  /-- In `execute`, before its first critical section. -/
  | taken (a : ℕ)
  /-- Started: the activity has its context, the processor is about to be called. -/
  | begun (a : ℕ)
  | running (a : ℕ)
  /-- The processor has returned, the activity is still active. -/
  | returned (a : ℕ) (report : ExecutionResult)
  /-- In the loop of `submit`. -/
  | handing (a : ℕ) (report : ExecutionResult)
  | waiting (a : ℕ) (report : ExecutionResult) (changed : ℕ)
  | exited
  deriving DecidableEq

/-- The goroutine that waits for the workers and then for the reporter. -/
inductive Watch where
  | absent | workers | reporter | finished
  deriving DecidableEq

/-- A call of `Accept`, numbered, and the request it is made for. -/
structure Caller where
  call : ℕ
  req : Option DispatchTaskRequest

inductive Reply where
  | accept (call : ℕ) (accepted : Bool) (err : Option AdmissionError)
  | dispatch (call : ℕ) (req : DispatchTaskRequest)
      (answer : Except Rpc.Status DispatchTaskResponse)
  deriving DecidableEq

structure Runtime where
  heap : ℕ → Option Activity
  next : ℕ
  queue : List ℕ
  closed : Bool
  active : AttemptKey → Option ℕ
  started : Bool
  stopping : Bool
  ctxDone : Bool
  draining : Bool
  done : Bool
  /-- The `Accept` that holds `mu` between its send and its insertion. -/
  admitting : Option (Caller × ℕ)
  workers : ℕ → Worker
  watch : Watch
  reporter : Reporter
  /-- A send on a closed queue or a second close of a channel. -/
  panicked : Bool
  /-- The calls of `Accept` and `DispatchTask` so far, and their answers. -/
  calls : ℕ
  replies : List Reply

namespace Runtime

def init : Runtime :=
  { heap := fun _ => none, next := 0, queue := [], closed := false, active := fun _ => none
    started := false, stopping := false, ctxDone := false, draining := false, done := false
    admitting := none, workers := fun _ => .absent, watch := .absent, reporter := .init
    panicked := false, calls := 0, replies := [] }

def setWorker (s : Runtime) (w : ℕ) (st : Worker) : Runtime :=
  { s with workers := Function.update s.workers w st }

def setActivity (s : Runtime) (a : ℕ) (act : Activity) : Runtime :=
  { s with heap := Function.update s.heap a (some act) }

/-- `delete(r.active, key)`. -/
def forget (s : Runtime) (key : AttemptKey) : Runtime :=
  { s with active := Function.update s.active key none }

/-! ## Lifecycle -/

/-- `Start`, under `mu`; a refused start changes nothing. -/
def start (cfg : Config) (s : Runtime) : Runtime :=
  if s.stopping || s.started then s
  else match s.reporter.start cfg s.ctxDone with
    | none => s
    | some reporter => { s with
        reporter, started := true
        workers := fun i => if i < cfg.limits.concurrency then .idle else .absent
        watch := .workers }

def closeDone (s : Runtime) : Runtime := if s.done then { s with panicked := true } else { s with done := true }

def closeQueue (s : Runtime) : Runtime :=
  if s.closed then { s with panicked := true } else { s with closed := true }

def stop (s : Runtime) : Runtime :=
  if s.stopping then s
  else
    let s := { s with stopping := true }.closeQueue
    if s.started then s else { s with ctxDone := true }.closeDone

/-- The rest of the goroutine started by `Start`, once all workers have exited. -/
def awaitWorkers (cfg : Config) (s : Runtime) : Option Runtime :=
  if s.watch = .workers ∧ (List.range cfg.limits.concurrency).all fun i => s.workers i = .exited
  then some { s with reporter := s.reporter.stop, watch := .reporter }
  else none

def awaitReporter (s : Runtime) : Option Runtime :=
  if s.watch = .reporter ∧ s.reporter.completed then
    some { s with ctxDone := true, watch := .finished }.closeDone
  else none

/-! ## Admission -/

/-- `validateInvocation`, with the text of its error. -/
def validateInvocation (registry : Registry) (inv : Invocation) : Option String :=
  if inv.jobId ≤ 0 ∨ inv.instanceId ≤ 0 ∨ inv.taskId ≤ 0 ∨ inv.attemptNo ≤ 0 then
    some "execution IDs and attempt number must be positive"
  else
    let valid :=
      if inv.stage = .ordinary ∧ !inv.requiredPost then registry.lookup inv.processorName
      else if inv.stage = .prepare ∨ inv.stage = .shard ∨ (inv.stage = .post ∧ inv.requiredPost) then
        match registry.lookupSharding inv.processorName with
        | none => false
        | some post => !inv.requiredPost || post
      else false
    if valid then none else some "execution stage or processor capability is invalid"

/-- `Accept` up to its return, or up to its send. -/
inductive Acceptance where
  | returns (accepted : Bool) (err : Option AdmissionError)
  | sends

def accept (cfg : Config) (s : Runtime) (ctxErr : Option CtxErr) (now : ℕ) (inv : Invocation) :
    Acceptance :=
  if (s.active inv.key).isSome then .returns true none
  else if s.stopping then .returns false (some .stopping)
  else if !s.started then .returns false (some .notReady)
  else match ctxErr with
    | some e => .returns false (some (.context e))
    | none =>
      if ¬ now < inv.deadlineAt then .returns false (some .expired)
      else match validateInvocation cfg.registry inv with
        | some e => .returns false (some (.message e))
        | none =>
          if s.closed || s.queue.length < cfg.limits.queueCapacity then .sends
          else .returns false none

/-- What `Accept` returned, as its caller passes it on. -/
def reply (cfg : Config) (accepted : Bool) (err : Option AdmissionError) (caller : Caller) : Reply :=
  match caller.req with
  | none => .accept caller.call accepted err
  | some req =>
    .dispatch caller.call req (Rpc.unaryServerInterceptor (RPCAdapter.answer cfg accepted err))

/-- `r.queue <- work`. -/
def send (s : Runtime) (caller : Caller) (inv : Invocation) : Runtime :=
  if s.closed then { s with panicked := true }
  else { s with
    heap := Function.update s.heap s.next (some (.new caller.call inv))
    next := s.next + 1
    queue := s.queue ++ [s.next]
    calls := s.calls + 1
    admitting := some (caller, s.next) }

/-- The caller is told, and its call is over. -/
def tell (s : Runtime) (reply : Reply) : Runtime :=
  { s with calls := s.calls + 1, replies := s.replies ++ [reply] }

def enter (cfg : Config) (s : Runtime) (req : Option DispatchTaskRequest) (ctxErr : Option CtxErr)
    (now : ℕ) (inv : Invocation) : Runtime :=
  match s.accept cfg ctxErr now inv with
  | .returns accepted err => s.tell (reply cfg accepted err ⟨s.calls, req⟩)
  | .sends => s.send ⟨s.calls, req⟩ inv

/-- The handler of `DispatchTask`, from its entry. -/
def dispatch (cfg : Config) (s : Runtime) (req : DispatchTaskRequest) (ctxErr : Option CtxErr)
    (now : ℕ) : Runtime :=
  match RPCAdapter.screen cfg req with
  | .error e => s.tell (.dispatch s.calls req (Rpc.unaryServerInterceptor (.error e)))
  | .ok inv => s.enter cfg (some req) ctxErr now inv

/-- The insertion that follows the send, and the return of `Accept`. -/
def insert (cfg : Config) (s : Runtime) : Option Runtime :=
  match s.admitting with
  | none => none
  | some (caller, a) =>
    (s.heap a).map fun act => { s with
      active := Function.update s.active act.invocation.key (some a)
      admitting := none
      replies := s.replies ++ [reply cfg true none caller] }

/-! ## Cancellation -/

inductive CancelError where
  | context (e : CtxErr)
  | invalid
  deriving DecidableEq

/-- The checks of `Cancel`; without an error it goes on and returns nil. -/
def cancelError (ctxErr : Option CtxErr) (instanceId : Int) (reason : CancelReason) :
    Option CancelError :=
  match ctxErr with
  | some e => some (.context e)
  | none =>
    if instanceId ≤ 0 ∨ (reason ≠ .manualStop ∧ reason ≠ .instanceTimeout) then some .invalid
    else none

/-- What `Cancel` does to an activity: all active work of the round, which is under its own key. -/
def cancelIn (s : Runtime) (instanceId : Int) (a : ℕ) (act : Activity) : Activity :=
  if s.active act.invocation.key = some a ∧ act.invocation.instanceId = instanceId then act.cancel
  else act

def cancel (s : Runtime) (instanceId : Int) : Runtime :=
  { s with heap := fun a => (s.heap a).map (s.cancelIn instanceId a) }

/-! ## Workers -/

/-- `invoke`, by how the processor's call ended. -/
def invoke (inv : Invocation) (outcome : ProcessorOutcome) : ExecutionResult :=
  let report : ExecutionResult :=
    { jobId := inv.jobId, instanceId := inv.instanceId, taskId := inv.taskId
      attemptNo := inv.attemptNo, success := false, summary := .empty, data := none
      prepared := false, preparedItems := none }
  match outcome with
  | .panicked => { report with summary := "processor panicked".toUTF8 }
  | .returned items data summary err =>
    let report := if inv.stage = .prepare then { report with prepared := true, preparedItems := items }
      else report
    match err with
    | some text => { report with summary := text, preparedItems := none }
    | none => { report with
        success := true, summary, data := if inv.stage = .prepare then none else data }

/-- The receive of `work`: the next activity, or the end of the worker. -/
def receive (s : Runtime) (w : ℕ) : Option Runtime :=
  match s.queue with
  | a :: queue => some ({ s with queue }.setWorker w (.taken a))
  | [] => if s.closed then some (s.setWorker w .exited) else none

/-- The first critical section of `execute`. -/
def begin (s : Runtime) (w a : ℕ) (now : ℕ) : Option Runtime :=
  (s.heap a).map fun act =>
    if act.cancelled || s.ctxDone || ¬ now < act.invocation.deadlineAt then
      (s.forget act.invocation.key).setWorker w .idle
    else (s.setActivity a { act with ctx := some false }).setWorker w (.begun a)

/-- The processor is called. -/
def call (s : Runtime) (w a : ℕ) : Option Runtime :=
  (s.heap a).map fun act =>
    (s.setActivity a { act with invoked := act.invoked + 1 }).setWorker w (.running a)

/-- The processor has returned, or panicked, and its context is released. -/
def leave (s : Runtime) (w a : ℕ) (outcome : ProcessorOutcome) : Option Runtime :=
  (s.heap a).map fun act =>
    (s.setActivity a { act with ctx := some true, returned := act.returned + 1 }).setWorker w
      (.returned a (invoke act.invocation outcome))

def release (s : Runtime) (w a : ℕ) (report : ExecutionResult) : Option Runtime :=
  (s.heap a).map fun act => (s.forget act.invocation.key).setWorker w (.handing a report)

/-- `reportDiscards.Inc("shutdown")`. -/
def discard (s : Runtime) (w a : ℕ) : Option Runtime :=
  (s.heap a).map fun act =>
    (s.setActivity a { act with discarded := act.discarded + 1 }).setWorker w .idle

/-- One pass of `submit`. -/
def submit (cfg : Config) (s : Runtime) (w a : ℕ) (report : ExecutionResult) (now : ℕ) :
    Option Runtime :=
  match s.reporter.submit cfg s.ctxDone now report with
  | .refused _ => s.discard w a
  | .accepted reporter => (s.heap a).map fun act =>
      ({ s with reporter }.setActivity a { act with handed := act.handed + 1 }).setWorker w .idle
  | .full changed => some (s.setWorker w (.waiting a report changed))

/-! ## The machine -/

inductive Move where
  | start
  | accept (ctxErr : Option CtxErr) (now : ℕ) (inv : Invocation)
  | dispatch (ctxErr : Option CtxErr) (now : ℕ) (req : DispatchTaskRequest)
  | insert
  | cancel (ctxErr : Option CtxErr) (instanceId : Int) (reason : CancelReason)
  | stop
  /-- `Drain` after its call of `Stop`: the shutdown budget is set. -/
  | drain
  | expire
  | receive (w : ℕ)
  | begin (w now : ℕ)
  | call (w : ℕ)
  | leave (w : ℕ) (outcome : ProcessorOutcome)
  | release (w : ℕ)
  | submit (w now : ℕ)
  /-- A waiting `submit` sees a change, or the end of the context. -/
  | wake (w : ℕ)
  | abort (w : ℕ)
  | report (m : Reporter.Move)
  | awaitWorkers
  | awaitReporter

namespace Move

/--
The moves that run under `mu`, from taking it to releasing it or up to the send. A request that the
adapter refuses never gets there.
-/
def locks (cfg : Config) : Move → Bool
  | start | accept .. | cancel .. | stop | drain | begin .. | release .. | awaitReporter => true
  | dispatch _ _ req => (RPCAdapter.screen cfg req).isOk
  | insert | expire | receive .. | call .. | leave .. | submit .. | wake .. | abort .. | report ..
  | awaitWorkers => false

end Move

/-- A move, when `mu` is not in the way. -/
def act (cfg : Config) (s : Runtime) : Move → Option Runtime
  | .start => some (s.start cfg)
  | .accept ctxErr now inv => some (s.enter cfg none ctxErr now inv)
  | .dispatch ctxErr now req => some (s.dispatch cfg req ctxErr now)
  | .insert => s.insert cfg
  | .cancel ctxErr instanceId reason =>
    match cancelError ctxErr instanceId reason with
    | some _ => some s
    | none => some (s.cancel instanceId)
  | .stop => some s.stop
  | .drain => if s.stopping then some { s with draining := true } else none
  | .expire => if s.draining then some { s with ctxDone := true } else none
  | .receive w =>
    match s.workers w with
    | .idle => s.receive w
    | _ => none
  | .begin w now =>
    match s.workers w with
    | .taken a => s.begin w a now
    | _ => none
  | .call w =>
    match s.workers w with
    | .begun a => s.call w a
    | _ => none
  | .leave w outcome =>
    match s.workers w with
    | .running a => s.leave w a outcome
    | _ => none
  | .release w =>
    match s.workers w with
    | .returned a report => s.release w a report
    | _ => none
  | .submit w now =>
    match s.workers w with
    | .handing a report => s.submit cfg w a report now
    | _ => none
  | .wake w =>
    match s.workers w with
    | .waiting a report changed =>
      if s.reporter.changed ≠ changed then some (s.setWorker w (.handing a report)) else none
    | _ => none
  | .abort w =>
    match s.workers w with
    | .waiting a _ _ => if s.ctxDone then s.discard w a else none
    | _ => none
  | .report m => (s.reporter.step cfg s.ctxDone m).map fun reporter => { s with reporter }
  | .awaitWorkers => s.awaitWorkers cfg
  | .awaitReporter => s.awaitReporter

def step (cfg : Config) (s : Runtime) (m : Move) : Option Runtime :=
  if m.locks cfg && s.admitting.isSome then none else s.act cfg m

end Runtime

def runtime (cfg : Config) : Machine Runtime Runtime.Move where
  init := .init
  step := Runtime.step cfg

namespace Demo

/-- A process with one worker of each kind and one ordinary processor. -/
def config : Config where
  limits :=
    { concurrency := 1, queueCapacity := 2, reportCapacity := 1, reportConcurrency := 1
      concurrency_pos := Nat.one_pos, queueCapacity_pos := Nat.two_pos
      reportCapacity_pos := Nat.one_pos, reportConcurrency_pos := Nat.one_pos }
  auth := ⟨"jobs", "00000000000040008000000000000000", by decide +kernel⟩
  executorInstanceId := "00000000-0000-4000-8000-000000000000"
  identity := by decide +kernel
  registry := { ordinary := ["report"], sharding := [] }
  jsonValid := fun _ => true

/-- The first attempt of task `taskId`, of round 7. -/
def invocation (taskId : Int) : Invocation :=
  { jobId := 1, instanceId := 7, taskId, params := "", attemptNo := 1, processorName := "report"
    deadlineAt := 100, requiredPost := false, stage := .ordinary, items := none
    total := 0, succeeded := 0, failed := 0 }

end Demo

end Dogx.Executor
