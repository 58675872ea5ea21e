import Dogx.Executor.Model

/-!
# The reporter

Bounded, volatile retention of results. Business workers hand results over with `submit`; report
workers take them in the order of their due times, call the scheduler and settle the entry under
the reporter's mutex. Every function is one critical section or the code between two of them.

`done` is a channel, closed by `finish`; `changed` counts the channels closed to wake waiters.
`acknowledged`, `discarded` and `unsent` are the history of what became of accepted results, by
the sequence number of the submission.
-/

namespace Dogx.Executor

/-! ## Report messages -/

inductive TaskOutcome where
  | unspecified | success | failure | other
  deriving DecidableEq, Repr

inductive ReportOutput where
  | dataJson (data : Bytes)
  | preparedItems (items : List Bytes)
  deriving DecidableEq

structure ReportTaskResultRequest where
  auth : GroupAuth
  jobId : Int
  instanceId : Int
  taskId : Int
  attemptNo : Int
  executorInstanceId : String
  outcome : TaskOutcome
  summary : Bytes
  output : Option ReportOutput
  deriving DecidableEq

namespace Proto

/-- `protowire.SizeVarint`: seven bits a byte. -/
def sizeVarint (n : ℕ) : ℕ := (9 * (if n = 0 then 0 else Nat.log2 n + 1) + 64) / 64

/-- A field with its tag of one byte and its length. -/
def sizeBytes (n : ℕ) : ℕ := 1 + sizeVarint n + n

/-- A string field; the empty string is left out. -/
def sizeString (n : ℕ) : ℕ := if n = 0 then 0 else sizeBytes n

/-- An `int64` field; zero is left out and negative numbers take the 64-bit complement. -/
def sizeInt (i : Int) : ℕ := if i = 0 then 0 else 1 + sizeVarint (i % 0x10000000000000000).toNat

end Proto

namespace ReportTaskResultRequest

def outputSize : Option ReportOutput → ℕ
  | none => 0
  | some (.dataJson data) => Proto.sizeBytes data.size
  | some (.preparedItems items) => Proto.sizeBytes (items.map fun i => Proto.sizeBytes i.size).sum

/-- `proto.Size`; every field number is below 16. -/
def size (r : ReportTaskResultRequest) : ℕ :=
  Proto.sizeBytes (Proto.sizeString r.auth.groupName.utf8ByteSize +
      Proto.sizeString r.auth.token.utf8ByteSize) +
    Proto.sizeInt r.jobId + Proto.sizeInt r.instanceId + Proto.sizeInt r.taskId +
    Proto.sizeInt r.attemptNo + Proto.sizeString r.executorInstanceId.utf8ByteSize +
    (if r.outcome = .unspecified then 0 else 2) + Proto.sizeString r.summary.size +
    outputSize r.output

end ReportTaskResultRequest

/-! ## Limits and identity -/

structure RuntimeConfig where
  concurrency : Int := 0
  queueCapacity : Int := 0
  reportCapacity : Int := 0
  reportConcurrency : Int := 0

/-- The limits of a process, all of them positive. -/
structure Limits where
  concurrency : ℕ
  queueCapacity : ℕ
  reportCapacity : ℕ
  reportConcurrency : ℕ
  concurrency_pos : 0 < concurrency
  queueCapacity_pos : 0 < queueCapacity
  reportCapacity_pos : 0 < reportCapacity
  reportConcurrency_pos : 0 < reportConcurrency

/-- `RuntimeConfig.defaults`. -/
def RuntimeConfig.defaults (c : RuntimeConfig) : Except String Limits :=
  if h : c.concurrency < 0 ∨ c.queueCapacity < 0 ∨ c.reportCapacity < 0 ∨ c.reportConcurrency < 0 then
    .error "executor runtime limits must not be negative"
  else
    .ok
      { concurrency := if c.concurrency = 0 then 32 else c.concurrency.toNat
        queueCapacity := if c.queueCapacity = 0 then 128 else c.queueCapacity.toNat
        reportCapacity := if c.reportCapacity = 0 then 256 else c.reportCapacity.toNat
        reportConcurrency := if c.reportConcurrency = 0 then 16 else c.reportConcurrency.toNat
        concurrency_pos := by split <;> omega
        queueCapacity_pos := by split <;> omega
        reportCapacity_pos := by split <;> omega
        reportConcurrency_pos := by split <;> omega }

/-- One executor process: its limits, credentials and identity, its processors, and `json.Valid`. -/
structure Config where
  limits : Limits
  auth : Authenticator
  executorInstanceId : String
  identity : validExecutorInstanceID executorInstanceId = true
  registry : Registry
  jsonValid : Bytes → Bool

/-! ## State -/

/-- Why a result is discarded before the scheduler acknowledged it. -/
inductive Discard where
  | invalidOutput | invalidEncoding | messageTooLarge
  | unauthenticated | permissionDenied | invalidRequest | retryExhausted
  deriving DecidableEq, Repr

structure RetainedReport where
  result : ExecutionResult
  due : ℕ
  sequence : ℕ
  attempts : ℕ
  deriving DecidableEq

/-- A report worker between two of its critical sections. -/
inductive ReportWorker where
  | absent
  | taking
  | took (entry : RetainedReport)
  | calling (entry : RetainedReport)
  | settling (entry : RetainedReport) (acknowledged : Bool) (discard : Option Discard)
  | exited
  deriving DecidableEq

structure Reporter where
  started : Bool
  stopping : Bool
  completed : Bool
  retained : ℕ
  sequence : ℕ
  pending : List RetainedReport
  changed : ℕ
  workers : ℕ → ReportWorker
  acknowledged : List ℕ
  discarded : List (ℕ × Discard)
  unsent : ℕ

namespace Reporter

def reportAttemptLimit : ℕ := 7

/-- `math.MaxInt32`. -/
def reportMessageLimit : ℕ := 0x7fffffff

def init : Reporter :=
  { started := false, stopping := false, completed := false, retained := 0, sequence := 0
    pending := [], changed := 0, workers := fun _ => .absent
    acknowledged := [], discarded := [], unsent := 0 }

def notifyLocked (r : Reporter) : Reporter := { r with changed := r.changed + 1 }

def less (a b : RetainedReport) : Bool :=
  if a.due = b.due then a.sequence < b.sequence else a.due < b.due

/-- `heap.Push`: the head of the list is the entry at the top of the heap. -/
def push (e : RetainedReport) : List RetainedReport → List RetainedReport
  | [] => [e]
  | f :: fs => if less f e then f :: push e fs else e :: f :: fs

/-! ## Lifecycle -/

inductive SubmitError where
  | context | notReady | stopping
  deriving DecidableEq, Repr

/-- `reporter.start`: whether the workers were started. -/
def start (cfg : Config) (ctxDone : Bool) (r : Reporter) : Option Reporter :=
  if r.started || r.stopping then none
  else if ctxDone then none
  else some { r with
    started := true
    workers := fun i => if i < cfg.limits.reportConcurrency then .taking else .absent }

def stop (r : Reporter) : Reporter :=
  let r := { r with stopping := true }.notifyLocked
  if !r.started && !r.completed then { r with completed := true } else r

/-- `reporter.finish`, once every worker has exited. -/
def finish (cfg : Config) (r : Reporter) : Option Reporter :=
  if r.started && !r.completed &&
      (List.range cfg.limits.reportConcurrency).all fun i => r.workers i = .exited then
    some { r with pending := [], retained := 0, unsent := r.retained, completed := true }
  else none

/-! ## Handing a result over -/

/-- One pass of the loop in `submit`, under the mutex. -/
inductive Submitted where
  | refused (e : SubmitError)
  | accepted (r : Reporter)
  /-- Full: wait for a change after the given one. -/
  | full (changed : ℕ)

def submit (cfg : Config) (ctxDone : Bool) (r : Reporter) (now : ℕ) (result : ExecutionResult) :
    Submitted :=
  if ctxDone then .refused .context
  else if !r.started then .refused (if r.stopping then .stopping else .notReady)
  else if r.stopping then .refused .stopping
  else if r.retained < cfg.limits.reportCapacity then
    .accepted { r with
      sequence := r.sequence + 1
      pending := push { result, due := now, sequence := r.sequence + 1, attempts := 0 } r.pending
      retained := r.retained + 1 }.notifyLocked
  else .full r.changed

/-! ## Requests -/

/-- `reportMessageProblem`; the strings beside the summary are valid by construction. -/
def reportMessageProblem (request : ReportTaskResultRequest) (limit : ℕ) : Option Discard :=
  if !request.summary.validateUTF8 then some .invalidEncoding
  else if limit < request.size then some .messageTooLarge
  else none

def request (cfg : Config) (result : ExecutionResult) : Except Discard ReportTaskResultRequest :=
  let request : ReportTaskResultRequest :=
    { auth := { groupName := cfg.auth.groupName, token := cfg.auth.token }
      jobId := result.jobId, instanceId := result.instanceId, taskId := result.taskId
      attemptNo := result.attemptNo, executorInstanceId := cfg.executorInstanceId
      outcome := .failure, summary := result.summary, output := none }
  let checked (request : ReportTaskResultRequest) : Except Discard ReportTaskResultRequest :=
    match reportMessageProblem request reportMessageLimit with
    | some d => .error d
    | none => .ok request
  if !result.success then checked request
  else if result.prepared then
    match result.preparedItems with
    | none => .error .invalidOutput
    | some items =>
      if items.all cfg.jsonValid then
        checked { request with outcome := .success, output := some (.preparedItems items) }
      else .error .invalidOutput
  else match result.data with
    | none => checked { request with outcome := .success }
    | some data =>
      if cfg.jsonValid data then
        checked { request with outcome := .success, output := some (.dataJson data) }
      else .error .invalidOutput

/-! ## Workers -/

/-- What a call of `ReportTaskResult` gave. -/
inductive ReportReply where
  | ok (response : Bool)
  | error (st : Rpc.Status)

/-- `err == nil && response != nil`. -/
def ReportReply.acknowledged : ReportReply → Bool
  | .ok response => response
  | .error _ => false

def permanentReportFailure : ReportReply → Option Discard
  | .ok _ => none
  | .error st =>
    if st.code = .unauthenticated then some .unauthenticated
    else if st.code = .permissionDenied then some .permissionDenied
    else if Rpc.subcodeFromStatus st = some Rpc.invalidRequest then some .invalidRequest
    else none

/-- The steps of `reportRetryDelay`, by the number of calls made. -/
def retryStep (attempts : ℕ) : ℕ :=
  Job.second * ([1, 2, 4, 8, 16, 16].getD (min (attempts - 1) 5) 16)

/-- `d` is one of the values of `reportRetryDelay`: between 0.8 and 1.2 of the step. -/
def isRetryDelay (attempts d : ℕ) : Bool :=
  8 * retryStep attempts ≤ 10 * d && 10 * d ≤ 12 * retryStep attempts

/-- A step of a report worker, or of the goroutine that waits for all of them. -/
inductive Move where
  | take (w now : ℕ)
  /-- The request is built and, unless it is discarded, the call made. -/
  | call (w : ℕ)
  | answer (w : ℕ) (reply : ReportReply)
  | settle (w finishedAt delay : ℕ)
  | finish

def setWorker (r : Reporter) (w : ℕ) (st : ReportWorker) : Reporter :=
  { r with workers := Function.update r.workers w st }

/-- `take`; `none` while there is nothing to take. -/
def take (ctxDone : Bool) (r : Reporter) (w now : ℕ) : Option Reporter :=
  if ctxDone || (r.stopping && r.retained = 0) then some (r.setWorker w .exited)
  else match r.pending with
    | [] => none
    | e :: es => if e.due ≤ now then some ({ r with pending := es }.setWorker w (.took e)) else none

/-- From `take` to the call, or past it. -/
def call (cfg : Config) (ctxDone : Bool) (r : Reporter) (w : ℕ) (e : RetainedReport) : Reporter :=
  match request cfg e.result with
  | .error d => r.setWorker w (.settling e false (some d))
  | .ok _ =>
    if ctxDone then r.setWorker w (.settling e false none)
    else r.setWorker w (.calling { e with attempts := e.attempts + 1 })

def answer (r : Reporter) (w : ℕ) (e : RetainedReport) (reply : ReportReply) : Reporter :=
  if reply.acknowledged then r.setWorker w (.settling e true none)
  else r.setWorker w (.settling e false
    ((permanentReportFailure reply).or
      (if e.attempts = reportAttemptLimit then some .retryExhausted else none)))

/-- The critical section at the end of a worker's pass. -/
def settle (ctxDone : Bool) (r : Reporter) (w : ℕ) (e : RetainedReport) (acknowledged : Bool)
    (discard : Option Discard) (finishedAt delay : ℕ) : Reporter :=
  let r := r.setWorker w .taking
  let r :=
    if acknowledged then { r with
      retained := r.retained - 1, acknowledged := r.acknowledged ++ [e.sequence] }
    else match discard with
      | some d => { r with
          retained := r.retained - 1, discarded := r.discarded ++ [(e.sequence, d)] }
      | none =>
        if ctxDone then r
        else { r with pending := push { e with due := finishedAt + delay } r.pending }
  r.notifyLocked

def step (cfg : Config) (ctxDone : Bool) (r : Reporter) : Move → Option Reporter
  | .take w now =>
    match r.workers w with
    | .taking => r.take ctxDone w now
    | _ => none
  | .call w =>
    match r.workers w with
    | .took e => some (r.call cfg ctxDone w e)
    | _ => none
  | .answer w reply =>
    match r.workers w with
    | .calling e => some (r.answer w e reply)
    | _ => none
  | .settle w finishedAt delay =>
    match r.workers w with
    | .settling e acknowledged discard =>
      if isRetryDelay e.attempts delay then
        some (r.settle ctxDone w e acknowledged discard finishedAt delay)
      else none
    | _ => none
  | .finish => r.finish cfg

end Reporter

end Dogx.Executor
