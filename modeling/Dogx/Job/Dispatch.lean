import Dogx.Job.Repository.Instance

/-!
# Registering and sending an attempt

`Registrar` and `Dispatcher` of package `dispatch`. Registration is one transaction under the
lock of the round; sending happens after its commit is confirmed, and what the executor answered
is saved by conditional writes of their own.
-/

namespace Dogx.Job

/-- The budget of a call is used up. -/
def expired : Err := .fault .context

/-- Notes what a Go method returns. -/
def returning {α : Type} (note : Except Err α → Outcome) (p : Proc (Except Err α)) :
    Proc (Except Err α) := do
  let r ← p
  perform (.returned (note r))
  pure r

namespace Registrar

open JobInstanceRepository JobTaskRepository

/-- A sharded snapshot is returned without further checks; nothing dispatches it. -/
def decodeConfig (c : ExecutionConfig) : Except Err ExecutionConfig :=
  if c.schemaVersion ≠ 1 then .error .invalidExecutionConfig
  else if c.executionMode = .sharded then .ok c
  else if c.postEnabled ∨ c.maxRetries < 0 ∨ c.retryIntervalSeconds ≤ 0 ∨ c.timeoutSeconds ≤ 0 ∨
      Text.trimSpace c.processorName = "" ∨ 128 < Text.runeCount c.processorName ∨
      Text.containsNul c.processorName ∨ Text.containsNul c.params then
    .error .invalidExecutionConfig
  else .ok c

/-- What is left to do once the waiting round is locked and its settings are known. -/
def beginExecution (instanceId : ℕ) (i : JobInstance) (config : ExecutionConfig) :
    Tx (Option RegisteredAttempt) := do
  let startedAt ← select databaseTime
  if startedAt = 0 then throw (.message "database returned an empty execution start time")
  else do
    let deadlineAt := addSeconds startedAt config.timeoutSeconds
    let changed ← startExecution instanceId startedAt deadlineAt
    -- the round was locked and checked by this transaction
    if !changed then throw .invalidInstanceState
    else do
      let taskId ← insertOrdinary instanceId startedAt
      if taskId = 0 then throw (.message "task repository returned an invalid inserted ID")
      else pure (some
        { jobId := i.jobId, instanceId, executorGroupId := i.executorGroupId, taskId
          attemptNo := 1, executionConfig := config, registeredAt := startedAt, deadlineAt })

def startOrdinaryTx (instanceId : ℕ) : Tx (Option RegisteredAttempt) := do
  match ← lockForExecution instanceId with
  | none => pure none
  | some i =>
    if i.status ≠ .waiting then pure none
    else if i.id ≠ instanceId ∨ i.startedAt.isSome ∨ i.deadlineAt.isSome ∨ i.finishedAt.isSome then
      throw .invalidInstanceState
    else match decodeConfig i.executionConfig with
      | .error e => throw e
      | .ok config =>
        if config.executionMode = .sharded then pure none
        else if i.jobId = 0 ∨ i.executorGroupId = 0 then throw .invalidInstanceState
        else beginExecution instanceId i config

def startOrdinary (instanceId : ℕ) : Proc (Except Err (Option RegisteredAttempt)) :=
  if instanceId = 0 then pure (.error (.message "dispatch instance ID must be positive"))
  else do
    if ← perform .expired then pure (.error expired)
    else transact (.startOrdinary instanceId) (startOrdinaryTx instanceId)

/-- The registration update and the check of what it returned. -/
def registerRetry (c : RetryCandidate) (i : JobInstance) (config : ExecutionConfig)
    (registeredAt deadlineAt : ℕ) : Tx (Option RegisteredAttempt) := do
  let maxAttempts := config.maxRetries + 1
  match ← registerOrdinaryRetry { taskId := c.taskId, instanceId := c.instanceId
                                  expectedAttemptNo := c.attemptNo, maxAttempts, registeredAt } with
  | none => pure none
  | some t =>
    if t.taskId ≠ c.taskId ∨ t.instanceId ≠ c.instanceId ∨ t.attemptNo ≤ c.attemptNo ∨
        t.attemptNo - c.attemptNo ≠ 1 ∨ t.usedAttempts ≤ 0 ∨ maxAttempts < t.usedAttempts ∨
        t.registeredAt ≠ registeredAt then
      throw .invalidInstanceState
    else pure (some
      { jobId := i.jobId, instanceId := i.id, executorGroupId := i.executorGroupId
        taskId := t.taskId, attemptNo := t.attemptNo, executionConfig := config
        registeredAt := t.registeredAt, deadlineAt })

/-- The second component tells the caller to have the round checked. -/
def retryOrdinaryTx (c : RetryCandidate) : Tx (Option RegisteredAttempt × Bool) := do
  match ← lockForExecution c.instanceId with
  | none => pure (none, false)
  | some i =>
    if i.id ≠ c.instanceId then throw .invalidInstanceState
    else if i.status ≠ .running then pure (none, i.status = .stopping)
    else do
      let registeredAt ← select databaseTime
      match i.startedAt, i.deadlineAt with
      | some startedAt, some deadlineAt =>
        if registeredAt = 0 ∨ startedAt = 0 ∨ ¬ startedAt < deadlineAt ∨ i.finishedAt.isSome ∨
            i.jobId = 0 ∨ i.executorGroupId = 0 then
          throw .invalidInstanceState
        else if ¬ registeredAt < deadlineAt then pure (none, true)
        else match decodeConfig i.executionConfig with
          | .error e => throw e
          | .ok config =>
            if config.executionMode = .sharded then pure (none, false)
            else do
              let registered ← registerRetry c i config registeredAt deadlineAt
              pure (registered, false)
      | _, _ => throw .invalidInstanceState

def retryOrdinary (c : RetryCandidate) : Proc (Except Err (Option RegisteredAttempt)) :=
  if c.taskId = 0 ∨ c.instanceId = 0 ∨ c.attemptNo ≤ 0 then
    pure (.error (.message "retry candidate identities must be positive"))
  else do
    if ← perform .expired then pure (.error expired)
    else
      match ← transact (fun r => .retryOrdinary c r.1) (retryOrdinaryTx c) with
      | .error e => pure (.error e)
      | .ok (registered, checkParent) =>
        if checkParent then do
          perform (.hint c.instanceId)
          pure (.ok registered)
        else pure (.ok registered)

end Registrar

namespace Dispatcher

open JobTaskRepository

/-- Repeating the same write cannot repair these errors. -/
def permanent : Err → Bool
  | .invalidDispatchWrite => true
  | .fault (.database rejected _) => rejected
  | _ => false

/-- The same write again, up to `n` times after the first, until it is answered. -/
def saveResponse (write : Proc (Except Err Bool)) (n : ℕ) : Proc (Except Err Bool) := do
  if ← perform .expired then pure (.error expired)
  else
    match ← write with
    | .ok applied => pure (.ok applied)
    | .error e =>
      if permanent e then pure (.error e)
      else match n with
        | 0 => pure (.error e)
        | n + 1 => do
          if ← perform .pause then pure (.error expired)
          else saveResponse write n

def responseWriteAttempts : ℕ := 3

/-- The closures of `dispatch` that save a response. -/
inductive ResponseWrite where
  | bind (binding : ExecutorBinding)
  | busy (write : DispatchBusyWrite)
  | rejection (write : DispatchRejectionWrite)

def ResponseWrite.code (env : Env) : ResponseWrite → Proc (Except Err Bool)
  | .bind b => bindExecutor env b
  | .busy w => saveDispatchBusy w
  | .rejection w => saveDispatchRejection w

/-- The write for a response, with the attempt's own identity and frozen settings. -/
def responseWrite (busyDelay : ℕ) (a : RegisteredAttempt) (r : Response) :
    Proc (Except Err (Option ResponseWrite)) :=
  match r.outcome with
  | .accepted => pure (.ok (some (.bind
      { taskId := a.taskId, instanceId := a.instanceId, attemptNo := a.attemptNo
        executorInstanceId := r.executorInstanceId, executorAddress := r.executorAddress })))
  | .busy => do
    -- chosen once, not on each save retry
    let jitter := busyDelay / 5
    let random ← perform (.jitter jitter)
    pure (.ok (some (.busy
      { taskId := a.taskId, instanceId := a.instanceId, attemptNo := a.attemptNo
        delay := busyDelay - jitter + random.val })))
  | .rejected => pure (.ok (some (.rejection
      { taskId := a.taskId, instanceId := a.instanceId, attemptNo := a.attemptNo
        maxRetries := a.executionConfig.maxRetries
        retryIntervalSeconds := a.executionConfig.retryIntervalSeconds, summary := r.summary })))
  | .unknown => pure (.ok none)
  | .other => pure (.error (.message "invalid dispatch outcome"))

/-- What follows the one call of `Sender.Dispatch`. -/
def handleResponse (env : Env) (busyDelay : ℕ) (a : RegisteredAttempt) (r : Response) :
    Proc (DispatchResult × Option Err) := do
  match ← responseWrite busyDelay a r with
  | .error e => pure ({ registered := true }, some e)
  | .ok none => pure ({ registered := true, outcome := r.outcome }, none)
  | .ok (some write) =>
    match ← saveResponse (write.code env) (responseWriteAttempts - 1) with
    | .error e => pure ({ registered := true, outcome := r.outcome }, some e)
    | .ok applied =>
      if applied && r.outcome ≠ .accepted then do
        perform (.hint a.instanceId)
        pure ({ registered := true, outcome := r.outcome, applied }, none)
      else pure ({ registered := true, outcome := r.outcome, applied }, none)

def dispatch (env : Env) (busyDelay : ℕ) (register : Proc (Except Err (Option RegisteredAttempt))) :
    Proc (DispatchResult × Option Err) := do
  if ← perform .expired then pure ({}, some expired)
  else
    match ← register with
    | .error e => pure ({}, some e)
    | .ok none => pure ({}, none)
    | .ok (some a) =>
      if ← perform .expired then pure ({ registered := true }, some expired)
      else do
        perform (.send a)
        match ← perform .response with
        | .error f => pure ({ registered := true }, some (.fault f))
        | .ok r => handleResponse env busyDelay a r

def dispatchOrdinary (env : Env) (busyDelay instanceId : ℕ) : Proc (DispatchResult × Option Err) :=
  if instanceId = 0 then
    pure ({}, some (.message "dispatch instance ID must be positive"))
  else dispatch env busyDelay (returning .registered (Registrar.startOrdinary instanceId))

def dispatchRetry (env : Env) (busyDelay : ℕ) (c : RetryCandidate) :
    Proc (DispatchResult × Option Err) :=
  if c.taskId = 0 ∨ c.instanceId = 0 ∨ c.attemptNo ≤ 0 then
    pure ({}, some (.message "retry candidate identities must be positive"))
  else dispatch env busyDelay (returning .registered (Registrar.retryOrdinary c))

end Dispatcher

end Dogx.Job
