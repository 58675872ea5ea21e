import Dogx.Job.Signature

/-!
# Task statements

The statements of `job_task_repository.go` that write tasks or that a writer decides from. Each
conditional update is split into its predicate (`WHERE`), the new row (`SET`) and the call.

A method that requires the caller's transaction is a `Tx` here, one that requires a commit of its
own is a `Proc`; that takes the place of the `inTransaction` checks of the source.
-/

namespace Dogx.Job

open Txn (Verdict)

def maxInt32 : Int := 0x7fffffff
def maxInt64 : Int := 0x7fffffffffffffff

/-- `column <= bound`, which is not true of NULL. -/
def atMost (column : Option ℕ) (bound : ℕ) : Bool := column.any (· ≤ bound)

/-- `time + seconds * INTERVAL '1 second'`. -/
def addSeconds (t : ℕ) (seconds : Int) : ℕ := t + seconds.toNat * second

/-- `UPDATE … SET f WHERE p`, for expressions that cannot fail; `f` also takes the clock. -/
def updateWhere {ρ : Type} (p : ρ → Bool) (f : ℕ → ρ → ρ) : View → ρ → Verdict ρ :=
  fun v r => if p r then .set (f v.now r) else .skip

theorem updateWhere_eq_set {ρ : Type} {p : ρ → Bool} {f : ℕ → ρ → ρ} {v : View} {r r' : ρ} :
    updateWhere p f v r = .set r' ↔ p r = true ∧ f v.now r = r' := by
  unfold updateWhere
  split <;> simp_all

theorem updateWhere_eq_skip {ρ : Type} {p : ρ → Bool} {f : ℕ → ρ → ρ} {v : View} {r : ρ} :
    updateWhere p f v r = .skip ↔ p r = false := by
  unfold updateWhere
  split <;> simp_all

/-- The order in which the database gets to the rows of one statement. -/
structure RowOrder where
  rows : List ℕ → List ℕ
  perm : ∀ ids, (rows ids).Perm ids

/-- As the statement lists them. -/
def RowOrder.listed : RowOrder where
  rows := id
  perm := fun _ => .refl _

namespace JobTaskRepository

/-! ## Registration -/

def ordinaryTask (instanceId : ℕ) (startedAt : ℕ) (id : ℕ) : JobTask :=
  { id, instanceId, taskType := .ordinary, status := .running, attemptNo := 1, usedAttempts := 1
    attemptRegisteredAt := some startedAt, nextDispatchAt := none, executorInstanceId := none
    executorAddress := none, resultData := none, resultSummary := none, endReason := none
    startedAt := some startedAt, finishedAt := none, createdAt := startedAt
    updatedAt := startedAt }

def insertOrdinary (instanceId : ℕ) (startedAt : ℕ) : Tx ℕ :=
  if instanceId = 0 ∨ startedAt = 0 then throw (.message "invalid ordinary task start")
  else do
    match ← insertRow .task (ordinaryTask instanceId startedAt) with
    | none => throw (.message "create ordinary job task")
    | some id => pure id

def registerWhere (w : RetryRegistration) (t : JobTask) : Bool :=
  t.instanceId = w.instanceId && t.taskType = .ordinary && t.status = .retryWaiting &&
    t.attemptNo = w.expectedAttemptNo && atMost t.nextDispatchAt w.registeredAt &&
    t.usedAttempts < w.maxAttempts

theorem registerWhere_iff {w : RetryRegistration} {t : JobTask} : registerWhere w t = true ↔
    t.instanceId = w.instanceId ∧ t.taskType = .ordinary ∧ t.status = .retryWaiting ∧
      t.attemptNo = w.expectedAttemptNo ∧ atMost t.nextDispatchAt w.registeredAt = true ∧
      t.usedAttempts < w.maxAttempts := by
  simp [registerWhere, decide_eq_true_eq, and_assoc]

def registerSet (w : RetryRegistration) (t : JobTask) : JobTask :=
  { t with
    status := .running, attemptNo := t.attemptNo + 1, usedAttempts := t.usedAttempts + 1
    attemptRegisteredAt := some w.registeredAt, nextDispatchAt := none, executorInstanceId := none
    executorAddress := none, resultData := none, finishedAt := none, endReason := none
    updatedAt := w.registeredAt }

/-- The counters are `bigint` and `integer` columns: an increment past their range fails. -/
def registerUpdate (w : RetryRegistration) (_ : View) (t : JobTask) : Verdict JobTask :=
  if registerWhere w t then
    if maxInt64 < t.attemptNo + 1 || maxInt32 < t.usedAttempts + 1 then .raise
    else .set (registerSet w t)
  else .skip

def registerOrdinaryRetry (w : RetryRegistration) : Tx (Option RegisteredTask) :=
  if w.taskId = 0 ∨ w.instanceId = 0 ∨ w.expectedAttemptNo ≤ 0 ∨ w.maxAttempts ≤ 0 ∨
      w.registeredAt = 0 then
    throw (.message "invalid ordinary retry registration")
  else do
    match ← updateRow .task w.taskId (registerUpdate w) with
    | none => pure none
    | some t =>
      match t.attemptRegisteredAt with
      | none => throw (.message "ordinary retry registration returned invalid facts")
      | some registeredAt =>
        pure (some { taskId := t.id, instanceId := t.instanceId, attemptNo := t.attemptNo
                     usedAttempts := t.usedAttempts, registeredAt })

/-! ## Responses to a dispatch -/

/-- The update of a task in a transaction of its own; the result is whether a row changed. -/
def writeTask (label : Bool → Op) (taskId : ℕ) (f : View → JobTask → Verdict JobTask) :
    Proc (Except Err Bool) :=
  transact label do
    let changed ← updateRow .task taskId f
    pure changed.isSome

def bindWhere (b : ExecutorBinding) (t : JobTask) : Bool :=
  t.instanceId = b.instanceId && t.attemptNo = b.attemptNo && t.status = .running &&
    t.executorInstanceId = none && t.executorAddress = none

theorem bindWhere_iff {b : ExecutorBinding} {t : JobTask} : bindWhere b t = true ↔
    t.instanceId = b.instanceId ∧ t.attemptNo = b.attemptNo ∧ t.status = .running ∧
      t.executorInstanceId = none ∧ t.executorAddress = none := by
  simp [bindWhere, decide_eq_true_eq, and_assoc]

def bindSet (b : ExecutorBinding) (now : ℕ) (t : JobTask) : JobTask :=
  { t with
    executorInstanceId := some b.executorInstanceId, executorAddress := some b.executorAddress
    updatedAt := now }

def bindExecutor (env : Env) (b : ExecutorBinding) : Proc (Except Err Bool) :=
  if b.taskId = 0 ∨ b.instanceId = 0 ∨ b.attemptNo ≤ 0 ∨ !b.executorInstanceId.isV4 ∨
      !validExecutorAddress env b.executorAddress then
    pure (.error .invalidDispatchWrite)
  else writeTask (.bindExecutor b) b.taskId (updateWhere (bindWhere b) (bindSet b))

/-- The attempt is running, unbound and has an opportunity to give back or to close. -/
def unboundWhere (instanceId : ℕ) (attemptNo : Int) (t : JobTask) : Bool :=
  t.instanceId = instanceId && t.attemptNo = attemptNo && t.taskType = .ordinary &&
    t.status = .running && 0 < t.usedAttempts && t.executorInstanceId = none &&
    t.executorAddress = none

theorem unboundWhere_iff {instanceId : ℕ} {attemptNo : Int} {t : JobTask} :
    unboundWhere instanceId attemptNo t = true ↔
    t.instanceId = instanceId ∧ t.attemptNo = attemptNo ∧ t.taskType = .ordinary ∧
      t.status = .running ∧ 0 < t.usedAttempts ∧ t.executorInstanceId = none ∧
      t.executorAddress = none := by
  simp [unboundWhere, decide_eq_true_eq, and_assoc]

def busySet (w : DispatchBusyWrite) (now : ℕ) (t : JobTask) : JobTask :=
  { t with
    status := .retryWaiting, usedAttempts := t.usedAttempts - 1
    nextDispatchAt := some (now + w.delay), resultData := none
    resultSummary := some "executor is busy; task was not accepted", finishedAt := none
    endReason := none, updatedAt := now }

def saveDispatchBusy (w : DispatchBusyWrite) : Proc (Except Err Bool) :=
  if w.taskId = 0 ∨ w.instanceId = 0 ∨ w.attemptNo ≤ 0 ∨ w.delay = 0 then
    pure (.error .invalidDispatchWrite)
  else
    writeTask (.saveDispatchBusy w) w.taskId
      (updateWhere (unboundWhere w.instanceId w.attemptNo) (busySet w))

/-- `CASE WHEN used_attempts < total`: another opportunity is left, or the task has failed. -/
def closeSet (total : Int) (retryAt processedAt : ℕ) (reason : EndReason) (summary : String)
    (t : JobTask) : JobTask :=
  { t with
    status := if t.usedAttempts < total then .retryWaiting else .failed
    nextDispatchAt := if t.usedAttempts < total then some retryAt else none
    finishedAt := if t.usedAttempts < total then none else some processedAt
    endReason := if t.usedAttempts < total then none else some reason
    resultData := none, resultSummary := some summary, updatedAt := processedAt }

def rejectionSet (w : DispatchRejectionWrite) (now : ℕ) : JobTask → JobTask :=
  closeSet (w.maxRetries + 1) (addSeconds now w.retryIntervalSeconds) now .dispatchRejected
    w.summary

def saveDispatchRejection (w : DispatchRejectionWrite) : Proc (Except Err Bool) :=
  if w.taskId = 0 ∨ w.instanceId = 0 ∨ w.attemptNo ≤ 0 ∨ w.maxRetries < 0 ∨
      w.retryIntervalSeconds ≤ 0 then
    pure (.error .invalidDispatchWrite)
  else
    writeTask (.saveDispatchRejection w) w.taskId
      (updateWhere (unboundWhere w.instanceId w.attemptNo) (rejectionSet w))

/-! ## Results -/

/-- A task joined with its round. -/
def findResultTarget (taskId : ℕ) (v : View) : Option TaskResultTarget := do
  let t ← v.rows .task taskId
  let i ← v.rows .instance t.instanceId
  pure { taskId := t.id, instanceId := t.instanceId, jobId := i.jobId
         executorGroupId := i.executorGroupId, attemptNo := t.attemptNo, taskType := t.taskType
         status := t.status, usedAttempts := t.usedAttempts
         executorInstanceId := t.executorInstanceId, executionConfig := i.executionConfig }

def resultWhere (w : TaskResultWrite) (t : JobTask) : Bool :=
  t.instanceId = w.instanceId && t.attemptNo = w.attemptNo && t.status = .running &&
    (t.executorInstanceId = none || t.executorInstanceId = some w.executorInstanceId)

theorem resultWhere_iff {w : TaskResultWrite} {t : JobTask} : resultWhere w t = true ↔
    t.instanceId = w.instanceId ∧ t.attemptNo = w.attemptNo ∧ t.status = .running ∧
      (t.executorInstanceId = none ∨ t.executorInstanceId = some w.executorInstanceId) := by
  simp [resultWhere, Bool.or_eq_true, decide_eq_true_eq, and_assoc]

def resultSet (w : TaskResultWrite) (now : ℕ) (t : JobTask) : JobTask :=
  { t with
    status := w.status
    resultData := if w.status = .succeeded then w.data else none
    resultSummary := some w.summary
    finishedAt := if w.status = .retryWaiting then none else some now
    nextDispatchAt :=
      if w.status = .retryWaiting then some (addSeconds now w.retryIntervalSeconds) else none
    endReason :=
      if w.status = .retryWaiting then none
      else if w.status = .succeeded then some .success else some .executionFailed
    updatedAt := now }

/-- Data that PostgreSQL cannot store as `jsonb` fails the statement. -/
def resultUpdate (env : Env) (w : TaskResultWrite) (v : View) (t : JobTask) : Verdict JobTask :=
  if resultWhere w t then
    if w.status = .succeeded && w.data.any fun d => !env.jsonbValid d then .raise
    else .set (resultSet w v.now t)
  else .skip

def saveResult (env : Env) (w : TaskResultWrite) : Proc (Except Err Bool) :=
  if w.taskId = 0 ∨ w.instanceId = 0 ∨ w.attemptNo ≤ 0 ∨ !w.executorInstanceId.isV4 ∨
      (w.status ≠ .succeeded ∧ w.status ≠ .retryWaiting ∧ w.status ≠ .failed) ∨
      (w.status = .retryWaiting ∧ w.retryIntervalSeconds ≤ 0) then
    pure (.error (.message "invalid task result write"))
  else writeTask (.saveResult w) w.taskId (resultUpdate env w)

/-! ## Unknown results -/

/-- The tasks of a bounded list, each joined with its round, by ascending id. -/
def findUnboundTargets (taskIds : List ℕ) (v : View) : List UnboundTarget :=
  (v.all .task).filterMap fun t =>
    if t.id ∈ taskIds then do
      let i ← v.rows .instance t.instanceId
      pure { taskId := t.id, instanceId := t.instanceId, attemptNo := t.attemptNo
             taskType := t.taskType, status := t.status
             executorInstanceId := t.executorInstanceId, executorAddress := t.executorAddress
             attemptRegisteredAt := t.attemptRegisteredAt, instanceStatus := i.status
             startedAt := i.startedAt, deadlineAt := i.deadlineAt
             executionConfig := i.executionConfig }
    else none

def unknownResultSummary : String :=
  "execution result is unknown; executor binding and result were not recorded"

def settleWhere (w : UnknownSettlement) (t : JobTask) : Bool :=
  t.instanceId = w.instanceId && t.taskType = .ordinary && t.attemptNo = w.expectedAttemptNo &&
    t.status = .running && t.executorInstanceId = none && t.executorAddress = none &&
    atMost t.attemptRegisteredAt w.observationCutoff

theorem settleWhere_iff {w : UnknownSettlement} {t : JobTask} : settleWhere w t = true ↔
    t.instanceId = w.instanceId ∧ t.taskType = .ordinary ∧ t.attemptNo = w.expectedAttemptNo ∧
      t.status = .running ∧ t.executorInstanceId = none ∧ t.executorAddress = none ∧
      atMost t.attemptRegisteredAt w.observationCutoff = true := by
  simp [settleWhere, decide_eq_true_eq, and_assoc]

def settleSet (w : UnknownSettlement) : JobTask → JobTask :=
  closeSet w.maxAttempts w.retryAt w.processedAt .resultUnknown unknownResultSummary

def settleOrdinaryUnknown (w : UnknownSettlement) : Proc (Except Err (Option SettledTask)) :=
  if w.taskId = 0 ∨ w.instanceId = 0 ∨ w.expectedAttemptNo ≤ 0 ∨ w.maxAttempts ≤ 0 ∨
      w.processedAt = 0 ∨ w.observationCutoff = 0 ∨ w.retryAt = 0 ∨
      ¬ w.observationCutoff < w.processedAt ∨ ¬ w.processedAt < w.retryAt then
    pure (.error (.message "invalid ordinary unknown-result settlement"))
  else
    transact (.settleOrdinaryUnknown w) do
      match ← updateRow .task w.taskId
          (updateWhere (settleWhere w) fun _ => settleSet w) with
      | none => pure none
      | some t =>
        if t.id ≠ w.taskId ∨ t.instanceId ≠ w.instanceId ∨ t.attemptNo ≠ w.expectedAttemptNo ∨
            (t.status ≠ .retryWaiting ∧ t.status ≠ .failed) then
          throw (.message "unknown-result settlement returned invalid facts")
        else
          pure (some { taskId := t.id, instanceId := t.instanceId, attemptNo := t.attemptNo
                       status := t.status })

/-! ## Cancellation -/

def listUnfinishedIds (instanceId limit : ℕ) (v : View) : List ℕ :=
  (((v.all .task).filter fun t => t.instanceId = instanceId && t.status.unfinished).map
    JobTask.id).take limit

def cancelWhere (w : TaskCancellation) (t : JobTask) : Bool :=
  t.instanceId = w.instanceId && t.status.unfinished

theorem cancelWhere_iff {w : TaskCancellation} {t : JobTask} : cancelWhere w t = true ↔
    t.instanceId = w.instanceId ∧ t.status.unfinished = true := by
  simp [cancelWhere, decide_eq_true_eq]

def cancelSet (w : TaskCancellation) (t : JobTask) : JobTask :=
  { t with
    status := .canceled, nextDispatchAt := none, finishedAt := some w.processedAt
    endReason := some w.reason, resultData := none, resultSummary := some w.summary
    updatedAt := w.processedAt }

/-- The rows of one statement are locked and changed one after the other. -/
def cancelRows (w : TaskCancellation) : List ℕ → Tx ℕ
  | [] => pure 0
  | id :: ids => do
    let changed ← updateRow .task id (updateWhere (cancelWhere w) fun _ => cancelSet w)
    let more ← cancelRows w ids
    pure (more + if changed.isSome then 1 else 0)

def cancelUnfinished (order : RowOrder) (w : TaskCancellation) : Tx ℕ :=
  if w.instanceId = 0 ∨ w.taskIds = [] ∨ w.processedAt = 0 ∨
      (w.reason ≠ .manualStop ∧ w.reason ≠ .instanceTimeout) then
    throw (.message "invalid task cancellation")
  else if 0 ∈ w.taskIds then throw (.message "canceled task IDs must be positive")
  else cancelRows w (order.rows w.taskIds)

end JobTaskRepository

end Dogx.Job
