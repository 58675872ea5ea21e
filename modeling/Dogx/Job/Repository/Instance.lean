import Dogx.Job.Repository.Task

/-!
# Instance statements

The statements of `job_instance_repository.go` that create, start, complete and stop a round.
-/

namespace Dogx.Job

open Txn (Verdict)

namespace JobInstanceRepository

/-! ## Locks and the clock -/

def lockForStop (id : ℕ) (nowait : Bool) : Tx (Option JobInstance) :=
  if id = 0 then throw (.message "stop instance ID must be positive")
  else do
    match ← lockRow .instance id nowait with
    | .busy => throw .instanceLocked
    | .row i => pure i

def lockForExecution (id : ℕ) : Tx (Option JobInstance) := do
  match ← lockRow .instance id true with
  | .busy => throw .instanceLocked
  | .row i => pure i

/-- `SELECT clock_timestamp()`. -/
def databaseTime : View → ℕ := fun v => v.now

/-! ## First start -/

def startWhere (i : JobInstance) : Bool :=
  i.status = .waiting && i.startedAt = none && i.deadlineAt = none && i.finishedAt = none

def startSet (startedAt deadlineAt : ℕ) (i : JobInstance) : JobInstance :=
  { i with status := .running, startedAt := some startedAt, deadlineAt := some deadlineAt }

def startExecution (id : ℕ) (startedAt deadlineAt : ℕ) : Tx Bool := do
  let changed ← updateRow .instance id (updateWhere startWhere fun _ => startSet startedAt deadlineAt)
  pure changed.isSome

/-! ## Completion -/

/-- A round joined with its ordinary task, if it has one. -/
def findCompletion (id : ℕ) (v : View) : Option InstanceCompletion := do
  let i ← v.rows .instance id
  let t := (v.all .task).find? fun t => t.instanceId = i.id && t.taskType = .ordinary
  pure { id := i.id, status := i.status, executionConfig := i.executionConfig
         deadlineAt := i.deadlineAt, taskId := t.map JobTask.id, taskStatus := t.map JobTask.status
         resultSummary := t.bind JobTask.resultSummary }

def completeWhere (i : JobInstance) : Bool := i.status = .running

def completeSet (target : InstanceStatus) (summary : Option String) (now : ℕ) (i : JobInstance) :
    JobInstance :=
  { i with
    status := target
    endReason := some (if target = .failed then .executionFailed else .success)
    resultSummary := summary, finishedAt := some now }

def complete (id : ℕ) (target : InstanceStatus) (summary : Option String) :
    Proc (Except Err Bool) :=
  if id = 0 ∨ (target ≠ .succeeded ∧ target ≠ .failed) then
    pure (.error (.message "invalid job instance completion"))
  else
    transact (.complete id target summary) do
      let changed ← updateRow .instance id (updateWhere completeWhere (completeSet target summary))
      pure changed.isSome

/-! ## Stopping -/

def stopWhere (expected : InstanceStatus) (i : JobInstance) : Bool :=
  i.status = expected && (i.status = .waiting || i.status = .running)

def stopSet (reason : EndReason) (summary : String) (i : JobInstance) : JobInstance :=
  { i with
    status := .stopping, finishedAt := none, endReason := some reason
    resultSummary := some summary }

def recordStop (id : ℕ) (expected : InstanceStatus) (reason : EndReason) (summary : String)
    (decidedAt : ℕ) : Tx Bool :=
  if id = 0 ∨ decidedAt = 0 ∨ (expected ≠ .waiting ∧ expected ≠ .running) ∨
      (reason ≠ .manualStop ∧ reason ≠ .instanceTimeout) ∨
      (reason = .instanceTimeout ∧ expected ≠ .running) then
    throw (.message "invalid instance stop decision")
  else do
    let changed ← updateRow .instance id
      (updateWhere (stopWhere expected) fun _ => stopSet reason summary)
    pure changed.isSome

/-- The terminal status a stop reason leads to. -/
def stopTarget (reason : EndReason) : InstanceStatus :=
  if reason = .instanceTimeout then .failed else .canceled

/-- `EXISTS (SELECT 1 FROM job_task WHERE instance_id = id AND status IN (1, 2, 3))`. -/
def hasUnfinished (v : View) (id : ℕ) : Bool :=
  (v.all .task).any fun t => t.instanceId = id && t.status.unfinished

def finishSet (reason : EndReason) (now : ℕ) (i : JobInstance) : JobInstance :=
  { i with status := stopTarget reason, finishedAt := some now }

def finishUpdate (reason : EndReason) (v : View) (i : JobInstance) : Verdict JobInstance :=
  if i.status = .stopping && i.endReason = some reason && !hasUnfinished v i.id then
    .set (finishSet reason v.now i)
  else .skip

def finishStop (id : ℕ) (reason : EndReason) : Tx Bool :=
  if id = 0 ∨ (reason ≠ .manualStop ∧ reason ≠ .instanceTimeout) then
    throw (.message "invalid instance stop completion")
  else do
    let changed ← updateRow .instance id (finishUpdate reason)
    pure changed.isSome

/-! ## Creation -/

def hasActive (jobId : ℕ) (v : View) : Bool :=
  (v.all .instance).any fun i => i.jobId = jobId && i.status.active

def hasActiveForGroup (groupId : ℕ) (v : View) : Bool :=
  (v.all .instance).any fun i => i.executorGroupId = groupId && i.status.active

def findManual (jobId : ℕ) (request : Uuid) (v : View) : Option ManualIdentity :=
  ((v.all .instance).find? fun i => i.jobId = jobId && i.requestId = some request).map fun i =>
    { id := i.id, paramsOverridden := i.paramsOverridden
      overrideParams := if i.paramsOverridden then some i.executionConfig.params else none }

/-- Only the trigger snapshot is inserted; execution columns start as NULL. -/
def newInstance (snapshot : JobInstance) (id : ℕ) : JobInstance :=
  { snapshot with
    id, status := .waiting, startedAt := none, deadlineAt := none, finishedAt := none
    endReason := none, resultSummary := none }

/-- `ON CONFLICT DO NOTHING` on the identity of the trigger: the new id, or `none`. -/
def insert (snapshot : JobInstance) : Tx (Option ℕ) := insertRow .instance (newInstance snapshot)

end JobInstanceRepository

end Dogx.Job
