import Dogx.Job.Result

/-!
# Stopping and completing a round

`Controller` of package `instancestop` records a stop decision under the lock of the round and
converges its unfinished tasks in batches. `Checker` of package `instancecheck` completes a round
from unlocked facts and asks for a timeout stop when they are not final and the deadline passed.
-/

namespace Dogx.Job

open JobInstanceRepository JobTaskRepository

namespace Controller

def manualStopSummary : String := "Manual stop requested for this instance."
def timeoutSummary : String := "Instance execution deadline reached."

def observedDecision (i : JobInstance) : Decision :=
  { instanceId := i.id, executorGroupId := i.executorGroupId, status := i.status
    endReason := i.endReason, new := false }

def validActiveTimes (i : JobInstance) : Bool :=
  if i.finishedAt.isSome then false
  else if i.status = .waiting then i.startedAt.isNone && i.deadlineAt.isNone
  else match i.startedAt, i.deadlineAt with
    | some startedAt, some deadlineAt => startedAt ≠ 0 && startedAt < deadlineAt
    | _, _ => false

/-- Records the decision on the locked, active round. -/
def decideStop (id : ℕ) (i : JobInstance) (reason : EndReason) (summary : String) (now : ℕ) :
    Tx Decision := do
  let changed ← recordStop id i.status reason summary now
  if !changed then throw .invalidStopState
  else pure { observedDecision i with status := .stopping, endReason := some reason, new := true }

/-- The round is active and may be stopped for this reason. -/
def stopActive (id : ℕ) (timeout : Bool) (i : JobInstance) : Tx Decision := do
  let now ← select databaseTime
  if now = 0 ∨ i.executorGroupId = 0 then throw .invalidStopState
  else if !validActiveTimes i then throw .invalidStopState
  else if timeout then
    match i.deadlineAt with
    | none => throw .invalidStopState
    | some deadlineAt =>
      if now < deadlineAt then pure (observedDecision i)
      else decideStop id i .instanceTimeout timeoutSummary now
  else decideStop id i .manualStop manualStopSummary now

def requestStopTx (id : ℕ) (timeout : Bool) : Tx Decision := do
  match ← lockForStop id false with
  | none => throw .instanceNotFound
  | some i =>
    if i.id ≠ id then throw .invalidStopState
    else match i.status with
      | .stopping | .succeeded | .failed | .canceled => pure (observedDecision i)
      | .waiting => if timeout then pure (observedDecision i) else stopActive id timeout i
      | .running => stopActive id timeout i

def requestStop (id : ℕ) (timeout : Bool) : Proc (Except Err Decision) :=
  returning (.decided id) <|
    if id = 0 then pure (.error (.message "instance stop ID must be positive"))
    else do
      if ← perform .expired then pure (.error expired)
      else transact (.requestStop id timeout) (requestStopTx id timeout)

def requestManual (id : ℕ) : Proc (Except Err Decision) := requestStop id false

def requestTimeout (id : ℕ) : Proc (Except Err Decision) := requestStop id true

def stopOutcome (reason : Option EndReason) : Option (InstanceStatus × String) :=
  match reason with
  | some .manualStop =>
    some (.canceled, "Task canceled because its instance was manually stopped.")
  | some .instanceTimeout => some (.failed, "Task canceled because its instance timed out.")
  | _ => none

/-- Ascending, positive and within the limit. -/
def validOrderedIds (ids : List ℕ) (limit : ℕ) : Bool :=
  ids.length ≤ limit && (0 :: ids).Pairwise (· < ·)

/-- No unfinished task was found: the round ends. -/
def finishRound (id : ℕ) (i : JobInstance) (reason : EndReason) (target : InstanceStatus) :
    Tx (Option BatchResult) := do
  let changed ← finishStop id reason
  pure (some
    { instanceId := id, status := if changed then target else i.status, canceled := 0
      more := false, completed := changed })

/-- The tasks that were found are canceled. -/
def cancelBatch (order : RowOrder) (id : ℕ) (i : JobInstance) (reason : EndReason)
    (summary : String) (ids : List ℕ) : Tx (Option BatchResult) := do
  let now ← select databaseTime
  if now = 0 then throw .invalidStopState
  else do
    let canceled ← cancelUnfinished order
      { instanceId := id, taskIds := ids, reason, summary, processedAt := now }
    if ids.length < canceled then throw .invalidStopState
    else pure (some
      { instanceId := id, status := i.status, canceled, more := true, completed := false })

def processStopping (order : RowOrder) (batchSize id : ℕ) (i : JobInstance) :
    Tx (Option BatchResult) :=
  match i.endReason, stopOutcome i.endReason with
  | some reason, some (target, summary) =>
    if i.finishedAt.isSome then throw .invalidStopState
    else do
      let ids ← select (listUnfinishedIds id batchSize)
      if !validOrderedIds ids batchSize then throw .invalidStopState
      else if ids = [] then finishRound id i reason target
      else cancelBatch order id i reason summary ids
  | _, _ => throw .invalidStopState

/-- `none` is the zero result of a missing round. -/
def processBatchTx (order : RowOrder) (batchSize id : ℕ) : Tx (Option BatchResult) := do
  match ← lockForStop id true with
  | none => pure none
  | some i =>
    if i.id ≠ id then throw .invalidStopState
    else match i.status with
      | .waiting | .running | .succeeded | .failed | .canceled =>
        pure (some { instanceId := id, status := i.status, canceled := 0, more := false
                     completed := false })
      | .stopping => processStopping order batchSize id i

def processBatch (order : RowOrder) (batchSize id : ℕ) : Proc (Except Err (Option BatchResult)) :=
  if id = 0 then pure (.error (.message "instance stop ID must be positive"))
  else do
    if ← perform .expired then pure (.error expired)
    else transact (.processBatch id) (processBatchTx order batchSize id)

end Controller

namespace Checker

def resumeStopping (stopping : Bool) (id : ℕ) : Proc Unit :=
  if stopping then perform (.resume id) else pure ()

/-- What a timeout request found or decided. -/
def handleDecision (stopping : Bool) (id : ℕ) (d : Decision) : Proc (CheckOutcome × Option Err) :=
  if d.instanceId ≠ id ∨ (d.new ∧ (d.status ≠ .stopping ∨ d.executorGroupId = 0 ∨
      d.endReason ≠ some .instanceTimeout)) then
    pure (.skipped, some .invalidFacts)
  else match d.status with
    | .stopping => do
      if d.new then perform (.afterStop d) else resumeStopping stopping id
      pure (.stopping, none)
    | .succeeded | .failed | .canceled => pure (.terminal, none)
    | .waiting => pure (.skipped, none)
    | .running => pure (.notReady, none)

/-- `stopping` tells whether the checker was given a timeout requester. -/
def notReady (stopping : Bool) (facts : InstanceCompletion) : Proc (CheckOutcome × Option Err) :=
  if !stopping then pure (.notReady, none)
  else match facts.deadlineAt with
    | none => pure (.skipped, some .invalidFacts)
    | some deadlineAt =>
      if deadlineAt = 0 then pure (.skipped, some .invalidFacts)
      else do
        if ← perform .expired then pure (.skipped, some expired)
        else
          match ← read databaseTime with
          | .error e => pure (.skipped, some e)
          | .ok now =>
            if ← perform .expired then pure (.skipped, some expired)
            else if now = 0 then pure (.skipped, some .invalidFacts)
            else if now < deadlineAt then pure (.notReady, none)
            else
              match ← Controller.requestTimeout facts.id with
              | .error e => pure (.skipped, some e)
              | .ok d => handleDecision stopping facts.id d

def completeRound (id : ℕ) (target : InstanceStatus) (summary : Option String) :
    Proc (CheckOutcome × Option Err) := do
  match ← complete id target summary with
  | .error e => pure (.skipped, some e)
  | .ok false => pure (.notApplied, none)
  | .ok true => pure (.terminal, none)

/-- The facts of a running round. -/
def checkRunning (stopping : Bool) (id : ℕ) (facts : InstanceCompletion) :
    Proc (CheckOutcome × Option Err) :=
  let config := facts.executionConfig
  if config.schemaVersion ≠ 1 then pure (.skipped, some .invalidConfig)
  else if config.executionMode = .sharded then pure (.skipped, none)
  else if config.postEnabled then pure (.skipped, some .invalidConfig)
  else match facts.taskId, facts.taskStatus with
    | none, _ => notReady stopping facts
    | some _, none => pure (.skipped, some .invalidFacts)
    | some taskId, some status =>
      if taskId = 0 then pure (.skipped, some .invalidFacts)
      else match status with
        | .waiting | .running | .retryWaiting => notReady stopping facts
        | .canceled => notReady stopping facts
        | .succeeded => completeRound id .succeeded facts.resultSummary
        | .failed => completeRound id .failed facts.resultSummary

def check (stopping : Bool) (id : ℕ) : Proc (CheckOutcome × Option Err) :=
  if id = 0 then pure (.skipped, some (.message "instance check ID must be positive"))
  else do
    if ← perform .expired then pure (.skipped, some expired)
    else
      match ← read (findCompletion id) with
      | .error e => pure (.skipped, some e)
      | .ok none => pure (.skipped, none)
      | .ok (some facts) =>
        if facts.id ≠ id then pure (.skipped, some .invalidFacts)
        else match facts.status with
          | .succeeded | .failed | .canceled => pure (.terminal, none)
          | .waiting => pure (.skipped, none)
          | .stopping => do
            resumeStopping stopping id
            pure (.stopping, none)
          | .running => checkRunning stopping id facts

end Checker

end Dogx.Job
