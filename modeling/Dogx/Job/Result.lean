import Dogx.Job.Dispatch

/-!
# Results and unknown results

`Saver` of package `taskresult` decides from an unlocked read what a report does to its task and
writes that decision conditionally. `Settler` of package `taskrecovery` closes attempts that have
had no executor for an observation period, each by a write of its own.
-/

namespace Dogx.Job

open JobTaskRepository

namespace Saver

def discardResult (reason : String) : SaveResult := { applied := false, reason }

def finished (instanceId : ℕ) (applied : Bool) (reason : String) : Proc (Except Err SaveResult) := do
  perform (.hint instanceId)
  pure (.ok { applied, reason })

def resultWrite (target : TaskResultTarget) (report : Report) (identity : Uuid) :
    Except Err TaskResultWrite :=
  let config := target.executionConfig
  if config.schemaVersion ≠ 1 ∨ config.executionMode ≠ .normal then .error .invalidExecutionConfig
  else if report.outcome = .success then
    .ok { taskId := report.taskId, instanceId := report.instanceId, attemptNo := report.attemptNo
          executorInstanceId := identity, status := .succeeded, data := report.data
          summary := report.summary, retryIntervalSeconds := 0 }
  else if config.maxRetries < 0 ∨ config.retryIntervalSeconds ≤ 0 then .error .invalidExecutionConfig
  else if target.usedAttempts ≤ 0 then .error .invalidStoredState
  else if target.usedAttempts < config.maxRetries + 1 then
    .ok { taskId := report.taskId, instanceId := report.instanceId, attemptNo := report.attemptNo
          executorInstanceId := identity, status := .retryWaiting, data := none
          summary := report.summary, retryIntervalSeconds := config.retryIntervalSeconds }
  else
    .ok { taskId := report.taskId, instanceId := report.instanceId, attemptNo := report.attemptNo
          executorInstanceId := identity, status := .failed, data := none
          summary := report.summary, retryIntervalSeconds := 0 }

/-- The identities of the report are complete and its executor is a canonical UUIDv4. -/
def validReport (report : Report) (identity : Uuid) : Bool :=
  report.groupId ≠ 0 && report.jobId ≠ 0 && report.instanceId ≠ 0 && report.taskId ≠ 0 &&
    0 < report.attemptNo && identity.isV4 && identity.text = report.executorInstanceId &&
    (report.outcome = .success || report.outcome = .failure)

def validOutput (env : Env) (report : Report) : Bool :=
  !Text.containsNul report.summary &&
    !(report.outcome = .success &&
      (report.preparedItems.isSome || report.data.any fun d => !env.jsonValid d))

/-- The write of a decided result, and the probe of its data after a data exception. -/
def saveDecided (env : Env) (target : TaskResultTarget) (report : Report) (w : TaskResultWrite) :
    Proc (Except Err SaveResult) := do
  match ← saveResult env w with
  | .ok false => finished target.instanceId false "no_match"
  | .ok true => finished target.instanceId true "saved"
  | .error e =>
    let late ← perform .expired
    match report.data, e with
    | some data, .fault (.database _ true) =>
      if !late && report.outcome = .success then do
        match ← read fun _ => env.jsonbValid data with
        | .ok false => pure (.ok (discardResult "invalid_output"))
        | .ok true => pure (.error e)
        | .error _ => pure (.error e)
      else pure (.error e)
    | _, _ => pure (.error e)

/-- What the stored facts make of a report that names them. -/
def saveTarget (env : Env) (report : Report) (identity : Uuid) (target : TaskResultTarget) :
    Proc (Except Err SaveResult) :=
  if target.taskId ≠ report.taskId ∨ target.instanceId ≠ report.instanceId ∨
      target.jobId ≠ report.jobId ∨ target.executorGroupId ≠ report.groupId then
    pure (.ok (discardResult "ownership_mismatch"))
  else if target.attemptNo ≠ report.attemptNo then
    finished target.instanceId false "stale_attempt"
  else if target.status ≠ .running then finished target.instanceId false "task_closed"
  else if target.executorInstanceId.isSome ∧ target.executorInstanceId ≠ some identity then
    finished target.instanceId false "executor_mismatch"
  else if target.taskType ≠ .ordinary then pure (.error .unsupportedTaskType)
  else if !validOutput env report then pure (.ok (discardResult "invalid_output"))
  else match resultWrite target report identity with
    | .error e => pure (.error e)
    | .ok w => saveDecided env target report w

def save (env : Env) (report : Report) : Proc (Except Err SaveResult) := do
  if ← perform .expired then pure (.error expired)
  else match Uuid.parse report.executorInstanceId with
    | none => pure (.ok (discardResult "invalid_report"))
    | some identity =>
      if !validReport report identity then pure (.ok (discardResult "invalid_report"))
      else
        match ← read (findResultTarget report.taskId) with
        | .error e => pure (.error e)
        | .ok none => pure (.ok (discardResult "missing_target"))
        | .ok (some target) => saveTarget env report identity target

end Saver

namespace Settler

def maxBatchSize : ℕ := 16

/-- The opportunities and the retry interval of a normal round; `none` for a sharded one. -/
def frozenBudget (config : ExecutionConfig) : Except Err (Option (Int × Int)) :=
  if config.schemaVersion ≠ 1 then .error .invalidConfig
  else if config.executionMode = .sharded then .ok none
  else if config.maxRetries < 0 ∨ config.retryIntervalSeconds ≤ 0 then .error .invalidConfig
  else .ok (some (config.maxRetries + 1, config.retryIntervalSeconds))

/-- The round of an eligible attempt, once it is known to be running. -/
def prepareRunning (c : UnboundCandidate) (target : UnboundTarget) (processedAt cutoff : ℕ) :
    Proc (Except Err (Option UnknownSettlement)) :=
  match target.startedAt, target.deadlineAt with
  | some startedAt, some deadlineAt =>
    if startedAt = 0 ∨ ¬ startedAt < deadlineAt then pure (.ok none)
    else if ¬ processedAt < deadlineAt then do
      perform (.hint c.instanceId)
      pure (.ok none)
    else match frozenBudget target.executionConfig with
      | .error e => pure (.error e)
      | .ok none => pure (.ok none)
      | .ok (some (maxAttempts, interval)) =>
        pure (.ok (some
          { taskId := c.taskId, instanceId := c.instanceId, expectedAttemptNo := c.attemptNo
            maxAttempts, processedAt, observationCutoff := cutoff
            retryAt := addSeconds processedAt interval }))
  | _, _ => pure (.ok none)

def prepare (observationPeriod : ℕ) (c : UnboundCandidate) (target : UnboundTarget)
    (processedAt : ℕ) : Proc (Except Err (Option UnknownSettlement)) :=
  let cutoff := processedAt - observationPeriod
  if target.instanceId ≠ c.instanceId ∨ target.attemptNo ≠ c.attemptNo then pure (.ok none)
  else if target.taskType ≠ .ordinary then pure (.ok none)
  else if target.status ≠ .running then pure (.ok none)
  else if target.executorInstanceId.isSome ∨ target.executorAddress.isSome then pure (.ok none)
  else match target.attemptRegisteredAt with
    | none => pure (.ok none)
    | some registeredAt =>
      if registeredAt = 0 then pure (.ok none)
      else if cutoff < registeredAt then pure (.ok none)
      else match target.instanceStatus with
        | .succeeded | .failed | .canceled => pure (.ok none)
        | .stopping => do
          perform (.hint c.instanceId)
          pure (.ok none)
        | .waiting => pure (.ok none)
        | .running => prepareRunning c target processedAt cutoff

/-- One write: what became of it, and whether its budget ran out meanwhile. -/
def settleOne (c : UnboundCandidate) (w : UnknownSettlement) :
    Proc (Except Err Bool × Bool) := do
  let settled ← settleOrdinaryUnknown w
  let late ← perform .expired
  match settled with
  | .error e => pure (.error e, late)
  | .ok none => pure (.ok false, late)
  | .ok (some t) =>
    if t.taskId ≠ c.taskId ∨ t.instanceId ≠ c.instanceId ∨ t.attemptNo ≠ c.attemptNo ∨
        (t.status ≠ .retryWaiting ∧ t.status ≠ .failed) then
      pure (.error .invalidFacts, late)
    else do
      perform (.hint c.instanceId)
      pure (.ok true, late)

/-- The candidates in their original order, with one write and one commit for each. -/
def settleEach (observationPeriod : ℕ) (targets : List UnboundTarget) (processedAt : ℕ) :
    List UnboundCandidate → SettleResult → Proc (SettleResult × Option Err)
  | [], result => pure (result, none)
  | c :: cs, result => do
    if ← perform .expired then pure (result, some expired)
    else
      let skipped := { result with processed := result.processed + 1 }
      match targets.find? fun t => t.taskId = c.taskId with
      | none => settleEach observationPeriod targets processedAt cs skipped
      | some target =>
        match ← prepare observationPeriod c target processedAt with
        | .error e => pure (result, some e)
        | .ok none => settleEach observationPeriod targets processedAt cs skipped
        | .ok (some w) =>
          if ← perform .expired then pure (result, some expired)
          else
            match ← settleOne c w with
            | (.error e, _) => pure (skipped, some e)
            | (.ok applied, late) =>
              let done := if applied then { skipped with applied := result.applied + 1 } else skipped
              if late then pure (done, some expired)
              else settleEach observationPeriod targets processedAt cs done

def settleBatch (observationPeriod : ℕ) (candidates : List UnboundCandidate) :
    Proc (SettleResult × Option Err) :=
  let ids := candidates.map UnboundCandidate.taskId
  if maxBatchSize < candidates.length then
    pure ({}, some (.message "unknown-settlement batch exceeds its limit"))
  else if candidates = [] then pure ({}, none)
  else if candidates.any fun c =>
      c.taskId = 0 || c.instanceId = 0 || c.attemptNo ≤ 0 || c.attemptRegisteredAt = 0 then
    pure ({}, some (.message "invalid unknown-settlement candidate"))
  else do
    if ← perform .expired then pure ({}, some expired)
    else
      match ← read JobInstanceRepository.databaseTime with
      | .error e => pure ({}, some e)
      | .ok processedAt =>
        if ← perform .expired then pure ({}, some expired)
        else if processedAt = 0 then pure ({}, some .invalidFacts)
        else
          match ← read (findUnboundTargets ids) with
          | .error e => pure ({}, some e)
          | .ok targets =>
            if ← perform .expired then pure ({}, some expired)
            else if targets.any (fun t => t.taskId ∉ ids) ||
                !(targets.map UnboundTarget.taskId).Nodup then
              pure ({}, some .invalidFacts)
            else settleEach observationPeriod targets processedAt candidates {}

end Settler

end Dogx.Job
