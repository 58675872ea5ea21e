import Dogx.Job.Repository.Definition
import Dogx.Job.Dispatch

/-!
# Triggers

`schedule.Next`, and `Creator` of package `trigger`: manual requests and automatic due hints
become waiting instances, each decision in one transaction under the lock of the job.
-/

namespace Dogx.Job

namespace Schedule

/-- Six fields, at most 128 characters, no timezone of its own. -/
def parse (env : Env) (expr : String) : Except Err (ℕ → ℕ) :=
  let expr := Text.trimSpace expr
  if Text.containsNul expr ∨ 128 < Text.runeCount expr ∨ Text.fieldCount expr ≠ 6 then
    .error (.message "cron must contain six fields and at most 128 characters")
  else if Text.startsWith expr "TZ=" ∨ Text.startsWith expr "CRON_TZ=" then
    .error (.message "cron timezone prefixes are not supported")
  else match env.cron expr with
    | none => .error (.message "cron expression is invalid")
    | some schedule => .ok schedule

/-- The first occurrence strictly later than `after`. -/
def next (env : Env) (expr : String) (after : ℕ) : Except Err ℕ :=
  match parse env expr with
  | .error e => .error e
  | .ok schedule =>
    if schedule after = 0 ∨ ¬ after < schedule after then
      .error (.message "cron has no next occurrence within the supported search range")
    else .ok (schedule after)

theorem lt_of_next {env : Env} {expr : String} {after t : ℕ}
    (h : next env expr after = .ok t) : after < t := by
  unfold next at h
  split at h
  · simp at h
  · next schedule _ =>
    split at h
    · simp at h
    · next hn =>
      cases h
      omega

end Schedule

namespace Creator

open JobInstanceRepository

def misfireTolerance : ℕ := 5 * second

/-- The permit of a creation call; a manual request does not wait for one. -/
def acquire (wait : Bool) : Proc (Except Err Unit) := do
  if ← perform .expired then pure (.error expired)
  else if ← perform (.acquire wait) then pure (.ok ())
  else pure (.error (if wait then expired else .capacityBusy))

/-- The settings of the job as a new round freezes them. -/
def snapshot (j : JobDefinition) : JobInstance :=
  { id := 0, jobId := j.id, jobName := j.name, executorGroupId := j.executorGroupId
    triggerType := .scheduled, scheduledAt := none, requestId := none, paramsOverridden := false
    triggeredBy := none
    executionConfig :=
      { schemaVersion := 1, processorName := j.processorName, executionMode := j.executionMode
        postEnabled := j.postEnabled, params := j.params, maxRetries := j.maxRetries
        retryIntervalSeconds := j.retryIntervalSeconds, timeoutSeconds := j.timeoutSeconds }
    status := .waiting, startedAt := none, deadlineAt := none, finishedAt := none
    endReason := none, resultSummary := none }

/-! ## Manual triggers -/

def normalizeParams (value : String) : Except Err String :=
  if Text.containsNul value then .error .invalidInput else .ok (Text.trimSpace value)

/-- The prior request was made with the same override. -/
def sameRequest (prior : ManualIdentity) (input : ManualTrigger) : Bool :=
  prior.paramsOverridden = input.paramsOverridden &&
    (!input.paramsOverridden || prior.overrideParams = some input.params)

def replay (prior : ManualIdentity) (input : ManualTrigger) : Except Err ℕ :=
  if sameRequest prior input then .ok prior.id else .error .requestConflict

def manualSnapshot (j : JobDefinition) (input : ManualTrigger) : JobInstance :=
  let s := snapshot j
  { s with
    triggerType := .manual, requestId := some input.requestId
    paramsOverridden := input.paramsOverridden, triggeredBy := some input.operatorId
    executionConfig :=
      if input.paramsOverridden then { s.executionConfig with params := input.params }
      else s.executionConfig }

def replayTx (prior : ManualIdentity) (input : ManualTrigger) : Tx (ℕ × Bool) :=
  match replay prior input with
  | .error e => throw e
  | .ok id => pure (id, false)

/-- No earlier round answers the request. The insert may still meet one that committed since. -/
def createManual (j : JobDefinition) (input : ManualTrigger) : Tx (ℕ × Bool) := do
  match ← insert (manualSnapshot j input) with
  | some id => pure (id, true)
  | none =>
    match ← select (findManual input.jobId input.requestId) with
    | none => throw .indeterminate
    | some prior => replayTx prior input

/-- The job is locked. A round that stands for the request answers it, whatever has changed since. -/
def manualLocked (j : JobDefinition) (input : ManualTrigger) : Tx (ℕ × Bool) := do
  match ← select (findManual input.jobId input.requestId) with
  | some prior => replayTx prior input
  | none =>
    if !(← select (ExecutorGroupRepository.available j.executorGroupId)) then
      throw .executorGroupUnavailable
    else if j.blockPolicy = .discard then do
      if ← select (hasActive j.id) then throw .blocked else createManual j input
    else createManual j input

def triggerManualTx (input : ManualTrigger) : Tx (ℕ × Bool) := do
  let j ← JobDefinitionRepository.lock input.jobId
  manualLocked j input

/-- The call has its permit and reaches its transaction. -/
def enterManual (input : ManualTrigger) : Proc (Except Err ℕ) := do
  match ← transact (fun r => .triggerManual input r.1 r.2) (triggerManualTx input) with
  | .error e => pure (.error e)
  | .ok (id, created) =>
    if created then do
      perform (.hint id)
      pure (.ok id)
    else pure (.ok id)

def triggerManual (input : ManualTrigger) : Proc (Except Err ℕ) :=
  returning (.manual input) <|
    if input.jobId = 0 ∨ input.operatorId = 0 ∨ (!input.paramsOverridden ∧ input.params ≠ "") then
      pure (.error .invalidInput)
    else match normalizeParams input.params with
      | .error e => pure (.error e)
      | .ok params => do
        match ← acquire false with
        | .error e => pure (.error e)
        | .ok () => do
          perform .entered
          enterManual { input with params }

/-! ## Automatic triggers -/

/-- The result of a decision that neither creates nor advances. -/
def skip (decisionAt : ℕ) (reason : String) : AutomaticResult × ℕ := ({ reason }, decisionAt)

/-- The occurrence exceeds the lateness tolerance. -/
def misfired (decisionAt scheduledAt : ℕ) : Bool := misfireTolerance < decisionAt - scheduledAt

/-- The occurrence becomes a round, unless one already stands for it. -/
def createOccurrence (j : JobDefinition) (decisionAt scheduledAt : ℕ) : Tx AutomaticResult := do
  match ← insert { snapshot j with
      triggerType := if misfired decisionAt scheduledAt then .misfire else .scheduled
      scheduledAt := some scheduledAt } with
  | some id => pure { instanceId := id, created := true, reason := "created" }
  | none => pure { reason := "duplicate" }

def decideOccurrence (j : JobDefinition) (id : ℕ) (decisionAt scheduledAt : ℕ) :
    Tx AutomaticResult :=
  if misfired decisionAt scheduledAt ∧ j.misfirePolicy = .ignore then
    pure { reason := "misfire_ignored" }
  else if j.blockPolicy = .discard then do
    if ← select (hasActive id) then pure { reason := "blocked" }
    else createOccurrence j decisionAt scheduledAt
  else createOccurrence j decisionAt scheduledAt

def triggerLocked (env : Env) (id : ℕ) (j : JobDefinition) (decisionAt : ℕ) :
    Tx (AutomaticResult × ℕ) :=
  if j.status ≠ .enabled then pure (skip decisionAt "disabled")
  else match j.nextTriggerAt with
    | none => pure (skip decisionAt "not_due")
    | some scheduledAt =>
      if decisionAt < scheduledAt then pure (skip decisionAt "not_due")
      else match Schedule.next env j.cronExpr decisionAt with
        | .error e => throw e
        | .ok next => do
          let result ← decideOccurrence j id decisionAt scheduledAt
          JobDefinitionRepository.advance id next
          pure (result, decisionAt)

/-- A missing or deleted job is a normal skip; no decision time is read for it. -/
def triggerAutomaticTx (env : Env) (id : ℕ) : Tx (AutomaticResult × ℕ) := do
  match ← lockRow .job id false with
  | .busy => pure (skip 0 "not_found")
  | .row none => pure (skip 0 "not_found")
  | .row (some j) =>
    if j.deletedAt.isSome then pure (skip 0 "not_found")
    else do
      let decisionAt ← input .clock
      triggerLocked env id j decisionAt

def triggerAutomatic (env : Env) (id : ℕ) : Proc (Except Err AutomaticResult) :=
  returning (.automatic id) <|
    if id = 0 then pure (.error .invalidInput)
    else do
      match ← acquire true with
      | .error e => pure (.error e)
      | .ok () =>
        match ← transact (fun r => .triggerAutomatic id r.2 r.1) (triggerAutomaticTx env id) with
        | .error e => pure (.error e)
        | .ok (result, _) =>
          if result.created then do
            perform (.hint result.instanceId)
            pure (.ok result)
          else pure (.ok result)

end Creator

end Dogx.Job
