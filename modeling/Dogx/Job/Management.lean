import Dogx.Job.Trigger
import Dogx.Job.Stop

/-!
# Management operations

The RPC logic that creates, changes, enables, disables and deletes jobs and executor groups, and
stops a round by hand. Errors keep the identity the boundary maps to business codes; the codes and
texts of those responses are left out.
-/

namespace Dogx.Job

namespace Management

/-! ## Validation -/

/-- Checked before trimming: NUL never becomes valid input. -/
def normalizeText (value : String) (required : Bool) (capacity : ℕ) : Except Err String :=
  if Text.containsNul value then .error .invalidInput
  else
    let value := Text.trimSpace value
    if (required ∧ value = "") ∨ (0 < capacity ∧ capacity < Text.runeCount value) then
      .error .invalidInput
    else .ok value

def executionModeOf (n : Int) : Option ExecutionMode :=
  if n = 1 then some .normal else if n = 2 then some .sharded else none

def misfirePolicyOf (n : Int) : Option MisfirePolicy :=
  if n = 0 then some .ignore else if n = 1 then some .once else none

def blockPolicyOf (n : Int) : Option BlockPolicy :=
  if n = 0 then some .discard else if n = 1 then some .parallel else none

def statusOf (n : Int) : Option RecordStatus :=
  if n = 0 then some .disabled else if n = 1 then some .enabled else none

/-- The members that only a creation may leave out. -/
def complete (c : JobInput) : Bool :=
  c.executionMode.isSome && c.postEnabled.isSome && c.misfirePolicy.isSome &&
    c.blockPolicy.isSome && c.maxRetries.isSome && c.retryIntervalSeconds.isSome

def normalizeInput (env : Env) (c : JobInput) (create : Bool) (now : ℕ) :
    Except Err JobDefinition :=
  if c.executorGroupId = 0 ∨ c.timeoutSeconds ≤ 0 then .error .invalidInput
  else if !create ∧ !complete c then .error .invalidInput
  else
    let retries := c.maxRetries.getD 3
    let interval := c.retryIntervalSeconds.getD 10
    let post := c.postEnabled.getD false
    match executionModeOf (c.executionMode.getD 1), misfirePolicyOf (c.misfirePolicy.getD 0),
        blockPolicyOf (c.blockPolicy.getD 0) with
    | some execution, some misfire, some block =>
      if (execution = .normal ∧ post) ∨ retries < 0 ∨ interval ≤ 0 then .error .invalidInput
      else do
        let name ← normalizeText c.name true 128
        let remark ← normalizeText c.remark false 500
        let processorName ← normalizeText c.processorName true 128
        let params ← normalizeText c.params false 0
        let cronExpr ← normalizeText c.cronExpr true 128
        match Schedule.next env cronExpr now with
        | .error _ => .error .invalidInput
        | .ok _ =>
          .ok { id := 0, deletedAt := none, name, remark, executorGroupId := c.executorGroupId
                processorName, executionMode := execution, postEnabled := post, params, cronExpr
                status := .disabled, misfirePolicy := misfire, blockPolicy := block
                maxRetries := retries, retryIntervalSeconds := interval
                timeoutSeconds := c.timeoutSeconds, nextTriggerAt := none }
    | _, _, _ => .error .invalidInput

/-- Enabling rechecks the stored settings without rewriting them. -/
def validateStoredDefinition (j : JobDefinition) : Except Err Unit := do
  let _ ← normalizeText j.name true 128
  let _ ← normalizeText j.remark false 500
  let _ ← normalizeText j.processorName true 128
  let _ ← normalizeText j.params false 0
  let _ ← normalizeText j.cronExpr true 128
  if j.executorGroupId = 0 ∨ (j.executionMode = .normal ∧ j.postEnabled) ∨ j.maxRetries < 0 ∨
      j.retryIntervalSeconds ≤ 0 ∨ j.timeoutSeconds ≤ 0 then
    .error .invalidInput
  else .ok ()

def validGroupIdentity (value : String) (capacity : ℕ) : Bool :=
  value ≠ "" && value = Text.trimSpace value && !Text.containsNul value &&
    Text.runeCount value ≤ capacity

/-! ## Groups -/

def createExecutorGroup (name discoveryKey : String) : Proc (Except Err ℕ) :=
  if !validGroupIdentity name 128 ∨ !validGroupIdentity discoveryKey 255 then
    pure (.error .invalidInput)
  else do
    match ← perform .random with
    | none => pure (.error (.message "generate executor group credential"))
    | some identity =>
      ExecutorGroupRepository.create
        { id := 0, deletedAt := none, name, discoveryKey, token := String.ofList identity.hex }

def deleteExecutorGroupTx (id : ℕ) : Tx Unit := do
  ExecutorGroupRepository.lockAvailable id
  if ← select (JobDefinitionRepository.hasGroupReferences id) then throw .executorGroupInUse
  -- an old round keeps its group after its job has moved
  else if ← select (JobInstanceRepository.hasActiveForGroup id) then throw .executorGroupInUse
  else do
    let now ← input .clock
    ExecutorGroupRepository.delete id now

def deleteExecutorGroup (id : ℕ) : Proc (Except Err Unit) :=
  if id = 0 then pure (.error .invalidInput)
  else transact (fun _ => .deleteExecutorGroup id) (deleteExecutorGroupTx id)

/-! ## Jobs -/

/-- One hint after a confirmed commit, unless the caller is gone. -/
def notifyJobChanged : Proc Unit := do
  if ← perform .expired then pure ()
  else do
    perform .notifyJobChanged
    pure ()

/-- A change of the configuration, and the hint once it is committed. -/
def notifying {α : Type} (p : Proc (Except Err α)) : Proc (Except Err α) := do
  match ← p with
  | .error e => pure (.error e)
  | .ok a => do
    notifyJobChanged
    pure (.ok a)

/-- The new row, with the decision time it goes into the history under. -/
def createJobTx (env : Env) (definition : JobDefinition) : Tx (ℕ × Option ℕ) := do
  ExecutorGroupRepository.lockAvailable definition.executorGroupId
  if definition.status = .enabled then do
    let now ← input .clock
    match Schedule.next env definition.cronExpr now with
    | .error _ => throw .invalidInput
    | .ok next => do
      let id ← JobDefinitionRepository.create { definition with nextTriggerAt := some next }
      pure (id, some now)
  else do
    let id ← JobDefinitionRepository.create definition
    pure (id, none)

def createJob (env : Env) (config : JobInput) (status : Option Int) : Proc (Except Err ℕ) :=
  match status.map statusOf with
  | some none => pure (.error .invalidInput)
  | chosen => do
    let now ← perform .clock
    match normalizeInput env config true now with
    | .error e => pure (.error e)
    | .ok definition =>
      let definition := { definition with status := (chosen.bind id).getD definition.status }
      match ← notifying (transact (fun r => .createJob r.1 r.2) (createJobTx env definition)) with
      | .error e => pure (.error e)
      | .ok (id, _) => pure (.ok id)

def updateJobTx (id : ℕ) (definition : JobDefinition) : Tx Unit := do
  -- the group before the job, in the order of a group deletion
  ExecutorGroupRepository.lockAvailable definition.executorGroupId
  JobDefinitionRepository.update id definition

def updateJob (env : Env) (id : ℕ) (config : JobInput) : Proc (Except Err Unit) :=
  if id = 0 then pure (.error .invalidInput)
  else do
    let now ← perform .clock
    match normalizeInput env config false now with
    | .error e => pure (.error e)
    | .ok definition => notifying (transact (fun _ => .updateJob id) (updateJobTx id definition))

/-- An enabled job stays as it is; its next trigger time is not reset, and there is no decision. -/
def enableJobTx (env : Env) (id : ℕ) : Tx (Option ℕ) := do
  let j ← JobDefinitionRepository.lock id
  if j.status = .enabled then pure none
  else if !(← select (ExecutorGroupRepository.available j.executorGroupId)) then
    throw .executorGroupUnavailable
  else match validateStoredDefinition j with
    | .error e => throw e
    | .ok () => do
      let now ← input .clock
      match Schedule.next env j.cronExpr now with
      | .error _ => throw .invalidInput
      | .ok next => do
        JobDefinitionRepository.enable id next
        pure (some now)

def updateJobStatus (env : Env) (id : ℕ) (status : Option Int) : Proc (Except Err Unit) :=
  match if id = 0 then none else status.bind statusOf with
  | none => pure (.error .invalidInput)
  | some .disabled => notifying (JobDefinitionRepository.disable id)
  | some .enabled => do
    match ← notifying (transact (.enableJob id) (enableJobTx env id)) with
    | .error e => pure (.error e)
    | .ok _ => pure (.ok ())

def deleteJobTx (id : ℕ) : Tx Unit := do
  let j ← JobDefinitionRepository.lock id
  if j.status ≠ .disabled then throw .jobStateNotAllowed
  else if ← select (JobInstanceRepository.hasActive id) then throw .jobActiveInstances
  else do
    let now ← input .clock
    JobDefinitionRepository.delete id now

def deleteJob (id : ℕ) : Proc (Except Err Unit) :=
  if id = 0 then pure (.error .invalidInput)
  else notifying (transact (fun _ => .deleteJob id) (deleteJobTx id))

/-! ## Rounds -/

def stopInstance (id : ℕ) : Proc (Except Err Decision) :=
  if id = 0 then pure (.error .invalidInput)
  else do
    match ← Controller.requestManual id with
    | .error e => pure (.error e)
    | .ok d =>
      if d.new then do
        perform (.afterStop d)
        pure (.ok d)
      else pure (.ok d)

end Management

end Dogx.Job
