import Dogx.Job.Repository.Instance

/-!
# Job and group statements

The statements of `job_definition_repository.go` and `executor_group_repository.go` that the
triggers and the management operations use. Reads and writes of the model chain skip soft-deleted
rows; the locking reads look at the physical row first.
-/

namespace Dogx.Job

open Txn (Verdict)

namespace JobDefinitionRepository

/-- The physical row is locked first, a deletion by the previous holder is seen after that. -/
def lock (id : ℕ) : Tx JobDefinition := do
  match ← lockRow .job id false with
  | .busy => throw .jobNotFound
  | .row none => throw .jobNotFound
  | .row (some j) => if j.deletedAt.isSome then throw .jobNotFound else pure j

def create (j : JobDefinition) : Tx ℕ := do
  match ← insertRow .job fun id => { j with id, deletedAt := none } with
  | none => throw (.message "create job")
  | some id => pure id

/-- `UPDATE … WHERE id = ? AND deleted_at IS NULL AND p`. -/
def writeWhere (p : JobDefinition → Bool) (f : JobDefinition → JobDefinition) :
    View → JobDefinition → Verdict JobDefinition :=
  updateWhere (fun j => j.deletedAt = none && p j) fun _ => f

/-- Tells a missing job from one whose state did not match. -/
def checkWrite (id : ℕ) (changed : Option JobDefinition) : Tx Unit :=
  match changed with
  | some _ => pure ()
  | none => do
    match ← select fun v => v.rows .job id with
    | none => throw .jobNotFound
    | some j => if j.deletedAt.isSome then throw .jobNotFound else throw .jobStateNotAllowed

def enableSet (next : ℕ) (old : JobDefinition) : JobDefinition :=
  { old with status := .enabled, nextTriggerAt := some next }

def disableSet (old : JobDefinition) : JobDefinition := { old with status := .disabled }

def deleteSet (now : ℕ) (old : JobDefinition) : JobDefinition := { old with deletedAt := some now }

def advanceSet (next : ℕ) (old : JobDefinition) : JobDefinition :=
  { old with nextTriggerAt := some next }

/-- The configuration columns, as `Update` writes them. -/
def updateSet (j : JobDefinition) (old : JobDefinition) : JobDefinition :=
  { old with
    name := j.name, remark := j.remark, executorGroupId := j.executorGroupId
    processorName := j.processorName, executionMode := j.executionMode
    postEnabled := j.postEnabled, params := j.params, cronExpr := j.cronExpr
    misfirePolicy := j.misfirePolicy, blockPolicy := j.blockPolicy, maxRetries := j.maxRetries
    retryIntervalSeconds := j.retryIntervalSeconds, timeoutSeconds := j.timeoutSeconds }

def update (id : ℕ) (j : JobDefinition) : Tx Unit := do
  let changed ← updateRow .job id (writeWhere (fun old => old.status = .disabled) (updateSet j))
  checkWrite id changed

def enable (id : ℕ) (next : ℕ) : Tx Unit := do
  let changed ← updateRow .job id (writeWhere (fun old => old.status = .disabled) (enableSet next))
  checkWrite id changed

/-- The update commits on its own, the check after it is another statement. -/
def disable (id : ℕ) : Proc (Except Err Unit) := do
  let changed ← transact (.disableJob id) do
    let changed ← updateRow .job id (writeWhere (fun _ => true) disableSet)
    pure changed.isSome
  match changed with
  | .error e => pure (.error e)
  | .ok true => pure (.ok ())
  | .ok false =>
    match ← read fun v => v.rows .job id with
    | .error e => pure (.error e)
    | .ok none => pure (.error .jobNotFound)
    | .ok (some j) =>
      pure (.error (if j.deletedAt.isSome then .jobNotFound else .jobStateNotAllowed))

def delete (id : ℕ) (now : ℕ) : Tx Unit := do
  let changed ← updateRow .job id (writeWhere (fun old => old.status = .disabled) (deleteSet now))
  checkWrite id changed

def advance (id : ℕ) (next : ℕ) : Tx Unit := do
  let changed ← updateRow .job id (writeWhere (fun old => old.status = .enabled) (advanceSet next))
  checkWrite id changed

def hasGroupReferences (groupId : ℕ) (v : View) : Bool :=
  (v.all .job).any fun j => j.deletedAt = none && j.executorGroupId = groupId

end JobDefinitionRepository

namespace ExecutorGroupRepository

/-- Both identities stay reserved after a deletion; the index on the name was created first. -/
def create (g : ExecutorGroup) : Proc (Except Err ℕ) :=
  transact .createExecutorGroup do
    match ← insertRow .group fun id => { g with id, deletedAt := none } with
    | some id => pure id
    | none =>
      let named ← select fun v => (v.all .group).any fun g' => g'.name = g.name
      throw (if named then .executorGroupNameExists else .executorGroupDiscoveryKeyExists)

def delete (id : ℕ) (now : ℕ) : Tx Unit := do
  match ← updateRow .group id (updateWhere (fun g : ExecutorGroup => g.deletedAt = none)
      fun _ g => { g with deletedAt := some now }) with
  | none => throw .executorGroupUnavailable
  | some _ => pure ()

def lockAvailable (id : ℕ) : Tx Unit := do
  match ← lockRow .group id false with
  | .busy => throw .executorGroupUnavailable
  | .row none => throw .executorGroupUnavailable
  | .row (some g) => if g.deletedAt.isSome then throw .executorGroupUnavailable else pure ()

def available (id : ℕ) (v : View) : Bool := (v.rows .group id).any fun g => g.deletedAt = none

end ExecutorGroupRepository

end Dogx.Job
