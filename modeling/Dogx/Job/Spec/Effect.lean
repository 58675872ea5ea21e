import Dogx.Job.Service

/-!
# What a transaction means

`Effect env w op writes` says of a whole transaction what it does in one step: over the committed
world `w` it takes effect as `op` with exactly the rows `writes`. There are no statements, locks or
interleavings in it. Every transaction of the service is shown to have such an effect at the moment
it commits, whatever happened between its statements.
-/

namespace Dogx.Job

open Txn (Store)
open JobTaskRepository JobInstanceRepository JobDefinitionRepository

abbrev noWrites : Db := Store.empty

def ExecutionConfig.Ordinary (c : ExecutionConfig) : Prop :=
  Registrar.decodeConfig c = .ok c ∧ c.executionMode = .normal

def firstAttempt (i : JobInstance) (startedAt taskId : ℕ) : RegisteredAttempt :=
  { jobId := i.jobId, instanceId := i.id, executorGroupId := i.executorGroupId, taskId
    attemptNo := 1, executionConfig := i.executionConfig, registeredAt := startedAt
    deadlineAt := addSeconds startedAt i.executionConfig.timeoutSeconds }

def retryRegistration (c : RetryCandidate) (i : JobInstance) (registeredAt : ℕ) :
    RetryRegistration :=
  { taskId := c.taskId, instanceId := c.instanceId, expectedAttemptNo := c.attemptNo
    maxAttempts := i.executionConfig.maxRetries + 1, registeredAt }

def nextAttempt (c : RetryCandidate) (i : JobInstance) (registeredAt deadlineAt : ℕ) :
    RegisteredAttempt :=
  { jobId := i.jobId, instanceId := i.id, executorGroupId := i.executorGroupId, taskId := c.taskId
    attemptNo := c.attemptNo + 1, executionConfig := i.executionConfig, registeredAt, deadlineAt }

structure Open (i : JobInstance) (at_ deadlineAt : ℕ) : Prop where
  running : i.status = .running
  started : ∃ s, i.startedAt = some s ∧ s ≤ at_
  deadline : i.deadlineAt = some deadlineAt
  before : at_ < deadlineAt

def WithinBudget (i : JobInstance) (t : JobTask) (status : TaskStatus) : Prop :=
  (status = .retryWaiting → t.usedAttempts < i.executionConfig.maxRetries + 1) ∧
  (status = .failed → ¬ t.usedAttempts < i.executionConfig.maxRetries + 1)

def occurrence (j : JobDefinition) (decisionAt scheduledAt : ℕ) : JobInstance :=
  { Creator.snapshot j with
    triggerType := if Creator.misfired decisionAt scheduledAt then .misfire else .scheduled
    scheduledAt := some scheduledAt }

def NoActive (db : Db) (jobId : ℕ) : Prop :=
  ∀ id i, db .instance id = some i → i.jobId = jobId → i.status.active = false

def Available (db : Db) (groupId : ℕ) : Prop :=
  ∃ g, db .group groupId = some g ∧ g.deletedAt = none

/-- No job refers to the group, deleted ones apart. -/
def NoReference (db : Db) (groupId : ℕ) : Prop :=
  ∀ id j, db .job id = some j → j.deletedAt = none → j.executorGroupId ≠ groupId

/-- No round that was created for the group is waiting, running or stopping. -/
def NoActiveFor (db : Db) (groupId : ℕ) : Prop :=
  ∀ id i, db .instance id = some i → i.executorGroupId = groupId → i.status.active = false

def NoUnfinished (db : Db) (instanceId : ℕ) : Prop :=
  ∀ id t, db .task id = some t → t.instanceId = instanceId → t.status.unfinished = false

def stopDecision (i : JobInstance) (reason : EndReason) : Decision :=
  { instanceId := i.id, executorGroupId := i.executorGroupId, status := .stopping
    endReason := some reason, new := true }

def stopReason (timeout : Bool) : EndReason := if timeout then .instanceTimeout else .manualStop

def stopSummary (timeout : Bool) : String :=
  if timeout then Controller.timeoutSummary else Controller.manualStopSummary

def Op.quiet : Op → Bool
  | .startOrdinary _ registered => registered.isNone
  | .retryOrdinary _ registered => registered.isNone
  | .bindExecutor _ applied => !applied
  | .saveDispatchBusy _ applied => !applied
  | .saveDispatchRejection _ applied => !applied
  | .saveResult _ applied => !applied
  | .settleOrdinaryUnknown _ settled => settled.isNone
  | .complete _ _ _ changed => !changed
  | .requestStop _ _ decision => !decision.new
  | .processBatch _ result => result.all fun r => !r.completed
  | .triggerManual _ _ created => !created
  | .enableJob _ decisionAt => decisionAt.isNone
  | .disableJob _ disabled => !disabled
  | _ => false

/-! ## Changes of one row -/

/-- What a transaction can do to a task that exists. -/
inductive TaskUpdate (w : World) : Op → ℕ → JobTask → JobTask → Prop where
  | retried {c : RetryCandidate} {registeredAt deadlineAt : ℕ} {i : JobInstance} {t : JobTask}
      (parent : w.db .instance c.instanceId = some i) (ids : i.id = c.instanceId)
      (running : Open i registeredAt deadlineAt) (config : i.executionConfig.Ordinary)
      (past : registeredAt ≤ w.now)
      (waiting : registerWhere (retryRegistration c i registeredAt) t = true) :
      TaskUpdate w (.retryOrdinary c (some (nextAttempt c i registeredAt deadlineAt))) c.taskId t
        (registerSet (retryRegistration c i registeredAt) t)
  | bound {b : ExecutorBinding} {t : JobTask} {now : ℕ} (unbound : bindWhere b t = true) :
      TaskUpdate w (.bindExecutor b true) b.taskId t (bindSet b now t)
  | busy {b : DispatchBusyWrite} {t : JobTask} {now : ℕ}
      (unbound : unboundWhere b.instanceId b.attemptNo t = true) :
      TaskUpdate w (.saveDispatchBusy b true) b.taskId t (busySet b now t)
  | rejected {b : DispatchRejectionWrite} {t : JobTask} {i : JobInstance} {now : ℕ}
      (unbound : unboundWhere b.instanceId b.attemptNo t = true)
      (parent : w.db .instance b.instanceId = some i)
      (policy : i.executionConfig.maxRetries = b.maxRetries) :
      TaskUpdate w (.saveDispatchRejection b true) b.taskId t (rejectionSet b now t)
  | saved {b : TaskResultWrite} {t : JobTask} {i : JobInstance} {now : ℕ}
      (current : resultWhere b t = true)
      (status : b.status = .succeeded ∨ b.status = .retryWaiting ∨ b.status = .failed)
      (parent : w.db .instance b.instanceId = some i) (budget : WithinBudget i t b.status) :
      TaskUpdate w (.saveResult b true) b.taskId t (resultSet b now t)
  | settled {b : UnknownSettlement} {t : JobTask} {i : JobInstance}
      (unbound : settleWhere b t = true) (parent : w.db .instance b.instanceId = some i)
      (policy : i.executionConfig.maxRetries + 1 = b.maxAttempts) {r : SettledTask} :
      TaskUpdate w (.settleOrdinaryUnknown b (some r)) b.taskId t (settleSet b t)
  | canceled {b : TaskCancellation} {t : JobTask} {id : ℕ} {i : JobInstance} {r : BatchResult}
      (parent : w.db .instance b.instanceId = some i) (stopping : i.status = .stopping)
      (frozen : i.endReason = some b.reason) (unfinished : cancelWhere b t = true) :
      TaskUpdate w (.processBatch b.instanceId (some r)) id t (cancelSet b t)

/-- What a transaction can do to a round that exists, besides starting it. -/
inductive InstanceUpdate (w : World) : Op → ℕ → JobInstance → JobInstance → Prop where
  | completed {id taskId now : ℕ} {target : InstanceStatus} {summary : Option String}
      {i : JobInstance} {t : JobTask} (running : completeWhere i = true)
      (task : w.db .task taskId = some t) (child : t.instanceId = id)
      (ordinary : t.taskType = .ordinary)
      (final : (target = .succeeded ∧ t.status = .succeeded) ∨
        (target = .failed ∧ t.status = .failed)) :
      InstanceUpdate w (.complete id target summary true) id i (completeSet target summary now i)
  | stopped {id : ℕ} {timeout : Bool} {i : JobInstance}
      (active : i.status = .running ∨ (i.status = .waiting ∧ timeout = false)) :
      InstanceUpdate w (.requestStop id timeout (stopDecision i (stopReason timeout))) id i
        (stopSet (stopReason timeout) (stopSummary timeout) i)
  | finished {id now : ℕ} {i : JobInstance} {reason : EndReason} {r : BatchResult}
      (stopping : i.status = .stopping) (frozen : i.endReason = some reason)
      (none : NoUnfinished w.db id) :
      InstanceUpdate w (.processBatch id (some r)) id i (finishSet reason now i)

/-- What a transaction can do to a job that exists, besides deciding an occurrence. -/
inductive JobUpdate (env : Env) (w : World) : Op → ℕ → JobDefinition → JobDefinition → Prop where
  | updated {id : ℕ} {j new : JobDefinition} (kept : j.deletedAt = none)
      (disabled : j.status = .disabled) (group : Available w.db new.executorGroupId) :
      JobUpdate env w (.updateJob id) id j (updateSet new j)
  | enabled {id decisionAt next : ℕ} {j : JobDefinition} (kept : j.deletedAt = none)
      (disabled : j.status = .disabled) (occurs : Schedule.next env j.cronExpr decisionAt = .ok next) :
      JobUpdate env w (.enableJob id (some decisionAt)) id j (enableSet next j)
  | disabled {id : ℕ} {j : JobDefinition} (kept : j.deletedAt = none) :
      JobUpdate env w (.disableJob id true) id j (disableSet j)
  | deleted {id now : ℕ} {j : JobDefinition} (kept : j.deletedAt = none)
      (disabled : j.status = .disabled) (idle : NoActive w.db id) :
      JobUpdate env w (.deleteJob id) id j (deleteSet now j)

/-! ## Transactions -/

structure Starts (w : World) (id : ℕ) (i : JobInstance) (startedAt taskId : ℕ) : Prop where
  row : w.db .instance id = some i
  ids : i.id = id
  waiting : startWhere i = true
  config : i.executionConfig.Ordinary
  past : startedAt ≤ w.now
  fresh : w.db .task taskId = none

structure Admits (w : World) (jobId id : ℕ) (j : JobDefinition) : Prop where
  row : w.db .job jobId = some j
  ids : j.id = jobId
  kept : j.deletedAt = none
  fresh : w.db .instance id = none
  free : j.blockPolicy = .discard → NoActive w.db jobId

structure Due (env : Env) (w : World) (id : ℕ) (j : JobDefinition)
    (decisionAt scheduledAt next : ℕ) : Prop where
  row : w.db .job id = some j
  kept : j.deletedAt = none
  enabled : j.status = .enabled
  scheduled : j.nextTriggerAt = some scheduledAt
  due : scheduledAt ≤ decisionAt
  next : Schedule.next env j.cronExpr decisionAt = .ok next

structure NewJob (env : Env) (w : World) (id : ℕ) (decisionAt : Option ℕ) (j : JobDefinition) :
    Prop where
  fresh : w.db .job id = none
  ids : j.id = id
  kept : j.deletedAt = none
  group : Available w.db j.executorGroupId
  progress : j.status = .enabled → ∃ t next, decisionAt = some t ∧ j.nextTriggerAt = some next ∧
    Schedule.next env j.cronExpr t = .ok next

inductive NotDue (w : World) (jobId decisionAt : ℕ) : String → Prop where
  | notFound : NotDue w jobId decisionAt "not_found"
  | disabled {j : JobDefinition} (row : w.db .job jobId = some j) (kept : j.deletedAt = none)
      (h : j.status ≠ .enabled) : NotDue w jobId decisionAt "disabled"
  | notDue {j : JobDefinition} (row : w.db .job jobId = some j) (kept : j.deletedAt = none)
      (h : ∀ t, j.nextTriggerAt = some t → decisionAt < t) : NotDue w jobId decisionAt "not_due"

/-- The transaction `op` takes effect on `w` with exactly these writes. Of one that changes nothing
nothing is said: what it has seen may be over by the time it commits. -/
inductive Effect (env : Env) (w : World) : Op → Db → Prop where
  | quiet {op : Op} (h : op.quiet = true) : Effect env w op noWrites
  | started {id startedAt taskId : ℕ} {i : JobInstance} (h : Starts w id i startedAt taskId) :
      Effect env w (.startOrdinary id (some (firstAttempt i startedAt taskId)))
        ((noWrites.set .instance id (startSet startedAt
          (addSeconds startedAt i.executionConfig.timeoutSeconds) i)).set
          .task taskId (ordinaryTask id startedAt taskId))
  | task {op : Op} {id : ℕ} {t t' : JobTask} (row : w.db .task id = some t)
      (h : TaskUpdate w op id t t') : Effect env w op (noWrites.set .task id t')
  | canceled {id : ℕ} {r : BatchResult} {writes : Db}
      (tasks : ∀ taskId t', writes .task taskId = some t' → ∃ t, w.db .task taskId = some t ∧
        TaskUpdate w (.processBatch id (some r)) taskId t t')
      (only : ∀ table rowId, table ≠ .task → writes table rowId = none) :
      Effect env w (.processBatch id (some r)) writes
  | round {op : Op} {id : ℕ} {i i' : JobInstance} (row : w.db .instance id = some i)
      (h : InstanceUpdate w op id i i') : Effect env w op (noWrites.set .instance id i')
  | requested {m : ManualTrigger} {id : ℕ} {j : JobDefinition} (h : Admits w m.jobId id j) :
      Effect env w (.triggerManual m id true)
        (noWrites.set .instance id (newInstance (Creator.manualSnapshot j m) id))
  | occurred {jobId id decisionAt scheduledAt next : ℕ} {j : JobDefinition}
      (due : Due env w jobId j decisionAt scheduledAt next) (h : Admits w jobId id j) :
      Effect env w (.triggerAutomatic jobId decisionAt
          { instanceId := id, created := true, reason := "created" })
        ((noWrites.set .instance id (newInstance (occurrence j decisionAt scheduledAt) id)).set
          .job jobId (advanceSet next j))
  | skipped {jobId decisionAt : ℕ} {reason : String} (h : NotDue w jobId decisionAt reason) :
      Effect env w (.triggerAutomatic jobId decisionAt { reason }) noWrites
  | passed {jobId decisionAt scheduledAt next : ℕ} {j : JobDefinition} {reason : String}
      (due : Due env w jobId j decisionAt scheduledAt next)
      (why : reason = "misfire_ignored" ∨ reason = "blocked" ∨ reason = "duplicate") :
      Effect env w (.triggerAutomatic jobId decisionAt { reason })
        (noWrites.set .job jobId (advanceSet next j))
  | jobCreated {id : ℕ} {decisionAt : Option ℕ} {j : JobDefinition}
      (h : NewJob env w id decisionAt j) :
      Effect env w (.createJob id decisionAt) (noWrites.set .job id j)
  | job {op : Op} {id : ℕ} {j j' : JobDefinition} (row : w.db .job id = some j)
      (h : JobUpdate env w op id j j') : Effect env w op (noWrites.set .job id j')
  | groupCreated {id : ℕ} {g : ExecutorGroup} (fresh : w.db .group id = none) (ids : g.id = id)
      (kept : g.deletedAt = none) :
      Effect env w (.createExecutorGroup id) (noWrites.set .group id g)
  | groupDeleted {id now : ℕ} {g : ExecutorGroup} (row : w.db .group id = some g)
      (unused : NoReference w.db id) (idle : NoActiveFor w.db id) :
      Effect env w (.deleteExecutorGroup id)
        (noWrites.set .group id { g with deletedAt := some now })

end Dogx.Job
