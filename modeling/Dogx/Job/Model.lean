import Dogx.Job.Text

/-!
# Records of the job service

The four tables of the service and the values its operations exchange. A column that can be NULL
is an `Option`. Left out are the audit times of jobs, groups and instances, which no operation
reads, and the group's credential and discovery data beyond what its creation writes.

Status columns hold small integers in the database; every writer writes one of the named values,
so the columns are enumerations here and the `default` branches of the source, which reject any
other number, have no counterpart.
-/

namespace Dogx.Job

/-! ## Enumerations -/

inductive TaskType where
  | ordinary | prepare | shard | post
  deriving DecidableEq, Repr

inductive TaskStatus where
  | waiting | running | retryWaiting | succeeded | failed | canceled
  deriving DecidableEq, Repr

inductive InstanceStatus where
  | waiting | running | succeeded | failed | canceled | stopping
  deriving DecidableEq, Repr

inductive TriggerType where
  | scheduled | misfire | manual
  deriving DecidableEq, Repr

inductive ExecutionMode where
  | normal | sharded
  deriving DecidableEq, Repr

inductive MisfirePolicy where
  | ignore | once
  deriving DecidableEq, Repr

inductive BlockPolicy where
  | discard | parallel
  deriving DecidableEq, Repr

inductive RecordStatus where
  | disabled | enabled
  deriving DecidableEq, Repr

inductive EndReason where
  | success | executionFailed | dispatchRejected | resultUnknown | manualStop | instanceTimeout
  deriving DecidableEq, Repr

namespace TaskStatus

/-- `status IN (1, 2, 3)`. -/
def unfinished : TaskStatus → Bool
  | waiting | running | retryWaiting => true
  | succeeded | failed | canceled => false

end TaskStatus

namespace InstanceStatus

/-- `status IN (1, 2, 6)`. -/
def active : InstanceStatus → Bool
  | waiting | running | stopping => true
  | succeeded | failed | canceled => false

/-- No further change. -/
def terminal (s : InstanceStatus) : Bool := !s.active

end InstanceStatus

/-! ## Tables -/

structure ExecutionConfig where
  schemaVersion : Int
  processorName : String
  executionMode : ExecutionMode
  postEnabled : Bool
  params : String
  maxRetries : Int
  retryIntervalSeconds : Int
  timeoutSeconds : Int
  deriving DecidableEq

structure JobTask where
  id : ℕ
  instanceId : ℕ
  taskType : TaskType
  status : TaskStatus
  attemptNo : Int
  usedAttempts : Int
  attemptRegisteredAt : Option ℕ
  nextDispatchAt : Option ℕ
  executorInstanceId : Option Uuid
  executorAddress : Option String
  resultData : Option String
  resultSummary : Option String
  endReason : Option EndReason
  startedAt : Option ℕ
  finishedAt : Option ℕ
  createdAt : ℕ
  updatedAt : ℕ

structure JobInstance where
  id : ℕ
  jobId : ℕ
  jobName : String
  executorGroupId : ℕ
  triggerType : TriggerType
  scheduledAt : Option ℕ
  requestId : Option Uuid
  paramsOverridden : Bool
  triggeredBy : Option ℕ
  executionConfig : ExecutionConfig
  status : InstanceStatus
  startedAt : Option ℕ
  deadlineAt : Option ℕ
  finishedAt : Option ℕ
  endReason : Option EndReason
  resultSummary : Option String

structure JobDefinition where
  id : ℕ
  deletedAt : Option ℕ
  name : String
  remark : String
  executorGroupId : ℕ
  processorName : String
  executionMode : ExecutionMode
  postEnabled : Bool
  params : String
  cronExpr : String
  status : RecordStatus
  misfirePolicy : MisfirePolicy
  blockPolicy : BlockPolicy
  maxRetries : Int
  retryIntervalSeconds : Int
  timeoutSeconds : Int
  nextTriggerAt : Option ℕ

structure ExecutorGroup where
  id : ℕ
  deletedAt : Option ℕ
  name : String
  discoveryKey : String
  token : String

/-! ## Dispatch -/

/-- A due task observed with its original attempt identity. -/
structure RetryCandidate where
  taskId : ℕ
  instanceId : ℕ
  attemptNo : Int
  deriving DecidableEq

/-- A newly registered, committed dispatch attempt. -/
structure RegisteredAttempt where
  jobId : ℕ
  instanceId : ℕ
  executorGroupId : ℕ
  taskId : ℕ
  attemptNo : Int
  executionConfig : ExecutionConfig
  registeredAt : ℕ
  deadlineAt : ℕ
  deriving DecidableEq

structure RetryRegistration where
  taskId : ℕ
  instanceId : ℕ
  expectedAttemptNo : Int
  maxAttempts : Int
  registeredAt : ℕ

/-- The new task version returned by a registration update. -/
structure RegisteredTask where
  taskId : ℕ
  instanceId : ℕ
  attemptNo : Int
  usedAttempts : Int
  registeredAt : ℕ

structure ExecutorBinding where
  taskId : ℕ
  instanceId : ℕ
  attemptNo : Int
  executorInstanceId : Uuid
  executorAddress : String
  deriving DecidableEq

structure DispatchBusyWrite where
  taskId : ℕ
  instanceId : ℕ
  attemptNo : Int
  delay : ℕ
  deriving DecidableEq

structure DispatchRejectionWrite where
  taskId : ℕ
  instanceId : ℕ
  attemptNo : Int
  maxRetries : Int
  retryIntervalSeconds : Int
  summary : String
  deriving DecidableEq

/-- What the one dispatch RPC proves about admission; `other` is a number without a name. -/
inductive DispatchOutcome where
  | unknown | accepted | busy | rejected | other
  deriving DecidableEq, Repr

structure Response where
  outcome : DispatchOutcome
  executorInstanceId : Uuid
  executorAddress : String
  summary : String

structure DispatchResult where
  registered : Bool := false
  outcome : DispatchOutcome := .unknown
  applied : Bool := false

/-! ## Results and recovery -/

/-- The conclusion of an execution attempt; `other` is a number without a name. -/
inductive ReportOutcome where
  | success | failure | other
  deriving DecidableEq, Repr

structure Report where
  groupId : ℕ
  jobId : ℕ
  instanceId : ℕ
  taskId : ℕ
  attemptNo : Int
  executorInstanceId : String
  outcome : ReportOutcome
  summary : String
  data : Option String
  preparedItems : Option (List String)

structure TaskResultTarget where
  taskId : ℕ
  instanceId : ℕ
  jobId : ℕ
  executorGroupId : ℕ
  attemptNo : Int
  taskType : TaskType
  status : TaskStatus
  usedAttempts : Int
  executorInstanceId : Option Uuid
  executionConfig : ExecutionConfig

structure TaskResultWrite where
  taskId : ℕ
  instanceId : ℕ
  attemptNo : Int
  executorInstanceId : Uuid
  status : TaskStatus
  data : Option String
  summary : String
  retryIntervalSeconds : Int
  deriving DecidableEq

structure SaveResult where
  applied : Bool
  reason : String

structure UnboundCandidate where
  taskId : ℕ
  instanceId : ℕ
  attemptNo : Int
  attemptRegisteredAt : ℕ

structure UnboundTarget where
  taskId : ℕ
  instanceId : ℕ
  attemptNo : Int
  taskType : TaskType
  status : TaskStatus
  executorInstanceId : Option Uuid
  executorAddress : Option String
  attemptRegisteredAt : Option ℕ
  instanceStatus : InstanceStatus
  startedAt : Option ℕ
  deadlineAt : Option ℕ
  executionConfig : ExecutionConfig

structure UnknownSettlement where
  taskId : ℕ
  instanceId : ℕ
  expectedAttemptNo : Int
  maxAttempts : Int
  processedAt : ℕ
  observationCutoff : ℕ
  retryAt : ℕ
  deriving DecidableEq

structure SettleResult where
  processed : ℕ := 0
  applied : ℕ := 0

structure SettledTask where
  taskId : ℕ
  instanceId : ℕ
  attemptNo : Int
  status : TaskStatus
  deriving DecidableEq

/-! ## Completion and stopping -/

structure InstanceCompletion where
  id : ℕ
  status : InstanceStatus
  executionConfig : ExecutionConfig
  deadlineAt : Option ℕ
  taskId : Option ℕ
  taskStatus : Option TaskStatus
  resultSummary : Option String

inductive CheckOutcome where
  | skipped | notReady | notApplied | stopping | terminal
  deriving DecidableEq, Repr

structure Decision where
  instanceId : ℕ
  executorGroupId : ℕ
  status : InstanceStatus
  endReason : Option EndReason
  new : Bool
  deriving DecidableEq

structure TaskCancellation where
  instanceId : ℕ
  taskIds : List ℕ
  reason : EndReason
  summary : String
  processedAt : ℕ

structure BatchResult where
  instanceId : ℕ
  status : InstanceStatus
  canceled : ℕ
  more : Bool
  completed : Bool
  deriving DecidableEq

/-! ## Triggers -/

structure ManualTrigger where
  jobId : ℕ
  requestId : Uuid
  paramsOverridden : Bool
  params : String
  operatorId : ℕ
  deriving DecidableEq

structure ManualIdentity where
  id : ℕ
  paramsOverridden : Bool
  overrideParams : Option String

structure AutomaticResult where
  instanceId : ℕ := 0
  created : Bool := false
  reason : String := ""
  deriving DecidableEq

/-- The configuration part of a management request, with the numbers it came with. -/
structure JobInput where
  name : String
  remark : String
  executorGroupId : ℕ
  processorName : String
  executionMode : Option Int
  postEnabled : Option Bool
  params : String
  cronExpr : String
  misfirePolicy : Option Int
  blockPolicy : Option Int
  maxRetries : Option Int
  retryIntervalSeconds : Option Int
  timeoutSeconds : Int

/-! ## Errors -/

/--
What a context or a database call reports from outside. Of a database error the service looks at
two things: whether it is one of the classes `22`, `23` and `42`, and whether it is class `22`.
-/
inductive Fault where
  | context
  | database (rejected dataException : Bool)
  deriving DecidableEq

/-- The errors of the service. `message` stands for the ones the source creates in place. -/
inductive Err where
  | fault (f : Fault)
  | message (text : String)
  | instanceLocked
  | instanceNotFound
  | invalidInstanceState
  | invalidExecutionConfig
  | invalidDispatchWrite
  | invalidStoredState
  | unsupportedTaskType
  | invalidFacts
  | invalidConfig
  | invalidStopState
  | invalidInput
  | blocked
  | requestConflict
  | capacityBusy
  | indeterminate
  | jobNotFound
  | jobStateNotAllowed
  | jobActiveInstances
  | executorGroupUnavailable
  | executorGroupInUse
  | executorGroupNameExists
  | executorGroupDiscoveryKeyExists
  deriving DecidableEq

end Dogx.Job
