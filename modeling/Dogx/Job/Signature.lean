import Dogx.Txn.System
import Dogx.Job.Model

/-!
# The vocabulary of the job service

The tables with their unique indexes, the names under which transactions enter the history, and
the interactions of a process with anything that is not the database.

An operation name carries what the transaction's callback returned, so that the history tells
which call did what. `entered` and `returned` are notes: they mark in the history that a call
reached its transaction and what a Go method gave back to its caller.
-/

namespace Dogx.Job

/-! ## Tables -/

inductive Table where
  | group | job | «instance» | task
  deriving DecidableEq

abbrev Row : Table → Type
  | .group => ExecutorGroup
  | .job => JobDefinition
  | .instance => JobInstance
  | .task => JobTask

/-- The entries of the unique indexes. -/
inductive Key where
  | groupName (name : String)
  | discoveryKey (key : String)
  | scheduled (jobId : ℕ) (at_ : ℕ)
  | request (jobId : ℕ) (requestId : Uuid)
  | singleton (instanceId : ℕ) (type : TaskType)
  deriving DecidableEq

/-- A sharded round has many shard tasks; every other type occurs once in a round. -/
def JobTask.keys (t : JobTask) : List Key :=
  if t.taskType = .shard then [] else [.singleton t.instanceId t.taskType]

def JobInstance.keys (i : JobInstance) : List Key :=
  (i.scheduledAt.toList.map (Key.scheduled i.jobId)) ++
    (i.requestId.toList.map (Key.request i.jobId))

def ExecutorGroup.keys (g : ExecutorGroup) : List Key :=
  [.groupName g.name, .discoveryKey g.discoveryKey]

def rowKeys : (t : Table) → Row t → List Key
  | .group, g => g.keys
  | .job, _ => []
  | .instance, i => i.keys
  | .task, t => t.keys

/-! ## Transactions -/

inductive Op where
  | startOrdinary (instanceId : ℕ) (registered : Option RegisteredAttempt)
  | retryOrdinary (candidate : RetryCandidate) (registered : Option RegisteredAttempt)
  | bindExecutor (binding : ExecutorBinding) (applied : Bool)
  | saveDispatchBusy (write : DispatchBusyWrite) (applied : Bool)
  | saveDispatchRejection (write : DispatchRejectionWrite) (applied : Bool)
  | saveResult (write : TaskResultWrite) (applied : Bool)
  | settleOrdinaryUnknown (write : UnknownSettlement) (settled : Option SettledTask)
  | complete (instanceId : ℕ) (target : InstanceStatus) (summary : Option String) (changed : Bool)
  | requestStop (instanceId : ℕ) (timeout : Bool) (decision : Decision)
  | processBatch (instanceId : ℕ) (result : Option BatchResult)
  | triggerManual (input : ManualTrigger) (instanceId : ℕ) (created : Bool)
  | triggerAutomatic (jobId : ℕ) (decisionAt : ℕ) (result : AutomaticResult)
  | createExecutorGroup (groupId : ℕ)
  | deleteExecutorGroup (groupId : ℕ)
  | createJob (jobId : ℕ) (decisionAt : Option ℕ)
  | updateJob (jobId : ℕ)
  | enableJob (jobId : ℕ) (decisionAt : Option ℕ)
  | disableJob (jobId : ℕ) (disabled : Bool)
  | deleteJob (jobId : ℕ)
  deriving DecidableEq

/-! ## Interactions -/

/-- What a Go method returned. -/
inductive Outcome where
  | registered (result : Except Err (Option RegisteredAttempt))
  | decided (instanceId : ℕ) (result : Except Err Decision)
  | manual (input : ManualTrigger) (result : Except Err ℕ)
  | automatic (jobId : ℕ) (result : Except Err AutomaticResult)
  deriving DecidableEq

inductive Act where
  /-- `ctx.Err()`: whether the budget is used up. -/
  | expired
  | clock
  | random
  /-- A creation permit of the trigger, waited for or not. -/
  | acquire (wait : Bool)
  /-- The call of `Sender.Dispatch`, and what comes back from it. -/
  | send (attempt : RegisteredAttempt)
  | response
  /-- `rand.Int64N(2 * jitter + 1)`. -/
  | jitter (jitter : ℕ)
  /-- The pause before a response is saved again; cut short when the budget is used up. -/
  | pause
  | hint (instanceId : ℕ)
  | afterStop (decision : Decision)
  | resume (instanceId : ℕ)
  | notifyJobChanged
  | entered
  | returned (outcome : Outcome)
  deriving DecidableEq

abbrev Act.Reply : Act → Type
  | .expired => Bool
  | .clock => ℕ
  | .random => Option Uuid
  | .acquire _ => Bool
  | .send _ => Unit
  | .response => Except Fault Response
  | .jitter n => Fin (2 * n + 1)
  | .pause => Bool
  | .hint _ => Unit
  | .afterStop _ => Unit
  | .resume _ => Unit
  | .notifyJobChanged => Unit
  | .entered => Unit
  | .returned _ => Unit

/-- What a transaction may ask for while it is open. -/
def Act.reads : Act → Bool
  | .clock => true
  | _ => false

abbrev sig : Txn.Sig where
  Table := Table
  Row := Row
  Key := Key
  keys := rowKeys
  Err := Err
  Fault := Fault
  fault := Err.fault
  Op := Op
  Act := Act
  Reply := Act.Reply
  reads := Act.reads
  decTable := inferInstance
  decKey := inferInstance
  decAct := inferInstance

abbrev Db := Txn.Store sig
abbrev View := Txn.View sig
abbrev World := Txn.World sig
abbrev Event := Txn.Event sig
abbrev Loc := Txn.Loc sig
abbrev Tx := Txn.Tx sig
abbrev Proc := Txn.Proc sig

/-! ## Statements at the types of this service -/

abbrev lockRow (t : Table) (id : ℕ) (nowait : Bool) : Tx (Txn.Locked (Row t)) :=
  Txn.Tx.lockRow (S := sig) t id nowait

abbrev updateRow (t : Table) (id : ℕ) (f : View → Row t → Txn.Verdict (Row t)) :
    Tx (Option (Row t)) :=
  Txn.Tx.updateRow (S := sig) t id f

abbrev insertRow (t : Table) (row : ℕ → Row t) : Tx (Option ℕ) := Txn.Tx.insertRow (S := sig) t row

abbrev select {β : Type} (q : View → β) : Tx β := Txn.Tx.query q

abbrev input (a : Act) : Tx a.Reply := Txn.Tx.input (S := sig) a

abbrev throw {α : Type} (e : Err) : Tx α := Txn.Tx.throw e

abbrev perform (a : Act) : Proc a.Reply := Txn.Proc.perform (S := sig) a

abbrev read {β : Type} (q : View → β) : Proc (Except Err β) := Txn.Proc.query (S := sig) q

abbrev transact {α : Type} (label : α → Op) (body : Tx α) : Proc (Except Err α) :=
  Txn.Proc.run (S := sig) label body

end Dogx.Job
