import Dogx.Job.Management

/-!
# The service

Every call a node can make, and what it runs. A run of `service env` is any number of such calls
on any number of nodes, interleaved statement by statement, with faults and lost confirmations.

The three saves of a dispatch response are calls of their own besides being part of a dispatch:
an answer may be delivered again, late, or to a node that repeats the save. A rejection carries
the frozen retry policy of the dispatch it answers, which `admits` asks for.
-/

namespace Dogx.Job

inductive Call where
  | startOrdinary (instanceId : ℕ)
  | retryOrdinary (candidate : RetryCandidate)
  | dispatchOrdinary (busyDelay instanceId : ℕ)
  | dispatchRetry (busyDelay : ℕ) (candidate : RetryCandidate)
  | bindExecutor (binding : ExecutorBinding)
  | saveDispatchBusy (write : DispatchBusyWrite)
  | saveDispatchRejection (write : DispatchRejectionWrite)
  | save (report : Report)
  | settleBatch (observationPeriod : ℕ) (candidates : List UnboundCandidate)
  | check (stopping : Bool) (instanceId : ℕ)
  | stopInstance (instanceId : ℕ)
  | requestTimeout (instanceId : ℕ)
  | processBatch (batchSize instanceId : ℕ)
  | triggerManual (input : ManualTrigger)
  | triggerAutomatic (jobId : ℕ)
  | createExecutorGroup (name discoveryKey : String)
  | deleteExecutorGroup (groupId : ℕ)
  | createJob (config : JobInput) (status : Option Int)
  | updateJob (jobId : ℕ) (config : JobInput)
  | updateJobStatus (jobId : ℕ) (status : Option Int)
  | deleteJob (jobId : ℕ)

/-- The caller of a Go method is done with what it returned. -/
def ignore {α : Type} (p : Proc α) : Proc Unit := do
  let _ ← p
  pure ()

namespace Call

/-- What the call runs; `order` is the row order of its statements. -/
def code (env : Env) (order : RowOrder) : Call → Proc Unit
  | startOrdinary id => ignore (returning .registered (Registrar.startOrdinary id))
  | retryOrdinary c => ignore (returning .registered (Registrar.retryOrdinary c))
  | dispatchOrdinary delay id => ignore (Dispatcher.dispatchOrdinary env delay id)
  | dispatchRetry delay c => ignore (Dispatcher.dispatchRetry env delay c)
  | bindExecutor b => ignore (JobTaskRepository.bindExecutor env b)
  | saveDispatchBusy w => ignore (JobTaskRepository.saveDispatchBusy w)
  | saveDispatchRejection w => ignore (JobTaskRepository.saveDispatchRejection w)
  | save r => ignore (Saver.save env r)
  | settleBatch period cs => ignore (Settler.settleBatch period cs)
  | check stopping id => ignore (Checker.check stopping id)
  | stopInstance id => ignore (Management.stopInstance id)
  | requestTimeout id => ignore (Controller.requestTimeout id)
  | processBatch size id => ignore (Controller.processBatch order size id)
  | triggerManual m => ignore (Creator.triggerManual m)
  | triggerAutomatic id => ignore (Creator.triggerAutomatic env id)
  | createExecutorGroup name key => ignore (Management.createExecutorGroup name key)
  | deleteExecutorGroup id => ignore (Management.deleteExecutorGroup id)
  | createJob c status => ignore (Management.createJob env c status)
  | updateJob id c => ignore (Management.updateJob env id c)
  | updateJobStatus id status => ignore (Management.updateJobStatus env id status)
  | deleteJob id => ignore (Management.deleteJob id)

def admits : Call → World → Bool
  | saveDispatchRejection w, s => (s.db .instance w.instanceId).any fun i =>
      i.executionConfig.maxRetries = w.maxRetries
  | _, _ => true

end Call

abbrev service (env : Env) : Txn.Service sig where
  Call := Call
  code := Call.code env .listed
  admits := Call.admits

/-- The service, with every row order of every statement. -/
abbrev reordered (env : Env) : Txn.Service sig where
  Call := Call × RowOrder
  code := fun c => c.1.code env c.2
  admits := fun c => c.1.admits

abbrev Sys := Txn.Sys sig
abbrev Move := Txn.Move sig Call

/-- The state after the moves `ms`, from this database. -/
def runFrom (env : Env) (w : World) (ms : List Move) : Option Sys :=
  (Txn.Sys.atRest w).run (service env) ms

/-- The state after the moves `ms`, from an empty database. -/
def run (env : Env) (ms : List Move) : Option Sys := runFrom env Txn.World.init ms

end Dogx.Job
