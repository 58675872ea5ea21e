import Dogx.Txn.Each
import Dogx.Job.Service

/-!
# The transactions of the service

`Transactions` lists every transaction that a call can open. What holds of each of them holds of
every transaction of every call, whatever the call is told on the way: `Transactions.each`.
-/

namespace Dogx.Job

open Txn.Proc (Each)

inductive TaskLabel : (Bool → Op) → Prop where
  | bind (b : ExecutorBinding) : TaskLabel (.bindExecutor b)
  | busy (w : DispatchBusyWrite) : TaskLabel (.saveDispatchBusy w)
  | rejection (w : DispatchRejectionWrite) : TaskLabel (.saveDispatchRejection w)
  | result (w : TaskResultWrite) : TaskLabel (.saveResult w)

structure Transactions (env : Env) (B : RowOrder → ℕ → ℕ → Prop)
    (T : (α : Type) → (α → Op) → Tx α → Prop) : Prop where
  startOrdinary : ∀ id, T _ (.startOrdinary id) (Registrar.startOrdinaryTx id)
  retryOrdinary : ∀ c, T _ (fun r => .retryOrdinary c r.1) (Registrar.retryOrdinaryTx c)
  writeTask : ∀ label taskId f, TaskLabel label →
    T _ label (updateRow .task taskId f >>= fun changed => pure changed.isSome)
  settleOrdinaryUnknown : ∀ w, (JobTaskRepository.settleOrdinaryUnknown w).Each T
  complete : ∀ id target summary f, T _ (.complete id target summary)
    (updateRow .instance id f >>= fun changed => pure changed.isSome)
  requestStop : ∀ id timeout, T _ (.requestStop id timeout) (Controller.requestStopTx id timeout)
  processBatch : ∀ order size id, B order size id →
    T _ (.processBatch id) (Controller.processBatchTx order size id)
  triggerManual : ∀ input,
    T _ (fun r => .triggerManual input r.1 r.2) (Creator.triggerManualTx input)
  triggerAutomatic : ∀ id,
    T _ (fun r => .triggerAutomatic id r.2 r.1) (Creator.triggerAutomaticTx env id)
  createExecutorGroup : ∀ g, (ExecutorGroupRepository.create g).Each T
  deleteExecutorGroup : ∀ id,
    T _ (fun _ => .deleteExecutorGroup id) (Management.deleteExecutorGroupTx id)
  createJob : ∀ definition,
    T _ (fun r => .createJob r.1 r.2) (Management.createJobTx env definition)
  updateJob : ∀ id definition, T _ (fun _ => .updateJob id) (Management.updateJobTx id definition)
  enableJob : ∀ id, T _ (.enableJob id) (Management.enableJobTx env id)
  disableJob : ∀ id f, T _ (.disableJob id)
    (updateRow .job id f >>= fun changed => pure changed.isSome)
  deleteJob : ∀ id, T _ (fun _ => .deleteJob id) (Management.deleteJobTx id)

variable {env : Env} {B : RowOrder → ℕ → ℕ → Prop} {T : (α : Type) → (α → Op) → Tx α → Prop}
  {α : Type} {p : Proc (Except Err α)}

theorem each_ignore {p : Proc α} (h : p.Each T) : (ignore p).Each T :=
  h.bind fun _ => .pure _

theorem each_returning {note : Except Err α → Outcome} (h : p.Each T) : (returning note p).Each T :=
  h.bind fun _ => (Each.perform _).bind fun _ => .pure _

theorem each_unless_expired {late : Proc α} {p : Proc α} (hlate : late.Each T) (h : p.Each T) :
    (perform .expired >>= fun expired => if expired then late else p).Each T := by
  refine (Each.perform _).bind fun expired => ?_
  split
  · exact hlate
  · exact h

theorem each_hint (id : ℕ) (a : α) : (perform (.hint id) >>= fun _ => pure a).Each T :=
  (Each.perform _).bind fun _ => .pure _

namespace Transactions

/-! ## Registration and dispatch -/

theorem each_startOrdinary (h : Transactions env B T) (id : ℕ) :
    (Registrar.startOrdinary id).Each T := by
  unfold Registrar.startOrdinary
  split
  · exact .pure _
  · exact each_unless_expired (.pure _) (.run (h.startOrdinary id))

theorem each_retryOrdinary (h : Transactions env B T) (c : RetryCandidate) :
    (Registrar.retryOrdinary c).Each T := by
  unfold Registrar.retryOrdinary
  split
  · exact .pure _
  refine each_unless_expired (.pure _) ((Each.run (h.retryOrdinary c)).bind fun r => ?_)
  split
  · exact .pure _
  · split
    · exact each_hint _ _
    · exact .pure _

theorem each_saveResponse {write : Proc (Except Err Bool)} (hw : write.Each T) (n : ℕ) :
    (Dispatcher.saveResponse write n).Each T := by
  induction n with
  | zero =>
    unfold Dispatcher.saveResponse
    refine each_unless_expired (.pure _) (hw.bind fun r => ?_)
    split
    · exact .pure _
    · split <;> exact .pure _
  | succ n ih =>
    unfold Dispatcher.saveResponse
    refine each_unless_expired (.pure _) (hw.bind fun r => ?_)
    split
    · exact .pure _
    · split
      · exact .pure _
      · refine (Each.perform _).bind fun stop => ?_
        split
        · exact .pure _
        · exact ih

theorem each_bindExecutor (h : Transactions env B T) (b : ExecutorBinding) :
    (JobTaskRepository.bindExecutor env b).Each T := by
  unfold JobTaskRepository.bindExecutor
  split
  · exact .pure _
  · exact .run (h.writeTask _ _ _ (.bind b))

theorem each_saveDispatchBusy (h : Transactions env B T) (w : DispatchBusyWrite) :
    (JobTaskRepository.saveDispatchBusy w).Each T := by
  unfold JobTaskRepository.saveDispatchBusy
  split
  · exact .pure _
  · exact .run (h.writeTask _ _ _ (.busy w))

theorem each_saveDispatchRejection (h : Transactions env B T) (w : DispatchRejectionWrite) :
    (JobTaskRepository.saveDispatchRejection w).Each T := by
  unfold JobTaskRepository.saveDispatchRejection
  split
  · exact .pure _
  · exact .run (h.writeTask _ _ _ (.rejection w))

theorem each_responseWrite (delay : ℕ) (a : RegisteredAttempt) (r : Response) :
    (Dispatcher.responseWrite delay a r).Each T := by
  unfold Dispatcher.responseWrite
  split
  case h_2 => exact (Each.perform _).bind fun _ => .pure _
  all_goals exact .pure _

theorem each_handleResponse (h : Transactions env B T) (delay : ℕ) (a : RegisteredAttempt)
    (r : Response) : (Dispatcher.handleResponse env delay a r).Each T := by
  refine (each_responseWrite delay a r).bind fun r' => ?_
  split
  · exact .pure _
  · exact .pure _
  · next write =>
    have hw : (write.code env).Each T := by
      cases write with
      | bind b => exact h.each_bindExecutor b
      | busy w => exact h.each_saveDispatchBusy w
      | rejection w => exact h.each_saveDispatchRejection w
    refine (each_saveResponse hw _).bind fun saved => ?_
    split
    · exact .pure _
    · split
      · exact each_hint _ _
      · exact .pure _

theorem each_dispatch (h : Transactions env B T) (delay : ℕ)
    {register : Proc (Except Err (Option RegisteredAttempt))} (hr : register.Each T) :
    (Dispatcher.dispatch env delay register).Each T := by
  refine each_unless_expired (.pure _) (hr.bind fun r => ?_)
  split
  · exact .pure _
  · exact .pure _
  · next a =>
    refine each_unless_expired (.pure _) ((Each.perform _).bind fun _ => (Each.perform _).bind
      fun response => ?_)
    split
    · exact .pure _
    · exact h.each_handleResponse delay a _

/-! ## Results -/

theorem each_finished (id : ℕ) (applied : Bool) (reason : String) :
    (Saver.finished id applied reason).Each T :=
  each_hint _ _

theorem each_saveDecided (h : Transactions env B T) (target : TaskResultTarget) (report : Report)
    (w : TaskResultWrite) : (Saver.saveDecided env target report w).Each T := by
  have hsave : (JobTaskRepository.saveResult env w).Each T := by
    unfold JobTaskRepository.saveResult
    split
    · exact .pure _
    · exact .run (h.writeTask _ _ _ (.result w))
  refine hsave.bind fun r => ?_
  split
  · exact each_finished _ _ _
  · exact each_finished _ _ _
  refine (Each.perform _).bind fun late => ?_
  split
  · split
    · refine (Each.query _).bind fun valid => ?_
      split <;> exact .pure _
    · exact .pure _
  · exact .pure _

theorem each_save (h : Transactions env B T) (report : Report) : (Saver.save env report).Each T := by
  refine each_unless_expired (.pure _) ?_
  split
  · exact .pure _
  split
  · exact .pure _
  refine (Each.query _).bind fun r => ?_
  split
  · exact .pure _
  · exact .pure _
  unfold Saver.saveTarget
  split
  · exact .pure _
  split
  · exact each_finished _ _ _
  split
  · exact each_finished _ _ _
  split
  · exact each_finished _ _ _
  split
  · exact .pure _
  split
  · exact .pure _
  split
  · exact .pure _
  · exact h.each_saveDecided _ _ _

theorem each_prepareRunning (c : UnboundCandidate) (target : UnboundTarget) (at_ cutoff : ℕ) :
    (Settler.prepareRunning c target at_ cutoff).Each T := by
  unfold Settler.prepareRunning
  split
  · split
    · exact .pure _
    split
    · exact each_hint _ _
    split <;> exact .pure _
  · exact .pure _

theorem each_prepare (period : ℕ) (c : UnboundCandidate) (target : UnboundTarget) (at_ : ℕ) :
    (Settler.prepare period c target at_).Each T := by
  unfold Settler.prepare
  dsimp only
  repeat' split
  case h_4 => exact each_hint _ _
  case h_6 => exact each_prepareRunning c target at_ _
  all_goals exact .pure _

section

variable (h : Transactions env B T)
include h

theorem each_settleOne (c : UnboundCandidate) (w : UnknownSettlement) :
    (Settler.settleOne c w).Each T := by
  refine (h.settleOrdinaryUnknown w).bind fun r => (Each.perform _).bind fun late => ?_
  split
  · exact .pure _
  · exact .pure _
  · split
    · exact .pure _
    · exact each_hint _ _

theorem each_settleEach (period : ℕ) (targets : List UnboundTarget) (at_ : ℕ)
    (cs : List UnboundCandidate) (result : SettleResult) :
    (Settler.settleEach period targets at_ cs result).Each T := by
  induction cs generalizing result with
  | nil => exact .pure _
  | cons c _ ih =>
    refine each_unless_expired (.pure _) ?_
    dsimp only
    split
    · exact ih _
    refine (each_prepare period c _ at_).bind fun r => ?_
    split
    · exact .pure _
    · exact ih _
    refine each_unless_expired (.pure _) ((h.each_settleOne c _).bind fun r => ?_)
    split
    · exact .pure _
    · split
      · exact .pure _
      · exact ih _

theorem each_settleBatch (period : ℕ) (cs : List UnboundCandidate) :
    (Settler.settleBatch period cs).Each T := by
  unfold Settler.settleBatch
  split
  · exact .pure _
  split
  · exact .pure _
  split
  · exact .pure _
  refine each_unless_expired (.pure _) ((Each.query _).bind fun r => ?_)
  split
  · exact .pure _
  refine each_unless_expired (.pure _) ?_
  split
  · exact .pure _
  refine (Each.query _).bind fun r => ?_
  split
  · exact .pure _
  refine each_unless_expired (.pure _) ?_
  split
  · exact .pure _
  · exact h.each_settleEach period _ _ cs _

/-! ## Stopping and checking -/

theorem each_requestStop (id : ℕ) (timeout : Bool) :
    (Controller.requestStop id timeout).Each T := by
  refine each_returning ?_
  split
  · exact .pure _
  · exact each_unless_expired (.pure _) (.run (h.requestStop id timeout))

theorem each_processBatch {order : RowOrder} {size id : ℕ} (hB : B order size id) :
    (Controller.processBatch order size id).Each T := by
  unfold Controller.processBatch
  split
  · exact .pure _
  · exact each_unless_expired (.pure _) (.run (h.processBatch order size id hB))

end

theorem each_resumeStopping (stopping : Bool) (id : ℕ) :
    (Checker.resumeStopping stopping id).Each T := by
  unfold Checker.resumeStopping
  split
  · exact .perform _
  · exact .pure _

theorem each_handleDecision (stopping : Bool) (id : ℕ) (d : Decision) :
    (Checker.handleDecision stopping id d).Each T := by
  unfold Checker.handleDecision
  split
  · exact .pure _
  split
  case h_1 =>
    split
    · exact (Each.perform _).bind fun _ => .pure _
    · exact (each_resumeStopping stopping id).bind fun _ => .pure _
  all_goals exact .pure _

section

variable (h : Transactions env B T)
include h

theorem each_notReady (stopping : Bool) (facts : InstanceCompletion) :
    (Checker.notReady stopping facts).Each T := by
  unfold Checker.notReady
  split
  · exact .pure _
  split
  · exact .pure _
  split
  · exact .pure _
  refine each_unless_expired (.pure _) ((Each.query _).bind fun r => ?_)
  split
  · exact .pure _
  refine each_unless_expired (.pure _) ?_
  split
  · exact .pure _
  split
  · exact .pure _
  refine (h.each_requestStop _ true).bind fun r => ?_
  split
  · exact .pure _
  · exact each_handleDecision stopping _ _

theorem each_completeRound (id : ℕ) (target : InstanceStatus) (summary : Option String) :
    (Checker.completeRound id target summary).Each T := by
  have hcomplete : (JobInstanceRepository.complete id target summary).Each T := by
    unfold JobInstanceRepository.complete
    split
    · exact .pure _
    · exact .run (h.complete _ _ _ _)
  refine hcomplete.bind fun r => ?_
  split <;> exact .pure _

theorem each_checkRunning (stopping : Bool) (id : ℕ) (facts : InstanceCompletion) :
    (Checker.checkRunning stopping id facts).Each T := by
  unfold Checker.checkRunning
  dsimp only
  split
  · exact .pure _
  split
  · exact .pure _
  split
  · exact .pure _
  split
  · exact h.each_notReady stopping facts
  · exact .pure _
  split
  · exact .pure _
  split
  case h_5 => exact h.each_completeRound _ _ _
  case h_6 => exact h.each_completeRound _ _ _
  all_goals exact h.each_notReady stopping facts

theorem each_check (stopping : Bool) (id : ℕ) : (Checker.check stopping id).Each T := by
  unfold Checker.check
  split
  · exact .pure _
  refine each_unless_expired (.pure _) ((Each.query _).bind fun r => ?_)
  split
  · exact .pure _
  · exact .pure _
  split
  · exact .pure _
  split
  case h_5 => exact (each_resumeStopping stopping id).bind fun _ => .pure _
  case h_6 => exact h.each_checkRunning stopping id _
  all_goals exact .pure _

theorem each_stopInstance (id : ℕ) : (Management.stopInstance id).Each T := by
  unfold Management.stopInstance
  split
  · exact .pure _
  refine (h.each_requestStop id false).bind fun r => ?_
  split
  · exact .pure _
  · split
    · exact (Each.perform _).bind fun _ => .pure _
    · exact .pure _

end

/-! ## Triggers -/

theorem each_acquire (wait : Bool) : (Creator.acquire wait).Each T := by
  refine each_unless_expired (.pure _) ((Each.perform _).bind fun got => ?_)
  split <;> exact .pure _

theorem each_triggerManual (h : Transactions env B T) (input : ManualTrigger) :
    (Creator.triggerManual input).Each T := by
  refine each_returning ?_
  split
  · exact .pure _
  split
  · exact .pure _
  refine (each_acquire false).bind fun r => ?_
  split
  · exact .pure _
  refine (Each.perform _).bind fun _ => (Each.run (h.triggerManual _)).bind fun r => ?_
  split
  · exact .pure _
  · split
    · exact each_hint _ _
    · exact .pure _

theorem each_triggerAutomatic (h : Transactions env B T) (id : ℕ) :
    (Creator.triggerAutomatic env id).Each T := by
  refine each_returning ?_
  split
  · exact .pure _
  refine (each_acquire true).bind fun r => ?_
  split
  · exact .pure _
  refine (Each.run (h.triggerAutomatic id)).bind fun r => ?_
  split
  · exact .pure _
  · split
    · exact each_hint _ _
    · exact .pure _

/-! ## Management -/

theorem each_notifying (h : p.Each T) : (Management.notifying p).Each T := by
  refine h.bind fun r => ?_
  split
  · exact .pure _
  refine Each.bind ?_ fun _ => .pure _
  exact each_unless_expired (.pure _) ((Each.perform _).bind fun _ => .pure _)

variable (h : Transactions env B T)
include h

theorem each_createExecutorGroup (name key : String) :
    (Management.createExecutorGroup name key).Each T := by
  unfold Management.createExecutorGroup
  split
  · exact .pure _
  refine (Each.perform _).bind fun r => ?_
  split
  · exact .pure _
  · exact h.createExecutorGroup _

theorem each_deleteExecutorGroup (id : ℕ) : (Management.deleteExecutorGroup id).Each T := by
  unfold Management.deleteExecutorGroup
  split
  · exact .pure _
  · exact .run (h.deleteExecutorGroup id)

theorem each_createJob (config : JobInput) (status : Option Int) :
    (Management.createJob env config status).Each T := by
  unfold Management.createJob
  split
  · exact .pure _
  refine (Each.perform _).bind fun now => ?_
  split
  · exact .pure _
  refine (each_notifying (.run (h.createJob _))).bind fun r => ?_
  split <;> exact .pure _

theorem each_updateJob (id : ℕ) (config : JobInput) :
    (Management.updateJob env id config).Each T := by
  unfold Management.updateJob
  split
  · exact .pure _
  refine (Each.perform _).bind fun now => ?_
  split
  · exact .pure _
  · exact each_notifying (.run (h.updateJob id _))

theorem each_disable (id : ℕ) : (JobDefinitionRepository.disable id).Each T := by
  refine Each.bind (.run (h.disableJob id _)) fun r => ?_
  split
  · exact .pure _
  · exact .pure _
  refine (Each.query _).bind fun j => ?_
  split <;> exact .pure _

theorem each_updateJobStatus (id : ℕ) (status : Option Int) :
    (Management.updateJobStatus env id status).Each T := by
  unfold Management.updateJobStatus
  split
  · exact .pure _
  · exact each_notifying (h.each_disable id)
  refine (each_notifying (.run (h.enableJob id))).bind fun r => ?_
  split <;> exact .pure _

theorem each_deleteJob (id : ℕ) : (Management.deleteJob id).Each T := by
  unfold Management.deleteJob
  split
  · exact .pure _
  · exact each_notifying (.run (h.deleteJob id))

/-! ## Calls -/

/-- **Every transaction of every call is one of the list.** -/
theorem each (c : Call) (order : RowOrder)
    (hB : ∀ size id, c = .processBatch size id → B order size id) :
    (c.code env order).Each T := by
  cases c with
  | startOrdinary id => exact each_ignore (each_returning (h.each_startOrdinary id))
  | retryOrdinary c => exact each_ignore (each_returning (h.each_retryOrdinary c))
  | dispatchOrdinary delay id =>
    refine each_ignore ?_
    unfold Dispatcher.dispatchOrdinary
    split
    · exact .pure _
    · exact h.each_dispatch delay (each_returning (h.each_startOrdinary id))
  | dispatchRetry delay c =>
    refine each_ignore ?_
    unfold Dispatcher.dispatchRetry
    split
    · exact .pure _
    · exact h.each_dispatch delay (each_returning (h.each_retryOrdinary c))
  | bindExecutor b => exact each_ignore (h.each_bindExecutor b)
  | saveDispatchBusy w => exact each_ignore (h.each_saveDispatchBusy w)
  | saveDispatchRejection w => exact each_ignore (h.each_saveDispatchRejection w)
  | save r => exact each_ignore (h.each_save r)
  | settleBatch period cs => exact each_ignore (h.each_settleBatch period cs)
  | check stopping id => exact each_ignore (h.each_check stopping id)
  | stopInstance id => exact each_ignore (h.each_stopInstance id)
  | requestTimeout id => exact each_ignore (h.each_requestStop id true)
  | processBatch size id => exact each_ignore (h.each_processBatch (hB size id rfl))
  | triggerManual m => exact each_ignore (h.each_triggerManual m)
  | triggerAutomatic id => exact each_ignore (h.each_triggerAutomatic id)
  | createExecutorGroup name key => exact each_ignore (h.each_createExecutorGroup name key)
  | deleteExecutorGroup id => exact each_ignore (h.each_deleteExecutorGroup id)
  | createJob c status => exact each_ignore (h.each_createJob c status)
  | updateJob id c => exact each_ignore (h.each_updateJob id c)
  | updateJobStatus id status => exact each_ignore (h.each_updateJobStatus id status)
  | deleteJob id => exact each_ignore (h.each_deleteJob id)

end Transactions

end Dogx.Job
