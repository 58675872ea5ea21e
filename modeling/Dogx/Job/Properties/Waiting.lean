import Dogx.Txn.Waiting
import Dogx.Job.Transactions
import Dogx.Job.Refine.Service

/-!
# No two transactions wait for each other

Groups rank below jobs, jobs below rounds and rounds below tasks. Every transaction takes its rows in
that order. A stop batch is the one that takes several tasks, in any order, and it does so under the
lock of their round; other transactions wait for at most one task and hold no other.
-/

namespace Dogx.Job

open Txn (Hold)
open Txn.Tx (Climbs)

abbrev Res := Txn.Res sig

def rank : Res → ℕ
  | .row .group _ => 0
  | .row .job _ => 1
  | .row .instance _ => 2
  | .row .task _ => 3
  | .key _ _ => 0

def home : (t : Table) → Row t → Option Res
  | .task, t => some (.row .instance t.instanceId)
  | _, _ => none

def Orderly {α : Type} (body : Tx α) : Prop :=
  Climbs rank home 3 body (fun _ _ => True) .nothing

variable {env : Env} {α : Type} {h : Hold sig} {id : ℕ} {Q : Option JobInstance → Hold sig → Prop}

/-! ## Rounds and their tasks -/

section Rounds

open JobInstanceRepository JobTaskRepository

theorem climbs_lockForStop {nowait : Bool} (hnone : Q none .nothing)
    (hsome : ∀ i, Q (some i) (Hold.nothing.add (.row .instance id))) :
    Climbs rank home 3 (lockForStop id nowait) Q .nothing := by
  unfold lockForStop
  split
  · trivial
  · exact .bind (.lockRow rfl (.inr .first) trivial hnone hsome)

theorem climbs_lockForExecution (hnone : Q none .nothing)
    (hsome : ∀ i, Q (some i) (Hold.nothing.add (.row .instance id))) :
    Climbs rank home 3 (lockForExecution id) Q .nothing :=
  .bind (.lockRow rfl (.inl rfl) trivial hnone hsome)

theorem orderly_startOrdinaryTx (id : ℕ) : Orderly (Registrar.startOrdinaryTx id) := by
  refine .bind (climbs_lockForExecution trivial fun i => ?_)
  dsimp only
  split
  · trivial
  split
  · trivial
  split
  · trivial
  split
  · trivial
  split
  · trivial
  refine .bind (.query fun now => ?_)
  split
  · trivial
  refine .bind (.bind (.updateRow rfl .again trivial fun _ => ?_))
  -- the new task is nobody else's row
  refine .bind ?_
  unfold insertOrdinary
  split
  · trivial
  refine .bind (.insertRow fun taskId => ?_)
  split
  · trivial
  · change Climbs rank home 3 (ite _ _ _) _ _
    split <;> trivial

theorem rank_lt_task (id taskId : ℕ) :
    (Hold.nothing.add (.row .instance id) : Hold sig).Next rank (.row .task taskId) := by
  refine .inr fun x hx => ?_
  rcases hx with rfl | hx
  · exact Nat.lt_succ_self 2
  · exact hx.elim

theorem orderly_retryOrdinaryTx (c : RetryCandidate) : Orderly (Registrar.retryOrdinaryTx c) := by
  refine .bind (climbs_lockForExecution trivial fun i => ?_)
  dsimp only
  split
  · trivial
  split
  · trivial
  refine .bind (.query fun now => ?_)
  split
  · split
    · trivial
    split
    · trivial
    split
    · trivial
    split
    · trivial
    refine .bind (.bind ?_)
    unfold registerOrdinaryRetry
    split
    · trivial
    refine .bind (.updateRow rfl (rank_lt_task _ _) trivial fun t => ?_)
    dsimp only
    split
    · trivial
    · change Climbs rank home 3 (ite _ _ _) _ _
      split <;> trivial
  · trivial

theorem orderly_updateRow (t : Table) (id : ℕ) (f : View → Row t → Txn.Verdict (Row t))
    (k : Option (Row t) → Tx α) (hk : ∀ x h, Climbs rank home 3 (k x) (fun _ _ => True) h) :
    Orderly (updateRow t id f >>= k) :=
  .bind (.updateRow rfl .first (hk _ _) fun _ => hk _ _)

theorem orderly_requestStopTx (id : ℕ) (timeout : Bool) :
    Orderly (Controller.requestStopTx id timeout) := by
  -- a decision is recorded on the row that is locked
  have decides : ∀ i reason summary now, Climbs rank home 3
      (Controller.decideStop id i reason summary now) (fun _ _ => True)
      (Hold.nothing.add (.row .instance id)) := by
    intro i reason summary now
    refine .bind ?_
    unfold recordStop
    split
    · trivial
    · exact .bind (.updateRow rfl .again trivial fun _ => trivial)
  have active : ∀ i, Climbs rank home 3 (Controller.stopActive id timeout i) (fun _ _ => True)
      (Hold.nothing.add (.row .instance id)) := by
    intro i
    refine .bind (.query fun now => ?_)
    split
    · trivial
    split
    · trivial
    split
    · split
      · trivial
      · split
        · trivial
        · exact decides _ _ _ _
    · exact decides _ _ _ _
  refine .bind (climbs_lockForStop trivial fun i => ?_)
  dsimp only
  split
  · trivial
  split
  case h_5 =>
    split
    · trivial
    · exact active i
  case h_6 => exact active i
  all_goals trivial

theorem climbs_cancelRows (w : TaskCancellation) (ids : List ℕ) {Q : ℕ → Hold sig → Prop}
    (hg : .row .instance w.instanceId ∈ h.rows)
    (hbelow : h.sweep = none ∧ (∀ x ∈ h.rows, rank x < 3) ∨
      h.sweep = some (.row .instance w.instanceId)) (hQ : ∀ n h, Q n h) :
    Climbs rank home 3 (cancelRows w ids) Q h := by
  induction ids generalizing h Q with
  | nil => exact hQ _ _
  | cons _ _ ih =>
    refine .bind (.sweepRow hg hbelow rfl (fun view t t' hset => ?_) fun _ => ?_)
    · obtain ⟨hw, -⟩ := updateWhere_eq_set.mp hset
      rw [← (cancelWhere_iff.mp hw).1]
      rfl
    · exact .bind (ih hg (.inr rfl) fun _ _ => hQ _ _)

theorem orderly_processBatchTx (order : RowOrder) (size id : ℕ) :
    Orderly (Controller.processBatchTx order size id) := by
  refine .bind (climbs_lockForStop trivial fun i => ?_)
  dsimp only
  split
  · trivial
  split
  case h_6 =>
    unfold Controller.processStopping
    split
    · split
      · trivial
      refine .bind (.query fun ids => ?_)
      split
      · trivial
      split
      · refine .bind ?_
        unfold finishStop
        split
        · trivial
        · exact .bind (.updateRow rfl .again trivial fun _ => trivial)
      · refine .bind (.query fun now => ?_)
        split
        · trivial
        refine .bind ?_
        unfold cancelUnfinished
        split
        · trivial
        split
        · trivial
        refine climbs_cancelRows _ _ (Set.mem_insert _ _) (.inl ⟨rfl, fun x hx => ?_⟩) fun n h => ?_
        · rcases hx with rfl | hx
          · exact Nat.lt_succ_self 2
          · exact hx.elim
        · change Climbs rank home 3 (ite _ _ _) _ _
          split <;> trivial
    · trivial
  all_goals trivial

end Rounds

/-! ## Jobs and groups -/

section Jobs

open JobDefinitionRepository

theorem climbs_lock {Q : JobDefinition → Hold sig → Prop}
    (hsome : ∀ j, Q j (Hold.nothing.add (.row .job id))) :
    Climbs rank home 3 (lock id) Q .nothing := by
  refine .bind (.lockRow rfl (.inr .first) trivial trivial fun j => ?_)
  dsimp only
  split
  · trivial
  · exact hsome j

theorem climbs_lockAvailable {Q : Unit → Hold sig → Prop}
    (hsome : Q () (Hold.nothing.add (.row .group id))) :
    Climbs rank home 3 (ExecutorGroupRepository.lockAvailable id) Q .nothing := by
  refine .bind (.lockRow rfl (.inr .first) trivial trivial fun g => ?_)
  dsimp only
  split
  · trivial
  · exact hsome

theorem climbs_checkWrite (id : ℕ) (changed : Option JobDefinition) {Q : Unit → Hold sig → Prop}
    (hQ : Q () h) : Climbs rank home 3 (checkWrite id changed) Q h := by
  unfold checkWrite
  split
  · exact hQ
  refine .bind (.query fun j => ?_)
  split
  · trivial
  · split <;> trivial

theorem climbs_write {f : View → JobDefinition → Txn.Verdict JobDefinition}
    {Q : Unit → Hold sig → Prop} (hsweep : h.sweep = none) (hnext : h.Next rank (.row .job id))
    (hQ : ∀ h, Q () h) :
    Climbs rank home 3 (updateRow .job id f >>= fun changed => checkWrite id changed) Q h :=
  .bind (.updateRow hsweep hnext (climbs_checkWrite id _ (hQ _)) fun _ =>
    climbs_checkWrite id _ (hQ _))

theorem climbs_replayTx (prior : ManualIdentity) (input : ManualTrigger) :
    Climbs rank home 3 (Creator.replayTx prior input) (fun _ _ => True) h := by
  unfold Creator.replayTx
  split <;> trivial

theorem climbs_createManual (j : JobDefinition) (input : ManualTrigger) :
    Climbs rank home 3 (Creator.createManual j input) (fun _ _ => True) h := by
  refine .bind (.insertRow fun id => ?_)
  split
  · trivial
  refine .bind (.query fun prior => ?_)
  split
  · trivial
  · exact climbs_replayTx _ _

theorem orderly_triggerManualTx (input : ManualTrigger) :
    Orderly (Creator.triggerManualTx input) := by
  refine .bind (climbs_lock fun j => .bind (.query fun prior => ?_))
  split
  · exact climbs_replayTx _ _
  refine .bind (.query fun available => ?_)
  split
  · trivial
  split
  · refine .bind (.query fun active => ?_)
    split
    · trivial
    · exact climbs_createManual j input
  · exact climbs_createManual j input

theorem climbs_createOccurrence (j : JobDefinition) (decisionAt scheduledAt : ℕ)
    {Q : AutomaticResult → Hold sig → Prop} (hQ : ∀ r, Q r h) :
    Climbs rank home 3 (Creator.createOccurrence j decisionAt scheduledAt) Q h := by
  refine .bind (.insertRow fun id => ?_)
  split
  · exact hQ _
  · exact hQ _

theorem climbs_decideOccurrence (j : JobDefinition) (id decisionAt scheduledAt : ℕ)
    {Q : AutomaticResult → Hold sig → Prop} (hQ : ∀ r, Q r h) :
    Climbs rank home 3 (Creator.decideOccurrence j id decisionAt scheduledAt) Q h := by
  unfold Creator.decideOccurrence
  split
  · exact hQ _
  split
  · refine .bind (.query fun active => ?_)
    split
    · exact hQ _
    · exact climbs_createOccurrence j decisionAt scheduledAt hQ
  · exact climbs_createOccurrence j decisionAt scheduledAt hQ

theorem orderly_triggerAutomaticTx (env : Env) (id : ℕ) :
    Orderly (Creator.triggerAutomaticTx env id) := by
  refine .bind (.lockRow rfl (.inr .first) trivial trivial fun j => ?_)
  dsimp only
  split
  · trivial
  refine .bind (.input fun decisionAt => ?_)
  unfold Creator.triggerLocked
  split
  · trivial
  split
  · trivial
  split
  · trivial
  split
  · trivial
  refine .bind (climbs_decideOccurrence j id _ _ fun r => .bind ?_)
  exact climbs_write rfl .again fun _ => trivial

theorem orderly_deleteExecutorGroupTx (id : ℕ) :
    Orderly (Management.deleteExecutorGroupTx id) := by
  refine .bind (climbs_lockAvailable (.bind (.query fun used => ?_)))
  split
  · trivial
  refine .bind (.query fun active => ?_)
  split
  · trivial
  exact .bind (.input fun now => .bind (.updateRow rfl .again trivial fun _ => trivial))

theorem climbs_create (j : JobDefinition) (decisionAt : Option ℕ) :
    Climbs rank home 3 (create j >>= fun id => pure (id, decisionAt)) (fun _ _ => True) h := by
  refine .bind (.bind (.insertRow fun id => ?_))
  split <;> trivial

theorem orderly_createJobTx (env : Env) (definition : JobDefinition) :
    Orderly (Management.createJobTx env definition) := by
  refine .bind (climbs_lockAvailable ?_)
  split
  · generalize Schedule.next env definition.cronExpr = next
    refine .bind (.input fun now => ?_)
    split
    · trivial
    · exact climbs_create _ _
  · exact climbs_create _ _

theorem orderly_updateJobTx (id : ℕ) (definition : JobDefinition) :
    Orderly (Management.updateJobTx id definition) := by
  refine .bind (climbs_lockAvailable (climbs_write rfl (.inr fun x hx => ?_) fun _ => trivial))
  rcases hx with rfl | hx
  · exact Nat.lt_succ_self 0
  · exact hx.elim

theorem orderly_enableJobTx (env : Env) (id : ℕ) : Orderly (Management.enableJobTx env id) := by
  refine .bind (climbs_lock fun j => ?_)
  split
  · trivial
  refine .bind (.query fun available => ?_)
  split
  · trivial
  split
  · trivial
  refine .bind (.input fun now => ?_)
  split
  · trivial
  · exact .bind (climbs_write rfl .again fun _ => trivial)

theorem orderly_deleteJobTx (id : ℕ) : Orderly (Management.deleteJobTx id) := by
  refine .bind (climbs_lock fun j => ?_)
  split
  · trivial
  refine .bind (.query fun active => ?_)
  split
  · trivial
  exact .bind (.input fun now => climbs_write rfl .again fun _ => trivial)

end Jobs

/-! ## Every transaction -/

/-- Every transaction takes its rows in the order of their rank. -/
theorem transactions_orderly (env : Env) :
    Transactions env (fun _ _ _ => True) fun _ _ body => Orderly body where
  startOrdinary := orderly_startOrdinaryTx
  retryOrdinary := orderly_retryOrdinaryTx
  writeTask := fun _ _ _ _ => orderly_updateRow _ _ _ _ fun _ _ => trivial
  settleOrdinaryUnknown := fun w => by
    unfold JobTaskRepository.settleOrdinaryUnknown
    split
    · exact .pure _
    · refine .run (orderly_updateRow _ _ _ _ fun t _ => ?_)
      split
      · trivial
      · split <;> trivial
  complete := fun _ _ _ _ => orderly_updateRow _ _ _ _ fun _ _ => trivial
  requestStop := orderly_requestStopTx
  processBatch := fun order size id _ => orderly_processBatchTx order size id
  triggerManual := orderly_triggerManualTx
  triggerAutomatic := orderly_triggerAutomaticTx env
  createExecutorGroup := fun g => by
    refine .run (.bind (.insertRow fun id => ?_))
    split
    · trivial
    · exact .bind (.query fun _ => trivial)
  deleteExecutorGroup := orderly_deleteExecutorGroupTx
  createJob := orderly_createJobTx env
  updateJob := orderly_updateJobTx
  enableJob := orderly_enableJobTx env
  disableJob := fun _ _ => orderly_updateRow _ _ _ _ fun _ _ => trivial
  deleteJob := orderly_deleteJobTx

/--
**Nobody waits in a circle.** At no moment of any run from any sound state of the tables, with any
number of calls on any number of nodes and any row order inside one statement, does the waits-for
graph of the row locks have a cycle; and a transaction whose next statement is a `NOWAIT` read waits
for nobody.
-/
theorem waits_acyclic (env : Env) (w : World) (hw : (contract env).Sane w)
    (ms : List (Txn.Move sig (Call × RowOrder))) (s : Sys)
    (hr : (Txn.Sys.atRest w).run (reordered env) ms = some s) :
    (∀ i, ¬ Relation.TransGen s.Waits i i) ∧
    ∀ i pid α (label : α → Op) t id k k', s.sessions i =
      some ⟨pid, .running label (.lock t id true k) k'⟩ → ∀ j, ¬ s.Waits i j := by
  have ho : Txn.Orderly (contract env) rank home 3 s :=
    (Txn.Orderly.atRest hw).run (contract_kept env) (reordered_keeps env)
      (fun c => (transactions_orderly env).each c.1 c.2 fun _ _ _ => trivial) hr
  refine ⟨ho.acyclic, ?_⟩
  rintro i _ α _ t _ k _ hi j ⟨r, hw, -⟩
  rw [Txn.Sys.wants, hi] at hw
  simp only [Txn.Sys.wantsTx] at hw
  split at hw
  · cases hw
  · simp at hw

namespace Demo

/-- The same move, with every statement in the order of its list. -/
def listed : Move → Txn.Move sig (Call × RowOrder)
  | .tick d => .tick d
  | .spawn c => .spawn (c, .listed)
  | .begin i => .begin i
  | .exec i => .exec i
  | .reply i a r => .reply i a r
  | .fail i f => .fail i f
  | .commit i => .commit i
  | .confirm i => .confirm i
  | .lose i f => .lose i f

/-- Two requests to stop one round: the second waits for the lock of the first. -/
def contended : List Move :=
  requested ++ [.spawn (.stopInstance 1), .reply 3 .expired false, .spawn (.stopInstance 1),
    .reply 4 .expired false, .begin 3, .exec 3, .begin 4]

end Demo

theorem contended_waits : ∃ s : Sys,
    Txn.Sys.init.run (reordered Demo.library) (Demo.contended.map Demo.listed) = some s ∧
      s.Waits 4 3 ∧ ∀ i, ¬ Relation.TransGen s.Waits i i := by
  obtain ⟨s, hr, hwants, hlock⟩ : ∃ s ∈ Txn.Sys.init.run (reordered Demo.library)
      (Demo.contended.map Demo.listed), s.wants 4 = some (.row .instance 1) ∧
        s.locks (.row .instance 1) = some 3 := by decide +kernel
  exact ⟨s, hr, ⟨_, hwants, hlock⟩,
    (waits_acyclic Demo.library _ (.init Inv.init) _ s hr).1⟩

end Dogx.Job
