import Dogx.Job.Spec.Contract

/-!
# What a commit can do to a row

Every case analysis of an effect goes through `Effect.task_write`, `Effect.instance_write` and
`Effect.job_write`: where the new version of a row comes from.
-/

namespace Dogx.Job

open Txn (Store Rely Interferes Evolves)
open JobTaskRepository JobInstanceRepository JobDefinitionRepository

variable {env : Env} {w w' : World} {op : Op} {writes : Db} {id id' pid : ℕ} {i' : JobInstance}
  {j' : JobDefinition}

/-! ## Inversion -/

inductive TaskWrite (w : World) (op : Op) (id : ℕ) (t' : JobTask) : Prop where
  | new {instanceId startedAt : ℕ} {i : JobInstance}
      (hop : op = .startOrdinary instanceId (some (firstAttempt i startedAt id)))
      (h : Starts w instanceId i startedAt id) (ht : t' = ordinaryTask instanceId startedAt id)
  | old {t : JobTask} (row : w.db .task id = some t) (h : TaskUpdate w op id t t')

inductive InstanceWrite (env : Env) (w : World) (op : Op) (id : ℕ) (i' : JobInstance) : Prop where
  | requested {m : ManualTrigger} {j : JobDefinition} (hop : op = .triggerManual m id true)
      (h : Admits w m.jobId id j) (hi : i' = newInstance (Creator.manualSnapshot j m) id)
  | occurred {jobId decisionAt scheduledAt next : ℕ} {j : JobDefinition}
      (hop : op = .triggerAutomatic jobId decisionAt
        { instanceId := id, created := true, reason := "created" })
      (due : Due env w jobId j decisionAt scheduledAt next) (h : Admits w jobId id j)
      (hi : i' = newInstance (occurrence j decisionAt scheduledAt) id)
  | started {startedAt taskId : ℕ} {i : JobInstance}
      (hop : op = .startOrdinary id (some (firstAttempt i startedAt taskId)))
      (h : Starts w id i startedAt taskId)
      (hi : i' = startSet startedAt (addSeconds startedAt i.executionConfig.timeoutSeconds) i)
  | old {i : JobInstance} (row : w.db .instance id = some i) (h : InstanceUpdate w op id i i')

inductive JobWrite (env : Env) (w : World) (op : Op) (id : ℕ) (j' : JobDefinition) : Prop where
  | created {decisionAt : Option ℕ} (hop : op = .createJob id decisionAt)
      (h : NewJob env w id decisionAt j')
  | advanced {decisionAt scheduledAt next : ℕ} {r : AutomaticResult} {j : JobDefinition}
      (hop : op = .triggerAutomatic id decisionAt r)
      (due : Due env w id j decisionAt scheduledAt next) (hj : j' = advanceSet next j)
  | old {j : JobDefinition} (row : w.db .job id = some j) (h : JobUpdate env w op id j j')

theorem written {base : Db} {table : Table} {r r' : Row table} (hbase : base table id' = none)
    (h : base.set table id r table id' = some r') : id' = id ∧ r' = r := by
  rw [Store.set_same] at h
  split at h
  · next hid => exact ⟨hid, (Option.some.inj h).symm⟩
  · rw [hbase] at h; simp at h

section

variable (h : Effect env w op writes)
include h

/-- What an effect may write to a task. -/
theorem Effect.task_write {t' : JobTask} (hw : writes .task id = some t') :
    TaskWrite w op id t' := by
  cases h with
  | started h =>
    obtain ⟨rfl, rfl⟩ := written rfl hw
    exact .new rfl h rfl
  | task row h =>
    obtain ⟨rfl, rfl⟩ := written rfl hw
    exact .old row h
  | canceled tasks =>
    obtain ⟨t, row, h⟩ := tasks id t' hw
    exact .old row h
  | _ => simp at hw

/-- What an effect may write to a round. -/
theorem Effect.instance_write (hw : writes .instance id = some i') :
    InstanceWrite env w op id i' := by
  cases h with
  | started h =>
    simp only [ne_eq, reduceCtorEq, not_false_eq_true, Store.set_table_ne] at hw
    obtain ⟨rfl, rfl⟩ := written rfl hw
    exact .started rfl h rfl
  | canceled _ only => simp [only] at hw
  | round row h =>
    obtain ⟨rfl, rfl⟩ := written rfl hw
    exact .old row h
  | requested h =>
    obtain ⟨rfl, rfl⟩ := written rfl hw
    exact .requested rfl h rfl
  | occurred due h =>
    simp only [ne_eq, reduceCtorEq, not_false_eq_true, Store.set_table_ne] at hw
    obtain ⟨rfl, rfl⟩ := written rfl hw
    exact .occurred rfl due h rfl
  | _ => simp at hw

/-- What an effect may write to a job. -/
theorem Effect.job_write (hw : writes .job id = some j') : JobWrite env w op id j' := by
  cases h with
  | canceled _ only => simp [only] at hw
  | occurred due | passed due =>
    obtain ⟨rfl, rfl⟩ := written rfl hw
    exact .advanced rfl due rfl
  | jobCreated h =>
    obtain ⟨rfl, rfl⟩ := written rfl hw
    exact .created rfl h
  | job row h =>
    obtain ⟨rfl, rfl⟩ := written rfl hw
    exact .old row h
  | _ => simp at hw

theorem Effect.group_write {g' : ExecutorGroup} (hw : writes .group id = some g') :
    g'.deletedAt = none ∨
      (op = .deleteExecutorGroup id ∧ NoReference w.db id ∧ NoActiveFor w.db id) := by
  cases h with
  | canceled _ only => simp [only] at hw
  | groupCreated _ _ kept =>
    obtain ⟨rfl, rfl⟩ := written rfl hw
    exact Or.inl kept
  | groupDeleted _ unused idle =>
    obtain ⟨rfl, rfl⟩ := written rfl hw
    exact Or.inr ⟨rfl, unused, idle⟩
  | _ => simp at hw

end

/-! ## What every commit keeps -/

/-- What no update of a task changes or takes back. -/
structure JobTask.Follows (t t' : JobTask) : Prop where
  id : t'.id = t.id
  instanceId : t'.instanceId = t.instanceId
  taskType : t'.taskType = t.taskType
  startedAt : t'.startedAt = t.startedAt
  attempt : t.attemptNo ≤ t'.attemptNo
  final : t.status.unfinished = false → t' = t
  running : t'.status = .running → t'.attemptNo = t.attemptNo →
    t.status = .running ∧ t'.usedAttempts = t.usedAttempts
  bound : t'.attemptNo = t.attemptNo → t.executorInstanceId.isSome →
    t'.executorInstanceId = t.executorInstanceId ∧ t'.executorAddress = t.executorAddress

structure JobInstance.Follows (i i' : JobInstance) : Prop where
  id : i'.id = i.id
  jobId : i'.jobId = i.jobId
  executorGroupId : i'.executorGroupId = i.executorGroupId
  scheduledAt : i'.scheduledAt = i.scheduledAt
  requestId : i'.requestId = i.requestId
  paramsOverridden : i'.paramsOverridden = i.paramsOverridden
  executionConfig : i'.executionConfig = i.executionConfig
  final : i.status.active = false → i' = i
  waiting : i'.status = .waiting → i' = i
  started : i.startedAt.isSome → i'.startedAt = i.startedAt ∧ i'.deadlineAt = i.deadlineAt
  stopping : i.status = .stopping → i'.endReason = i.endReason ∧
    (i'.status = .stopping ∨ ∃ reason, i.endReason = some reason ∧ i'.status = stopTarget reason)

structure JobDefinition.Follows (j j' : JobDefinition) : Prop where
  id : j'.id = j.id
  deleted : j.deletedAt.isSome → j'.deletedAt.isSome

namespace JobTask.Follows

variable {t t' t'' : JobTask}

theorem refl (t : JobTask) : t.Follows t :=
  ⟨rfl, rfl, rfl, rfl, Int.le_refl _, fun _ => rfl, fun h _ => ⟨h, rfl⟩, fun _ _ => ⟨rfl, rfl⟩⟩

theorem trans (h : t.Follows t') (h' : t'.Follows t'') : t.Follows t'' where
  id := h'.id.trans h.id
  instanceId := h'.instanceId.trans h.instanceId
  taskType := h'.taskType.trans h.taskType
  startedAt := h'.startedAt.trans h.startedAt
  attempt := Int.le_trans h.attempt h'.attempt
  final := fun hf => by
    have e := h.final hf
    subst e
    exact h'.final hf
  running := fun hr ha => by
    have h1 := h.attempt
    have h2 := h'.attempt
    -- the attempt number has not moved in between either
    obtain ⟨hr', hu'⟩ := h'.running hr (by omega)
    obtain ⟨hr0, hu0⟩ := h.running hr' (by omega)
    exact ⟨hr0, hu'.trans hu0⟩
  bound := fun ha hb => by
    have h1 := h.attempt
    have h2 := h'.attempt
    obtain ⟨hi, hd⟩ := h.bound (by omega) hb
    obtain ⟨hi', hd'⟩ := h'.bound (by omega) (hi ▸ hb)
    exact ⟨hi'.trans hi, hd'.trans hd⟩

end JobTask.Follows

namespace JobInstance.Follows

variable {i i' i'' : JobInstance}

theorem refl (i : JobInstance) : i.Follows i :=
  ⟨rfl, rfl, rfl, rfl, rfl, rfl, rfl, fun _ => rfl, fun _ => rfl, fun _ => ⟨rfl, rfl⟩,
    fun h => ⟨rfl, Or.inl h⟩⟩

theorem trans (h : i.Follows i') (h' : i'.Follows i'') : i.Follows i'' where
  id := h'.id.trans h.id
  jobId := h'.jobId.trans h.jobId
  executorGroupId := h'.executorGroupId.trans h.executorGroupId
  scheduledAt := h'.scheduledAt.trans h.scheduledAt
  requestId := h'.requestId.trans h.requestId
  paramsOverridden := h'.paramsOverridden.trans h.paramsOverridden
  executionConfig := h'.executionConfig.trans h.executionConfig
  final := fun hf => by
    have e := h.final hf
    subst e
    exact h'.final hf
  waiting := fun hw => by
    have e := h'.waiting hw
    subst e
    exact h.waiting hw
  started := fun hs => by
    obtain ⟨hs1, hd1⟩ := h.started hs
    obtain ⟨hs2, hd2⟩ := h'.started (hs1 ▸ hs)
    exact ⟨hs2.trans hs1, hd2.trans hd1⟩
  stopping := fun hs => by
    obtain ⟨hr, hs' | ⟨reason, hreason, hs'⟩⟩ := h.stopping hs
    · obtain ⟨hr', hs''⟩ := h'.stopping hs'
      exact ⟨hr'.trans hr, by rw [hr] at hs''; exact hs''⟩
    · -- the stop is finished, and nothing follows
      have e := h'.final (by rw [hs', stopTarget]; split <;> rfl)
      subst e
      exact ⟨hr, Or.inr ⟨reason, hreason, hs'⟩⟩

end JobInstance.Follows

namespace JobDefinition.Follows

variable {j j' j'' : JobDefinition}

theorem refl (j : JobDefinition) : j.Follows j := ⟨rfl, fun h => h⟩

theorem trans (h : j.Follows j') (h' : j'.Follows j'') : j.Follows j'' :=
  ⟨h'.id.trans h.id, fun hd => h'.deleted (h.deleted hd)⟩

end JobDefinition.Follows

/-- No update of a task takes back what it has come to. -/
theorem TaskUpdate.follows {t t' : JobTask} (h : TaskUpdate w op id t t') : t.Follows t' := by
  cases h with
  | retried _ _ _ _ _ waiting =>
    obtain ⟨_, _, hr, _⟩ := registerWhere_iff.mp waiting
    refine ⟨rfl, rfl, rfl, rfl, ?_, ?_, ?_, ?_⟩
    · show t.attemptNo ≤ t.attemptNo + 1
      omega
    · simp [hr, TaskStatus.unfinished]
    · intro _ ha
      change t.attemptNo + 1 = t.attemptNo at ha
      omega
    · intro ha
      change t.attemptNo + 1 = t.attemptNo at ha
      omega
  | bound unbound =>
    obtain ⟨_, _, hr, he, _⟩ := bindWhere_iff.mp unbound
    refine ⟨rfl, rfl, rfl, rfl, Int.le_refl _, ?_, ?_, ?_⟩
    · simp [hr, TaskStatus.unfinished]
    · simp [bindSet]
    · simp [he]
  | busy unbound =>
    obtain ⟨_, _, _, hr, _⟩ := unboundWhere_iff.mp unbound
    refine ⟨rfl, rfl, rfl, rfl, Int.le_refl _, ?_, ?_, fun _ _ => ⟨rfl, rfl⟩⟩
    · simp [hr, TaskStatus.unfinished]
    · simp [busySet]
  | rejected unbound =>
    obtain ⟨_, _, _, hr, _⟩ := unboundWhere_iff.mp unbound
    refine ⟨rfl, rfl, rfl, rfl, Int.le_refl _, ?_, ?_, fun _ _ => ⟨rfl, rfl⟩⟩
    · simp [hr, TaskStatus.unfinished]
    · simp only [rejectionSet, closeSet]
      split <;> simp
  | saved current status =>
    obtain ⟨_, _, hr, _⟩ := resultWhere_iff.mp current
    refine ⟨rfl, rfl, rfl, rfl, Int.le_refl _, ?_, ?_, fun _ _ => ⟨rfl, rfl⟩⟩
    · simp [hr, TaskStatus.unfinished]
    · rcases status with h | h | h <;> simp [resultSet, h]
  | settled unbound =>
    obtain ⟨_, _, _, hr, _⟩ := settleWhere_iff.mp unbound
    refine ⟨rfl, rfl, rfl, rfl, Int.le_refl _, ?_, ?_, fun _ _ => ⟨rfl, rfl⟩⟩
    · simp [hr, TaskStatus.unfinished]
    · simp only [settleSet, closeSet]
      split <;> simp
  | canceled _ _ _ unfinished =>
    obtain ⟨_, hu⟩ := cancelWhere_iff.mp unfinished
    refine ⟨rfl, rfl, rfl, rfl, Int.le_refl _, ?_, ?_, fun _ _ => ⟨rfl, rfl⟩⟩
    · simp [hu]
    · simp [cancelSet]

theorem startSet_follows {i : JobInstance} {startedAt deadlineAt : ℕ} (h : startWhere i = true) :
    i.Follows (startSet startedAt deadlineAt i) := by
  simp only [startWhere, Bool.and_eq_true, decide_eq_true_eq] at h
  refine ⟨rfl, rfl, rfl, rfl, rfl, rfl, rfl, ?_, ?_, ?_, ?_⟩
  · simp [h, InstanceStatus.active]
  · simp [startSet]
  · simp [h]
  · simp [h]

/-- The start and the deadline of a round are written by its start alone. -/
theorem InstanceUpdate.times {i : JobInstance} (h : InstanceUpdate w op id i i') :
    i'.startedAt = i.startedAt ∧ i'.deadlineAt = i.deadlineAt := by
  cases h <;> exact ⟨rfl, rfl⟩

/-- No update of a round takes back what it has come to. -/
theorem InstanceUpdate.follows {i : JobInstance} (h : InstanceUpdate w op id i i') :
    i.Follows i' := by
  have times := h.times
  cases h with
  | completed running _ _ _ final =>
    simp only [completeWhere, decide_eq_true_eq] at running
    refine ⟨rfl, rfl, rfl, rfl, rfl, rfl, rfl, ?_, ?_, fun _ => times, ?_⟩
    · simp [running, InstanceStatus.active]
    · rcases final with ⟨h, _⟩ | ⟨h, _⟩ <;> simp [completeSet, h]
    · simp [running]
  | stopped active =>
    refine ⟨rfl, rfl, rfl, rfl, rfl, rfl, rfl, ?_, ?_, fun _ => times, ?_⟩
    · rcases active with h | ⟨h, _⟩ <;> simp [h, InstanceStatus.active]
    · simp [stopSet]
    · rcases active with h | ⟨h, _⟩ <;> simp [h]
  | finished stopping frozen =>
    refine ⟨rfl, rfl, rfl, rfl, rfl, rfl, rfl, ?_, ?_, fun _ => times,
      fun _ => ⟨rfl, Or.inr ⟨_, frozen, rfl⟩⟩⟩
    · simp [stopping, InstanceStatus.active]
    · simp only [finishSet, stopTarget]
      split <;> simp

theorem JobUpdate.follows {j : JobDefinition} (h : JobUpdate env w op id j j') : j.Follows j' := by
  cases h with
  | deleted => exact ⟨rfl, fun _ => rfl⟩
  | _ => exact ⟨rfl, fun h => h⟩

/-- The rows of `db` are still there in `db'`, each as it was or further on. -/
structure Db.Follows (db db' : Db) : Prop where
  task : ∀ id t, db .task id = some t → ∃ t', db' .task id = some t' ∧ t.Follows t'
  round : ∀ id i, db .instance id = some i → ∃ i', db' .instance id = some i' ∧ i.Follows i'
  job : ∀ id j, db .job id = some j → ∃ j', db' .job id = some j' ∧ j.Follows j'

namespace Db.Follows

variable {db db' db'' : Db}

theorem refl (db : Db) : Db.Follows db db where
  task := fun _ t h => ⟨t, h, .refl t⟩
  round := fun _ i h => ⟨i, h, .refl i⟩
  job := fun _ j h => ⟨j, h, .refl j⟩

theorem trans (h : Db.Follows db db') (h' : Db.Follows db' db'') : Db.Follows db db'' where
  task := fun id t ht => by
    obtain ⟨t', ht', hf⟩ := h.task id t ht
    obtain ⟨t'', ht'', hf'⟩ := h'.task id t' ht'
    exact ⟨t'', ht'', hf.trans hf'⟩
  round := fun id i hi => by
    obtain ⟨i', hi', hf⟩ := h.round id i hi
    obtain ⟨i'', hi'', hf'⟩ := h'.round id i' hi'
    exact ⟨i'', hi'', hf.trans hf'⟩
  job := fun id j hj => by
    obtain ⟨j', hj', hf⟩ := h.job id j hj
    obtain ⟨j'', hj'', hf'⟩ := h'.job id j' hj'
    exact ⟨j'', hj'', hf.trans hf'⟩

end Db.Follows

/-- Every effect leads on from the rows it finds. -/
theorem Effect.follows (h : Effect env w op writes) : Db.Follows w.db (w.db.apply writes) where
  task := fun id t ht => by
    cases hw : writes .task id with
    | none => exact ⟨t, (Store.apply_of_none hw).trans ht, .refl t⟩
    | some t' =>
      refine ⟨t', Store.apply_of_some hw, ?_⟩
      cases h.task_write hw with
      | new _ h => rw [h.fresh] at ht; simp at ht
      | old row h => rw [row] at ht; cases ht; exact h.follows
  round := fun id i hi => by
    cases hw : writes .instance id with
    | none => exact ⟨i, (Store.apply_of_none hw).trans hi, .refl i⟩
    | some i' =>
      refine ⟨i', Store.apply_of_some hw, ?_⟩
      cases h.instance_write hw with
      | requested _ h | occurred _ _ h => rw [h.fresh] at hi; simp at hi
      | started _ h hi' => rw [h.row] at hi; cases hi; rw [hi']; exact startSet_follows h.waiting
      | old row h => rw [row] at hi; cases hi; exact h.follows
  job := fun id j hj => by
    cases hw : writes .job id with
    | none => exact ⟨j, (Store.apply_of_none hw).trans hj, .refl j⟩
    | some j' =>
      refine ⟨j', Store.apply_of_some hw, ?_⟩
      cases h.job_write hw with
      | created _ h => rw [h.fresh] at hj; simp at hj
      | advanced _ due hj' =>
        rw [due.row] at hj; cases hj; rw [hj']; exact ⟨rfl, fun h => h⟩
      | old row h => rw [row] at hj; cases hj; exact h.follows

theorem evolves_follows (h : Evolves (contract env) w w') : Db.Follows w.db w'.db := by
  cases h with
  | commit _ ok => exact ok.1.follows
  | _ => exact .refl _

theorem rely_follows {away : Bool} {held : Set (Txn.Res sig)}
    (h : Rely (contract env) pid away held w w') : Db.Follows w.db w'.db := by
  refine h.preserves (P := fun w' => Db.Follows w.db w'.db) ?_ (.refl _)
  intro a b hs hf
  cases hs with
  | commit _ _ ok => exact hf.trans ok.1.follows
  | _ => exact hf

/-- So does every sequence of effects. -/
theorem evolution_follows (h : Txn.Evolution (contract env) w w') : Db.Follows w.db w'.db :=
  h.relates (fun _ => .refl _) .trans
    fun _ _ => evolves_follows

/-! ## The invariant of the contract -/

theorem JobInstance.Follows.inactive {i : JobInstance} (h : i.Follows i')
    (hi : i.status.active = false) : i'.status.active = false := by
  rw [h.final hi]
  exact hi

theorem JobInstance.Follows.active {i : JobInstance} (h : i.Follows i')
    (ha : i'.status.active = true) : i.status.active = true := by
  by_contra hn
  cases (h.inactive (by simpa using hn)).symm.trans ha

structure NewRound (w : World) (op : Op) (id : ℕ) (i : JobInstance) (j : JobDefinition) : Prop where
  admits : Admits w i.jobId id j
  group : i.executorGroupId = j.executorGroupId
  how : (∃ m : ManualTrigger, op = .triggerManual m id true ∧ m.jobId = i.jobId) ∨
    ∃ decisionAt, op = .triggerAutomatic i.jobId decisionAt
      { instanceId := id, created := true, reason := "created" }

theorem NewRound.id_eq {i : JobInstance} {j : JobDefinition} (h : NewRound w op id i j)
    (h' : NewRound w op id' i' j') : id = id' := by
  rcases h.how with ⟨m, hop, _⟩ | ⟨decisionAt, hop⟩ <;>
    rcases h'.how with ⟨m', hop', _⟩ | ⟨decisionAt', hop'⟩ <;>
    simp only [hop, Op.triggerManual.injEq, Op.triggerAutomatic.injEq, AutomaticResult.mk.injEq,
      reduceCtorEq] at hop'
  · exact hop'.2.1
  · exact hop'.2.2.1

theorem Effect.round_before (h : Effect env w op writes)
    (hi : w.db.apply writes .instance id = some i') :
    (∃ i, w.db .instance id = some i ∧ i.Follows i') ∨ ∃ j, NewRound w op id i' j := by
  rcases Store.apply_eq_some hi with hw | ⟨_, hi⟩
  · cases h.instance_write hw with
    | @requested m j hop hadm hi' =>
      have hjob : m.jobId = i'.jobId := by rw [hi']; exact hadm.ids.symm
      exact Or.inr ⟨j, hjob ▸ hadm, hi' ▸ rfl, Or.inl ⟨m, hop, hjob⟩⟩
    | @occurred jobId decisionAt _ _ j hop _ hadm hi' =>
      have hjob : jobId = i'.jobId := by rw [hi']; exact hadm.ids.symm
      subst hjob
      exact Or.inr ⟨j, hadm, hi' ▸ rfl, Or.inr ⟨decisionAt, hop⟩⟩
    | started _ hs hi' => exact Or.inl ⟨_, hs.row, by rw [hi']; exact startSet_follows hs.waiting⟩
    | old row hu => exact Or.inl ⟨_, row, hu.follows⟩
  · exact Or.inl ⟨i', hi, .refl i'⟩

theorem JobInstance.For.follows {i : JobInstance} {m : ManualTrigger} (h : i.For m)
    (hf : i.Follows i') : i'.For m :=
  ⟨hf.jobId.trans h.1, hf.requestId.trans h.2⟩

theorem JobInstance.SameOverride.follows {i : JobInstance} {m : ManualTrigger}
    (h : i.SameOverride m) (hf : i.Follows i') : i'.SameOverride m :=
  ⟨hf.paramsOverridden.trans h.1, fun hm => by rw [hf.executionConfig]; exact h.2 hm⟩

theorem Effect.requested_inv {m : ManualTrigger}
    (h : Effect env w (.triggerManual m id true) writes) : ∃ j, Admits w m.jobId id j ∧
      writes = noWrites.set .instance id (newInstance (Creator.manualSnapshot j m) id) := by
  cases h with
  | quiet h => simp [Op.quiet] at h
  | task _ h => cases h
  | round _ h => cases h
  | job _ h => cases h
  | requested h => exact ⟨_, h, rfl⟩

namespace Inv

theorem init : Inv Txn.World.init := by
  constructor <;> simp [Txn.World.init]

theorem commit (h : Inv w) (he : Effect env w op writes) :
    Inv (Txn.Loc.commit { world := w, pend := writes, held := ∅ } pid op) where
  taskId := fun id t' ht => by
    rcases Store.apply_eq_some ht with hw | ⟨_, ht⟩
    · cases he.task_write hw with
      | new _ _ ht' => rw [ht']; rfl
      | old row hu => rw [hu.follows.id]; exact h.taskId id _ row
    · exact h.taskId id t' ht
  instanceId := fun id i' hi => by
    rcases Store.apply_eq_some hi with hw | ⟨_, hi⟩
    · cases he.instance_write hw with
      | requested _ _ hi' => rw [hi']; rfl
      | occurred _ _ _ hi' => rw [hi']; rfl
      | started _ hs hi' => rw [hi']; exact hs.ids
      | old row hu => rw [hu.follows.id]; exact h.instanceId id _ row
    · exact h.instanceId id i' hi
  jobId := fun id j' hj => by
    rcases Store.apply_eq_some hj with hw | ⟨_, hj⟩
    · cases he.job_write hw with
      | created _ h => exact h.ids
      | @advanced _ _ _ _ j _ due hj' => rw [hj']; exact h.jobId id j due.row
      | old row hu => rw [hu.follows.id]; exact h.jobId id _ row
    · exact h.jobId id j' hj
  started := fun id i' t hi ht => by
    rcases Store.apply_eq_some hi with hw | ⟨_, hi⟩
    · cases he.instance_write hw with
      | requested _ _ hi' | occurred _ _ _ hi' => rw [hi'] at ht; simp [newInstance] at ht
      | started _ hs hi' => rw [hi'] at ht; cases ht; exact hs.past
      | old row hu => rw [hu.times.1] at ht; exact h.started id _ t row ht
    · exact h.started id i' t hi ht
  created := fun q m id before ws hmem => by
    simp only [Txn.Loc.commit_log, List.mem_cons] at hmem
    rcases hmem with heq | hmem
    · cases heq
      obtain ⟨j, hadm, rfl⟩ := he.requested_inv
      refine ⟨⟨newInstance (Creator.manualSnapshot j m) id, Store.apply_of_some (by simp),
        hadm.ids, rfl⟩, ?_⟩
      obtain ⟨j', hj', _⟩ := he.follows.job _ j hadm.row
      exact ⟨j', hj'⟩
    · obtain ⟨⟨i, hi, hfor⟩, j, hj⟩ := h.created q m id before ws hmem
      obtain ⟨i', hi', hf⟩ := he.follows.round id i hi
      obtain ⟨j', hj', _⟩ := he.follows.job _ j hj
      exact ⟨⟨i', hi', hfor.follows hf⟩, j', hj'⟩

end Inv

/-- Commits keep what the calls count on. -/
theorem contract_kept (env : Env) : (contract env).Kept := by
  intro w w' hs h
  cases hs with
  | commit _ ok => exact Inv.commit h ok.1
  | act | lost => exact { h with created := by simpa using h.created }
  | tick =>
    refine { h with started := fun id i t hi ht => ?_ }
    exact Nat.le_trans (h.started id i t hi ht) (Nat.le_add_right _ _)
  | bump => exact { h with }

end Dogx.Job
