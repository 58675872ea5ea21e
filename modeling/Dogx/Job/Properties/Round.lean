import Dogx.Job.Properties.Closing

/-!
# Rounds and their tasks

A round is completed from facts about its task that were read in an earlier statement without a
lock, and the writers of tasks never lock the round. Status and task agree nevertheless, in every
reachable database.
-/

namespace Dogx.Job

open Txn (Store)
open JobTaskRepository JobInstanceRepository

variable {env : Env} {w : World} {op : Op} {writes : Db} {id taskId : ℕ} {t t' : JobTask}
  {i i' : JobInstance}

/-! ## The tasks of a round -/

def NoTask (db : Db) (id : ℕ) : Prop := ∀ taskId t, db .task taskId = some t → t.instanceId ≠ id

def HasTask (db : Db) (id : ℕ) (status : TaskStatus) : Prop :=
  ∃ taskId t, db .task taskId = some t ∧ t.instanceId = id ∧ t.status = status

theorem Effect.task_before (h : Effect env w op writes)
    (ht : w.db.apply writes .task taskId = some t') :
    (∃ t, w.db .task taskId = some t ∧ t.Follows t') ∨
      ∃ a, op = .startOrdinary t'.instanceId (some a) := by
  rcases Store.apply_eq_some ht with hw | ⟨_, ht⟩
  · cases h.task_write hw with
    | new hop _ ht' => subst ht'; exact Or.inr ⟨_, hop⟩
    | old row hu => exact Or.inl ⟨_, row, hu.follows⟩
  · exact Or.inl ⟨t', ht, .refl t'⟩

theorem Effect.noTask (h : Effect env w op writes) (hn : NoTask w.db id)
    (hop : ∀ a, op ≠ .startOrdinary id (some a)) : NoTask (w.db.apply writes) id := by
  intro taskId t' ht' hid
  rcases h.task_before ht' with ⟨t, ht, hf⟩ | ⟨a, ha⟩
  · exact hn taskId t ht (hf.instanceId.symm.trans hid)
  · exact hop a (by rw [ha, hid])

theorem Effect.noUnfinished (h : Effect env w op writes) (hn : NoUnfinished w.db id)
    (hop : ∀ a, op ≠ .startOrdinary id (some a)) : NoUnfinished (w.db.apply writes) id := by
  intro taskId t' ht' hid
  rcases h.task_before ht' with ⟨t, ht, hf⟩ | ⟨a, ha⟩
  · have hfin := hn taskId t ht (hf.instanceId.symm.trans hid)
    rw [hf.final hfin]
    exact hfin
  · exact absurd (by rw [ha, hid]) (hop a)

theorem HasTask.follows {db db' : Db} {status : TaskStatus} (h : HasTask db id status)
    (hf : Db.Follows db db') (hs : status.unfinished = false) : HasTask db' id status := by
  obtain ⟨taskId, t, ht, hid, hst⟩ := h
  obtain ⟨t', ht', hf⟩ := hf.task taskId t ht
  have heq := hf.final (hst ▸ hs)
  subst heq
  exact ⟨taskId, t', ht', hid, hst⟩

theorem Reached.ordinary (h : Reached env w) (ht : w.db .task taskId = some t) :
    t.taskType = .ordinary := by
  revert t
  refine h.rows (P := fun db => ∀ {t}, db .task taskId = some t → t.taskType = .ordinary) (by simp) ?_
  intro w op writes _ heff ih t' ht'
  rcases Store.apply_eq_some ht' with hw | ⟨_, ht'⟩
  · cases heff.task_write hw with
    | new _ _ ht => rw [ht]; rfl
    | old row hu => rw [hu.follows.taskType]; exact ih row
  · exact ih ht'

theorem Reached.task_unique (h : Reached env w) {taskId' : ℕ} (ht : w.db .task taskId = some t)
    (ht' : w.db .task taskId' = some t') (hid : t.instanceId = t'.instanceId) : taskId = taskId' := by
  refine h.wf.unique .task taskId taskId' t t' (.singleton t.instanceId .ordinary) ht ht' ?_ ?_
  · simp [rowKeys, JobTask.keys, h.ordinary ht]
  · simp [rowKeys, JobTask.keys, h.ordinary ht', hid]

/-! ## Coherence -/

structure Coherent (db : Db) (id : ℕ) (i : JobInstance) : Prop where
  waiting : i.status = .waiting → NoTask db id
  running : i.status = .running → ∃ taskId t, db .task taskId = some t ∧ t.instanceId = id
  terminal : i.status.terminal = true → NoUnfinished db id
  succeeded : i.status = .succeeded → HasTask db id .succeeded
  failed : i.status = .failed → i.endReason = some .executionFailed → HasTask db id .failed

theorem Coherent.frame (h : Coherent w.db id i) (he : Effect env w op writes)
    (hw : writes .instance id = none) : Coherent (w.db.apply writes) id i := by
  -- a start would have written the row
  have hop : ∀ a, op ≠ .startOrdinary id (some a) := by
    rintro a rfl
    obtain ⟨_, _, _, _, _, hwrites⟩ := he.started_inv
    simp [hwrites] at hw
  refine ⟨fun hs => he.noTask (h.waiting hs) hop, fun hs => ?_,
    fun hs => he.noUnfinished (h.terminal hs) hop,
    fun hs => (h.succeeded hs).follows he.follows rfl,
    fun hs hr => (h.failed hs hr).follows he.follows rfl⟩
  obtain ⟨taskId, t, ht, hid⟩ := h.running hs
  obtain ⟨t', ht', hf⟩ := he.follows.task taskId t ht
  exact ⟨taskId, t', ht', hf.instanceId.trans hid⟩

theorem Reached.coherent_new (h : Reached env w) (he : Effect env w op writes)
    (hfresh : w.db .instance id = none) (hs : i.status = .waiting)
    (hop : ∀ a, op ≠ .startOrdinary id (some a)) : Coherent (w.db.apply writes) id i := by
  have hnone : NoTask w.db id := fun taskId t ht hid => by
    have hacc := h.accounted taskId
    simp only [Accounted, ht, hid, hfresh] at hacc
    obtain ⟨_, hi, _⟩ := hacc
    simp at hi
  refine ⟨fun _ => he.noTask hnone hop, ?_, ?_, ?_, ?_⟩ <;>
    simp [hs, InstanceStatus.terminal, InstanceStatus.active]

theorem Reached.noUnfinished_of_final (h : Reached env w) (ht : w.db .task taskId = some t)
    (hfin : t.status.unfinished = false) : NoUnfinished w.db t.instanceId := by
  intro taskId' t' ht' hid
  have heq := h.task_unique ht' ht hid
  rw [heq, ht] at ht'
  cases ht'
  exact hfin

theorem InstanceUpdate.coherent (hu : InstanceUpdate w op id i i') (h : Reached env w)
    (he : Effect env w op writes) : Coherent (w.db.apply writes) id i' := by
  cases hu with
  | @completed _ _ _ _ _ _ t running task child ordinary final =>
    subst child
    have hfin : t.status.unfinished = false := by
      rcases final with ⟨_, hst⟩ | ⟨_, hst⟩ <;> rw [hst] <;> rfl
    have hnone := he.noUnfinished (h.noUnfinished_of_final task hfin) (by simp)
    rcases final with ⟨rfl, hst⟩ | ⟨rfl, hst⟩
    · have hhas : HasTask w.db _ .succeeded := ⟨_, _, task, rfl, hst⟩
      exact ⟨by simp [completeSet], by simp [completeSet], fun _ => hnone,
        fun _ => hhas.follows he.follows rfl, by simp [completeSet]⟩
    · have hhas : HasTask w.db _ .failed := ⟨_, _, task, rfl, hst⟩
      exact ⟨by simp [completeSet], by simp [completeSet], fun _ => hnone, by simp [completeSet],
        fun _ _ => hhas.follows he.follows rfl⟩
  | stopped active =>
    constructor <;> simp [stopSet, InstanceStatus.terminal, InstanceStatus.active]
  | finished _ _ none =>
    have hnone := he.noUnfinished none (by simp)
    refine ⟨?_, ?_, fun _ => hnone, ?_, ?_⟩ <;> simp only [finishSet, stopTarget] <;> split <;>
      simp_all

/-- In every history, the tasks of a round agree with its row. -/
theorem Reached.coherent (h : Reached env w) (hi : w.db .instance id = some i) :
    Coherent w.db id i := by
  revert i
  refine h.rows (P := fun db => ∀ {i}, db .instance id = some i → Coherent db id i) (by simp) ?_
  intro w op writes h he ih i' hi'
  rcases Store.apply_eq_some hi' with hw | ⟨hw, hi⟩
  · cases he.instance_write hw with
    | requested hop hadm hi | occurred hop _ hadm hi =>
      exact h.coherent_new he hadm.fresh (hi ▸ rfl) (by simp [hop])
    | started hop hs hi =>
      subst hop
      obtain ⟨t, ht, _, hid, _⟩ := (he.registration rfl).task
      refine ⟨?_, fun _ => ⟨_, t, Store.apply_of_some ht, hid.trans hs.ids⟩, ?_, ?_, ?_⟩ <;>
        simp [hi, startSet, InstanceStatus.terminal, InstanceStatus.active]
    | old _ hu => exact hu.coherent h he
  · exact (ih hi).frame he hw

/--
**A round and its task agree.** A waiting round has no task, a running one has exactly one, an
ended one has none that is unfinished; success and failure of the round are those of its task.
-/
theorem round_coherent {ms : List Move} {s : Sys} (hr : run env ms = some s) {id : ℕ}
    {i : JobInstance} (hi : s.world.db .instance id = some i) :
    (i.status = .waiting → ∀ taskId t, s.world.db .task taskId = some t → t.instanceId ≠ id) ∧
    (i.status = .running → ∃! taskId, ∃ t, s.world.db .task taskId = some t ∧
      t.instanceId = id ∧ t.taskType = .ordinary) ∧
    (i.status.terminal = true → ∀ taskId t, s.world.db .task taskId = some t →
      t.instanceId = id → t.status.unfinished = false) ∧
    (i.status = .succeeded → ∃ taskId t, s.world.db .task taskId = some t ∧ t.instanceId = id ∧
      t.status = .succeeded) ∧
    (i.status = .failed → i.endReason = some .executionFailed → ∃ taskId t,
      s.world.db .task taskId = some t ∧ t.instanceId = id ∧ t.status = .failed) := by
  have h := run_reached hr
  have hc := h.coherent hi
  refine ⟨hc.waiting, fun hs => ?_, hc.terminal, hc.succeeded, hc.failed⟩
  obtain ⟨taskId, t, ht, hid⟩ := hc.running hs
  refine ⟨taskId, ⟨t, ht, hid, h.ordinary ht⟩, ?_⟩
  rintro _ ⟨_, ht', hid', _⟩
  exact h.task_unique ht' ht (hid'.trans hid.symm)

theorem demo_round_has_task : ∃ s i, run Demo.library Demo.busy = some s ∧
    s.world.db .instance 1 = some i ∧ i.status = .running ∧
    ∃! taskId, ∃ t, s.world.db .task taskId = some t ∧ t.instanceId = 1 ∧
      t.taskType = .ordinary := by
  obtain ⟨s, hs, i, hi, hrunning⟩ : ∃ s ∈ run Demo.library Demo.busy,
      ∃ i ∈ s.world.db .instance 1, i.status = .running := by decide +kernel
  exact ⟨s, i, hs, hi, hrunning, (round_coherent hs hi).2.1 hrunning⟩

end Dogx.Job
