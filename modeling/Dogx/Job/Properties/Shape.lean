import Dogx.Job.Properties.Round

/-!
# Columns and status

Which columns of a task and of a round are set is decided by its status alone. Ten updates write
these columns, each a part of them.
-/

namespace Dogx.Job

open Txn (Store)
open InstanceStatus (active terminal)
open JobTaskRepository JobInstanceRepository

variable {env : Env} {w : World} {op : Op} {writes : Db} {id pid startedAt : ℕ} {t t' : JobTask}
  {log : List Event} {i i' : JobInstance}

/-! ## Tasks -/

structure JobTask.Shaped (t : JobTask) : Prop where
  waits : t.nextDispatchAt.isSome ↔ t.status = .retryWaiting
  finished : t.finishedAt.isSome ↔ t.status.unfinished = false
  reason : t.endReason.isSome ↔ t.status.unfinished = false
  data : t.resultData.isSome → t.status = .succeeded

theorem ordinaryTask_shaped {instanceId : ℕ} : (ordinaryTask instanceId startedAt id).Shaped := by
  constructor <;> simp [ordinaryTask, TaskStatus.unfinished]

theorem closeSet_shaped {total : Int} {retryAt processedAt : ℕ} {reason : EndReason}
    {summary : String} : (closeSet total retryAt processedAt reason summary t).Shaped := by
  by_cases h : t.usedAttempts < total <;> constructor <;>
    simp [closeSet, h, TaskStatus.unfinished]

theorem TaskUpdate.shaped (h : TaskUpdate w op id t t') (ht : t.Shaped) : t'.Shaped := by
  cases h with
  | retried => constructor <;> simp [registerSet, TaskStatus.unfinished]
  | bound => exact { ht with }
  | busy => constructor <;> simp [busySet, TaskStatus.unfinished]
  | rejected | settled => exact closeSet_shaped
  | saved _ status =>
    rcases status with h | h | h <;> constructor <;> simp [resultSet, h, TaskStatus.unfinished]
  | canceled => constructor <;> simp [cancelSet, TaskStatus.unfinished]

/-- The task was started by a registration in the history, at the time its row still has. -/
def StartedBy (id : ℕ) (t : JobTask) (log : List Event) : Prop :=
  ∃ pid a before writes, .commit pid (.startOrdinary t.instanceId (some a)) before writes ∈ log ∧
    a.taskId = id ∧ a.attemptNo = 1 ∧ t.startedAt = some a.registeredAt

theorem StartedBy.mono {e : Event} (h : StartedBy id t log) : StartedBy id t (e :: log) := by
  obtain ⟨pid, a, before, writes, he, ha⟩ := h
  exact ⟨pid, a, before, writes, List.mem_cons_of_mem _ he, ha⟩

theorem StartedBy.follows (h : StartedBy id t log) (hf : t.Follows t') : StartedBy id t' log := by
  unfold StartedBy
  rw [hf.instanceId, hf.startedAt]
  exact h

/-- In every history, the columns of a task fit its status. -/
theorem Reached.task_shaped (h : Reached env w) (ht : w.db .task id = some t) :
    t.Shaped ∧ StartedBy id t w.log := by
  refine h.keeps (P := fun db log => ∀ id t, db .task id = some t → t.Shaped ∧ StartedBy id t log)
    ?_ ?_ ?_ id t ht
  · intro id t ht
    simp at ht
  · intro w pid op writes _ he ih id t' ht
    rcases Store.apply_eq_some ht with hw | ⟨_, ht⟩
    · cases he.task_write hw with
      | @new instanceId i startedAt hop _ ht' =>
        subst hop ht'
        exact ⟨ordinaryTask_shaped, pid, _, w.db, writes, List.mem_cons_self, rfl, rfl, rfl⟩
      | old row hu =>
        obtain ⟨hshaped, hstart⟩ := ih id _ row
        exact ⟨hu.shaped hshaped, (hstart.follows hu.follows).mono⟩
    · obtain ⟨hshaped, hstart⟩ := ih id t' ht
      exact ⟨hshaped, hstart.mono⟩
  · intro db log e _ ih id t ht
    obtain ⟨hshaped, hstart⟩ := ih id t ht
    exact ⟨hshaped, hstart.mono⟩

/-! ## Rounds -/

structure JobInstance.Shaped (i : JobInstance) : Prop where
  times : (i.startedAt = none ∧ i.deadlineAt = none) ∨
    ∃ startedAt deadlineAt, i.startedAt = some startedAt ∧ i.deadlineAt = some deadlineAt ∧
      startedAt < deadlineAt
  waiting : i.status = .waiting → i.startedAt = none ∧ i.deadlineAt = none
  running : i.status = .running → i.startedAt.isSome ∧ i.deadlineAt.isSome
  reason : i.endReason.isSome ↔ i.status = .stopping ∨ i.status.terminal = true
  finished : i.finishedAt.isSome ↔ i.status.terminal = true

theorem newInstance_shaped {snapshot : JobInstance} : (newInstance snapshot id).Shaped := by
  constructor <;> simp [newInstance, terminal, active]

theorem Starts.shaped {taskId : ℕ} (h : Starts w id i startedAt taskId) (hi : i.Shaped) :
    (startSet startedAt
      (addSeconds startedAt i.executionConfig.timeoutSeconds) i).Shaped := by
  have hwait := h.waiting
  simp only [startWhere, Bool.and_eq_true, decide_eq_true_eq] at hwait
  obtain ⟨⟨⟨hw, _⟩, _⟩, hf⟩ := hwait
  have hlt : startedAt < addSeconds startedAt i.executionConfig.timeoutSeconds := by
    have hpos := h.config.bounds.2.2.2
    simp only [addSeconds, second]
    omega
  refine ⟨Or.inr ⟨_, _, rfl, rfl, hlt⟩, ?_, fun _ => ⟨rfl, rfl⟩, ?_, ?_⟩
  · intro h; cases h
  · have hreason := hi.reason
    simp only [hw] at hreason
    simpa [startSet, terminal, active] using hreason
  · simp [startSet, hf, terminal, active]

theorem InstanceUpdate.shaped (h : InstanceUpdate w op id i i') (hi : i.Shaped) : i'.Shaped := by
  cases h with
  | completed _ _ _ _ final =>
    refine ⟨hi.times, ?_, ?_, ?_, ?_⟩ <;>
      rcases final with ⟨h, _⟩ | ⟨h, _⟩ <;>
      simp [completeSet, h, terminal, active]
  | stopped =>
    refine ⟨hi.times, ?_, ?_, ?_, ?_⟩ <;>
      simp [stopSet, terminal, active]
  | @finished _ _ _ reason _ _ frozen _ =>
    refine ⟨hi.times, ?_, ?_, ?_, ?_⟩ <;>
      by_cases h : reason = .instanceTimeout <;>
      simp [finishSet, stopTarget, h, frozen, terminal, active]

/-- In every history, the columns of a round fit its status. -/
theorem Reached.round_shaped (h : Reached env w) (hi : w.db .instance id = some i) : i.Shaped := by
  refine h.rows (P := fun db => ∀ id i, db .instance id = some i → i.Shaped) ?_ ?_ id i hi
  · intro id i hi
    simp at hi
  · intro w op writes _ he ih id i' hi
    rcases Store.apply_eq_some hi with hw | ⟨_, hi⟩
    · cases he.instance_write hw with
      | requested _ _ hi' | occurred _ _ _ hi' => rw [hi']; exact newInstance_shaped
      | started _ hs hi' => rw [hi']; exact hs.shaped (ih id _ hs.row)
      | old row hu => exact hu.shaped (ih id _ row)
    · exact ih id i' hi

/--
**The columns of a task and of a round agree with its status.** In every committed state of every
run; and a task keeps the starting time of its first registration through whatever follows.
-/
theorem rows_shaped {ms : List Move} {s : Sys} (hr : run env ms = some s) :
    (∀ id t, s.world.db .task id = some t →
      (t.nextDispatchAt.isSome ↔ t.status = .retryWaiting) ∧
      (t.finishedAt.isSome ↔ t.status.unfinished = false) ∧
      (t.endReason.isSome ↔ t.status.unfinished = false) ∧
      (t.resultData.isSome → t.status = .succeeded) ∧
      StartedBy id t s.world.log ∧
      ∀ ms' s', s.run (service env) ms' = some s' →
        ∃ t', s'.world.db .task id = some t' ∧ t'.startedAt = t.startedAt) ∧
    ∀ id i, s.world.db .instance id = some i →
      ((i.startedAt = none ∧ i.deadlineAt = none) ∨
        ∃ startedAt deadlineAt, i.startedAt = some startedAt ∧ i.deadlineAt = some deadlineAt ∧
          startedAt < deadlineAt) ∧
      (i.status = .waiting → i.startedAt = none ∧ i.deadlineAt = none) ∧
      (i.status = .running → i.startedAt.isSome ∧ i.deadlineAt.isSome) ∧
      (i.endReason.isSome ↔ i.status = .stopping ∨ i.status.terminal = true) ∧
      (i.finishedAt.isSome ↔ i.status.terminal = true) := by
  have h := run_reached hr
  refine ⟨fun id t ht => ?_, fun id i hi => ?_⟩
  · obtain ⟨hshaped, hstart⟩ := h.task_shaped ht
    refine ⟨hshaped.waits, hshaped.finished, hshaped.reason, hshaped.data, hstart, ?_⟩
    intro ms' s' hr'
    obtain ⟨t', ht', hf⟩ := (evolution_follows (run_onwards hr hr')).task id t ht
    exact ⟨t', ht', hf.startedAt⟩
  · have hshaped := h.round_shaped hi
    exact ⟨hshaped.times, hshaped.waiting, hshaped.running, hshaped.reason, hshaped.finished⟩

theorem demo_rows_shaped : ∃ s t i, run Demo.library Demo.busy = some s ∧
    s.world.db .task 1 = some t ∧ t.nextDispatchAt.isSome ∧ t.finishedAt = none ∧
    s.world.db .instance 1 = some i ∧ i.deadlineAt.isSome := by
  obtain ⟨s, hs, ⟨t, ht, hwait⟩, i, hi, hrunning⟩ : ∃ s ∈ run Demo.library Demo.busy,
      (∃ t ∈ s.world.db .task 1, t.status = .retryWaiting) ∧
      ∃ i ∈ s.world.db .instance 1, i.status = .running := by decide +kernel
  obtain ⟨htasks, hrounds⟩ := rows_shaped hs
  obtain ⟨hnext, hfinished, _⟩ := htasks 1 t ht
  obtain ⟨_, _, htimes, _⟩ := hrounds 1 i hi
  refine ⟨s, t, i, hs, ht, hnext.mpr hwait, ?_, hi, (htimes hrunning).2⟩
  have hn : ¬ t.finishedAt.isSome := fun h => by
    have := hfinished.mp h
    simp [hwait, TaskStatus.unfinished] at this
  simpa using hn

end Dogx.Job
