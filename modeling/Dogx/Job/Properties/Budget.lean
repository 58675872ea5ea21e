import Dogx.Job.Properties.Attempt

/-!
# The opportunities of a task

A round allows its task `maxRetries + 1` opportunities. An attempt uses one, and a busy executor
gives it back. The counters agree with the status in every reachable database, although the writer
of a result has chosen the status before it holds the row.
-/

namespace Dogx.Job

open Txn (Store)
open JobTaskRepository

variable {env : Env} {w : World} {op : Op} {writes : Db} {id pid : ℕ}

def Op.busy (taskId : ℕ) : Op → Bool
  | .saveDispatchBusy b applied => applied && b.taskId = taskId
  | _ => false

/-- The commit of a BUSY write that was applied to the task. -/
def Event.busy (taskId : ℕ) : Event → Bool
  | .commit _ op _ _ => op.busy taskId
  | _ => false

/-- The counters of a task in a round with `m` retries, after `busy` refunds. -/
structure Budget (m : Int) (busy : ℕ) (t : JobTask) : Prop where
  attempts : t.attemptNo = t.usedAttempts + busy
  nonneg : 0 ≤ t.usedAttempts
  within : t.usedAttempts ≤ m + 1
  running : t.status = .running → 1 ≤ t.usedAttempts
  retryWaiting : t.status = .retryWaiting → t.usedAttempts ≤ m
  failed : t.status = .failed → t.usedAttempts = m + 1

namespace Budget

variable {m : Int} {n : ℕ} {t : JobTask}

theorem first (hm : 0 ≤ m) (instanceId startedAt : ℕ) :
    Budget m 0 (ordinaryTask instanceId startedAt id) := by
  constructor <;> simp [ordinaryTask]
  omega

theorem register (h : Budget m n t) {r : RetryRegistration} (hr : t.status = .retryWaiting) :
    Budget m n (registerSet r t) := by
  have h1 := h.attempts
  have h2 := h.nonneg
  have h3 := h.retryWaiting hr
  constructor <;> simp [registerSet] <;> omega

theorem close (h : Budget m n t) (hr : t.status = .running) {t' : JobTask}
    (hattempt : t'.attemptNo = t.attemptNo) (hused : t'.usedAttempts = t.usedAttempts)
    (hwait : t'.status = .retryWaiting → t.usedAttempts < m + 1)
    (hfail : t'.status = .failed → ¬ t.usedAttempts < m + 1) : Budget m n t' where
  attempts := by rw [hattempt, hused]; exact h.attempts
  nonneg := by rw [hused]; exact h.nonneg
  within := by rw [hused]; exact h.within
  running := fun _ => by rw [hused]; exact h.running hr
  retryWaiting := fun hs => by have := hwait hs; omega
  failed := fun hs => by have := hfail hs; have := h.within; omega

theorem refund (h : Budget m n t) (hr : t.status = .running) {b : DispatchBusyWrite} {now : ℕ} :
    Budget m (n + 1) (busySet b now t) := by
  have h1 := h.attempts
  have h2 := h.running hr
  have h3 := h.within
  constructor <;> simp [busySet] <;> omega

theorem cancel (h : Budget m n t) {b : TaskCancellation} : Budget m n (cancelSet b t) := by
  constructor
  · exact h.attempts
  · exact h.nonneg
  · exact h.within
  all_goals simp [cancelSet]

end Budget

theorem closeSet_status {m : Int} {retryAt processedAt : ℕ} {reason : EndReason} {summary : String}
    {t : JobTask} :
    ((closeSet m retryAt processedAt reason summary t).status = .retryWaiting →
      t.usedAttempts < m) ∧
    ((closeSet m retryAt processedAt reason summary t).status = .failed → ¬ t.usedAttempts < m) := by
  simp only [closeSet]
  split <;> simp_all

/-- An update of a task keeps its retry budget. -/
theorem TaskUpdate.budget {i : JobInstance} {t t' : JobTask} {n : ℕ} (h : TaskUpdate w op id t t')
    (hi : w.db .instance t.instanceId = some i) (hb : Budget i.executionConfig.maxRetries n t) :
    Budget i.executionConfig.maxRetries (n + if op.busy id then 1 else 0) t' := by
  cases h with
  | retried _ _ _ _ _ waiting => exact hb.register (registerWhere_iff.mp waiting).2.2.1
  | bound unbound =>
    obtain ⟨_, _, hr, _, _⟩ := bindWhere_iff.mp unbound
    exact hb.close hr rfl rfl (by simp [bindSet, hr]) (by simp [bindSet, hr])
  | busy unbound =>
    obtain ⟨_, _, _, hr, _⟩ := unboundWhere_iff.mp unbound
    simpa [Op.busy] using hb.refund hr
  | rejected unbound parent policy =>
    obtain ⟨hinst, _, _, hr, _⟩ := unboundWhere_iff.mp unbound
    rw [hinst, parent] at hi
    cases hi
    rw [policy] at hb ⊢
    exact hb.close hr rfl rfl closeSet_status.1 closeSet_status.2
  | saved current _ parent budget =>
    obtain ⟨hinst, _, hr, _⟩ := resultWhere_iff.mp current
    rw [hinst, parent] at hi
    cases hi
    exact hb.close hr rfl rfl budget.1 budget.2
  | settled unbound parent policy =>
    obtain ⟨hinst, _, _, hr, _⟩ := settleWhere_iff.mp unbound
    rw [hinst, parent] at hi
    cases hi
    exact hb.close hr rfl rfl (policy ▸ closeSet_status.1)
      (policy ▸ closeSet_status.2)
  | canceled => exact hb.cancel

theorem Effect.busy_write (h : Effect env w op writes) (hb : op.busy id = true) :
    (writes .task id).isSome = true := by
  cases h with
  | quiet => cases op <;> simp_all [Op.busy, Op.quiet]
  | task _ h => cases h <;> simp_all [Op.busy]
  | round _ h | job _ h => cases h <;> simp [Op.busy] at hb
  | _ => simp [Op.busy] at hb

def Accounted (id : ℕ) (db : Db) (log : List Event) : Prop :=
  match db .task id with
  | none => log.countP (Event.busy id) = 0
  | some t => ∃ i, db .instance t.instanceId = some i ∧
      Budget i.executionConfig.maxRetries (log.countP (Event.busy id)) t

theorem Accounted.frame (h : Accounted id w.db w.log) (he : Effect env w op writes)
    (hw : writes .task id = none) :
    Accounted id (w.db.apply writes) (.commit pid op w.db writes :: w.log) := by
  have hbusy : op.busy id = false := by
    by_contra hb
    have := he.busy_write (by simpa using hb)
    simp [hw] at this
  unfold Accounted at h ⊢
  rw [Store.apply_of_none hw, List.countP_cons, Event.busy, hbusy]
  cases ht : w.db .task id with
  | none => simpa [ht] using h
  | some =>
    simp only [ht] at h
    obtain ⟨i, hi, hb⟩ := h
    obtain ⟨i', hi', hf⟩ := he.follows.round _ i hi
    exact ⟨i', hi', by rw [hf.executionConfig]; exact hb⟩

theorem Accounted.commit (h : Accounted id w.db w.log) (he : Effect env w op writes) :
    Accounted id (w.db.apply writes) (.commit pid op w.db writes :: w.log) := by
  cases hw : writes .task id with
  | none => exact h.frame he hw
  | some =>
    unfold Accounted at h ⊢
    rw [Store.apply_of_some hw, List.countP_cons, Event.busy]
    cases he.task_write hw with
    | @new instanceId startedAt i hop hs ht =>
      simp only [hs.fresh] at h
      obtain ⟨i', hi', hf⟩ := he.follows.round _ i hs.row
      refine ⟨i', by rw [ht]; exact hi', ?_⟩
      rw [h, hop, ht, hf.executionConfig]
      simpa [Op.busy] using Budget.first hs.config.bounds.2.1 instanceId startedAt
    | @old t row hu =>
      simp only [row] at h
      obtain ⟨i, hi, hb⟩ := h
      obtain ⟨i', hi', hf⟩ := he.follows.round _ i hi
      refine ⟨i', by rw [hu.follows.instanceId]; exact hi', ?_⟩
      rw [hf.executionConfig]
      exact hu.budget hi hb

/-- In every history, rows and BUSY commits agree on the budget. -/
theorem Reached.accounted (h : Reached env w) (id : ℕ) : Accounted id w.db w.log := by
  refine h.keeps ?_ (fun w _ _ _ _ he hacc => hacc.commit he) ?_
  · simp [Accounted]
  · intro db log e hne hacc
    have hb : Event.busy id e = false := by
      cases e <;> simp_all [Event.busy, Event.isCommit]
    unfold Accounted at hacc ⊢
    simpa [hb] using hacc

/--
**The counters of every task are sound.** The attempt number is the number of used opportunities
and of applied BUSY writes together; the opportunities stay within the frozen `maxRetries + 1`, and
the status of the task agrees with what is left of them.
-/
theorem task_budget {ms : List Move} {s : Sys} (hr : run env ms = some s) {id : ℕ} {t : JobTask}
    (ht : s.world.db .task id = some t) : ∃ i, s.world.db .instance t.instanceId = some i ∧
      Budget i.executionConfig.maxRetries (s.world.log.countP (Event.busy id)) t := by
  have h := (run_reached hr).accounted id
  simpa only [Accounted, ht] using h

theorem demo_task_refunded : ∃ s t, run Demo.library Demo.busy = some s ∧
    s.world.db .task 1 = some t ∧ t.attemptNo = 1 ∧ t.usedAttempts = 0 := by
  obtain ⟨s, hs, ⟨t, ht, hn⟩, _⟩ : ∃ s ∈ run Demo.library Demo.busy,
      (∃ t ∈ s.world.db .task 1, t.attemptNo = 1) ∧ s.world.log.countP (Event.busy 1) = 1 := by
    decide +kernel
  obtain ⟨i, _, hb⟩ := task_budget hs ht
  have := hb.attempts
  exact ⟨s, t, hs, ht, hn, by omega⟩

end Dogx.Job
