import Dogx.Job.Refine.Service

/-!
# Attempts are registered, returned and sent once

Over any run, with any number of nodes and lost confirmations: an attempt of a task is given to
one caller at most, who sends it at most once. The row of the task counts its attempts, and no
registration repeats a number.
-/

namespace Dogx.Job

open Txn (Store)
open JobTaskRepository JobInstanceRepository

variable {env : Env} {w : World} {op : Op} {writes : Db} {pid id taskId : ℕ} {a : RegisteredAttempt}
  {n : Int} {e : Event}

/-! ## Registrations -/

theorem ExecutionConfig.Ordinary.bounds {c : ExecutionConfig} (h : c.Ordinary) :
    c.schemaVersion = 1 ∧ 0 ≤ c.maxRetries ∧ 0 < c.retryIntervalSeconds ∧ 0 < c.timeoutSeconds := by
  obtain ⟨hd, hm⟩ := h
  unfold Registrar.decodeConfig at hd
  simp only [hm] at hd
  split at hd
  · simp at hd
  · simp only [reduceCtorEq, if_false] at hd
    split at hd
    · simp at hd
    · omega

structure Registration (w : World) (writes : Db) (a : RegisteredAttempt) : Prop where
  next : ∀ t, w.db .task a.taskId = some t → t.attemptNo < a.attemptNo
  task : ∃ t, writes .task a.taskId = some t ∧ t.attemptNo = a.attemptNo ∧
    t.instanceId = a.instanceId ∧ t.attemptRegisteredAt = some a.registeredAt
  round : ∃ i startedAt, w.db.apply writes .instance a.instanceId = some i ∧ i.status = .running ∧
    i.startedAt = some startedAt ∧ startedAt ≤ a.registeredAt ∧ i.deadlineAt = some a.deadlineAt
  before : a.registeredAt < a.deadlineAt

theorem Starts.registration {startedAt : ℕ} {i : JobInstance} (h : Starts w id i startedAt taskId) :
    Registration w ((noWrites.set .instance id (startSet startedAt
      (addSeconds startedAt i.executionConfig.timeoutSeconds) i)).set
      .task taskId (ordinaryTask id startedAt taskId)) (firstAttempt i startedAt taskId) where
  next := fun t ht => by
    have hfresh : w.db .task taskId = none := h.fresh
    rw [show (firstAttempt i startedAt taskId).taskId = taskId from rfl, hfresh] at ht
    simp at ht
  task := ⟨ordinaryTask id startedAt taskId, by simp [firstAttempt], rfl, h.ids.symm, rfl⟩
  round := ⟨startSet startedAt (addSeconds startedAt i.executionConfig.timeoutSeconds) i, startedAt,
    Store.apply_of_some (by simp [firstAttempt, h.ids]), rfl, rfl, Nat.le_refl _, rfl⟩
  before := by
    have := h.config.bounds.2.2.2
    simp only [firstAttempt, addSeconds, second]
    omega

theorem TaskUpdate.registration {t t' : JobTask} (h : TaskUpdate w op id t t')
    (hop : op.registers = some a) (row : w.db .task id = some t) :
    Registration w (noWrites.set .task id t') a := by
  cases h with
  | @retried c registeredAt deadlineAt i _ parent ids running config past waiting =>
    cases hop
    obtain ⟨hinst, _, _, hno, _, _⟩ := registerWhere_iff.mp waiting
    have hno : t.attemptNo = c.attemptNo := hno
    obtain ⟨startedAt, hs, hle⟩ := running.started
    refine ⟨fun t0 ht0 => ?_, ⟨registerSet (retryRegistration c i registeredAt) t,
      by simp [nextAttempt], ?_, hinst.trans ids.symm, rfl⟩, ⟨i, startedAt, ?_, running.running, hs,
      hle, running.deadline⟩, running.before⟩
    · rw [show (nextAttempt c i registeredAt deadlineAt).taskId = c.taskId from rfl, row] at ht0
      cases ht0
      simp only [nextAttempt]
      omega
    · simp only [registerSet, nextAttempt]
      omega
    · rw [show (nextAttempt c i registeredAt deadlineAt).instanceId = i.id from rfl, ids]
      exact (Store.apply_of_none (by simp)).trans parent
  | _ => simp [Op.registers] at hop

/-- A commit that registers an attempt starts it as its next one. -/
theorem Effect.registration (h : Effect env w op writes) (hop : op.registers = some a) :
    Registration w writes a := by
  cases h with
  | quiet => cases op <;> simp_all [Op.registers, Op.quiet]
  | started h => cases hop; exact h.registration
  | task row h => exact h.registration hop row
  | round _ h | job _ h => cases h <;> simp [Op.registers] at hop
  | _ => simp [Op.registers] at hop

theorem TaskWrite.registered_or_same {t' : JobTask} (h : TaskWrite w op id t') :
    (∃ a, op.registers = some a ∧ a.taskId = id) ∨
    ∃ t, w.db .task id = some t ∧ t'.instanceId = t.instanceId ∧ t'.attemptNo = t.attemptNo ∧
      t'.attemptRegisteredAt = t.attemptRegisteredAt := by
  cases h with
  | new hop => exact Or.inl ⟨_, by rw [hop]; rfl, rfl⟩
  | @old t row h =>
    cases h with
    | retried => exact Or.inl ⟨_, rfl, rfl⟩
    | _ => exact Or.inr ⟨t, row, rfl, rfl, rfl⟩

/-! ## The history of an attempt -/

namespace Event

def registers (taskId : ℕ) (n : Int) : Event → Bool
  | .commit _ op _ _ => op.registers.any fun a => a.taskId = taskId && a.attemptNo = n
  | _ => false

def returns (taskId : ℕ) (n : Int) : Event → Bool
  | .act _ (.returned (.registered (.ok (some a)))) _ => a.taskId = taskId && a.attemptNo = n
  | _ => false

def sends (taskId : ℕ) (n : Int) : Event → Bool
  | .act _ (.send a) _ => a.taskId = taskId && a.attemptNo = n
  | _ => false

theorem registers_inv (h : registers taskId n e = true) :
    ∃ pid op before writes a, e = .commit pid op before writes ∧ op.registers = some a ∧
      a.taskId = taskId ∧ a.attemptNo = n := by
  cases e with
  | commit pid op before writes =>
    simp only [registers, Option.any_eq_true, Bool.and_eq_true, decide_eq_true_eq] at h
    obtain ⟨a, ha, hid, hn⟩ := h
    exact ⟨pid, op, before, writes, a, rfl, ha, hid, hn⟩
  | _ => simp [registers] at h

theorem returns_inv (h : returns taskId n e = true) :
    ∃ pid a, e = .act pid (.returned (.registered (.ok (some a)))) () ∧
      a.taskId = taskId ∧ a.attemptNo = n := by
  unfold returns at h
  split at h
  · simp only [Bool.and_eq_true, decide_eq_true_eq] at h
    exact ⟨_, _, rfl, h⟩
  · simp at h

theorem sends_inv (h : sends taskId n e = true) :
    ∃ pid a, e = .act pid (.send a) () ∧ a.taskId = taskId ∧ a.attemptNo = n := by
  unfold sends at h
  split at h
  · simp only [Bool.and_eq_true, decide_eq_true_eq] at h
    exact ⟨_, _, rfl, h⟩
  · simp at h

end Event

section

variable (h : Reached env w)
include h

theorem Reached.attempt_le (he : e ∈ w.log) (hk : Event.registers taskId n e = true) :
    ∃ t, w.db .task taskId = some t ∧ n ≤ t.attemptNo := by
  obtain ⟨_, _, _, _, a, rfl, ha, rfl, rfl⟩ := Event.registers_inv hk
  obtain ⟨_, _, rfl, heff, hf⟩ := h.since he
  obtain ⟨t, ht, hn, _⟩ := (heff.registration ha).task
  obtain ⟨t', ht', hf⟩ := hf.task _ t (Store.apply_of_some ht)
  exact ⟨t', ht', hn.ge.trans hf.attempt⟩

theorem Reached.registered_once (taskId : ℕ) (n : Int) :
    w.log.countP (Event.registers taskId n) ≤ 1 := by
  refine Txn.Evolution.once h fun w e h hhap hk e' he' => ?_
  by_contra hk'
  obtain ⟨t, ht, _⟩ := Reached.attempt_le h he' (by simpa using hk')
  obtain ⟨_, _, _, _, a, rfl, ha, rfl, rfl⟩ := Event.registers_inv hk
  cases hhap with
  | commit hw _ ok =>
    subst hw
    exact absurd ((ok.1.registration ha).next t ht) (by omega)

/-! ## Callers -/

theorem Reached.returns_once (pid : ℕ) :
    w.log.countP (fun e => e.pid = pid && Event.isReturn e) ≤ 1 := by
  refine Txn.Evolution.once h fun w e _ hhap hk e' he' => ?_
  simp only [Bool.and_eq_true, decide_eq_true_eq] at hk
  obtain ⟨hpid, hret⟩ := hk
  cases hhap with
  | @act q a r ok =>
    cases a <;> simp only [Event.isReturn, Bool.false_eq_true] at hret
    simp only [Bool.and_eq_false_imp, decide_eq_true_eq]
    exact fun hq => ok.1 e' he' (hq.trans hpid.symm)
  | commit | lost => simp [Event.isReturn] at hret

theorem Reached.registered_of_returned
    (he : .act pid (.returned (.registered (.ok (some a)))) () ∈ w.log) :
    ∃ op before writes, .commit pid op before writes ∈ w.log ∧ op.registers = some a := by
  obtain ⟨_, _, hlog⟩ := List.append_of_mem he
  obtain ⟨_, _, rfl, ⟨_, op, before, writes, hmem, hop⟩, hon⟩ := h.acted hlog
  exact ⟨op, before, writes, hon.mem_log (List.mem_cons_of_mem _ hmem), hop⟩

/-- A registered attempt is returned at most once. -/
theorem Reached.returned_once (taskId : ℕ) (n : Int) :
    w.log.countP (Event.returns taskId n) ≤ 1 := by
  refine Txn.Evolution.once h fun w e h hhap hk e' he' => ?_
  by_contra hk'
  obtain ⟨_, a, rfl, rfl, rfl⟩ := Event.returns_inv hk
  obtain ⟨q, _, rfl, hid, hn⟩ := Event.returns_inv (by simpa using hk')
  cases hhap with
  | act ok =>
    obtain ⟨hnever, _, _, _, hmem, hop⟩ := ok
    obtain ⟨_, _, _, hmem', hop'⟩ := Reached.registered_of_returned h he'
    -- both callers have registered the attempt, so they are one, but a call returns once
    have heq := Txn.eq_of_countP_le_one (Reached.registered_once h a.taskId a.attemptNo) hmem hmem'
      (by simp [Event.registers, hop]) (by simp [Event.registers, hop', hid, hn])
    cases heq
    simpa [Event.isReturn] using hnever _ he' rfl

/-- An attempt is sent at most once. -/
theorem Reached.sent_once (taskId : ℕ) (n : Int) : w.log.countP (Event.sends taskId n) ≤ 1 := by
  refine Txn.Evolution.once h fun w e h hhap hk e' he' => ?_
  by_contra hk'
  obtain ⟨_, a, rfl, rfl, rfl⟩ := Event.sends_inv hk
  obtain ⟨q, _, rfl, hid, hn⟩ := Event.sends_inv (by simpa using hk')
  cases hhap with
  | act ok =>
    obtain ⟨hmem, hnever⟩ := ok
    obtain ⟨_, _, hlog⟩ := List.append_of_mem he'
    obtain ⟨_, _, rfl, ⟨hmem0, _⟩, hon⟩ := Reached.acted h hlog
    have hmem' := hon.mem_log (List.mem_cons_of_mem _ hmem0)
    have heq := Txn.eq_of_countP_le_one (Reached.returned_once h a.taskId a.attemptNo) hmem hmem'
      (by simp [Event.returns]) (by simp [Event.returns, hid, hn])
    cases heq
    simpa [Event.isSend] using hnever _ he' rfl

end

/--
**An attempt is handed out once and sent once.** Whoever sends an attempt has been given it before
by its own registration, and was given nothing else: a call whose registration returned an error
or no attempt does not send.
-/
theorem attempt_handed_out_once {ms : List Move} {s : Sys} (hr : run env ms = some s) (taskId : ℕ)
    (n : Int) :
    s.world.log.countP (Event.returns taskId n) ≤ 1 ∧
    s.world.log.countP (Event.sends taskId n) ≤ 1 ∧
    ∀ pid a later earlier, s.world.log = later ++ .act pid (.send a) () :: earlier →
      .act pid (.returned (.registered (.ok (some a)))) () ∈ earlier ∧
      ∀ result, .act pid (.returned (.registered result)) () ∈ s.world.log →
        result = .ok (some a) := by
  have h := run_reached hr
  refine ⟨h.returned_once taskId n, h.sent_once taskId n, fun pid a later earlier hlog => ?_⟩
  obtain ⟨_, _, rfl, ⟨hmem, _⟩, hon⟩ := h.acted hlog
  refine ⟨hmem, fun result hres => ?_⟩
  have heq := Txn.eq_of_countP_le_one (h.returns_once pid) hres
    (hon.mem_log (List.mem_cons_of_mem _ hmem)) (by simp [Txn.Event.pid, Event.isReturn])
    (by simp [Txn.Event.pid, Event.isReturn])
  cases heq
  rfl

theorem demo_attempt_handed_out : ∃ s, run Demo.library Demo.sent = some s ∧
    s.world.log.countP (Event.returns 1 1) = 1 ∧ s.world.log.countP (Event.sends 1 1) = 1 := by
  obtain ⟨s, hs, _, _⟩ : ∃ s ∈ run Demo.library Demo.sent,
      0 < s.world.log.countP (Event.returns 1 1) ∧ 0 < s.world.log.countP (Event.sends 1 1) := by
    decide +kernel
  obtain ⟨_, _, _⟩ := attempt_handed_out_once hs 1 1
  exact ⟨s, hs, by omega, by omega⟩

end Dogx.Job
