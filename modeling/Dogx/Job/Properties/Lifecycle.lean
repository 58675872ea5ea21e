import Dogx.Job.Properties.Round

/-!
# The life of a round

A round ends once, by completion or by a stop decision, and nothing changes it afterwards. Its
attempts lie within its time: none is registered outside of it, or after its end has been decided.
-/

namespace Dogx.Job

open Txn (Store)
open JobTaskRepository JobInstanceRepository

variable {env : Env} {w : World} {op : Op} {writes : Db} {id taskId pid : ℕ} {t t' : JobTask}
  {i i' : JobInstance}

/-! ## The end is decided once -/

def Decided (i : JobInstance) : Prop := i.status ≠ .waiting ∧ i.status ≠ .running

theorem Decided.follows (h : Decided i) (hf : i.Follows i') : Decided i' := by
  cases hs : i.status with
  | waiting => exact absurd hs h.1
  | running => exact absurd hs h.2
  | stopping =>
    obtain ⟨_, hs' | ⟨_, _, hs'⟩⟩ := hf.stopping hs
    · simp [Decided, hs']
    · simp only [Decided, hs', stopTarget]
      split <;> simp
  | _ => rw [hf.final (hs ▸ rfl)]; exact h

def Op.ends (id : ℕ) : Op → Bool
  | .complete instanceId _ _ changed => changed && instanceId = id
  | .requestStop instanceId _ decision => decision.new && instanceId = id
  | _ => false

namespace Event

def ends (id : ℕ) : Event → Bool
  | .commit _ op _ _ => op.ends id
  | _ => false

/-- A call returns a new stop decision for the round. -/
def decides (id : ℕ) : Event → Bool
  | .act _ (.returned (.decided instanceId (.ok d))) _ => d.new && instanceId = id
  | _ => false

theorem ends_inv {e : Event} (h : ends id e = true) : ∃ pid op before writes,
    e = .commit pid op before writes ∧ op.ends id = true := by
  cases e with
  | commit pid op before writes => exact ⟨pid, op, before, writes, rfl, h⟩
  | _ => simp [ends] at h

theorem decides_inv {e : Event} (h : decides id e = true) : ∃ pid d,
    e = .act pid (.returned (.decided id (.ok d))) () ∧ d.new = true := by
  unfold decides at h
  split at h
  · simp only [Bool.and_eq_true, decide_eq_true_eq] at h
    obtain ⟨hnew, rfl⟩ := h
    exact ⟨_, _, rfl, hnew⟩
  · simp at h

end Event

theorem Effect.ends_inv (h : Effect env w op writes) (hop : op.ends id = true) :
    ∃ i i', w.db .instance id = some i ∧ ¬ Decided i ∧ writes .instance id = some i' ∧
      Decided i' := by
  cases h with
  | quiet => cases op <;> simp_all [Op.ends, Op.quiet]
  | task _ h | job _ h => cases h <;> simp [Op.ends] at hop
  | @round _ _ i i' row h =>
    cases h with
    | @completed _ _ now target summary _ _ running _ _ _ final =>
      simp only [Op.ends, Bool.true_and, decide_eq_true_eq] at hop
      simp only [completeWhere, decide_eq_true_eq] at running
      subst hop
      refine ⟨i, completeSet target summary now i, row, by simp [Decided, running], by simp, ?_⟩
      rcases final with ⟨rfl, _⟩ | ⟨rfl, _⟩ <;> simp [Decided, completeSet]
    | @stopped _ timeout _ active =>
      simp only [Op.ends, stopDecision, Bool.true_and, decide_eq_true_eq] at hop
      subst hop
      refine ⟨i, stopSet (stopReason timeout) (stopSummary timeout) i, row, ?_, by simp,
        by simp [Decided, stopSet]⟩
      rcases active with h | ⟨h, _⟩ <;> simp [Decided, h]
    | finished => simp [Op.ends] at hop
  | _ => simp [Op.ends] at hop

/-- The end of a round is decided at most once. -/
theorem Reached.ended_once (h : Reached env w) (id : ℕ) : w.log.countP (Event.ends id) ≤ 1 := by
  refine Txn.Evolution.once h fun w e h hhap hk e' he' => ?_
  by_contra hk'
  obtain ⟨_, _, _, _, rfl, hop⟩ := Event.ends_inv hk
  obtain ⟨_, _, _, _, rfl, hop'⟩ := Event.ends_inv (by simpa using hk')
  obtain ⟨_, _, rfl, heff', hf⟩ := Reached.since h he'
  obtain ⟨_, i, _, _, hw, hdec⟩ := heff'.ends_inv hop'
  obtain ⟨_, hi', hfi⟩ := hf.round id i (Store.apply_of_some hw)
  cases hhap with
  | commit hworld _ ok =>
    subst hworld
    obtain ⟨_, _, hi1, hopen, _⟩ := ok.1.ends_inv hop
    cases hi'.symm.trans hi1
    exact hopen (hdec.follows hfi)

theorem Reached.stopped_of_decided (h : Reached env w) {d : Decision}
    (he : .act pid (.returned (.decided id (.ok d))) () ∈ w.log) (hnew : d.new = true) :
    ∃ timeout before writes, .commit pid (.requestStop id timeout d) before writes ∈ w.log := by
  obtain ⟨_, _, hlog⟩ := List.append_of_mem he
  obtain ⟨_, _, rfl, ⟨_, hjust⟩, hon⟩ := h.acted hlog
  obtain ⟨timeout, before, writes, hmem⟩ := hjust hnew
  exact ⟨timeout, before, writes, hon.mem_log (List.mem_cons_of_mem _ hmem)⟩

/-- A new stop decision is returned at most once. -/
theorem Reached.decided_once (h : Reached env w) (id : ℕ) :
    w.log.countP (Event.decides id) ≤ 1 := by
  refine Txn.Evolution.once h fun w e h hhap hk e' he' => ?_
  by_contra hk'
  obtain ⟨_, d, rfl, hnew⟩ := Event.decides_inv hk
  obtain ⟨q, _, rfl, hnew'⟩ := Event.decides_inv (by simpa using hk')
  cases hhap with
  | act ok =>
    obtain ⟨hnever, hjust⟩ := ok
    obtain ⟨_, _, _, hmem⟩ := hjust hnew
    obtain ⟨_, _, _, hmem'⟩ := Reached.stopped_of_decided h he' hnew'
    -- both callers have made the decision, so they are one, but a call returns once
    have heq := Txn.eq_of_countP_le_one (Reached.ended_once h id) hmem hmem'
      (by simp [Event.ends, Op.ends, hnew]) (by simp [Event.ends, Op.ends, hnew'])
    cases heq
    simpa [Event.isReturn] using hnever _ he' rfl

theorem InstanceUpdate.stopping_reason (h : InstanceUpdate w op id i i')
    (hs : i'.status = .stopping) : ∃ timeout, i'.endReason = some (stopReason timeout) := by
  cases h with
  | completed _ _ _ _ final => rcases final with ⟨rfl, _⟩ | ⟨rfl, _⟩ <;> simp [completeSet] at hs
  | @stopped _ timeout _ _ => exact ⟨timeout, rfl⟩
  | finished =>
    simp only [finishSet, stopTarget] at hs
    split at hs <;> simp at hs

theorem Reached.stopping_reason (h : Reached env w) (hi : w.db .instance id = some i)
    (hs : i.status = .stopping) : ∃ timeout, i.endReason = some (stopReason timeout) := by
  revert i
  refine h.rows (P := fun db => ∀ {i}, db .instance id = some i → i.status = .stopping →
    ∃ timeout, i.endReason = some (stopReason timeout)) (by simp) ?_
  intro w op writes _ heff ih i' hi' hs
  rcases Store.apply_eq_some hi' with hw | ⟨_, hi'⟩
  · cases heff.instance_write hw with
    | requested _ _ hi | occurred _ _ _ hi => rw [hi] at hs; simp [newInstance] at hs
    | started _ _ hi => rw [hi] at hs; simp [startSet] at hs
    | old _ hu => exact hu.stopping_reason hs
  · exact ih hi' hs

/--
**A round ends once.** A terminal row never changes again. A stopping round keeps its reason and
can only become canceled after a manual stop and failed after a timeout. Completion and stop
decision exclude each other and themselves, and one caller at most is told that its stop is new.
-/
theorem round_ends_once {ms ms' : List Move} {s s' : Sys} (hr : run env ms = some s)
    (hr' : s.run (service env) ms' = some s') {id : ℕ} {i : JobInstance}
    (hi : s.world.db .instance id = some i) :
    (i.status.terminal = true → s'.world.db .instance id = some i) ∧
    (i.status = .stopping → ∃ i', s'.world.db .instance id = some i' ∧
      i'.endReason = i.endReason ∧
      ((i.endReason = some .manualStop ∧ (i'.status = .stopping ∨ i'.status = .canceled)) ∨
        (i.endReason = some .instanceTimeout ∧ (i'.status = .stopping ∨ i'.status = .failed)))) ∧
    s'.world.log.countP (Event.ends id) ≤ 1 ∧ s'.world.log.countP (Event.decides id) ≤ 1 := by
  have h := run_reached hr
  have hon := run_onwards hr hr'
  have h' : Reached env s'.world := Txn.Evolution.trans h hon
  obtain ⟨i', hi', hf⟩ := (evolution_follows hon).round id i hi
  refine ⟨fun hterm => ?_, fun hs => ⟨i', hi', (hf.stopping hs).1, ?_⟩, h'.ended_once id,
    h'.decided_once id⟩
  · rw [hi', hf.final (by simpa [InstanceStatus.terminal] using hterm)]
  · obtain ⟨timeout, hreason⟩ := h.stopping_reason hi hs
    obtain ⟨_, hs'⟩ := hf.stopping hs
    cases timeout <;> simp [hreason, stopReason] at hs' ⊢ <;> exact hs'

theorem demo_round_stopped : ∃ s s' i', run Demo.library Demo.stopped = some s ∧
    s.run (service Demo.library) Demo.batch = some s' ∧ s'.world.db .instance 1 = some i' ∧
    i'.endReason = some .manualStop ∧ (i'.status = .stopping ∨ i'.status = .canceled) ∧
    s'.world.log.countP (Event.decides 1) = 1 := by
  obtain ⟨s, hs, ⟨i, hi, hstop, hreason⟩, s', hs', _⟩ : ∃ s ∈ run Demo.library Demo.stopped,
      (∃ i ∈ s.world.db .instance 1, i.status = .stopping ∧ i.endReason = some .manualStop) ∧
      ∃ s' ∈ s.run (service Demo.library) Demo.batch,
        0 < s'.world.log.countP (Event.decides 1) := by decide +kernel
  obtain ⟨_, hafter, _, _⟩ := round_ends_once hs hs' hi
  obtain ⟨i', hi', hreason', hstatus⟩ := hafter hstop
  rw [hreason] at hreason' hstatus
  simp only [reduceCtorEq, false_and, or_false, true_and, Option.some.injEq] at hstatus
  exact ⟨s, s', i', hs, hs', hi', hreason', hstatus, by omega⟩

/-! ## Times -/

def OnTime (db : Db) (t : JobTask) : Prop :=
  ∃ i startedAt registeredAt deadlineAt, db .instance t.instanceId = some i ∧
    i.startedAt = some startedAt ∧ t.attemptRegisteredAt = some registeredAt ∧
    i.deadlineAt = some deadlineAt ∧ startedAt ≤ registeredAt ∧ registeredAt < deadlineAt

theorem OnTime.follows {db db' : Db} (h : OnTime db t) (hf : Db.Follows db db')
    (hid : t'.instanceId = t.instanceId) (hreg : t'.attemptRegisteredAt = t.attemptRegisteredAt) :
    OnTime db' t' := by
  obtain ⟨i, s, r, d, hi, hs, hr, hd, hsr, hrd⟩ := h
  obtain ⟨i', hi', hf⟩ := hf.round _ i hi
  obtain ⟨hs', hd'⟩ := hf.started (by simp [hs])
  exact ⟨i', s, r, d, by rw [hid]; exact hi', hs'.trans hs, hreg.trans hr, hd'.trans hd, hsr, hrd⟩

theorem Registration.onTime {a : RegisteredAttempt} (h : Registration w writes a)
    (hw : writes .task a.taskId = some t) : OnTime (w.db.apply writes) t := by
  obtain ⟨_, ht1, _, hid, hreg⟩ := h.task
  obtain ⟨i, startedAt, hi, _, hs, hle, hd⟩ := h.round
  cases hw.symm.trans ht1
  exact ⟨i, startedAt, _, _, by rw [hid]; exact hi, hs, hreg, hd, hle, h.before⟩

theorem Reached.onTime (h : Reached env w) (ht : w.db .task taskId = some t) : OnTime w.db t := by
  revert t
  refine h.rows (P := fun db => ∀ {t}, db .task taskId = some t → OnTime db t) (by simp) ?_
  intro w op writes _ heff ih t' ht'
  rcases Store.apply_eq_some ht' with hw | ⟨_, ht'⟩
  · rcases (heff.task_write hw).registered_or_same with ⟨a, ha, rfl⟩ | ⟨t, ht, hid, _, hreg⟩
    · exact (heff.registration ha).onTime hw
    · exact (ih ht).follows heff.follows hid hreg
  · exact (ih ht').follows heff.follows rfl rfl

/-! ## Start and deadline are written once -/

/-- The commit changes the start or the deadline of the round. -/
def Event.times (id : ℕ) : Event → Bool
  | .commit _ _ before writes => (writes .instance id).any fun i' =>
      (before .instance id).bind JobInstance.startedAt ≠ i'.startedAt ||
        (before .instance id).bind JobInstance.deadlineAt ≠ i'.deadlineAt
  | _ => false

def Timed (id : ℕ) (db : Db) (log : List Event) : Prop :=
  log.countP (Event.times id) =
    (if ((db .instance id).bind JobInstance.startedAt).isSome then 1 else 0) ∧
  ((db .instance id).bind JobInstance.startedAt).isSome =
    ((db .instance id).bind JobInstance.deadlineAt).isSome

theorem Timed.commit (h : Timed id w.db w.log) (he : Effect env w op writes) :
    Timed id (w.db.apply writes) (.commit pid op w.db writes :: w.log) := by
  obtain ⟨hcount, hboth⟩ := h
  unfold Timed
  rw [List.countP_cons, hcount]
  cases hw : writes .instance id with
  | none =>
    rw [Store.apply_of_none hw]
    simpa [Event.times, hw] using hboth
  | some =>
    rw [Store.apply_of_some hw]
    simp only [Event.times, hw]
    cases he.instance_write hw with
    | requested _ hadm hi | occurred _ _ hadm hi => simp [hi, newInstance, hadm.fresh]
    | started _ hs hi =>
      have hwait := hs.waiting
      simp only [startWhere, Bool.and_eq_true, decide_eq_true_eq] at hwait
      simp [hi, startSet, hs.row, hwait]
    | old row hu =>
      rw [row] at hboth
      simp only [Option.bind_some] at hboth
      simp [row, hu.times, hboth]

theorem Reached.timed (h : Reached env w) (id : ℕ) : Timed id w.db w.log := by
  refine h.keeps ?_ (fun _ _ _ _ _ he ht => ht.commit he) ?_
  · simp [Timed]
  · intro db log e hne ht
    have hk : Event.times id e = false := by
      cases e <;> simp_all [Event.times, Event.isCommit]
    simpa [Timed, hk] using ht

/-! ## No attempt after the end -/

def SameAttempts (id : ℕ) (db db' : Db) : Prop :=
  ∀ taskId t', db' .task taskId = some t' → t'.instanceId = id →
    ∃ t, db .task taskId = some t ∧ t.instanceId = id ∧ t'.attemptNo = t.attemptNo

theorem Effect.sameAttempts (h : Effect env w op writes) (hi : w.db .instance id = some i)
    (hdec : Decided i) : SameAttempts id w.db (w.db.apply writes) := by
  intro taskId t' ht' hid
  rcases Store.apply_eq_some ht' with hw | ⟨_, ht'⟩
  · rcases (h.task_write hw).registered_or_same with ⟨a, ha, rfl⟩ | ⟨t, ht, hinst, hn, _⟩
    · -- the round of a new attempt is running, and a decided one is not
      obtain ⟨_, _, hi', hrun, _⟩ := (h.registration ha).round
      obtain ⟨_, ht1, _, hinst, _⟩ := (h.registration ha).task
      cases hw.symm.trans ht1
      obtain ⟨_, hi1, hf⟩ := h.follows.round id i hi
      rw [← hinst, hid, hi1] at hi'
      cases hi'
      exact absurd hrun (hdec.follows hf).2
    · exact ⟨t, ht, hinst.symm.trans hid, hn⟩
  · exact ⟨t', ht', hid, rfl⟩

/-- A round that is decided gets no new attempts. -/
theorem evolution_sameAttempts {w' : World} (h : Txn.Evolution (contract env) w w')
    (hi : w.db .instance id = some i) (hdec : Decided i) : SameAttempts id w.db w'.db := by
  induction h with
  | refl => exact fun _ t ht hid => ⟨t, ht, hid, rfl⟩
  | @tail a b h hs ih =>
    cases hs with
    | commit _ ok =>
      obtain ⟨_, hi', hf⟩ := (evolution_follows h).round id i hi
      intro taskId t'' ht'' hid
      obtain ⟨t', ht', hid', hn'⟩ := ok.1.sameAttempts hi' (hdec.follows hf) taskId t'' ht'' hid
      obtain ⟨t, ht, hid0, hn⟩ := ih taskId t' ht' hid'
      exact ⟨t, ht, hid0, hn'.trans hn⟩
    | _ => exact ih

/--
**Attempts lie within the time of their round.** Every registration commits while the round is
running and before its deadline. The two times of a round are written once, together, and stay.
Once the end of the round is decided, its task gets no further attempt.
-/
theorem attempts_within_round {ms ms' : List Move} {s s' : Sys} (hr : run env ms = some s)
    (hr' : s.run (service env) ms' = some s') :
    (∀ pid op before writes a, .commit pid op before writes ∈ s.world.log →
      op.registers = some a → ∃ i, before.apply writes .instance a.instanceId = some i ∧
        i.status = .running ∧ i.deadlineAt = some a.deadlineAt ∧
        a.registeredAt < a.deadlineAt) ∧
    (∀ taskId t, s.world.db .task taskId = some t → ∃ i startedAt registeredAt deadlineAt,
      s.world.db .instance t.instanceId = some i ∧ i.startedAt = some startedAt ∧
      t.attemptRegisteredAt = some registeredAt ∧ i.deadlineAt = some deadlineAt ∧
      startedAt ≤ registeredAt ∧ registeredAt < deadlineAt) ∧
    (∀ id i, s.world.db .instance id = some i →
      s.world.log.countP (Event.times id) = (if i.startedAt.isSome then 1 else 0) ∧
      i.startedAt.isSome = i.deadlineAt.isSome ∧
      (i.startedAt.isSome = true → ∃ i', s'.world.db .instance id = some i' ∧
        i'.startedAt = i.startedAt ∧ i'.deadlineAt = i.deadlineAt)) ∧
    ∀ id i, s.world.db .instance id = some i → i.status ≠ .waiting → i.status ≠ .running →
      ∀ taskId t', s'.world.db .task taskId = some t' → t'.instanceId = id →
        ∃ t, s.world.db .task taskId = some t ∧ t'.attemptNo = t.attemptNo := by
  have h := run_reached hr
  have hon := run_onwards hr hr'
  refine ⟨?_, fun taskId t ht => h.onTime ht, fun id i hi => ?_, ?_⟩
  · intro pid op before writes a he ha
    obtain ⟨_, _, rfl, heff, _⟩ := h.since he
    obtain ⟨i, _, hi, hrun, _, _, hd⟩ := (heff.registration ha).round
    exact ⟨i, hi, hrun, hd, (heff.registration ha).before⟩
  · obtain ⟨hcount, hboth⟩ := h.timed id
    simp only [hi] at hcount hboth
    refine ⟨hcount, hboth, fun hs => ?_⟩
    obtain ⟨i', hi', hf⟩ := (evolution_follows hon).round id i hi
    exact ⟨i', hi', hf.started hs⟩
  · intro id i hi hwait hrun taskId t' ht' hid
    obtain ⟨t, ht, _, hn⟩ := evolution_sameAttempts hon hi ⟨hwait, hrun⟩ taskId t' ht' hid
    exact ⟨t, ht, hn⟩

theorem demo_attempt_on_time : ∃ s s' t i', run Demo.library Demo.sent = some s ∧
    s.run (service Demo.library) Demo.lateBusy = some s' ∧ s.world.db .task 1 = some t ∧
    t.attemptRegisteredAt = some 100 ∧ s'.world.db .instance 1 = some i' ∧
    i'.deadlineAt = some (100 + 60 * second) ∧ s.world.log.countP (Event.times 1) = 1 := by
  obtain ⟨s, hs, ⟨t, ht, hreg⟩, ⟨i, hi, hstart, hdead⟩, s', hs', -⟩ :
      ∃ s ∈ run Demo.library Demo.sent,
        (∃ t ∈ s.world.db .task 1, t.attemptRegisteredAt = some 100) ∧
        (∃ i ∈ s.world.db .instance 1, i.startedAt = some 100 ∧
          i.deadlineAt = some (100 + 60 * second)) ∧
        ∃ s' ∈ s.run (service Demo.library) Demo.lateBusy, True := by decide +kernel
  obtain ⟨_, _, htimes, _⟩ := attempts_within_round hs hs'
  obtain ⟨hcount, _, hkept⟩ := htimes 1 i hi
  obtain ⟨i', hi', _, hdead'⟩ := hkept (hstart ▸ rfl)
  exact ⟨s, s', t, i', hs, hs', ht, hreg, hi', hdead'.trans hdead, by simpa [hstart] using hcount⟩

end Dogx.Job
