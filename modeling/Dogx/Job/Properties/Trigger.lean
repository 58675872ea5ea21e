import Dogx.Job.Properties.Lifecycle

/-!
# Automatic triggers

A due occurrence of a job is decided in one transaction, which also moves the job on to its next
occurrence. Former leaders may decide with stale hints, and any number of nodes at once.
-/

namespace Dogx.Job

open Txn (Store)
open JobInstanceRepository JobDefinitionRepository

variable {env : Env} {w w' : World} {op : Op} {writes : Db} {id jobId pid decisionAt n : ℕ}
  {r : AutomaticResult}

/-! ## One decision -/

structure Advance (w : World) (jobId decisionAt scheduledAt next : ℕ) (j : JobDefinition)
    (r : AutomaticResult) (writes : Db) : Prop where
  job : writes .job jobId = some (advanceSet next j)
  found : r.reason ≠ "not_found"
  created : ∀ id i, writes .instance id = some i → id = r.instanceId ∧ w.db .instance id = none ∧
    i.jobId = jobId ∧ i.scheduledAt = some scheduledAt

/-- An automatic trigger advances a due job, or does nothing. -/
theorem Effect.automatic_inv (h : Effect env w (.triggerAutomatic jobId decisionAt r) writes) :
    (∃ j scheduledAt next, Due env w jobId j decisionAt scheduledAt next ∧
      Advance w jobId decisionAt scheduledAt next j r writes) ∨
    (NotDue w jobId decisionAt r.reason ∧ r = { reason := r.reason } ∧ writes = noWrites) := by
  cases h with
  | quiet h => simp [Op.quiet] at h
  | task _ h => cases h
  | round _ h => cases h
  | job _ h => cases h
  | skipped h => exact Or.inr ⟨h, rfl, rfl⟩
  | passed due why =>
    refine Or.inl ⟨_, _, _, due, by simp, ?_, by simp⟩
    rcases why with rfl | rfl | rfl <;> simp
  | @occurred _ id' _ _ _ _ due h =>
    refine Or.inl ⟨_, _, _, due, by simp, by simp, fun id i hi => ?_⟩
    simp only [ne_eq, reduceCtorEq, not_false_eq_true, Store.set_table_ne] at hi
    obtain ⟨rfl, rfl⟩ := written rfl hi
    exact ⟨rfl, h.fresh, h.ids, rfl⟩

theorem Due.lt_next {j : JobDefinition} {scheduledAt next : ℕ}
    (h : Due env w jobId j decisionAt scheduledAt next) :
    decisionAt < next ∧ scheduledAt < next := by
  have h1 := Schedule.lt_of_next h.next
  have h2 := h.due
  omega

/-! ## Progress -/

namespace Event

def enables (jobId : ℕ) : Event → Bool
  | .commit _ (.enableJob id decisionAt) _ _ => decisionAt.isSome && id = jobId
  | _ => false

/-- Where an automatic trigger moves the job on to. -/
def advancesTo (jobId : ℕ) : Event → Option ℕ
  | .commit _ (.triggerAutomatic _ _ _) _ writes =>
    (writes .job jobId).bind JobDefinition.nextTriggerAt
  | _ => none

theorem advancesTo_inv {e : Event} (h : advancesTo jobId e = some n) :
    ∃ pid id d r before writes j, e = .commit pid (.triggerAutomatic id d r) before writes ∧
      writes .job jobId = some j ∧ j.nextTriggerAt = some n := by
  unfold advancesTo at h
  split at h
  · obtain ⟨j, hj, hn⟩ := Option.bind_eq_some_iff.mp h
    exact ⟨_, _, _, _, _, _, j, rfl, hj, hn⟩
  · simp at h

end Event

def StandsAt (jobId n : ℕ) (db : Db) : Prop :=
  ∃ j n', db .job jobId = some j ∧ j.nextTriggerAt = some n' ∧ n ≤ n'

/-- Without an enable, a job does not fall back. -/
theorem StandsAt.commit (h : StandsAt jobId n w.db) (he : Effect env w op writes)
    (hop : Event.enables jobId (.commit pid op w.db writes) = false) :
    StandsAt jobId n (w.db.apply writes) := by
  obtain ⟨j, n', hj, hn', hle⟩ := h
  cases hw : writes .job jobId with
  | none => exact ⟨j, n', (Store.apply_of_none hw).trans hj, hn', hle⟩
  | some j' =>
    cases he.job_write hw with
    | created _ hnew => rw [hnew.fresh] at hj; simp at hj
    | @advanced _ scheduledAt next _ j1 _ due hj' =>
      cases due.row.symm.trans hj
      cases due.scheduled.symm.trans hn'
      have := due.lt_next.2
      exact ⟨j', next, Store.apply_of_some hw, hj' ▸ rfl, by omega⟩
    | old row h =>
      cases row.symm.trans hj
      refine ⟨j', n', Store.apply_of_some hw, ?_, hle⟩
      cases h with
      | enabled => simp [Event.enables] at hop
      | _ => exact hn'

theorem evolution_standsAt {new : List Event} (h : Txn.Evolution (contract env) w w')
    (hlog : w'.log = new ++ w.log) (hnew : ∀ e ∈ new, Event.enables jobId e = false)
    (hs : StandsAt jobId n w.db) : StandsAt jobId n w'.db := by
  refine Txn.Evolution.preserves_without h hlog hnew (fun w e hhap hk hs => ?_) hs
  cases hhap with
  | commit hw _ ok => subst hw; exact hs.commit ok.1 hk
  | act | lost => exact hs

/-- Each trigger moves the job further on than the one before. -/
theorem Reached.progress (h : Reached env w) {later between earlier : List Event} {e1 e2 : Event}
    {n1 n2 : ℕ} (hlog : w.log = later ++ e2 :: (between ++ e1 :: earlier))
    (h1 : Event.advancesTo jobId e1 = some n1) (h2 : Event.advancesTo jobId e2 = some n2)
    (hno : ∀ e ∈ between, Event.enables jobId e = false) : n1 < n2 := by
  obtain ⟨_, _, _, _, _, _, j1, rfl, hj1, hn1⟩ := Event.advancesTo_inv h1
  obtain ⟨_, _, _, _, _, _, _, rfl, hj2, hn2⟩ := Event.advancesTo_inv h2
  obtain ⟨_, hl2, hlog2, rfl, rfl, heff2, _, _⟩ := h.committed hlog
  obtain ⟨l1, _, hlog1, rfl, rfl, _, _, hon⟩ := hl2.committed hlog2
  have hstart : StandsAt jobId n1 (l1.world.db.apply l1.pend) :=
    ⟨j1, n1, Store.apply_of_some hj1, hn1, Nat.le_refl _⟩
  have hstands := evolution_standsAt hon (by rw [hlog2, Txn.Loc.commit_log, hlog1]) hno hstart
  obtain ⟨j, n, hj, hn, _⟩ := hstands
  cases heff2.job_write hj2 with
  | created hop => simp at hop
  | advanced _ due hj' =>
    cases due.row.symm.trans hj
    cases due.scheduled.symm.trans hn
    rw [hj'] at hn2
    cases hn2
    have := due.lt_next.2
    omega
  | old _ h => cases h

/-! ## Failed calls and duplicate occurrences -/

/-- A trigger that returns an error has committed nothing. -/
theorem Reached.nothing_of_error (h : Reached env w) {e : Err}
    (he : .act pid (.returned (.automatic jobId (.error e))) () ∈ w.log) (hlost : ¬ w.Lost pid)
    {before : Db} : .commit pid (.triggerAutomatic id decisionAt r) before writes ∉ w.log := by
  intro hc
  obtain ⟨_, _, hlog⟩ := List.append_of_mem he
  obtain ⟨_, _, hw0, ⟨_, hjust⟩, hon⟩ := h.acted hlog
  rcases hjust with ⟨op, hop⟩ | hnever
  · exact hlost ⟨op, hon.mem_log (List.mem_cons_of_mem _ hop)⟩
  · rw [hlog, List.mem_append, List.mem_cons] at hc
    rcases hc with hc | hc | hc
    · -- a commit after the return would need a lost confirmation
      obtain ⟨_, _, rfl⟩ := List.append_of_mem hc
      rw [List.append_assoc] at hlog
      obtain ⟨l, _, hl, _, _, _, hguard, hon'⟩ := h.committed hlog
      rcases hguard.1 with ⟨op, hop⟩ | ⟨_, hret⟩
      · exact hlost ⟨op, hon'.mem_log (List.mem_cons_of_mem _ hop)⟩
      · have := hret (.act pid (.returned (.automatic jobId (.error e))) ()) (by simp [hl]) rfl
        simp [Event.isReturn] at this
    · simp at hc
    · rw [← hw0] at hc
      simpa [Event.isCommit] using hnever _ hc rfl

theorem Reached.occurrence_unique (h : Reached env w) {id' t : ℕ} {i i' : JobInstance}
    (hi : w.db .instance id = some i) (hi' : w.db .instance id' = some i')
    (hjob : i.jobId = i'.jobId) (ht : i.scheduledAt = some t) (ht' : i'.scheduledAt = some t) :
    id = id' := by
  refine h.wf.unique .instance id id' i i' (.scheduled i.jobId t) hi hi' ?_ ?_
  · simp [rowKeys, JobInstance.keys, ht]
  · simp [rowKeys, JobInstance.keys, ht', hjob]

/-- What a committed call has decided for the job `j` that it found. -/
structure Triggered (jobId decisionAt : ℕ) (j : JobDefinition) (r : AutomaticResult)
    (before writes : Db) : Prop where
  due : ∀ t, j.status = .enabled → j.nextTriggerAt = some t → t ≤ decisionAt →
    (∃ next, before.apply writes .job jobId = some { j with nextTriggerAt := some next } ∧
      decisionAt < next ∧ t < next) ∧
    ∀ id i, writes .instance id = some i → id = r.instanceId ∧ before .instance id = none ∧
      i.jobId = jobId ∧ i.scheduledAt = some t
  other : (∀ t, j.status = .enabled → j.nextTriggerAt = some t → decisionAt < t) →
    before.apply writes = before

theorem Advance.triggered {j : JobDefinition} {t next : ℕ} (due : Due env w jobId j decisionAt t next)
    (adv : Advance w jobId decisionAt t next j r writes) :
    Triggered jobId decisionAt j r w.db writes where
  due t' _ ht' _ := by
    cases due.scheduled.symm.trans ht'
    exact ⟨⟨next, Store.apply_of_some adv.job, due.lt_next⟩, adv.created⟩
  other hnone := by
    have := hnone t due.enabled due.scheduled
    have := due.due
    omega

theorem Triggered.of_not_due {j : JobDefinition} {db : Db}
    (h : ∀ t, j.status = .enabled → j.nextTriggerAt = some t → decisionAt < t) :
    Triggered jobId decisionAt j r db noWrites where
  due t hen ht hle := by
    have := h t hen ht
    omega
  other _ := rfl

/-- A committed call found its job and read the clock, or at some moment there was none to find. -/
theorem Reached.decided (h : Reached env w) {later earlier : List Event} {before : Db}
    (hlog : w.log = later ++ .commit pid (.triggerAutomatic jobId decisionAt r) before writes :: earlier) :
    (∃ j, before .job jobId = some j ∧ j.deletedAt = none ∧ .act pid .clock decisionAt ∈ earlier ∧
      Triggered jobId decisionAt j r before writes) ∨
    (Unfound pid jobId before earlier ∧ r = { reason := "not_found" } ∧
      before.apply writes = before) := by
  obtain ⟨l, _, rfl, rfl, rfl, heff, ⟨_, hon⟩, _⟩ := h.committed hlog
  unfold DecidedOn at hon
  rcases heff.automatic_inv with ⟨j, t, next, due, adv⟩ | ⟨hnot, hr, hwrites⟩
  · rw [if_neg adv.found] at hon
    exact .inl ⟨j, due.row, due.kept, hon, adv.triggered due⟩
  rw [hwrites]
  generalize r.reason = reason at hnot hr hon
  subst hr
  cases hnot with
  | notFound => exact .inr ⟨hon, rfl, rfl⟩
  | @disabled j row kept hdis =>
    exact .inl ⟨j, row, kept, hon, .of_not_due fun _ hen => absurd hen hdis⟩
  | @notDue j row kept hlate =>
    exact .inl ⟨j, row, kept, hon, .of_not_due fun t _ ht => hlate t ht⟩

/--
**Automatic triggers make progress, once per occurrence.** A committed call found the job, and if it
found it due it moves it on past its reading of the clock and creates at most the round of that
occurrence; or else there was no job when it looked. Otherwise nothing changes. The job moves
strictly forward until it is enabled again, and no two rounds stand for one occurrence.
-/
theorem automatic_trigger_advances {ms : List Move} {s : Sys} (hr : run env ms = some s)
    (jobId : ℕ) :
    (∀ later pid decisionAt r before writes earlier, s.world.log =
        later ++ .commit pid (.triggerAutomatic jobId decisionAt r) before writes :: earlier →
      (∃ j, before .job jobId = some j ∧ j.deletedAt = none ∧ .act pid .clock decisionAt ∈ earlier ∧
        Triggered jobId decisionAt j r before writes) ∨
      (Unfound pid jobId before earlier ∧ r = { reason := "not_found" } ∧
        before.apply writes = before)) ∧
    (∀ pid e, .act pid (.returned (.automatic jobId (.error e))) () ∈ s.world.log →
      ¬ s.world.Lost pid → ∀ id decisionAt r before writes,
        .commit pid (.triggerAutomatic id decisionAt r) before writes ∉ s.world.log) ∧
    (∀ later between earlier e₁ e₂ n₁ n₂,
      s.world.log = later ++ e₂ :: (between ++ e₁ :: earlier) →
      Event.advancesTo jobId e₁ = some n₁ → Event.advancesTo jobId e₂ = some n₂ →
      (∀ e ∈ between, Event.enables jobId e = false) → n₁ < n₂) ∧
    ∀ id id' i i' t, s.world.db .instance id = some i → s.world.db .instance id' = some i' →
      i.jobId = i'.jobId → i.scheduledAt = some t → i'.scheduledAt = some t → id = id' := by
  have h := run_reached hr
  exact ⟨fun _ _ _ _ _ _ _ hlog => h.decided hlog,
    fun _ _ he hlost _ _ _ _ _ => h.nothing_of_error he hlost,
    fun _ _ _ _ _ _ _ hlog h₁ h₂ hno => h.progress hlog h₁ h₂ hno,
    fun _ _ _ _ _ hi hi' hjob ht ht' => h.occurrence_unique hi hi' hjob ht ht'⟩

theorem demo_trigger_advances : ∃ s pid r before writes j next,
    run Demo.library Demo.triggered = some s ∧
    .commit pid (.triggerAutomatic 1 1200 r) before writes ∈ s.world.log ∧
    before.apply writes .job 1 = some j ∧ j.nextTriggerAt = some next ∧ 1200 < next := by
  obtain ⟨s, hs, hk⟩ : ∃ s ∈ run Demo.library Demo.triggered,
      s.world.log.any (Event.commits fun op before =>
        op = .triggerAutomatic 1 1200 { instanceId := 1, created := true, reason := "created" } ∧
        ∃ j ∈ before .job 1, j.status = .enabled ∧ j.nextTriggerAt = some 1100) = true := by
    decide +kernel
  obtain ⟨pid, _, before, writes, hmem, hk⟩ := any_commits.mp hk
  obtain ⟨rfl, j, hj, hen, hnext⟩ := of_decide_eq_true hk
  obtain ⟨later, earlier, hlog⟩ := List.append_of_mem hmem
  rcases (automatic_trigger_advances hs 1).1 later pid 1200 _ before writes earlier hlog with
    ⟨j', hj', _, _, hdec⟩ | ⟨_, hr, _⟩
  · cases hj.symm.trans hj'
    obtain ⟨⟨next, hafter, hlt, _⟩, _⟩ := hdec.due 1100 hen hnext (by omega)
    exact ⟨s, pid, _, before, writes, _, next, hs, hmem, hafter, rfl, hlt⟩
  · cases hr

/-! ## At most one active round -/

def OneActive (jobId : ℕ) (db : Db) : Prop :=
  ∀ id id' i i', db .instance id = some i → db .instance id' = some i' → i.jobId = jobId →
    i'.jobId = jobId → i.status.active = true → i'.status.active = true → id = id'

/-- Under `discard` no commit makes a second active round. -/
theorem OneActive.commit (h : OneActive jobId w.db) (he : Effect env w op writes)
    (hdiscard : ∀ j, w.db .job jobId = some j → j.blockPolicy = .discard) :
    OneActive jobId (w.db.apply writes) := by
  intro id id' i1 i1' hi1 hi1' hjob hjob' ha ha'
  rcases he.round_before hi1 with ⟨i, hi, hf⟩ | ⟨j, hnew⟩ <;>
    rcases he.round_before hi1' with ⟨i', hi', hf'⟩ | ⟨j', hnew'⟩
  · exact h id id' i i' hi hi' (hf.jobId.symm.trans hjob) (hf'.jobId.symm.trans hjob')
      (hf.active ha) (hf'.active ha')
  · -- a new round is admitted only when no other one is active
    have hadm := hnew'.admits
    rw [hjob'] at hadm
    have hnone := hadm.free (hdiscard j' hadm.row) id i hi (hf.jobId.symm.trans hjob)
    simp [hf.active ha] at hnone
  · have hadm := hnew.admits
    rw [hjob] at hadm
    have hnone := hadm.free (hdiscard j hadm.row) id' i' hi' (hf'.jobId.symm.trans hjob')
    simp [hf'.active ha'] at hnone
  · exact hnew.id_eq hnew'

/--
**A job that discards blocked rounds has at most one active round.** It is enough that the block
policy was `discard` in every database that some commit of the run has started from.
-/
theorem discard_one_active {ms : List Move} {s : Sys} (hr : run env ms = some s) {jobId : ℕ}
    (hdiscard : ∀ pid op before writes j, .commit pid op before writes ∈ s.world.log →
      before .job jobId = some j → j.blockPolicy = .discard) :
    ∀ id id' i i', s.world.db .instance id = some i → s.world.db .instance id' = some i' →
      i.jobId = jobId → i'.jobId = jobId → i.status.active = true → i'.status.active = true →
      id = id' := by
  refine (run_reached hr).keeps (P := fun db log => (∀ pid op before writes j,
    .commit pid op before writes ∈ log → before .job jobId = some j → j.blockPolicy = .discard) →
    OneActive jobId db) ?_ ?_ ?_ hdiscard
  · intro _ id id' i i' hi
    simp at hi
  · intro w pid op writes _ he ih hall
    have hnow := hall pid op w.db writes
    exact (ih fun q op' before writes' j hmem => hall q op' before writes' j
      (List.mem_cons_of_mem _ hmem)).commit he fun j hj => hnow j List.mem_cons_self hj
  · intro db log e _ ih hall
    exact ih fun q op' before writes' j hmem => hall q op' before writes' j
      (List.mem_cons_of_mem _ hmem)

/-- The next occurrence, at 2200, comes up while the first round still waits. -/
def Demo.blocked : List Move :=
  triggered ++ [.tick 1100, .spawn (.triggerAutomatic 1), .reply 3 .expired false,
    .reply 3 (.acquire true) true, .begin 3, .exec 3, .reply 3 .clock 2300, .exec 3, .exec 3, .commit 3]

theorem demo_one_active : ∃ s i, run Demo.library Demo.blocked = some s ∧
    s.world.log.any (Event.commits fun op _ =>
      op = .triggerAutomatic 1 2300 { reason := "blocked" }) = true ∧
    s.world.db .instance 1 = some i ∧ i.status = .waiting ∧
    ∀ id' i', s.world.db .instance id' = some i' → i'.jobId = 1 → i'.status.active = true →
      1 = id' := by
  obtain ⟨s, hs, hblocked, ⟨i, hi, hjob, hwait⟩, hnone⟩ : ∃ s ∈ run Demo.library Demo.blocked,
      s.world.log.any (Event.commits fun op _ =>
        op = .triggerAutomatic 1 2300 { reason := "blocked" }) = true ∧
      (∃ i ∈ s.world.db .instance 1, i.jobId = 1 ∧ i.status = .waiting) ∧
      ¬ s.world.log.any (Event.commits fun _ before =>
        ∃ j ∈ before .job 1, j.blockPolicy ≠ .discard) = true := by decide +kernel
  refine ⟨s, i, hs, hblocked, hi, hwait, fun id' i' hi' hjob' ha' =>
    discard_one_active hs ?_ 1 id' i i' hi hi' hjob hjob' (hwait ▸ rfl) ha'⟩
  intro pid op before writes j hmem hj
  by_contra hother
  exact hnone (any_commits.mpr ⟨pid, op, before, writes, hmem, decide_eq_true ⟨j, hj, hother⟩⟩)

end Dogx.Job
