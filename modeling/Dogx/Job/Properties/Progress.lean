import Dogx.Job.Properties.References

/-!
# The next occurrence of a job

The next occurrence and the expression it was computed from are columns of one row, and five
operations write them. An enabled job always has a next occurrence, and it belongs to the
expression that the job has now.
-/

namespace Dogx.Job

open Txn (Store)

variable {env : Env} {w : World} {op : Op} {writes : Db} {id pid : ℕ} {l : Loc}

def Op.decidesAt (id : ℕ) : Op → Option ℕ
  | .createJob id' decisionAt => if id' = id then decisionAt else none
  | .enableJob id' decisionAt => if id' = id then decisionAt else none
  | .triggerAutomatic id' decisionAt _ => if id' = id then some decisionAt else none
  | _ => none

/-- A commit in the history has set `next`, for this expression and after this decision time, which
its process had read from the clock before. -/
structure DecidedBy (env : Env) (id : ℕ) (cronExpr : String) (next decisionAt : ℕ)
    (log : List Event) : Prop where
  occurs : Schedule.next env cronExpr decisionAt = .ok next
  commit : ∃ later pid op before writes earlier j,
    log = later ++ .commit pid op before writes :: earlier ∧ op.decidesAt id = some decisionAt ∧
    .act pid .clock decisionAt ∈ earlier ∧ writes .job id = some j ∧ j.cronExpr = cronExpr ∧
    j.nextTriggerAt = some next

theorem DecidedBy.mono {cronExpr : String} {next decisionAt : ℕ} {log : List Event} {e : Event}
    (h : DecidedBy env id cronExpr next decisionAt log) :
    DecidedBy env id cronExpr next decisionAt (e :: log) := by
  obtain ⟨hnext, later, pid, op, before, writes, earlier, j, hlog, hj⟩ := h
  exact ⟨hnext, e :: later, pid, op, before, writes, earlier, j, congrArg _ hlog, hj⟩

def InProgress (env : Env) (db : Db) (log : List Event) : Prop :=
  ∀ id j, db .job id = some j → j.status = .enabled → j.deletedAt = none →
    ∃ next decisionAt, j.nextTriggerAt = some next ∧
      DecidedBy env id j.cronExpr next decisionAt log

theorem InProgress.commit (h : InProgress env l.world.db l.world.log)
    (he : Effect env l.world op l.pend) (hg : Guarded pid l op) :
    InProgress env (l.commit pid op).db (l.commit pid op).log := by
  intro id j' hj hen hkept
  -- what the transaction has written it has also decided
  have decided : ∀ {next decisionAt}, l.pend .job id = some j' → j'.nextTriggerAt = some next →
      Schedule.next env j'.cronExpr decisionAt = .ok next → op.decidesAt id = some decisionAt →
      .act pid .clock decisionAt ∈ l.world.log → ∃ next decisionAt, j'.nextTriggerAt = some next ∧
        DecidedBy env id j'.cronExpr next decisionAt (l.commit pid op).log :=
    fun hw hnext hsched hop hclock => ⟨_, _, hnext, hsched, [], pid, op, l.world.db, l.pend, _, j',
      rfl, hop, hclock, hw, rfl, hnext⟩
  rcases Store.apply_eq_some hj with hw | ⟨_, hj⟩
  · cases he.job_write hw with
    | created hop hnew =>
      obtain ⟨t, next, rfl, hnext, hsched⟩ := hnew.progress hen
      subst hop
      exact decided hw hnext hsched (if_pos rfl) (hg.2 t rfl)
    | @advanced decisionAt _ next r j hop due hj' =>
      subst hop hj'
      refine decided hw rfl due.next (if_pos rfl) ?_
      rcases he.automatic_inv with ⟨_, _, _, _, adv⟩ | ⟨_, _, hnone⟩
      · have hon := hg.2
        rw [DecidedOn, if_neg adv.found] at hon
        exact hon
      · rw [hnone] at hw
        cases hw
    | old _ hu =>
      cases hu with
      | updated _ disabled => cases disabled.symm.trans hen
      | @enabled _ decisionAt next j _ _ occurs => exact decided hw rfl occurs (if_pos rfl) (hg _ rfl)
      | disabled => cases hen
      | deleted => cases hkept
  · obtain ⟨next, decisionAt, hnext, hdec⟩ := h id j' hj hen hkept
    exact ⟨next, decisionAt, hnext, hdec.mono⟩

/-- Every enabled job has a next occurrence decided for it. -/
theorem Reached.inProgress (h : Reached env w) : InProgress env w.db w.log := by
  have other : ∀ {w : World} {e : Event}, InProgress env w.db w.log →
      InProgress env w.db (e :: w.log) := by
    intro w e ih id j hj hen hkept
    obtain ⟨next, decisionAt, hnext, hdec⟩ := ih id j hj hen hkept
    exact ⟨next, decisionAt, hnext, hdec.mono⟩
  refine Txn.Evolution.preserves (P := fun w => InProgress env w.db w.log) (fun w w' hs ih => ?_) h
    fun id j hj => by cases hj
  cases hs with
  | commit _ ok => exact ih.commit ok.1 ok.2
  | act | lost => exact other ih
  | tick | bump => exact ih

theorem Effect.enabled_job (h : Effect env w op writes) {j j' : JobDefinition}
    (hj : w.db .job id = some j) (hen : j.status = .enabled) (hw : writes .job id = some j') :
    (∃ next, j' = JobDefinitionRepository.advanceSet next j ∧
      ∃ decisionAt r, op = .triggerAutomatic id decisionAt r) ∨
    (j' = JobDefinitionRepository.disableSet j ∧ op = .disableJob id true) := by
  cases h.job_write hw with
  | created _ hnew => rw [hnew.fresh] at hj; cases hj
  | @advanced decisionAt _ next r j1 hop due hj' =>
    cases due.row.symm.trans hj
    exact Or.inl ⟨next, hj', decisionAt, r, hop⟩
  | old row hu =>
    cases row.symm.trans hj
    cases hu with
    | updated _ disabled | enabled _ disabled | deleted _ disabled => cases disabled.symm.trans hen
    | disabled => exact Or.inr ⟨rfl, rfl⟩

/--
**The next occurrence of an enabled job belongs to its expression.** In every committed state it
is one that a transaction in the history has computed, from the expression the job has now and at
a time that its process had read from the clock before.
Enabling an enabled job and disabling keep it, and no transaction changes the expression of an
enabled job.
-/
theorem enabled_job_in_progress {ms : List Move} {s : Sys} (hr : run env ms = some s) :
    (∀ id j, s.world.db .job id = some j → j.status = .enabled → j.deletedAt = none →
      ∃ next decisionAt, j.nextTriggerAt = some next ∧
        Schedule.next env j.cronExpr decisionAt = .ok next ∧
        DecidedBy env id j.cronExpr next decisionAt s.world.log) ∧
    ∀ pid op before writes id j, .commit pid op before writes ∈ s.world.log →
      before .job id = some j →
      ((∃ decisionAt, op = .enableJob id decisionAt) → j.status = .enabled →
        before.apply writes .job id = some j) ∧
      ((∃ disabled, op = .disableJob id disabled) →
        ∃ j', before.apply writes .job id = some j' ∧ j'.nextTriggerAt = j.nextTriggerAt) ∧
      (j.status = .enabled →
        ∃ j', before.apply writes .job id = some j' ∧ j'.cronExpr = j.cronExpr) := by
  have h := run_reached hr
  refine ⟨fun id j hj hen hkept => ?_, ?_⟩
  · obtain ⟨next, decisionAt, hnext, hdec⟩ := h.inProgress id j hj hen hkept
    exact ⟨next, decisionAt, hnext, hdec.occurs, hdec⟩
  intro pid op before writes id j he hj
  obtain ⟨w₀, _, rfl, heff, _⟩ := h.since he
  cases hw : writes .job id with
  | none =>
    have hsame : w₀.db.apply writes .job id = some j := (Store.apply_of_none hw).trans hj
    exact ⟨fun _ _ => hsame, fun _ => ⟨j, hsame, rfl⟩, fun _ => ⟨j, hsame, rfl⟩⟩
  | some j' =>
    have hafter : w₀.db.apply writes .job id = some j' := Store.apply_of_some hw
    refine ⟨?_, ?_, fun hen => ⟨j', hafter, ?_⟩⟩
    · rintro ⟨_, rfl⟩ hen
      rcases heff.enabled_job hj hen hw with ⟨_, _, _, _, hop⟩ | ⟨_, hop⟩ <;> cases hop
    · rintro ⟨_, rfl⟩
      refine ⟨j', hafter, ?_⟩
      cases heff.job_write hw with
      | created hop => cases hop
      | advanced hop => cases hop
      | old row hu =>
        cases row.symm.trans hj
        cases hu
        rfl
    · rcases heff.enabled_job hj hen hw with ⟨_, rfl, _⟩ | ⟨rfl, _⟩ <;> rfl

theorem demo_job_in_progress : ∃ s j decisionAt, run Demo.library Demo.triggered = some s ∧
    s.world.db .job 1 = some j ∧ j.nextTriggerAt = some 2200 ∧
    DecidedBy Demo.library 1 j.cronExpr 2200 decisionAt s.world.log := by
  obtain ⟨s, hs, j, hj, hen, hkept, hnext⟩ : ∃ s ∈ run Demo.library Demo.triggered,
      ∃ j ∈ s.world.db .job 1, j.status = .enabled ∧ j.deletedAt = none ∧
        j.nextTriggerAt = some 2200 := by decide +kernel
  obtain ⟨next, decisionAt, hnext', _, hdec⟩ := (enabled_job_in_progress hs).1 1 j hj hen hkept
  cases hnext'.symm.trans hnext
  exact ⟨s, j, decisionAt, hs, hj, hnext, hdec⟩

end Dogx.Job
