import Dogx.Job.Properties.Trigger

/-!
# What a deletion leaves behind

Jobs and groups are marked as deleted and their rows stay. A deletion looks for what still uses its
row and marks it in a later statement, while other transactions create jobs, move them between
groups and trigger them. In every committed state a deleted job has no active round, and no job and
no active round uses a deleted group.
-/

namespace Dogx.Job

open Txn (Store)

variable {env : Env} {w : World} {op : Op} {writes : Db} {id : ℕ}

structure Unreferenced (db : Db) : Prop where
  job : ∀ id j, db .job id = some j → j.deletedAt.isSome → NoActive db id
  group : ∀ id g, db .group id = some g → g.deletedAt.isSome → NoReference db id ∧ NoActiveFor db id

theorem Effect.noActive (h : Effect env w op writes) (hno : NoActive w.db id)
    (hnew : ∀ rid i j, NewRound w op rid i j → i.jobId ≠ id) : NoActive (w.db.apply writes) id := by
  intro rid i' hi hjob
  rcases h.round_before hi with ⟨i, hrow, hf⟩ | ⟨j, hround⟩
  · exact hf.inactive (hno rid i hrow (hf.jobId.symm.trans hjob))
  · exact absurd hjob (hnew rid i' j hround)

/-- No commit starts a round of a deleted job. -/
theorem Unreferenced.job_commit (h : Unreferenced w.db) (he : Effect env w op writes)
    {j' : JobDefinition} (hj : w.db.apply writes .job id = some j') (hdel : j'.deletedAt.isSome) :
    NoActive (w.db.apply writes) id := by
  rcases Store.apply_eq_some hj with hw | ⟨_, hj⟩
  · cases he.job_write hw with
    | created _ hnew => simp [hnew.kept] at hdel
    | advanced _ due hj' =>
      subst hj'
      have hkept := due.kept
      simp [JobDefinitionRepository.advanceSet, hkept] at hdel
    | old _ hu =>
      cases hu with
      | updated kept => simp [JobDefinitionRepository.updateSet, kept] at hdel
      | enabled kept => simp [JobDefinitionRepository.enableSet, kept] at hdel
      | disabled kept => simp [JobDefinitionRepository.disableSet, kept] at hdel
      | deleted _ _ idle =>
        refine he.noActive idle fun rid i j hround => ?_
        rcases hround.how with ⟨_, hop, _⟩ | ⟨_, hop⟩ <;> cases hop
  · refine he.noActive (h.job id j' hj hdel) fun rid i j hround heq => ?_
    have hrow := hround.admits.row
    rw [heq, hj] at hrow
    cases hrow
    simp [hround.admits.kept] at hdel

/-- No commit refers to a deleted group. -/
theorem Unreferenced.group_commit (h : Unreferenced w.db) (he : Effect env w op writes)
    {g' : ExecutorGroup} (hg : w.db.apply writes .group id = some g') (hdel : g'.deletedAt.isSome) :
    NoReference (w.db.apply writes) id ∧ NoActiveFor (w.db.apply writes) id := by
  rcases Store.apply_eq_some hg with hw | ⟨_, hg⟩
  · rcases he.group_write hw with hkept | ⟨rfl, hunused, hidle⟩
    · simp [hkept] at hdel
    · refine ⟨he.noReference hunused fun _ _ hop => ?_, he.noActiveFor hunused hidle⟩
      rcases hop with ⟨_, hop⟩ | hop <;> cases hop
  · obtain ⟨hunused, hidle⟩ := h.group id g' hg hdel
    -- a job is only given a group that is available
    have hgone : ¬ Available w.db id := by
      rintro ⟨g, hg', hkept⟩
      cases hg.symm.trans hg'
      simp [hkept] at hdel
    refine ⟨he.noReference hunused fun jobId j hop hw heq => hgone ?_, he.noActiveFor hunused hidle⟩
    cases he.job_write hw with
    | created _ hnew => exact heq ▸ hnew.group
    | advanced hop' => rcases hop with ⟨_, hop⟩ | hop <;> cases hop.symm.trans hop'
    | old _ hu =>
      cases hu with
      | updated _ _ group => exact heq ▸ group
      | _ => rcases hop with ⟨_, hop⟩ | hop <;> cases hop

theorem Reached.unreferenced (h : Reached env w) : Unreferenced w.db := by
  refine h.rows ⟨by simp, by simp⟩ fun w op writes _ he ih => ?_
  exact ⟨fun _ _ hj hdel => ih.job_commit he hj hdel, fun _ _ hg hdel => ih.group_commit he hg hdel⟩

/--
**What is deleted is not in use.** In every committed state of every run, a deleted job has no
waiting, running or stopping round, and a deleted group has neither an undeleted job that refers to
it nor a waiting, running or stopping round that was created for it.
-/
theorem deleted_unreferenced {ms : List Move} {s : Sys} (hr : run env ms = some s) :
    (∀ jobId j, s.world.db .job jobId = some j → j.deletedAt.isSome →
      ∀ id i, s.world.db .instance id = some i → i.jobId = jobId →
        i.status ≠ .waiting ∧ i.status ≠ .running ∧ i.status ≠ .stopping) ∧
    ∀ groupId g, s.world.db .group groupId = some g → g.deletedAt.isSome →
      (∀ jobId j, s.world.db .job jobId = some j → j.deletedAt = none →
        j.executorGroupId ≠ groupId) ∧
      ∀ id i, s.world.db .instance id = some i → i.executorGroupId = groupId →
        i.status ≠ .waiting ∧ i.status ≠ .running ∧ i.status ≠ .stopping := by
  have h := (run_reached hr).unreferenced
  have ended : ∀ {i : JobInstance}, i.status.active = false →
      i.status ≠ .waiting ∧ i.status ≠ .running ∧ i.status ≠ .stopping := by
    intro i hi
    refine ⟨?_, ?_, ?_⟩ <;> intro hs <;> simp [hs, InstanceStatus.active] at hi
  refine ⟨fun jobId j hj hdel id i hi hjob => ended (h.job jobId j hj hdel id i hi hjob), ?_⟩
  intro groupId g hg hdel
  obtain ⟨hunused, hidle⟩ := h.group groupId g hg hdel
  exact ⟨hunused, fun id i hi hgroup => ended (hidle id i hi hgroup)⟩

/-- The stopped round is over; then its job is deleted, and after that the group. -/
def Demo.deleted : List Move :=
  Demo.stopped ++ Demo.batch ++
  [.spawn (.deleteJob 1), .begin 5, .exec 5, .exec 5, .reply 5 .clock 200, .exec 5, .commit 5,
    .confirm 5, .reply 5 .expired true,
    .spawn (.deleteExecutorGroup 1), .begin 6, .exec 6, .exec 6, .exec 6, .reply 6 .clock 300,
    .exec 6, .commit 6, .confirm 6]

/-- Both deletions went through, and the round that is left is over. -/
theorem demo_deleted_unreferenced : ∃ s j g i, run Demo.library Demo.deleted = some s ∧
    s.world.db .job 1 = some j ∧ j.deletedAt = some 200 ∧
    s.world.db .group 1 = some g ∧ g.deletedAt = some 300 ∧
    s.world.db .instance 1 = some i ∧ i.executorGroupId = 1 ∧ i.status ≠ .stopping := by
  obtain ⟨s, hs, ⟨j, hj, hdel⟩, ⟨g, hg, hdel'⟩, i, hi, hgroup⟩ : ∃ s ∈ run Demo.library Demo.deleted,
      (∃ j ∈ s.world.db .job 1, j.deletedAt = some 200) ∧
      (∃ g ∈ s.world.db .group 1, g.deletedAt = some 300) ∧
      ∃ i ∈ s.world.db .instance 1, i.executorGroupId = 1 := by decide +kernel
  obtain ⟨_, hgroups⟩ := deleted_unreferenced hs
  have hover := (hgroups 1 g hg (hdel' ▸ rfl)).2 1 i hi hgroup
  exact ⟨s, j, g, i, hs, hj, hdel, hg, hdel', hi, hgroup, hover.2.2⟩

end Dogx.Job
