import Dogx.Job.Refine.Manual
import Dogx.Job.Refine.Stop

/-!
# Management operations within the contract

Each of them is one transaction that writes one row, or none.
-/

namespace Dogx.Job

open Txn (Stable Settled Store Loc.start)
open Txn.Tx (wp_input wp_insertRow wp_pure wp_query wp_updateRow)

variable {env : Env} {pid id : ℕ} {table : Table} {r : Row table} {l : Loc} {α : Type}
  {label : α → Op} {j j' definition : JobDefinition}

def Created (table : Table) (id : ℕ) (r : Row table) (l : Loc) : Prop :=
  l.pend = Store.set noWrites table id r ∧ Txn.Res.row (S := sig) table id ∈ l.held ∧
    l.world.db table id = none

theorem stable_created (table : Table) (id : ℕ) (r : Row table) :
    Stable env pid (Created table id r) :=
  (Stable.own fun pend _ => pend = Store.set noWrites table id r).and (stable_row table id none)

theorem Created.of_add (hp : l.pend = noWrites) (hn : l.world.db table id = none) :
    Created table id r (l.add table id r) := by
  refine ⟨?_, Set.mem_insert _ _, hn⟩
  show Store.set l.pend table id r = _
  rw [hp]

theorem wroteJob_wp {a : α} {P : Loc → Prop} (hs : Stable env pid P)
    (hw : Wrote .job id j j' l) (hl : P l) (h : ∀ l, Wrote .job id j j' l → P l →
      JobUpdate env l.world (label a) id j j' ∧ Guarded pid l (label a)) :
    Settles env pid (label) (pure a : Tx α) l := by
  have hs' := (stable_wrote .job id j j').and hs
  refine wp_pure hs' ⟨hw, hl⟩ fun l hl _ _ => hs'.settled hl fun l hl _ _ => ?_
  obtain ⟨hu, hg⟩ := h l hl.1 hl.2
  exact ⟨by rw [hl.1.1]; exact .job hl.1.2.2 hu, hg⟩

theorem transact_keeps {body : Tx α} (h : ∀ w, Body env pid label body w) :
    Triple env pid (fun _ => True) (transact label body) fun _ _ => True :=
  Txn.Proc.Triple.mono (Triple.transact .anything (fun _ => always)
    (fun w _ _ _ => h w) fun _ _ _ _ => trivial) (fun _ h => h) fun _ _ _ => trivial

def LockedGroup (id : ℕ) (l : Loc) : Prop :=
  l.pend = noWrites ∧ groupRow id ∈ l.held ∧ Available l.world.db id

theorem stable_lockedGroup (id : ℕ) : Stable env pid (LockedGroup id) :=
  stable_noWrites.and (stable_available id)

theorem wp_lockAvailable {Q : α → Loc → Prop} {k : Unit → Tx α} (hl : l.pend = noWrites)
    (h : ∀ l, LockedGroup id l → Achieves env pid (k ()) Q l) :
    Achieves env pid (ExecutorGroupRepository.lockAvailable id >>= k) Q l := by
  refine Txn.Tx.wp_lockRow stable_noWrites hl (fun hn => by cases hn) (fun _ _ _ _ _ => gives_up)
    fun l g hl _ _ hg => ?_
  dsimp only [Txn.Tx.ret_bind]
  split
  · exact gives_up
  · next hkept =>
    rw [row_of_view hl] at hg
    exact h _ ⟨hl, Set.mem_insert _ _, g, hg, by simpa using hkept⟩

theorem guarded_of_pend (hp : l.pend = Store.set noWrites .job id j)
    (hh : groupRow j.executorGroupId ∈ l.held) :
    ∀ id' j', l.pend .job id' = some j' → groupRow j'.executorGroupId ∈ l.held := by
  intro id' j' hj
  rw [hp] at hj
  obtain ⟨rfl, rfl⟩ := written rfl hj
  exact hh

theorem mem_all_of_row (hwf : l.WF) (hp : l.pend = noWrites) (hr : l.world.db table id = some r) :
    r ∈ Txn.View.all l.view table :=
  Txn.View.mem_all.mpr ⟨id, (hwf.bounded table id r hr).2, by rw [row_of_view hp]; exact hr⟩

theorem noReference_of_view (hwf : l.WF) (hp : l.pend = noWrites)
    (h : JobDefinitionRepository.hasGroupReferences id l.view = false) :
    NoReference l.world.db id := by
  intro jobId j hj hkept hgroup
  have hmem := mem_all_of_row hwf hp hj
  simp only [JobDefinitionRepository.hasGroupReferences, List.any_eq_false, Bool.and_eq_true,
    decide_eq_true_eq, not_and] at h
  exact h j hmem hkept hgroup

theorem noActiveFor_of_view (hwf : l.WF) (hp : l.pend = noWrites)
    (h : JobInstanceRepository.hasActiveForGroup id l.view = false) :
    NoActiveFor l.world.db id := by
  intro instanceId i hi hgroup
  have hmem := mem_all_of_row hwf hp hi
  simp only [JobInstanceRepository.hasActiveForGroup, List.any_eq_false, Bool.and_eq_true,
    decide_eq_true_eq, not_and, Bool.not_eq_true] at h
  exact h i hmem hgroup

namespace Management

/-! ## Groups -/

theorem createExecutorGroup_keeps (name key : String) :
    Triple env pid (fun _ => True) (createExecutorGroup name key) fun _ _ => True := by
  unfold createExecutorGroup
  split
  · exact .done _
  refine .bind (Triple.perform rfl .anything) fun random => ?_
  cases random with
  | none => exact .done _
  | some =>
    refine transact_keeps fun w => ?_
    refine wp_insertRow stable_noWrites rfl (fun l hl => ?_) fun l id hl hn _ => ?_
    · exact wp_query stable_noWrites hl fun _ _ _ _ => gives_up
    · refine wp_pure (stable_created .group id _) (.of_add hl hn) fun l hl _ _ => ?_
      refine (stable_created .group id _).settled hl fun l hl _ _ => ⟨?_, trivial⟩
      rw [hl.1]
      exact .groupCreated hl.2.2 rfl rfl

theorem deleteExecutorGroup_keeps (id : ℕ) :
    Triple env pid (fun _ => True) (deleteExecutorGroup id) fun _ _ => True := by
  unfold deleteExecutorGroup
  split
  · exact .done _
  refine transact_keeps fun w => wp_lockAvailable rfl fun l hl => ?_
  refine wp_query (stable_lockedGroup id) hl fun l hl hwf _ => ?_
  split
  · exact gives_up
  next href =>
  have hs1 : Stable env pid fun l =>
      l.pend = noWrites ∧ groupRow id ∈ l.held ∧ NoReference l.world.db id :=
    stable_noWrites.and (stable_noReference id)
  refine wp_query hs1
    ⟨hl.1, hl.2.1, noReference_of_view hwf hl.1 (by simpa using href)⟩ fun l hl hwf _ => ?_
  split
  · exact gives_up
  next hactive =>
  -- an active round of the group would need a job that refers to it
  have hs2 : Stable env pid _ := stable_noWrites.and (stable_unused id)
  refine wp_input hs2
    ⟨hl.1, hl.2.1, hl.2.2, noActiveFor_of_view hwf hl.1 (by simpa using hactive)⟩ rfl
    (fun _ _ => trivial) fun now l hl _ => ?_
  refine wp_updateRow hs2 hl (fun _ _ _ _ _ => gives_up) fun l g g' hl _ _ hg hset => ?_
  obtain ⟨_, rfl⟩ := updateWhere_eq_set.mp hset
  have hs3 : Stable env pid _ :=
    (stable_wrote .group id g { g with deletedAt := some now }).and (stable_unused id)
  refine ⟨rfl, wp_pure hs3 ⟨.of_write hl.1 hg, Set.mem_insert _ _, hl.2.2⟩
    fun l hl _ _ => ?_⟩
  refine hs3.settled hl fun l hl _ _ => ⟨?_, trivial⟩
  rw [hl.1.1]
  exact .groupDeleted hl.1.2.2 hl.2.2.1 hl.2.2.2

/-! ## Jobs -/

theorem notifying_keeps {p : Proc (Except Err α)}
    (hp : Triple env pid (fun _ => True) p fun _ _ => True) :
    Triple env pid (fun _ => True) (notifying p) fun _ _ => True := by
  refine .bind hp fun r => ?_
  cases r with
  | error => exact .done _
  | ok =>
    have hint : Triple env pid (fun _ => True) notifyJobChanged fun _ _ => True := by
      refine Triple.inTime .anything (.done _) ?_
      · exact .bind (Triple.perform rfl .anything) fun _ => .done _
    exact .bind hint fun _ => .done _

theorem stable_read (decisionAt : Option ℕ) :
    Stable env pid fun l => ∀ t ∈ decisionAt, .act pid .clock t ∈ l.world.log :=
  fun _ _ h hw t ht => hw.mem_log (h t ht)

theorem create_wp {decisionAt : Option ℕ} (hl : LockedGroup definition.executorGroupId l)
    (hread : ∀ t ∈ decisionAt, .act pid .clock t ∈ l.world.log)
    (hprogress : definition.status = .enabled → ∃ t next, decisionAt = some t ∧
      definition.nextTriggerAt = some next ∧ Schedule.next env definition.cronExpr t = .ok next) :
    (JobDefinitionRepository.create definition >>= fun id => pure (id, decisionAt)).wp (contract env)
      pid (fun r l => Settled (contract env) pid (.createJob r.1 r.2) l) (fun _ _ => True) l := by
  refine wp_insertRow ((stable_lockedGroup _).and (stable_read decisionAt)) ⟨hl, hread⟩
    (fun _ _ => gives_up) fun l id hl hn _ => ?_
  have hs : Stable env pid _ := ((stable_created .job id
    { definition with id, deletedAt := none }).and
      (stable_available definition.executorGroupId)).and (stable_read decisionAt)
  refine wp_pure hs ⟨⟨.of_add hl.1.1 hn,
    Set.mem_insert_of_mem _ (Set.mem_union_left _ hl.1.2.1), hl.1.2.2⟩, hl.2⟩ fun l hl _ _ => ?_
  refine hs.settled hl fun l hl _ _ => ⟨?_, guarded_of_pend hl.1.1.1 hl.1.2.1, hl.2⟩
  rw [hl.1.1.1]
  exact .jobCreated ⟨hl.1.1.2.2, rfl, rfl, hl.1.2.2, hprogress⟩

theorem createJobTx_body (definition : JobDefinition) (w : World) :
    Body env pid (fun r => .createJob r.1 r.2) (createJobTx env definition) w := by
  refine wp_lockAvailable rfl fun l hl => ?_
  split
  · generalize hnext : Schedule.next env definition.cronExpr = next
    refine wp_input (stable_lockedGroup _) hl rfl (fun _ _ => trivial) fun now l hl hclock => ?_
    split
    · exact gives_up
    · next due hdue =>
      refine create_wp hl ?_ fun _ => ⟨now, due, rfl, rfl, hnext ▸ hdue⟩
      rintro t ⟨⟩
      exact hclock
  · next hdisabled => exact create_wp hl (fun t ht => by cases ht) fun h => absurd h hdisabled

theorem createJob_keeps (config : JobInput) (status : Option Int) :
    Triple env pid (fun _ => True) (createJob env config status) fun _ _ => True := by
  unfold createJob
  split
  · exact .done _
  refine .bind (Triple.perform rfl .anything) fun now => ?_
  split
  · exact .done _
  refine .bind (notifying_keeps (transact_keeps fun w => createJobTx_body _ w)) fun r => ?_
  split <;> exact .done _

variable (id : ℕ)

theorem updateJob_keeps (config : JobInput) :
    Triple env pid (fun _ => True) (updateJob env id config) fun _ _ => True := by
  unfold updateJob
  split
  · exact .done _
  refine .bind (Triple.perform rfl .anything) fun now => ?_
  split
  · exact .done _
  next definition _ =>
  refine notifying_keeps (transact_keeps fun w => wp_lockAvailable rfl fun l hl => ?_)
  refine writeJob_wp (stable_lockedGroup _) hl fun l j hl hj hkept hd => ?_
  exact wroteJob_wp (stable_available definition.executorGroupId) (.of_write hl.1 hj)
    ⟨Set.mem_insert_of_mem _ hl.2.1, hl.2.2⟩ fun l hw hl =>
      ⟨.updated hkept (by simpa using hd) hl.2, guarded_of_pend hw.1 hl.1⟩

theorem enableJobTx_body (w : World) : Body env pid (.enableJob id) (enableJobTx env id) w := by
  refine wp_lockJob stable_noWrites rfl (fun _ _ _ => gives_up) (fun _ _ _ _ _ => gives_up)
    fun l j hl _ hj _ => ?_
  have hlocked : LockedJob id j (l.hold (jobRow id)) := .of_hold hl hj
  split
  · exact wp_pure stable_noWrites hlocked.1 fun _ hl _ _ =>
      settled_quiet hl rfl fun _ _ ht => by cases ht
  refine wp_query (stable_lockedJob id j) hlocked fun l hl _ _ => ?_
  split
  · exact gives_up
  split
  · exact gives_up
  generalize hnext : Schedule.next env j.cronExpr = next
  refine wp_input (stable_lockedJob id j) hl rfl (fun _ _ => trivial) fun now l hl hclock => ?_
  split
  · exact gives_up
  next due hdue =>
  refine Txn.Tx.wp_bind (writeJob_wp ((stable_lockedJob id j).and (stable_read (some now)))
    ⟨hl, fun t ht => by cases ht; exact hclock⟩ fun l j' hl hj hkept hd => Txn.Tx.wp_pure_bind ?_)
  obtain rfl : j = j' := by
    rw [row_of_view hl.1.1, hl.1.2.2] at hj
    exact Option.some.inj hj
  exact wroteJob_wp (stable_read (some now)) (.of_write hl.1.1 hj) hl.2 fun _ _ hread =>
    ⟨.enabled hkept (by simpa using hd) (hnext ▸ hdue), hread⟩

theorem disable_keeps :
    Triple env pid (fun _ => True) (JobDefinitionRepository.disable id) fun _ _ => True := by
  refine .bind (transact_keeps fun w => ?_) fun changed => ?_
  · refine wp_updateRow stable_noWrites rfl (fun l hl _ _ _ => ?_)
      fun l j j' hl _ _ hj hset => ?_
    · exact wp_pure stable_noWrites hl fun _ hl _ _ =>
        settled_quiet hl rfl fun _ => trivial
    · obtain ⟨hkept, rfl⟩ := updateWhere_eq_set.mp hset
      exact ⟨rfl, wroteJob_wp (.const True) (.of_write hl hj) trivial fun _ _ _ =>
        ⟨.disabled (by simpa using hkept), trivial⟩⟩
  · match changed with
    | .error _ => exact .done _
    | .ok true => exact .done _
    | .ok false =>
      refine .bind (Triple.read .anything (fun _ _ _ _ => trivial)
        fun _ => .anything) fun found => ?_
      match found with
      | .error _ => exact .done _
      | .ok none => exact .done _
      | .ok (some j) => exact .done _

theorem updateJobStatus_keeps (status : Option Int) :
    Triple env pid (fun _ => True) (updateJobStatus env id status) fun _ _ => True := by
  unfold updateJobStatus
  split
  · exact .done _
  · exact notifying_keeps (disable_keeps id)
  · refine .bind (notifying_keeps (transact_keeps fun w => enableJobTx_body id w)) fun r => ?_
    cases r with
    | error | ok => exact .done _

theorem deleteJobTx_body (w : World) :
    Body env pid (fun _ => .deleteJob id) (deleteJobTx id) w := by
  refine wp_lockJob stable_noWrites rfl (fun _ _ _ => gives_up) (fun _ _ _ _ _ => gives_up)
    fun l j hl _ hj _ => ?_
  have hlocked : LockedJob id j (l.hold (jobRow id)) := .of_hold hl hj
  split
  · exact gives_up
  refine wp_query (stable_lockedJob id j) hlocked fun l hl hwf _ => ?_
  split
  · exact gives_up
  next hactive =>
  have hs : Stable env pid _ := stable_noWrites.and (stable_noActive id)
  refine wp_input hs ⟨hl.1, hl.2.1, noActive_of_view hwf hl.1 (by simpa using hactive)⟩ rfl
    (fun _ _ => trivial) fun now l hl _ => ?_
  refine writeJob_wp hs hl fun l j hl hj hkept hd => ?_
  exact wroteJob_wp (stable_noActive id) (.of_write hl.1 hj) ⟨Set.mem_insert _ _, hl.2.2⟩
    fun l _ hl => ⟨.deleted hkept (by simpa using hd) hl.2, trivial⟩

theorem deleteJob_keeps : Triple env pid (fun _ => True) (deleteJob id) fun _ _ => True := by
  unfold deleteJob
  split
  · exact .done _
  · exact notifying_keeps (transact_keeps fun w => deleteJobTx_body id w)

theorem stopInstance_keeps :
    Triple env pid (Never pid Event.isReturn) (stopInstance id) fun _ _ => True := by
  unfold stopInstance
  split
  · exact .done _
  refine .bind (Controller.requestStop_keeps id false) fun r => ?_
  cases r with
  | error => exact .done _
  | ok =>
    dsimp only
    split
    · exact .bind (Triple.perform rfl .anything) fun _ => .done _
    · exact .done _

end Management

end Dogx.Job
