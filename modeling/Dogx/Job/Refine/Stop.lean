import Dogx.Job.Service
import Dogx.Job.Refine.Dispatch

/-!
# Stopping and completing within the contract

A stop decision is recorded on the round as it was locked. A batch closes unfinished tasks, in any row
order, or ends the round. A completion rests on a task that was final when it was read.
-/

namespace Dogx.Job

open Txn (Stable Settled Verdict Store Loc.start)
open Txn.Tx (wp_bind wp_mono wp_pure wp_query wp_updateRow)
open JobTaskRepository JobInstanceRepository

variable {env : Env} {pid id taskId : ℕ} {l : Loc} {i i' : JobInstance} {timeout : Bool}
  {reason : EndReason} {target : InstanceStatus} {b : TaskCancellation} {status : TaskStatus}
  {facts : InstanceCompletion} {summary : Option String}

theorem wp_lockForStop {α : Type} {Q : α → Loc → Prop} {nowait : Bool}
    {f : Option JobInstance → Tx α} (hl : l.pend = noWrites)
    (hnone : ∀ l, l.pend = noWrites → Achieves env pid (f none) Q l)
    (hsome : ∀ l i, LockedRound id i l → Achieves env pid (f (some i)) Q l) :
    Achieves env pid (lockForStop id nowait >>= f) Q l := by
  unfold lockForStop
  split
  · exact gives_up
  · exact Txn.Tx.wp_lockRow stable_noWrites hl (fun _ _ _ => gives_up)
      (fun l hl _ _ _ => hnone l hl) fun _ i hl _ _ hi => hsome _ i (.of_hold hl hi)

theorem wp_updateLocked {α : Type} {Q : α → Loc → Prop}
    {g : View → JobInstance → Verdict JobInstance} {f : Option JobInstance → Tx α}
    (hl : LockedRound id i l) (hkeys : ∀ v i', g v i = .set i' → i'.keys = i.keys)
    (hskip : ∀ l, LockedRound id i l → l.WF → g l.view i = .skip →
      Achieves env pid (f none) Q l)
    (hset : ∀ l i', LockedRound id i l → l.WF → g l.view i = .set i' →
      Achieves env pid (f (some i')) Q (l.write .instance id i')) :
    Achieves env pid (updateRow .instance id g >>= f) Q l := by
  refine wp_updateRow (stable_lockedRound id i) hl (fun l hl hwf _ h => ?_)
    fun l r r' hl hwf _ hr h => ?_
  · exact hskip l hl hwf (h i (by rw [row_of_view hl.1]; exact hl.2.2))
  · have hri : r = i := by
      rw [row_of_view hl.1, hl.2.2] at hr
      exact (Option.some.inj hr).symm
    subst hri
    exact ⟨hkeys _ r' h, hset l r' hl hwf h⟩

theorem LockedRound.wrote (hl : LockedRound id i l) :
    Wrote .instance id i i' (l.write .instance id i') :=
  .of_write hl.1 (by rw [row_of_view hl.1]; exact hl.2.2)

namespace Controller

/-! ## Decisions -/

theorem decideStop_wp (timeout : Bool) {now : ℕ} (hl : LockedRound id i l)
    (hact : i.status = .running ∨ (i.status = .waiting ∧ timeout = false)) :
    Settles env pid (.requestStop id timeout)
      (decideStop id i (stopReason timeout) (stopSummary timeout) now) l := by
  unfold decideStop recordStop
  split
  · exact gives_up
  refine wp_updateLocked hl (fun v i' h => ?_) (fun l _ _ h => ?_) fun l i' hl _ h => ?_
  · obtain ⟨_, rfl⟩ := updateWhere_eq_set.mp h; rfl
  · exact gives_up
  obtain ⟨_, rfl⟩ := updateWhere_eq_set.mp h
  have s1 : Stable env pid _ :=
    stable_wrote .instance id i (stopSet (stopReason timeout) (stopSummary timeout) i)
  refine wp_pure s1 hl.wrote fun l hl _ _ => ?_
  refine s1.settled hl fun l hl _ _ => ⟨?_, trivial⟩
  obtain ⟨hp, _, hrow⟩ := hl
  rw [hp]
  exact .round hrow (.stopped hact)

theorem observed_wp (hl : l.pend = noWrites) :
    Settles env pid (.requestStop id timeout) (pure (observedDecision i) : Tx Decision) l :=
  wp_pure stable_noWrites hl fun _ hl _ _ => settled_quiet hl rfl fun _ => trivial

/-- The writes of a stop decision make up its effect. -/
theorem stopActive_wp (hl : LockedRound id i l)
    (hact : i.status = .running ∨ (i.status = .waiting ∧ timeout = false)) :
    Settles env pid (.requestStop id timeout) (stopActive id timeout i) l := by
  refine wp_query (stable_lockedRound id i) hl fun l hl _ _ => ?_
  split
  · exact gives_up
  split
  · exact gives_up
  cases timeout with
  | false => exact decideStop_wp false hl hact
  | true =>
    split
    · split
      · exact gives_up
      · split
        · exact observed_wp hl.1
        · exact decideStop_wp true hl hact
    · next h => exact absurd rfl h

theorem requestStopTx_body (id : ℕ) (timeout : Bool) (w : World) :
    Body env pid (.requestStop id timeout) (requestStopTx id timeout) w := by
  refine wp_lockForStop rfl (fun l hl => gives_up) fun l i hl => ?_
  dsimp only
  split
  · exact gives_up
  split
  · exact observed_wp hl.1
  · exact observed_wp hl.1
  · exact observed_wp hl.1
  · exact observed_wp hl.1
  · next hw =>
    split
    · exact observed_wp hl.1
    · next ht => exact stopActive_wp hl (Or.inr ⟨hw, by simpa using ht⟩)
  · next hr => exact stopActive_wp hl (Or.inl hr)

def Decided (pid id : ℕ) (timeout : Bool) (r : Except Err Decision) (w : World) : Prop :=
  ∀ d, r = .ok d → Committed pid (.requestStop id timeout d) w

/-- `RequestStop` keeps the contract. -/
theorem requestStop_keeps (id : ℕ) (timeout : Bool) :
    Triple env pid (Never pid Event.isReturn) (requestStop id timeout) fun _ _ => True := by
  have hret : Fact env pid (Never pid Event.isReturn) := Fact.unreturned
  have nothing : ∀ e : Err, Triple env pid (Never pid Event.isReturn) (pure (.error e))
      fun r w => Never pid Event.isReturn w ∧ Decided pid id timeout r w := fun e =>
    .pure hret.steady fun w hw => ⟨hw, fun d hd => by cases hd⟩
  refine Txn.Proc.Triple.mono (Triple.returning (P := Decided pid id timeout) ?_ ?_ ?_ ?_)
    (fun _ h => h) fun _ _ _ => trivial
  · split
    · exact nothing _
    refine Triple.inTime hret (nothing _) ?_
    exact Txn.Proc.Triple.mono (Triple.transact hret (fun _ => always)
      (fun w _ _ _ => requestStopTx_body id timeout w) fun _ _ _ _ => trivial) (fun _ h => h)
      fun r w h => ⟨h.1, fun d hd => (h.2 d hd).1⟩
  · exact fun r w w' hw h d hd => (Committed.fact _).steady w w' hw (h d hd)
  · exact fun r w h d hd => (h d hd).record
  · intro r w h
    cases r with
    | error => trivial
    | ok d =>
      intro _
      obtain ⟨before, writes, hmem⟩ := h d rfl
      exact ⟨timeout, before, writes, hmem⟩

/-! ## Batches -/

theorem noUnfinished_of_view (hwf : l.WF) (hp : l.pend = noWrites)
    (h : hasUnfinished l.view id = false) : NoUnfinished l.world.db id := by
  intro taskId t ht hid
  have hmem : t ∈ Txn.View.all l.view .task :=
    Txn.View.mem_all.mpr ⟨taskId, (hwf.bounded .task taskId t ht).2, by rw [row_of_view hp]; exact ht⟩
  simp only [hasUnfinished, List.any_eq_false, Bool.and_eq_true, decide_eq_true_eq, not_and,
    Bool.not_eq_true] at h
  exact h t hmem hid

theorem set_of_finishUpdate {v : View} (h : finishUpdate reason v i = .set i') :
    i.status = .stopping ∧ i.endReason = some reason ∧
      hasUnfinished v i.id = false ∧ i' = finishSet reason v.now i := by
  unfold finishUpdate at h
  split at h
  · next hw =>
    cases h
    simp only [Bool.and_eq_true, decide_eq_true_eq, Bool.not_eq_true'] at hw
    exact ⟨hw.1.1, hw.1.2, hw.2, rfl⟩
  · cases h

theorem finishRound_wp (hl : LockedRound id i l) (hid : i.id = id) :
    Settles env pid (.processBatch id) (finishRound id i reason target) l := by
  unfold finishRound finishStop
  split
  · exact gives_up
  refine wp_updateLocked hl (fun v i' h => ?_) (fun l hl _ _ => ?_) fun l i' hl hwf h => ?_
  · obtain ⟨_, _, _, rfl⟩ := set_of_finishUpdate h; rfl
  · exact wp_pure stable_noWrites hl.1 fun _ hl _ _ =>
      settled_quiet hl rfl fun _ => trivial
  obtain ⟨hstop, hreason, hno, rfl⟩ := set_of_finishUpdate h
  rw [hid] at hno
  have s1 : Stable env pid _ :=
    (stable_wrote .instance id i (finishSet reason l.view.now i)).and (stable_noUnfinished id)
  have hnone : NoUnfinished l.world.db id := noUnfinished_of_view hwf hl.1 hno
  refine wp_pure s1 ⟨hl.wrote, Set.mem_insert _ _, hnone⟩ fun l hl _ _ => ?_
  refine s1.settled hl fun l hl _ _ => ⟨?_, trivial⟩
  obtain ⟨⟨hp, _, hrow⟩, _, hnone⟩ := hl
  rw [hp]
  exact .round hrow (.finished hstop hreason hnone)

structure Canceling (b : TaskCancellation) (i : JobInstance) (l : Loc) : Prop where
  round : instanceRow b.instanceId ∈ l.held ∧ l.world.db .instance b.instanceId = some i
  tasks : ∀ taskId t', l.pend .task taskId = some t' → taskRow taskId ∈ l.held ∧
    ∃ t, l.world.db .task taskId = some t ∧ cancelWhere b t = true ∧ t' = cancelSet b t
  only : ∀ table rowId, table ≠ .task → l.pend table rowId = none

theorem stable_canceling (b : TaskCancellation) (i : JobInstance) :
    Stable env pid (Canceling b i) := by
  intro l w h hw
  refine ⟨stable_row .instance b.instanceId (some i) l w h.round hw, fun taskId t' ht => ?_, h.only⟩
  obtain ⟨hheld, t, hrow, hrest⟩ := h.tasks taskId t' ht
  obtain ⟨_, hrow'⟩ := stable_row .task taskId (some t) l w ⟨hheld, hrow⟩ hw
  exact ⟨hheld, t, hrow', hrest⟩

theorem Canceling.row (h : Canceling b i l) {t : JobTask} (ht : l.view.rows .task taskId = some t)
    (hw : cancelWhere b t = true) : l.world.db .task taskId = some t := by
  rcases Store.apply_eq_some ht with hp | ⟨_, ht⟩
  · obtain ⟨_, _, _, _, rfl⟩ := h.tasks taskId t hp
    simp [cancelWhere, cancelSet, TaskStatus.unfinished] at hw
  · exact ht

theorem Canceling.write (h : Canceling b i l) {t : JobTask} (ht : l.world.db .task taskId = some t)
    (hw : cancelWhere b t = true) : Canceling b i (l.write .task taskId (cancelSet b t)) where
  round := ⟨Set.mem_insert_of_mem _ h.round.1, h.round.2⟩
  tasks := fun id t' hp => by
    simp only [Txn.Loc.write, Store.set_same] at hp
    split at hp
    · next hid =>
      cases hp
      subst hid
      exact ⟨Set.mem_insert _ _, t, ht, hw, rfl⟩
    · obtain ⟨hheld, hrest⟩ := h.tasks id t' hp
      exact ⟨Set.mem_insert_of_mem _ hheld, hrest⟩
  only := fun table rowId hne => by
    simp only [Txn.Loc.write, Store.set_table_ne _ _ hne]
    exact h.only table rowId hne

theorem cancelRows_wp (b : TaskCancellation) (i : JobInstance) (ids : List ℕ) (hl : Canceling b i l) :
    Achieves env pid (cancelRows b ids) (fun _ l => Canceling b i l) l := by
  have hs : Stable env pid (Canceling b i) := stable_canceling b i
  induction ids generalizing l with
  | nil => exact wp_pure hs hl fun _ hl _ _ => hl
  | cons _ ids ih =>
    have rest : ∀ (changed : Option JobTask) l, Canceling b i l →
        (cancelRows b ids >>= fun more => pure (more + if changed.isSome then 1 else 0)).wp
          (contract env) pid (fun _ l => Canceling b i l) (fun _ _ => True) l := fun _ l hl =>
      wp_bind (wp_mono (fun _ l hl => wp_pure hs hl fun _ hl _ _ => hl)
        (fun _ _ h => h) (ih hl))
    refine wp_updateRow hs hl (fun l hl _ _ _ => rest none l hl)
      fun l t t' hl _ _ ht hset => ?_
    obtain ⟨hw, rfl⟩ := updateWhere_eq_set.mp hset
    exact ⟨rfl, rest _ _ (hl.write (hl.row ht hw) hw)⟩

/-- The writes of a batch make up its effect, in any order of rows. -/
theorem cancelBatch_wp (order : RowOrder) {summary : String} {ids : List ℕ}
    (hl : LockedRound id i l) (hstop : i.status = .stopping) (hreason : i.endReason = some reason) :
    Settles env pid (.processBatch id) (cancelBatch order id i reason summary ids) l := by
  refine wp_query (stable_lockedRound id i) hl fun l hl _ _ => ?_
  split
  · exact gives_up
  generalize databaseTime l.view = now
  unfold cancelUnfinished
  split
  · exact gives_up
  split
  · exact gives_up
  have hs : Stable env pid _ :=
    stable_canceling { instanceId := id, taskIds := ids, reason, summary, processedAt := now } i
  have hstart : Canceling { instanceId := id, taskIds := ids, reason, summary, processedAt := now }
      i l := by
    obtain ⟨hp, hround⟩ := hl
    exact ⟨hround, fun _ _ h => by simp [hp] at h, fun _ _ _ => by simp [hp]⟩
  refine wp_bind (wp_mono (fun canceled l hl => ?_) (fun _ _ h => h)
    (cancelRows_wp _ i _ hstart))
  split
  · exact gives_up
  refine wp_pure hs hl fun l hl _ _ => ?_
  refine hs.settled hl fun l hl _ _ => ⟨.canceled (fun taskId t' hp => ?_) hl.only, trivial⟩
  obtain ⟨_, t, hrow, hw, rfl⟩ := hl.tasks taskId t' hp
  exact ⟨t, hrow, .canceled hl.round.2 hstop hreason hw⟩

theorem processStopping_wp (order : RowOrder) {batchSize : ℕ} (hl : LockedRound id i l)
    (hid : i.id = id) (hstop : i.status = .stopping) :
    Settles env pid (.processBatch id) (processStopping order batchSize id i) l := by
  unfold processStopping
  split
  · next reason target summary hreason _ =>
    split
    · exact gives_up
    refine wp_query (stable_lockedRound id i) hl fun l hl _ _ => ?_
    split
    · exact gives_up
    split
    · exact finishRound_wp hl hid
    · exact cancelBatch_wp order hl hstop hreason
  · exact gives_up

theorem processBatchTx_body (order : RowOrder) (batchSize id : ℕ) (w : World) :
    Body env pid (.processBatch id) (processBatchTx order batchSize id) w := by
  have nothing : ∀ (l : Loc) (r : Option BatchResult), l.pend = noWrites →
      (Op.processBatch id r).quiet = true → (pure r : Tx (Option BatchResult)).wp (contract env)
        pid (fun r l => Settled (contract env) pid (.processBatch id r) l) (fun _ _ => True) l :=
    fun l r hl hq =>
      wp_pure stable_noWrites hl fun _ hl _ _ => settled_quiet hl hq fun _ => trivial
  refine wp_lockForStop rfl (fun l hl => nothing l none hl rfl) fun l i hl => ?_
  dsimp only
  split
  · exact gives_up
  next hid =>
  split
  · exact nothing l _ hl.1 rfl
  · exact nothing l _ hl.1 rfl
  · exact nothing l _ hl.1 rfl
  · exact nothing l _ hl.1 rfl
  · exact nothing l _ hl.1 rfl
  · next hstop => exact processStopping_wp order hl (Decidable.not_not.mp hid) hstop

theorem processBatch_keeps (order : RowOrder) (batchSize id : ℕ) :
    Triple env pid (fun _ => True) (processBatch order batchSize id) fun _ _ => True := by
  unfold processBatch
  split
  · exact .done _
  refine Triple.inTime .anything (.done _) ?_
  exact Txn.Proc.Triple.mono (Triple.transact .anything (fun _ => always)
    (fun w _ _ _ => processBatchTx_body order batchSize id w) fun _ _ _ _ => trivial) (fun _ h => h)
    fun _ _ _ => trivial

end Controller

namespace Checker

/-! ## Completion -/

def Ended (id : ℕ) (status : TaskStatus) (db : Db) : Prop :=
  status.unfinished = false ∧ ∃ taskId t, db .task taskId = some t ∧ t.instanceId = id ∧
    t.taskType = .ordinary ∧ t.status = status

theorem Ended.follows (db db' : Db) (hf : Db.Follows db db') (h : Ended id status db) :
    Ended id status db' := by
  obtain ⟨hfin, taskId, t, ht, hrest⟩ := h
  obtain ⟨t', ht', hft⟩ := hf.task taskId t ht
  have heq : t' = t := hft.final (hrest.2.2 ▸ hfin)
  exact ⟨hfin, taskId, t, heq ▸ ht', hrest⟩

def Seen (facts : InstanceCompletion) (db : Db) : Prop :=
  ∀ status, facts.taskStatus = some status → status.unfinished = false → Ended facts.id status db

theorem Seen.follows (db db' : Db) (hf : Db.Follows db db') (h : Seen facts db) : Seen facts db' :=
  fun status hs hfin => Ended.follows db db' hf (h status hs hfin)

theorem seen_of_find {w : World} (h : findCompletion id w.view = some facts) : Seen facts w.db := by
  intro status hs hfin
  simp only [findCompletion, Option.bind_eq_bind, Option.bind_eq_some_iff, Option.pure_def,
    Option.some.injEq] at h
  obtain ⟨i, _, rfl⟩ := h
  simp only [Option.map_eq_some_iff] at hs
  obtain ⟨t, ht, rfl⟩ := hs
  have hp := List.find?_some ht
  simp only [Bool.and_eq_true, decide_eq_true_eq] at hp
  have hmem : t ∈ Txn.View.all w.view .task := List.mem_of_find?_eq_some ht
  obtain ⟨taskId, _, hrow⟩ := (Txn.View.mem_all).mp hmem
  exact ⟨hfin, taskId, t, hrow, hp.1, hp.2, rfl⟩

section

variable (hts : (target = .succeeded ∧ status = .succeeded) ∨ (target = .failed ∧ status = .failed))
include hts

theorem complete_body {w : World} (hw : Ended id status w.db) :
    Body env pid (.complete id target summary) (updateRow .instance id
      (updateWhere completeWhere (completeSet target summary)) >>= fun changed =>
        pure changed.isSome) w := by
  have hend : Stable env pid fun l => Ended id status l.world.db :=
    stable_db Ended.follows
  have s0 := stable_noWrites.and hend
  refine wp_updateRow s0 ⟨rfl, hw⟩ (fun l hl _ _ _ => ?_) fun l i i' hl _ _ hi hset => ?_
  · exact wp_pure s0 hl fun l hl _ _ => settled_quiet hl.1 rfl fun _ => trivial
  obtain ⟨hrun, rfl⟩ := updateWhere_eq_set.mp hset
  have s1 := (stable_wrote .instance id i (completeSet target summary l.view.now i)).and hend
  refine ⟨rfl, wp_pure s1 ⟨.of_write hl.1 hi, hl.2⟩ fun l hl _ _ => ?_⟩
  refine s1.settled hl fun l hl _ _ => ⟨?_, trivial⟩
  obtain ⟨⟨hp, _, hrow⟩, _, _, t, ht, hchild, hord, hst⟩ := hl
  rw [hp]
  refine .round hrow (.completed hrun ht hchild hord ?_)
  rw [hst]
  exact hts

theorem completeRound_keeps :
    Triple env pid (fun w => Ended id status w.db) (completeRound id target summary)
      fun _ _ => True := by
  have tx : Triple env pid (fun w => Ended id status w.db) (complete id target summary)
      fun _ _ => True := by
    unfold complete
    split
    · exact .done _
    exact Txn.Proc.Triple.mono (Triple.transact (Fact.db Ended.follows)
      (fun _ => always) (fun w hw _ _ => complete_body hts hw) fun _ _ _ _ => trivial)
      (fun _ h => h) fun _ _ _ => trivial
  refine .bind tx fun r => ?_
  match r with
  | .error _ => exact .done _
  | .ok false => exact .done _
  | .ok true => exact .done _

end

variable (stopping : Bool)

theorem resumeStopping_keeps (id : ℕ) :
    Triple env pid (fun _ => True) (resumeStopping stopping id) fun _ _ => True := by
  unfold resumeStopping
  split
  · exact Triple.perform rfl .anything
  · exact .done _

theorem handleDecision_keeps (id : ℕ) (d : Decision) :
    Triple env pid (fun _ => True) (handleDecision stopping id d) fun _ _ => True := by
  unfold handleDecision
  split
  · exact .done _
  split
  · split
    · exact .bind (Triple.perform rfl .anything) fun _ => .done _
    · exact .bind (resumeStopping_keeps stopping id) fun _ => .done _
  · exact .done _
  · exact .done _
  · exact .done _
  · exact .done _
  · exact .done _

theorem notReady_keeps (facts : InstanceCompletion) :
    Triple env pid (Never pid Event.isReturn) (notReady stopping facts) fun _ _ => True := by
  have hret : Fact env pid (Never pid Event.isReturn) := Fact.unreturned
  unfold notReady
  split
  · exact .done _
  split
  · exact .done _
  split
  · exact .done _
  refine Triple.inTime hret (.done _) ?_
  refine .bind (Triple.read hret (fun _ _ _ _ => trivial)
    fun _ => .anything) fun r => ?_
  cases r with
  | error => exact .done _
  | ok =>
    refine (Txn.Proc.Triple.bind (Triple.perform rfl hret) fun late => ?_).mono (fun _ h => h.1)
      fun _ _ h => h
    split
    · exact .done _
    split
    · exact .done _
    split
    · exact .done _
    refine .bind (Controller.requestStop_keeps facts.id true) fun r => ?_
    cases r with
    | error => exact .done _
    | ok d => exact handleDecision_keeps stopping facts.id d

theorem checkRunning_keeps (facts : InstanceCompletion) :
    Triple env pid (fun w => Never pid Event.isReturn w ∧ Seen facts w.db)
      (checkRunning stopping facts.id facts) fun _ _ => True := by
  have unready : Triple env pid (fun w => Never pid Event.isReturn w ∧ Seen facts w.db)
      (notReady stopping facts) fun _ _ => True :=
    (notReady_keeps stopping facts).mono (fun _ h => h.1) fun _ _ h => h
  unfold checkRunning
  dsimp only
  split
  · exact .done _
  split
  · exact .done _
  split
  · exact .done _
  split
  · exact unready
  · exact .done _
  next taskId status _ hstatus =>
  split
  · exact .done _
  split
  · exact unready
  · exact unready
  · exact unready
  · exact unready
  · exact (completeRound_keeps (Or.inl ⟨rfl, rfl⟩)).mono (fun w h => h.2 _ hstatus rfl)
      fun _ _ h => h
  · exact (completeRound_keeps (Or.inr ⟨rfl, rfl⟩)).mono (fun w h => h.2 _ hstatus rfl)
      fun _ _ h => h

/-- `Check` keeps the contract. -/
theorem check_keeps (id : ℕ) :
    Triple env pid (Never pid Event.isReturn) (check stopping id) fun _ _ => True := by
  have hret : Fact env pid (Never pid Event.isReturn) := Fact.unreturned
  unfold check
  split
  · exact .done _
  refine Triple.inTime hret (.done _) ?_
  refine .bind (Triple.read (Q := fun found w => ∀ facts, found = some facts → Seen facts w.db)
    hret (fun w _ _ _ facts hf => seen_of_find hf)
    fun found w w' hw h facts hf => Seen.follows _ _ (rely_follows hw) (h facts hf)) fun r => ?_
  match r with
  | .error _ => exact .done _
  | .ok none => exact .done _
  | .ok (some facts) =>
    dsimp only
    split
    · exact .done _
    next hid =>
    split
    · exact .done _
    · exact .done _
    · exact .done _
    · exact .done _
    · exact .forget (.bind (resumeStopping_keeps stopping id) fun _ => .done _)
    · rw [← Decidable.not_not.mp hid]
      exact (checkRunning_keeps stopping facts).mono (fun w h => ⟨h.1, h.2 _ rfl facts rfl⟩)
        fun _ _ h => h

end Checker

end Dogx.Job
