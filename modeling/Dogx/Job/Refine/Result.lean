import Dogx.Job.Refine.Dispatch

/-!
# Results and settlements within the contract

The saver decides from a read without a lock. `Observed` is what is left of such a read later on:
as long as the row still shows the attempt that was read, and shows it running, its counter is the
one that was read, so the decision is still right where the write takes effect.
-/

namespace Dogx.Job

open Txn (Stable Settled Verdict Store Loc.start)
open JobTaskRepository

variable {env : Env} {pid taskId : ℕ} {target : TaskResultTarget} {report : Report}
  {identity : Uuid} {b : TaskResultWrite}

namespace Saver

def Observed (taskId : ℕ) (target : TaskResultTarget) (db : Db) : Prop :=
  Policy target.instanceId target.executionConfig.maxRetries db ∧
    ∃ t, db .task taskId = some t ∧ t.instanceId = target.instanceId ∧
      target.attemptNo ≤ t.attemptNo ∧
      (t.status = .running → t.attemptNo = target.attemptNo → t.usedAttempts = target.usedAttempts)

theorem Observed.follows (db db' : Db) (hf : Db.Follows db db') (h : Observed taskId target db) :
    Observed taskId target db' := by
  obtain ⟨hp, t, ht, hi, ha, hu⟩ := h
  obtain ⟨t', ht', hft⟩ := hf.task taskId t ht
  refine ⟨Policy.follows db db' hf hp, t', ht', hft.instanceId.trans hi,
    Int.le_trans ha hft.attempt, fun hr heq => ?_⟩
  have hsame : t'.attemptNo = t.attemptNo := by have := hft.attempt; omega
  obtain ⟨hr0, hused⟩ := hft.running hr hsame
  rw [hused]
  exact hu hr0 (hsame ▸ heq)

theorem observed_of_find {w : World} (h : findResultTarget taskId w.view = some target) :
    Observed taskId target w.db := by
  simp only [findResultTarget, Option.bind_eq_bind, Option.bind_eq_some_iff, Option.pure_def,
    Option.some.injEq] at h
  obtain ⟨t, ht, i, hi, rfl⟩ := h
  exact ⟨⟨i, hi, rfl⟩, t, ht, rfl, Int.le_refl _, fun _ _ => rfl⟩

theorem resultWrite_eq (h : resultWrite target report identity = .ok b) :
    b.taskId = report.taskId ∧ b.instanceId = report.instanceId ∧ b.attemptNo = report.attemptNo ∧
      (b.status = .retryWaiting → target.usedAttempts < target.executionConfig.maxRetries + 1) ∧
      (b.status = .failed → ¬ target.usedAttempts < target.executionConfig.maxRetries + 1) := by
  unfold resultWrite at h
  dsimp only at h
  split at h
  · cases h
  split at h
  · cases h; simp
  split at h
  · cases h
  split at h
  · cases h
  split at h
  · next hlt => cases h; simp [hlt]
  · next hge => cases h; simp only [reduceCtorEq, false_implies, true_and, forall_const]; exact hge

theorem set_of_resultUpdate {v : View} {t t' : JobTask} (h : resultUpdate env b v t = .set t') :
    resultWhere b t = true ∧ t' = resultSet b v.now t := by
  unfold resultUpdate at h
  split at h
  · next hw =>
    split at h
    · cases h
    · cases h; exact ⟨hw, rfl⟩
  · cases h

theorem saveResult_keeps (hb : resultWrite target report identity = .ok b)
    (hi : report.instanceId = target.instanceId) (ha : report.attemptNo = target.attemptNo) :
    Triple env pid (fun w => Observed report.taskId target w.db) (saveResult env b)
      fun _ _ => True := by
  obtain ⟨htask, hinst, hatt, hretry, hfail⟩ := resultWrite_eq hb
  unfold saveResult
  split
  · exact .done _
  next hvalid =>
  refine Txn.Proc.Triple.mono (writeTask_keeps Observed.follows rfl (fun _ _ => trivial) ?_)
    (fun _ h => h) fun _ _ _ => trivial
  intro v t t' h
  obtain ⟨hwhere, rfl⟩ := set_of_resultUpdate h
  refine ⟨rfl, fun w hrow hobs => ?_⟩
  obtain ⟨⟨i, hround, hpolicy⟩, _, ht0, _, _, hused⟩ := hobs
  rw [htask] at hrow
  cases ht0.symm.trans hrow
  have hw := hwhere
  simp only [resultWhere, Bool.and_eq_true, decide_eq_true_eq] at hw
  have hu := hused hw.1.2 (by rw [hw.1.1.2, hatt, ha])
  have hstatus : b.status = .succeeded ∨ b.status = .retryWaiting ∨ b.status = .failed := by
    cases hs : b.status <;> simp_all
  refine .saved hwhere hstatus (by rw [hinst, hi]; exact hround) ⟨fun hs => ?_, fun hs => ?_⟩
  · rw [hu, hpolicy]; exact hretry hs
  · rw [hu, hpolicy]; exact hfail hs

theorem finished_keeps (id : ℕ) (applied : Bool) (reason : String) :
    Triple env pid (fun _ => True) (finished id applied reason) fun _ _ => True :=
  .bind (Triple.perform rfl .anything) fun _ => .done _

theorem saveDecided_keeps (hb : resultWrite target report identity = .ok b)
    (hi : report.instanceId = target.instanceId) (ha : report.attemptNo = target.attemptNo) :
    Triple env pid (fun w => Observed report.taskId target w.db) (saveDecided env target report b)
      fun _ _ => True := by
  refine .bind (saveResult_keeps hb hi ha) fun r => ?_
  match r with
  | .ok false | .ok true => exact finished_keeps _ _ _
  | .error e =>
    refine .bind (Triple.perform rfl .anything) fun late => ?_
    split
    · split
      · refine .bind (Triple.read .anything (fun _ _ _ _ => trivial)
          fun _ => .anything) fun r => ?_
        split <;> exact .done _
      · exact .done _
    · exact .done _

theorem saveTarget_keeps (report : Report) (identity : Uuid) (target : TaskResultTarget) :
    Triple env pid (fun w => Observed report.taskId target w.db)
      (saveTarget env report identity target) fun _ _ => True := by
  unfold saveTarget
  split
  · exact .done _
  next hown =>
  split
  · exact .forget (finished_keeps _ _ _)
  next hatt =>
  split
  · exact .forget (finished_keeps _ _ _)
  split
  · exact .forget (finished_keeps _ _ _)
  split
  · exact .done _
  split
  · exact .done _
  split
  · exact .done _
  next b hb =>
  have hi : report.instanceId = target.instanceId := by
    simp only [not_or, Decidable.not_not] at hown
    exact hown.2.1.symm
  exact saveDecided_keeps hb hi (Decidable.not_not.mp hatt).symm

/-- `Save` keeps the contract. -/
theorem save_keeps (report : Report) :
    Triple env pid (fun _ => True) (save env report) fun _ _ => True := by
  refine Triple.inTime .anything (.done _) ?_
  split
  · exact .done _
  next identity _ =>
  split
  · exact .done _
  refine .bind (Triple.read (Q := fun found w => ∀ target, found = some target →
    Observed report.taskId target w.db) .anything
    (fun w _ _ _ target h => observed_of_find h) fun found w w' hw h target hfound =>
      Observed.follows _ _ (rely_follows hw) (h target hfound)) fun r => ?_
  match r with
  | .error _ => exact .done _
  | .ok none => exact .done _
  | .ok (some target) =>
    exact (saveTarget_keeps report identity target).mono (fun w h => h.2 _ rfl target rfl)
      fun _ _ h => h

end Saver

namespace Settler

theorem settleOrdinaryUnknown_keeps {b : UnknownSettlement} {R : World → Prop}
    (hR : Fact env pid R)
    (hp : ∀ w, R w → Policy b.instanceId (b.maxAttempts - 1) w.db) :
    Triple env pid R (settleOrdinaryUnknown b) fun _ w => R w := by
  unfold settleOrdinaryUnknown
  split
  · exact .pure hR.steady fun _ h => h
  refine Txn.Proc.Triple.mono (Triple.transact hR (fun _ => always)
    (fun w hw _ _ => ?_) fun _ _ _ _ => trivial) (fun _ h => h) fun _ _ h => h.1
  have hpolicy : Stable env pid fun l =>
      Policy b.instanceId (b.maxAttempts - 1) l.world.db := stable_db Policy.follows
  have s0 := stable_noWrites.and hpolicy
  refine Txn.Tx.wp_updateRow s0 ⟨rfl, hp w hw⟩ (fun l hl _ _ _ => ?_)
    fun l t t' hl _ _ ht hset => ?_
  · exact Txn.Tx.wp_pure s0 hl fun l hl _ _ => settled_quiet hl.1 rfl fun _ => trivial
  obtain ⟨hwhere, rfl⟩ := updateWhere_eq_set.mp hset
  refine ⟨rfl, ?_⟩
  dsimp only
  split
  · exact gives_up
  have s1 := (stable_wrote .task b.taskId t (settleSet b t)).and hpolicy
  refine Txn.Tx.wp_pure s1 ⟨.of_write hl.1 ht, hl.2⟩ fun l hl _ _ => ?_
  refine s1.settled hl fun l hl _ _ => ⟨?_, trivial⟩
  obtain ⟨⟨hpend, _, hrow⟩, i, hi, _⟩ := hl
  rw [hpend]
  exact .task hrow (.settled hwhere hi (by omega))

def For (target : UnboundTarget) (r : Except Err (Option UnknownSettlement)) : Prop :=
  ∀ b, r = .ok (some b) → b.instanceId = target.instanceId ∧
    b.maxAttempts = target.executionConfig.maxRetries + 1

theorem budget_of_frozen {c : ExecutionConfig} {n interval : Int}
    (h : frozenBudget c = .ok (some (n, interval))) : n = c.maxRetries + 1 := by
  unfold frozenBudget at h
  split at h
  · cases h
  split at h
  · cases h
  split at h
  · cases h
  · cases h; rfl

variable {R : World → Prop}

theorem prepareRunning_keeps (hR : Fact env pid R) {c : UnboundCandidate} {target : UnboundTarget}
    (hi : target.instanceId = c.instanceId) (processedAt cutoff : ℕ) :
    Triple env pid R (prepareRunning c target processedAt cutoff)
      fun r w => R w ∧ For target r := by
  have nothing : ∀ r : Except Err (Option UnknownSettlement), (∀ b, r ≠ .ok (some b)) →
      Triple env pid R (pure r) fun r w => R w ∧ For target r := fun r hr =>
    .pure hR.steady fun _ hw => ⟨hw, fun b hb => absurd hb (hr b)⟩
  unfold prepareRunning
  split
  next startedAt deadlineAt _ _ =>
    split
    · exact nothing _ (by simp)
    split
    · exact .bind (Triple.perform rfl hR) fun _ => nothing _ (by simp)
    split
    · exact nothing _ (by simp)
    · exact nothing _ (by simp)
    next n interval hbudget =>
    refine .pure hR.steady fun _ hw => ⟨hw, fun b hb => ?_⟩
    cases hb
    exact ⟨hi.symm, budget_of_frozen hbudget⟩
  · exact nothing _ (by simp)

theorem prepare_keeps (hR : Fact env pid R) (period : ℕ) (c : UnboundCandidate)
    (target : UnboundTarget) (processedAt : ℕ) :
    Triple env pid R (prepare period c target processedAt) fun r w => R w ∧ For target r := by
  have nothing : Triple env pid R (pure (.ok none)) fun r w => R w ∧ For target r :=
    .pure hR.steady fun _ hw => ⟨hw, fun b hb => by cases hb⟩
  unfold prepare
  dsimp only
  split
  · exact nothing
  next hids =>
  split
  · exact nothing
  split
  · exact nothing
  split
  · exact nothing
  split
  · exact nothing
  split
  · exact nothing
  split
  · exact nothing
  split
  · exact nothing
  · exact nothing
  · exact nothing
  · exact .bind (Triple.perform rfl hR) fun _ => nothing
  · exact nothing
  · exact prepareRunning_keeps hR (Decidable.not_not.mp fun h => hids (Or.inl h)) _ _

theorem settleOne_keeps (hR : Fact env pid R) (c : UnboundCandidate) {b : UnknownSettlement}
    (hp : ∀ w, R w → Policy b.instanceId (b.maxAttempts - 1) w.db) :
    Triple env pid R (settleOne c b) fun _ w => R w := by
  refine .bind (settleOrdinaryUnknown_keeps hR hp) fun settled => ?_
  refine .bind (Triple.perform rfl hR) fun late => ?_
  match settled with
  | .error _ | .ok none => exact .pure hR.steady fun _ h => h
  | .ok (some t) =>
    dsimp only
    split
    · exact .pure hR.steady fun _ h => h
    · exact .bind (Triple.perform rfl hR) fun _ => .pure hR.steady fun _ h => h

def Read (targets : List UnboundTarget) (db : Db) : Prop :=
  ∀ target ∈ targets, Policy target.instanceId target.executionConfig.maxRetries db

theorem Read.follows {targets : List UnboundTarget} (db db' : Db) (hf : Db.Follows db db')
    (h : Read targets db) : Read targets db' :=
  fun target ht => Policy.follows db db' hf (h target ht)

theorem read_of_find {ids : List ℕ} {w : World} : Read (findUnboundTargets ids w.view) w.db := by
  intro target ht
  simp only [findUnboundTargets, List.mem_filterMap] at ht
  obtain ⟨t, _, ht⟩ := ht
  split at ht
  · simp only [Option.bind_eq_bind, Option.bind_eq_some_iff, Option.pure_def,
      Option.some.injEq] at ht
    obtain ⟨i, hi, rfl⟩ := ht
    exact ⟨i, hi, rfl⟩
  · cases ht

theorem settleEach_keeps (period : ℕ) (targets : List UnboundTarget) (processedAt : ℕ)
    (cs : List UnboundCandidate) (result : SettleResult) :
    Triple env pid (fun w => Read targets w.db)
      (settleEach period targets processedAt cs result) fun _ _ => True := by
  have hR : Fact env pid fun w => Read targets w.db := Fact.db Read.follows
  induction cs generalizing result with
  | nil => exact .done _
  | cons c _ ih =>
    refine Triple.inTime hR (.done _) ?_
    split
    · exact ih _
    next target hfind =>
    have hmem : target ∈ targets := List.mem_of_find?_eq_some hfind
    refine .bind (prepare_keeps hR period c target processedAt) fun prepared => ?_
    match prepared with
    | .error _ => exact .done _
    | .ok none => exact (ih _).mono (fun _ h => h.1) fun _ _ h => h
    | .ok (some b) =>
      have hR' : Fact env pid fun w => Read targets w.db ∧ For target (.ok (some b)) :=
        hR.and (Fact.const _)
      refine Triple.inTime hR' (.done _) ?_
      refine .bind (settleOne_keeps hR' c fun w hw => ?_) fun r => ?_
      · obtain ⟨hinst, hmax⟩ := hw.2 b rfl
        rw [hinst, hmax, Int.add_sub_cancel]
        exact hw.1 target hmem
      match r with
      | (.error _, _) => exact .done _
      | (.ok applied, late) =>
        dsimp only
        split
        · exact .done _
        · exact (ih _).mono (fun _ h => h.1) fun _ _ h => h

/-- `SettleBatch` keeps the contract. -/
theorem settleBatch_keeps (period : ℕ) (candidates : List UnboundCandidate) :
    Triple env pid (fun _ => True) (settleBatch period candidates) fun _ _ => True := by
  unfold settleBatch
  split
  · exact .done _
  split
  · exact .done _
  split
  · exact .done _
  refine Triple.inTime .anything (.done _) ?_
  refine .bind (Triple.read .anything (fun _ _ _ _ => trivial)
    fun _ => .anything) fun time => ?_
  cases time with
  | error => exact .done _
  | ok processedAt =>
    refine .forget (.bind (Triple.perform rfl .anything) fun late => ?_)
    split
    · exact .done _
    split
    · exact .done _
    refine .bind (Triple.read (Q := fun targets w => Read targets w.db) .anything
      (fun w _ _ _ => read_of_find) fun targets => (Fact.db Read.follows).steady) fun found => ?_
    cases found with
    | error => exact .done _
    | ok targets =>
      have hR : Fact env pid fun w => Read targets w.db := Fact.db Read.follows
      refine (Txn.Proc.Triple.bind (Triple.perform rfl hR) fun late => ?_).mono
        (fun _ h => h.2 _ rfl) fun _ _ h => h
      split
      · exact .done _
      split
      · exact .done _
      · exact settleEach_keeps period targets processedAt candidates {}

end Settler

end Dogx.Job
