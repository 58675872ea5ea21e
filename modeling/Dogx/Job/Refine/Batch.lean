import Dogx.Job.Refine.Stop

/-!
# A stop batch and its listing

What a batch has achieved when it commits, compared with the tasks that it listed. Between the
listing and the commit other calls may finish some of those tasks. None of them can add one: a task
is only created with the start of its round, and the round is stopping.
-/

namespace Dogx.Job

open Txn (Stable Store)
open JobTaskRepository JobInstanceRepository

variable {env : Env} {pid id size taskId : ℕ} {w w' : World} {db db' writes : Db} {U : Set ℕ}

/-! ## Unfinished tasks -/

def Unfinished (db : Db) (id : ℕ) : Set ℕ :=
  {taskId | ∃ t, db .task taskId = some t ∧ t.instanceId = id ∧ t.status.unfinished = true}

def Begun (db : Db) (id : ℕ) : Prop := ∃ i, db .instance id = some i ∧ i.status ≠ .waiting

theorem Begun.follows (hf : Db.Follows db db') (h : Begun db id) : Begun db' id := by
  obtain ⟨i, hi, hs⟩ := h
  obtain ⟨i', hi', hfi⟩ := hf.round id i hi
  refine ⟨i', hi', fun hw => hs ?_⟩
  rw [← hfi.waiting hw]
  exact hw

theorem Effect.unfinished_subset {op : Op} (h : Effect env w op writes) (hb : Begun w.db id) :
    Unfinished (w.db.apply writes) id ⊆ Unfinished w.db id := by
  rintro _ ⟨t', ht, hid, hun⟩
  rcases Store.apply_eq_some ht with hp | ⟨_, ht⟩
  · cases h.task_write hp with
    | @new instanceId _ _ hop hs ht' =>
      -- the round of a new task was waiting
      obtain ⟨i, hi, hnot⟩ := hb
      have heq : id = instanceId := by rw [← hid, ht']; rfl
      rw [heq, hs.row] at hi
      cases hi
      have hwait := hs.waiting
      simp [startWhere, hnot] at hwait
    | old row hu =>
      have hf := hu.follows
      refine ⟨_, row, hf.instanceId ▸ hid, ?_⟩
      by_contra hfin
      rw [hf.final (by simpa using hfin)] at hun
      exact hfin hun
  · exact ⟨t', ht, hid, hun⟩

structure Within (U : Set ℕ) (id : ℕ) (db : Db) : Prop where
  begun : Begun db id
  subset : Unfinished db id ⊆ U

theorem Effect.within {op : Op} (h : Effect env w op writes) (hw : Within U id w.db) :
    Within U id (w.db.apply writes) :=
  ⟨hw.begun.follows h.follows, (h.unfinished_subset hw.begun).trans hw.subset⟩

theorem stable_within (U : Set ℕ) (id : ℕ) :
    Stable env pid fun l => Within U id l.world.db := by
  intro l w hl hw
  refine hw.preserves (P := fun w => Within U id w.db) ?_ hl
  intro a b hs h
  cases hs with
  | commit _ _ ok => exact ok.1.within h
  | _ => exact h

theorem evolution_within (h : Txn.Evolution (contract env) w w') (hw : Within U id w.db) :
    Within U id w'.db := by
  refine h.preserves (P := fun w => Within U id w.db) ?_ hw
  intro a b hs h
  cases hs with
  | commit _ ok => exact ok.1.within h
  | _ => exact h

/-! ## The listing -/

def unfinishedIds (id : ℕ) (v : View) : List ℕ :=
  ((v.all .task).filter fun t => t.instanceId = id && t.status.unfinished).map JobTask.id

theorem listUnfinishedIds_eq (id size : ℕ) (v : View) :
    listUnfinishedIds id size v = (unfinishedIds id v).take size := rfl

section

variable (hinv : Inv w)
include hinv

theorem mem_unfinishedIds (hwf : (Txn.Loc.start w).WF) :
    taskId ∈ unfinishedIds id w.view ↔ taskId ∈ Unfinished w.db id := by
  simp only [unfinishedIds, List.mem_map, List.mem_filter, Bool.and_eq_true, decide_eq_true_eq]
  constructor
  · rintro ⟨t, ⟨hmem, hid, hun⟩, rfl⟩
    obtain ⟨taskId, -, hrow⟩ := (Txn.View.mem_all).mp hmem
    have hkey := hinv.taskId taskId t hrow
    subst hkey
    exact ⟨t, hrow, hid, hun⟩
  · rintro ⟨t, hrow, hid, hun⟩
    refine ⟨t, ⟨?_, hid, hun⟩, hinv.taskId taskId t hrow⟩
    exact (Txn.View.mem_all).mpr ⟨taskId, (hwf.bounded .task taskId t hrow).2, hrow⟩

theorem unfinishedIds_nodup : (unfinishedIds id w.view).Nodup := by
  have sub : ∀ ids : List ℕ, (((ids.filterMap (w.db .task)).filter fun t : JobTask =>
      t.instanceId = id && t.status.unfinished).map JobTask.id).Sublist ids := by
    intro ids
    induction ids with
    | nil => exact .slnil
    | cons x _ ih =>
      cases hx : w.db .task x with
      | none =>
        rw [List.filterMap_cons_none hx]
        exact ih.cons x
      | some t =>
        rw [List.filterMap_cons_some hx, List.filter_cons]
        split
        · rw [List.map_cons, hinv.taskId x t hx]
          exact ih.cons_cons x
        · exact ih.cons x
  exact (sub _).nodup List.nodup_range

variable (hwf : (Txn.Loc.start w).WF)
include hwf

theorem unfinished_eq : Unfinished w.db id = (unfinishedIds id w.view).toFinset := by
  ext taskId
  rw [List.coe_toFinset]
  exact (mem_unfinishedIds hinv hwf).symm

theorem unfinished_finite : (Unfinished w.db id).Finite := by
  rw [unfinished_eq hinv hwf]
  exact Finset.finite_toSet _

theorem ncard_unfinished : (Unfinished w.db id).ncard = (unfinishedIds id w.view).length := by
  rw [unfinished_eq hinv hwf, Set.ncard_coe_finset, List.toFinset_card_of_nodup (unfinishedIds_nodup hinv)]

theorem listed_subset (h : taskId ∈ listUnfinishedIds id size w.view) :
    taskId ∈ Unfinished w.db id :=
  (mem_unfinishedIds hinv hwf).mp (List.mem_of_mem_take h)

/-- A full listing uses up `size` tasks. -/
theorem ncard_remaining (hU : U ⊆ Unfinished w.db id)
    (hlisted : ∀ taskId ∈ listUnfinishedIds id size w.view, taskId ∉ U) :
    U = ∅ ∨ U.ncard + size ≤ (Unfinished w.db id).ncard := by
  have hfin : (Unfinished w.db id).Finite := unfinished_finite hinv hwf
  have hsub : U ⊆ ((unfinishedIds id w.view).drop size).toFinset := by
    intro taskId hmem
    have hall := (mem_unfinishedIds hinv hwf).mpr (hU hmem)
    rw [← List.take_append_drop size (unfinishedIds id w.view), List.mem_append] at hall
    rw [List.coe_toFinset]
    exact hall.resolve_left fun h => hlisted taskId h hmem
  have hle : U.ncard ≤ (unfinishedIds id w.view).length - size := by
    refine (Set.ncard_le_ncard hsub (Finset.finite_toSet _)).trans ?_
    rw [Set.ncard_coe_finset, ← List.length_drop]
    exact List.toFinset_card_le _
  by_cases hlen : (unfinishedIds id w.view).length ≤ size
  · left
    rw [Nat.sub_eq_zero_of_le hlen, Nat.le_zero, Set.ncard_eq_zero (hfin.subset hU)] at hle
    exact hle
  · right
    rw [ncard_unfinished hinv hwf]
    omega

end

/-! ## The end of a batch -/

def TaskOver (taskId : ℕ) (l : Loc) : Prop :=
  ∃ t, l.view.rows .task taskId = some t ∧ t.status.unfinished = false

theorem stable_taskOver (taskId : ℕ) : Stable env pid (TaskOver taskId) := by
  rintro l w ⟨t, ht, hover⟩ hw
  rcases Store.apply_eq_some ht with hp | ⟨hp, ht⟩
  · exact ⟨t, Store.apply_of_some hp, hover⟩
  · obtain ⟨_, ht', hf⟩ := (rely_follows hw).task taskId t ht
    rw [hf.final hover] at ht'
    exact ⟨t, (Store.apply_of_none hp).trans ht', hover⟩

def TaskOf (id taskId : ℕ) (db : Db) : Prop := ∃ t, db .task taskId = some t ∧ t.instanceId = id

theorem TaskOf.follows (db db' : Db) (hf : Db.Follows db db') (h : TaskOf id taskId db) :
    TaskOf id taskId db' := by
  obtain ⟨t, ht, hid⟩ := h
  obtain ⟨t', ht', hft⟩ := hf.task taskId t ht
  exact ⟨t', ht', hft.instanceId.trans hid⟩

namespace Controller

variable {b : TaskCancellation} {i : JobInstance} {l : Loc}

structure Converging (b : TaskCancellation) (i : JobInstance) (U ended : Set ℕ) (rest : List ℕ)
    (l : Loc) : Prop where
  canceling : Canceling b i l
  within : Within U b.instanceId l.world.db
  ended : ∀ taskId ∈ ended, TaskOver taskId l
  rest : ∀ taskId ∈ rest, TaskOf b.instanceId taskId l.world.db

theorem stable_converging (b : TaskCancellation) (i : JobInstance) (U ended : Set ℕ) (rest : List ℕ) :
    Stable env pid (Converging b i U ended rest) := by
  intro l w h hw
  refine ⟨stable_canceling b i l w h.canceling hw, stable_within U b.instanceId l w h.within hw,
    fun taskId hmem => stable_taskOver taskId l w (h.ended taskId hmem) hw, fun taskId hmem => ?_⟩
  exact stable_db TaskOf.follows l w (h.rest taskId hmem) hw

namespace Converging

variable {ended : Set ℕ} {rest : List ℕ} {taskId : ℕ}

theorem skip (h : Converging b i U ended (taskId :: rest) l)
    (hskip : ∀ t, l.view.rows .task taskId = some t →
      updateWhere (cancelWhere b) (fun _ => cancelSet b) l.view t = .skip) :
    Converging b i U (insert taskId ended) rest l := by
  refine ⟨h.canceling, h.within, ?_, fun x hx => h.rest x (List.mem_cons_of_mem _ hx)⟩
  rintro x (rfl | hx)
  · obtain ⟨t, ht, hid⟩ := h.rest x (List.mem_cons_self ..)
    cases hp : l.pend .task x with
    | some t' =>
      obtain ⟨-, _, -, -, rfl⟩ := h.canceling.tasks x t' hp
      exact ⟨_, Store.apply_of_some hp, rfl⟩
    | none =>
      have hv : l.view.rows .task x = some t := (Store.apply_of_none hp).trans ht
      refine ⟨t, hv, ?_⟩
      have hnot := updateWhere_eq_skip.mp (hskip t hv)
      simpa [cancelWhere, hid] using hnot
  · exact h.ended x hx

theorem cancel (h : Converging b i U ended (taskId :: rest) l) {t : JobTask}
    (ht : l.view.rows .task taskId = some t) (hw : cancelWhere b t = true) :
    Converging b i U (insert taskId ended) rest (l.write .task taskId (cancelSet b t)) := by
  refine ⟨h.canceling.write (h.canceling.row ht hw) hw, h.within, fun x hx => ?_,
    fun x hx => h.rest x (List.mem_cons_of_mem _ hx)⟩
  by_cases hx' : x = taskId
  · subst hx'
    exact ⟨cancelSet b t, Store.apply_of_some (by simp [Txn.Loc.write]), rfl⟩
  · obtain ⟨t', ht', hover⟩ := h.ended x (hx.resolve_left hx')
    refine ⟨t', ?_, hover⟩
    rw [← ht']
    simp [Txn.Loc.write, Store.apply, hx']

theorem unfinished (h : Converging b i U ended rest l) :
    Unfinished (l.world.db.apply l.pend) b.instanceId ⊆ U \ ended := by
  rintro x ⟨t, ht, hid, hun⟩
  refine ⟨?_, fun hx => ?_⟩
  · rcases Store.apply_eq_some ht with hp | ⟨-, ht⟩
    · obtain ⟨-, _, -, -, rfl⟩ := h.canceling.tasks x t hp
      cases hun
    · exact h.within.subset ⟨t, ht, hid, hun⟩
  · obtain ⟨_, ht', hover⟩ := h.ended x hx
    cases ht.symm.trans ht'
    cases hover.symm.trans hun

end Converging

theorem cancelRows_converges (ids : List ℕ) {ended : Set ℕ} (hl : Converging b i U ended ids l) :
    Achieves env pid (cancelRows b ids)
      (fun _ l => Converging b i U ({x | x ∈ ids} ∪ ended) [] l) l := by
  induction ids generalizing l ended with
  | nil =>
    refine Txn.Tx.wp_pure (stable_converging b i U ended []) hl fun _ hl _ _ => ?_
    simpa using hl
  | cons id ids ih =>
    have rest : ∀ (changed : Option JobTask) l, Converging b i U (insert id ended) ids l →
        (cancelRows b ids >>= fun more => pure (more + if changed.isSome then 1 else 0)).wp
          (contract env) pid (fun _ l => Converging b i U ({x | x ∈ id :: ids} ∪ ended) [] l)
          (fun _ _ => True) l := by
      intro _ l hl
      refine Txn.Tx.wp_bind (Txn.Tx.wp_mono (fun _ l hl => ?_) (fun _ _ h => h) (ih hl))
      have heq : {x | x ∈ ids} ∪ insert id ended = {x | x ∈ id :: ids} ∪ ended := by
        ext x
        simp only [Set.mem_union, Set.mem_ofPred_eq, Set.mem_insert_iff, List.mem_cons]
        tauto
      rw [heq] at hl
      exact Txn.Tx.wp_pure (stable_converging _ _ _ _ _) hl fun _ hl _ _ => hl
    refine Txn.Tx.wp_updateRow (stable_converging b i U ended (id :: ids)) hl
      (fun l hl _ _ hskip => rest none l (hl.skip hskip)) fun l t t' hl _ _ ht hset => ?_
    obtain ⟨hw, rfl⟩ := updateWhere_eq_set.mp hset
    exact ⟨rfl, rest _ _ (hl.cancel ht hw)⟩

inductive BatchEnd (id size : ℕ) (L : World → Prop) : Option BatchResult → Loc → Prop where
  | missing {l : Loc} : BatchEnd id size L none l
  | passed {r : BatchResult} {i : JobInstance} {l : Loc}
      (round : instanceRow id ∈ l.held ∧ l.world.db .instance id = some i)
      (other : i.status ≠ .stopping) (more : r.more = false) (completed : r.completed = false) :
      BatchEnd id size L (some r) l
  | canceled {r : BatchResult} {b : TaskCancellation} {i : JobInstance} {w : World} {l : Loc}
      (more : r.more = true) (completed : r.completed = false) (ids : b.instanceId = id)
      (listing : L w) (listed : listUnfinishedIds id size w.view ≠ [])
      (h : Converging b i (Unfinished w.db id) {x | x ∈ listUnfinishedIds id size w.view} [] l) :
      BatchEnd id size L (some r) l
  | completed {r : BatchResult} {i : JobInstance} {reason : EndReason} {now : ℕ} {l : Loc}
      (more : r.more = false) (completed : r.completed = true)
      (wrote : Wrote .instance id i (finishSet reason now i) l)
      (none : NoUnfinished l.world.db id) : BatchEnd id size L (some r) l
  | nothing {r : BatchResult} {l : Loc} (zero : size = 0) (more : r.more = false)
      (completed : r.completed = false) : BatchEnd id size L (some r) l

theorem stable_batchEnd (id size : ℕ) (L : World → Prop) (result : Option BatchResult) :
    Stable env pid (BatchEnd id size L result) := by
  intro l w h hw
  cases h with
  | missing => exact .missing
  | passed round other more completed =>
    exact .passed (stable_row .instance id _ l w round hw) other more completed
  | canceled more completed ids listing listed h =>
    exact .canceled more completed ids listing listed (stable_converging _ _ _ _ _ l w h hw)
  | completed more completed wrote none =>
    refine .completed more completed (stable_wrote .instance id _ _ l w wrote hw) ?_
    exact (stable_noUnfinished id l w ⟨wrote.2.1, none⟩ hw).2
  | nothing zero more completed => exact .nothing zero more completed

variable {L : World → Prop} {reason : EndReason} {summary : String} {target : InstanceStatus}

theorem finishRound_ends (hl : LockedRound id i l) (hid : i.id = id) (hstop : i.status = .stopping)
    (hreason : i.endReason = some reason) (hnone : 0 < size → Within ∅ id l.world.db) :
    Achieves env pid (finishRound id i reason target) (BatchEnd id size L) l := by
  have hs : Stable env pid fun l =>
      LockedRound id i l ∧ (0 < size → Within ∅ id l.world.db) := by
    intro l w h hw
    exact ⟨stable_lockedRound id i l w h.1 hw, fun hsize => stable_within ∅ id l w (h.2 hsize) hw⟩
  unfold finishRound finishStop
  split
  · exact gives_up
  refine Txn.Tx.wp_updateRow hs ⟨hl, hnone⟩ (fun l h hwf _ hskip => ?_)
    fun l r i' h hwf _ hr hset => ?_
  · -- the statement only passes over a round that has tasks left
    have hzero : size = 0 := by
      by_contra hne
      have hempty := (h.2 (Nat.pos_of_ne_zero hne)).subset
      have hfin := hskip i (by rw [row_of_view h.1.1]; exact h.1.2.2)
      have hno : hasUnfinished l.view i.id = false := by
        simp only [hasUnfinished, List.any_eq_false, Bool.and_eq_true, decide_eq_true_eq, not_and]
        intro t hmem htask hun
        obtain ⟨_, -, hrow⟩ := Txn.View.mem_all.mp hmem
        rw [row_of_view h.1.1] at hrow
        exact hempty ⟨t, hrow, htask.trans hid, hun⟩
      simp [finishUpdate, hstop, hreason, hno] at hfin
    exact Txn.Tx.wp_pure (.const True) trivial fun _ _ _ _ => .nothing hzero rfl rfl
  · have hri : r = i := by
      rw [row_of_view h.1.1, h.1.2.2] at hr
      exact (Option.some.inj hr).symm
    subst hri
    obtain ⟨-, -, hno, rfl⟩ := set_of_finishUpdate hset
    rw [hid] at hno
    have hleft : NoUnfinished l.world.db id := noUnfinished_of_view hwf h.1.1 hno
    have hend : BatchEnd id size L (some ⟨id, target, 0, false, true⟩)
        (l.write .instance id (finishSet reason l.view.now r)) :=
      .completed rfl rfl h.1.wrote hleft
    exact ⟨rfl, Txn.Tx.wp_pure (stable_batchEnd id size L _) hend fun _ h _ _ => h⟩

theorem view_of_noWrites (hp : l.pend = noWrites) : l.view = l.world.view := by
  rw [Txn.Loc.view, hp]
  rfl

theorem cancelBatch_ends (hl : LockedRound id i l) (hwf : l.WF) (hinv : Inv l.world)
    (hstop : i.status = .stopping) (hlisted : listUnfinishedIds id size l.view ≠ []) :
    Achieves env pid (cancelBatch .listed id i reason summary (listUnfinishedIds id size l.view))
      (BatchEnd id size (· = l.world)) l := by
  rw [view_of_noWrites hl.1] at hlisted ⊢
  have hwithin : Within (Unfinished l.world.db id) id l.world.db :=
    ⟨⟨i, hl.2.2, by rw [hstop]; decide⟩, subset_rfl⟩
  generalize hw : l.world = w at *
  generalize hids : listUnfinishedIds id size w.view = ids at *
  have hrest : ∀ taskId ∈ ids, TaskOf id taskId w.db := by
    intro taskId hmem
    rw [← hids] at hmem
    obtain ⟨t, ht, hid, -⟩ := listed_subset hinv (hw ▸ hwf.restart) hmem
    exact ⟨t, ht, hid⟩
  have hs : Stable env pid fun l => LockedRound id i l ∧
      Within (Unfinished w.db id) id l.world.db ∧ ∀ taskId ∈ ids, TaskOf id taskId l.world.db :=
    (stable_lockedRound id i).and ((stable_within _ id).and fun l w' h hrely taskId hmem =>
      stable_db TaskOf.follows l w' (h taskId hmem) hrely)
  refine Txn.Tx.wp_query hs ⟨hl, hw ▸ hwithin, hw ▸ hrest⟩ fun l h _ _ => ?_
  split
  · exact gives_up
  generalize databaseTime l.view = now
  unfold cancelUnfinished
  split
  · exact gives_up
  split
  · exact gives_up
  obtain ⟨⟨hp, hround⟩, hwithin, hrest⟩ := h
  have hstart : Converging { instanceId := id, taskIds := ids, reason, summary, processedAt := now } i
      (Unfinished w.db id) ∅ ids l :=
    ⟨⟨hround, fun _ _ h => by simp [hp] at h, fun _ _ _ => by simp [hp]⟩, hwithin,
      fun _ h => h.elim, hrest⟩
  refine Txn.Tx.wp_bind (Txn.Tx.wp_mono (fun canceled l hl => ?_) (fun _ _ h => h)
    (cancelRows_converges ids hstart))
  split
  · exact gives_up
  rw [Set.union_empty, ← hids] at hl
  have hend : BatchEnd id size (· = w) (some ⟨id, i.status, canceled, true, false⟩) l :=
    .canceled rfl rfl rfl rfl (hids ▸ hlisted) hl
  exact Txn.Tx.wp_pure (stable_batchEnd id size _ _) hend fun _ h _ _ => h

/-- A batch lists its tasks, and ends as `BatchEnd` says. -/
theorem processStopping_ends (env : Env) (pid size : ℕ) (hid : i.id = id)
    (hstop : i.status = .stopping) :
    (∃ e, processStopping .listed size id i = .throw e) ∨
    ∃ k, processStopping .listed size id i = .select (listUnfinishedIds id size) k ∧
      ∀ l, LockedRound id i l → l.WF → Inv l.world →
        Achieves env pid (k (listUnfinishedIds id size l.view)) (BatchEnd id size (· = l.world))
          l := by
  unfold processStopping
  split
  · next reason target summary hreason _ =>
    split
    · exact .inl ⟨_, rfl⟩
    refine .inr ⟨_, rfl, fun l hl hwf hinv => ?_⟩
    change (ite _ _ _ : Tx (Option BatchResult)).wp _ _ _ _ _
    split
    · exact gives_up
    split
    · next hempty =>
      refine finishRound_ends hl hid hstop hreason fun hsize => ?_
      refine ⟨⟨i, hl.2.2, by rw [hstop]; decide⟩, fun taskId hmem => ?_⟩
      -- a batch that may list something lists the first unfinished task
      rw [view_of_noWrites hl.1, listUnfinishedIds_eq, List.take_eq_nil_iff] at hempty
      rw [← mem_unfinishedIds hinv hwf.restart, hempty.resolve_left (by omega)] at hmem
      exact absurd hmem List.not_mem_nil
    · next hlisted => exact cancelBatch_ends hl hwf hinv hstop hlisted
  · exact .inl ⟨_, rfl⟩

end Controller

end Dogx.Job
