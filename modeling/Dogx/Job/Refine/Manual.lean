import Dogx.Job.Refine.Trigger

/-!
# Manual triggers within the contract

A manual trigger notes in the history when it reaches its transaction. Either no round stands for
its request at that moment, or one does and will be found: `Arrived` is that alternative, and it
is all the transaction needs to answer as the contract says.
-/

namespace Dogx.Job

open Txn (Stable Steady Settled Verdict Store Loc.start)
open Event (isEntry isReturn)
open JobInstanceRepository

variable {env : Env} {pid id : ℕ} {m : ManualTrigger} {w : World} {e : Event}
  {prior : ManualIdentity} {l : Loc} {j : JobDefinition} {r : Except Err ℕ} {value : String}

/-! ## On arrival -/

theorem enteredBefore_of_never (h : Never pid isEntry w) : EnteredBefore pid m w := by
  intro later earlier hlog
  have := h (.act pid .entered ()) (by rw [hlog]; simp) rfl
  simp [isEntry] at this

theorem EnteredBefore.record (h : EnteredBefore pid m w) (he : e ≠ .act pid .entered ()) :
    EnteredBefore pid m (w.record e) := by
  intro later earlier hlog
  cases later with
  | nil =>
    simp only [Txn.World.record_log, List.nil_append, List.cons.injEq] at hlog
    exact absurd hlog.1 he
  | cons _ later =>
    simp only [Txn.World.record_log, List.cons_append, List.cons.injEq] at hlog
    exact h later earlier hlog.2

theorem Deleted.follows (db db' : Db) (hf : Db.Follows db db') (h : Deleted id db) :
    Deleted id db' := by
  obtain ⟨j, hj, hd⟩ := h
  obtain ⟨j', hj', hfj⟩ := hf.job id j hj
  exact ⟨j', hj', hfj.deleted hd⟩

def Entered (pid : ℕ) (m : ManualTrigger) (w : World) : Prop :=
  .act pid .entered () ∈ w.log ∧ EnteredBefore pid m w

theorem Entered.record (h : Entered pid m w) (he : e ≠ .act pid .entered ()) :
    Entered pid m (w.record e) :=
  ⟨List.mem_cons_of_mem _ h.1, h.2.record he⟩

theorem stable_entered : Stable env pid fun l => Entered pid m l.world := by
  intro l w h hw
  refine hw.preserves (fun a b hs h => ?_) h
  cases hs with
  | @commit q op l _ _ _ _ _ =>
    have hrec : Entered pid m (l.world.record (.commit q op l.world.db l.pend)) :=
      h.record (by simp)
    exact hrec
  | @act w q a r ok _ =>
    refine h.record fun he => ?_
    injection he with hq ha
    subst hq ha
    have := ok _ h.1 rfl
    simp [isEntry] at this
  | asked reads => exact h.record fun he => by cases he; cases reads
  | lost => exact h.record (by simp)
  | tick | bump => exact h

def Made (m : ManualTrigger) (db : Db) : Prop :=
  (∃ id i, db .instance id = some i ∧ i.For m) ∧ ∃ j, db .job m.jobId = some j

theorem Made.follows (db db' : Db) (hf : Db.Follows db db') (h : Made m db) : Made m db' := by
  obtain ⟨⟨id, i, hi, hfor⟩, j, hj⟩ := h
  obtain ⟨i', hi', hfi⟩ := hf.round id i hi
  obtain ⟨j', hj', _⟩ := hf.job m.jobId j hj
  exact ⟨⟨id, i', hi', hfor.follows hfi⟩, j', hj'⟩

def Arrived (pid : ℕ) (m : ManualTrigger) (w : World) : Prop := Entered pid m w ∨ Made m w.db

theorem stable_arrived : Stable env pid fun l => Arrived pid m l.world := by
  intro l w h hw
  exact h.imp (fun h => stable_entered l w h hw) fun h => Made.follows _ _ (rely_follows hw) h

theorem arrived_fact : Fact env pid (Arrived pid m) where
  steady := stable_arrived.steady
  commit := fun l op hc h => h.imp
    (fun h => (h.record (by simp) : Entered pid m (l.world.record (.commit pid op _ _))))
    fun h => Made.follows _ _ hc.1.follows h
  lost := fun w op h => h.imp (fun h => h.record (by simp)) fun h => h
  act := fun w a r ha h => h.imp (fun h => h.record fun he => by
    injection he with _ ha'
    subst ha'
    simp [Act.harmless] at ha) fun h => h

theorem arrived_of_entry (hinv : Inv w) (h : Never pid isEntry w) :
    Arrived pid m (w.record (.act pid .entered ())) := by
  by_cases hmade : ∃ e ∈ w.log, Event.creates m.jobId m.requestId e = true
  · obtain ⟨e, he, hcr⟩ := hmade
    right
    -- a creation for the request is in the history, so its round is in the database
    obtain ⟨q, m', id, before, writes, rfl, hj, hr⟩ := Event.creates_inv hcr
    obtain ⟨⟨i, hi, hfor⟩, j, hrow⟩ := hinv.created q m' id before writes he
    exact ⟨⟨id, i, hi, hfor.1.trans hj, hfor.2.trans (by rw [hr])⟩, j, hj ▸ hrow⟩
  · left
    refine ⟨List.mem_cons_self, fun later earlier hlog e he => ?_⟩
    simp only [not_exists, not_and, Bool.not_eq_true] at hmade
    cases later with
    | nil =>
      simp only [Txn.World.record_log, List.nil_append, List.cons.injEq, true_and] at hlog
      exact hmade e (hlog ▸ he)
    | cons =>
      simp only [Txn.World.record_log, List.cons_append, List.cons.injEq] at hlog
      have := h (.act pid .entered ()) (by rw [hlog.2]; simp) rfl
      simp [isEntry] at this

/-! ## The answer of a round -/

def normalized (m : ManualTrigger) : ManualTrigger := { m with params := Text.trimSpace m.params }

def Prior (m : ManualTrigger) (prior : ManualIdentity) (db : Db) : Prop :=
  ∃ i, db .instance prior.id = some i ∧ i.For m ∧ prior.paramsOverridden = i.paramsOverridden ∧
    prior.overrideParams = if i.paramsOverridden then some i.executionConfig.params else none

theorem Prior.follows (db db' : Db) (hf : Db.Follows db db') (h : Prior m prior db) :
    Prior m prior db' := by
  obtain ⟨i, hi, hfor, ho, hp⟩ := h
  obtain ⟨i', hi', hfi⟩ := hf.round prior.id i hi
  refine ⟨i', hi', hfor.follows hfi, ho.trans hfi.paramsOverridden.symm, ?_⟩
  rw [hfi.paramsOverridden, hfi.executionConfig]
  exact hp

theorem sameRequest_iff {i : JobInstance} (ho : prior.paramsOverridden = i.paramsOverridden)
    (hp : prior.overrideParams = if i.paramsOverridden then some i.executionConfig.params else none) :
    Creator.sameRequest prior (normalized m) = true ↔ i.SameOverride m := by
  simp only [Creator.sameRequest, normalized, JobInstance.SameOverride, ho, hp]
  cases hi : i.paramsOverridden <;> cases hm : m.paramsOverridden <;> simp

theorem prior_of_find (hp : l.pend = noWrites) (hinv : Inv l.world)
    (h : findManual m.jobId m.requestId l.view = some prior) : Prior m prior l.world.db := by
  simp only [findManual, Option.map_eq_some_iff] at h
  obtain ⟨i, hi, rfl⟩ := h
  have hfor := List.find?_some hi
  simp only [Bool.and_eq_true, decide_eq_true_eq] at hfor
  have hmem : i ∈ Txn.View.all l.view .instance := List.mem_of_find?_eq_some hi
  obtain ⟨id, _, hrow⟩ := (Txn.View.mem_all).mp hmem
  rw [row_of_view hp] at hrow
  have hid : i.id = id := hinv.instanceId id i hrow
  exact ⟨i, by rw [← hid] at hrow; exact hrow, hfor, rfl, rfl⟩

theorem not_made_of_find (hwf : l.WF) (hp : l.pend = noWrites)
    (h : findManual m.jobId m.requestId l.view = none) : ¬ Made m l.world.db := by
  rintro ⟨⟨id, i, hi, hfor⟩, _⟩
  have hmem : i ∈ Txn.View.all l.view .instance := Txn.View.mem_all.mpr
    ⟨id, (hwf.bounded .instance id i hi).2, by rw [row_of_view hp]; exact hi⟩
  simp only [findManual, Option.map_eq_none_iff, List.find?_eq_none, Bool.and_eq_true,
    decide_eq_true_eq] at h
  exact h i hmem hfor

def Answers (m : ManualTrigger) (r : ℕ × Bool) (l : Loc) : Prop :=
  ∃ i, Store.apply l.world.db l.pend .instance r.1 = some i ∧ i.For m ∧ i.SameOverride m

abbrev ManualTx (env : Env) (pid : ℕ) (m : ManualTrigger) (p : Tx (ℕ × Bool)) (l : Loc) : Prop :=
  p.wp (contract env) pid
    (fun r l => Settled (contract env) pid (.triggerManual (normalized m) r.1 r.2) l ∧
      Answers m r l)
    (fun e w => ManualAnswer pid m w (.error e)) l

theorem replayTx_wp (hp : l.pend = noWrites) (hprior : Prior m prior l.world.db) :
    ManualTx env pid m (Creator.replayTx prior (normalized m)) l := by
  have hs : Stable env pid fun l => l.pend = noWrites ∧ Prior m prior l.world.db :=
    stable_noWrites.and (stable_db Prior.follows)
  unfold Creator.replayTx Creator.replay
  by_cases hsame : Creator.sameRequest prior (normalized m) = true
  · rw [if_pos hsame]
    refine Txn.Tx.wp_pure hs ⟨hp, hprior⟩ fun l hl _ _ => ⟨?_, ?_⟩
    · exact settled_quiet hl.1 rfl fun _ => trivial
    · obtain ⟨hp, i, hi, hfor, ho, hpar⟩ := hl
      refine ⟨i, ?_, hfor, (sameRequest_iff ho hpar).mp hsame⟩
      rw [hp]
      exact hi
  · rw [if_neg hsame]
    refine Txn.Tx.wp_throw hs ⟨hp, hprior⟩ fun l hl _ _ => ?_
    obtain ⟨_, i, hi, hfor, ho, hpar⟩ := hl
    exact ⟨prior.id, i, hi, hfor, fun h => hsame ((sameRequest_iff ho hpar).mpr h)⟩

theorem ManualAnswer.of_entered {e : Err} (he : e ≠ .requestConflict)
    (h : EnteredBefore pid m w) : ManualAnswer pid m w (.error e) := by
  unfold ManualAnswer
  split
  · next heq => cases heq
  · trivial
  · next heq => cases heq; exact absurd rfl he
  · exact Or.inr h

theorem refuses {e : Err} (he : e ≠ .requestConflict) (h : Entered pid m l.world) :
    ManualTx env pid m (throw e) l :=
  Txn.Tx.wp_throw stable_entered h fun _ hl _ _ => .of_entered he hl.2

/-! ## The transaction -/

theorem manual_for (hid : j.id = m.jobId) :
    (newInstance (Creator.manualSnapshot j (normalized m)) id).For m ∧
      (newInstance (Creator.manualSnapshot j (normalized m)) id).SameOverride m := by
  refine ⟨⟨hid, rfl⟩, rfl, fun hm => ?_⟩
  simp [newInstance, Creator.manualSnapshot, normalized, hm]

theorem createManual_wp (hl : LockedJob m.jobId j l ∧ Entered pid m l.world)
    (hkept : j.deletedAt = none) (hfree : j.blockPolicy = .discard → NoActive l.world.db m.jobId) :
    ManualTx env pid m (Creator.createManual j (normalized m)) l := by
  have hs : Stable env pid fun l => (LockedJob m.jobId j l ∧ Entered pid m l.world) ∧
      (j.blockPolicy = .discard → NoActive l.world.db m.jobId) := by
    rintro l w ⟨⟨hl, hent⟩, hfree⟩ hw
    exact ⟨⟨stable_lockedJob m.jobId j l w hl hw, stable_entered l w hent hw⟩,
      fun hd => (stable_noActive m.jobId l w ⟨hl.2.1, hfree hd⟩ hw).2⟩
  refine Txn.Tx.wp_insertRow hs ⟨hl, hfree⟩ (fun l hl => ?_) fun l id hl hfresh _ => ?_
  · refine Txn.Tx.wp_query hs hl fun l hl _ hinv => ?_
    split
    · exact refuses (by simp) hl.1.2
    · next prior hfind => exact replayTx_wp hl.1.1.1 (prior_of_find hl.1.1.1 hinv hfind)
  · have s1 : Stable env pid fun l => l.pend = Store.set noWrites .instance id
        (newInstance (Creator.manualSnapshot j (normalized m)) id) ∧
        (jobRow m.jobId ∈ l.held ∧ l.world.db .job m.jobId = some j) ∧
        (instanceRow id ∈ l.held ∧ l.world.db .instance id = none) ∧
        (j.blockPolicy = .discard → NoActive l.world.db m.jobId) := by
      rintro l w ⟨hp, hlocked, hfresh, hfree⟩ hw
      exact ⟨hp, stable_row .job m.jobId (some j) l w hlocked hw,
        stable_row .instance id none l w hfresh hw,
        fun hd => (stable_noActive m.jobId l w ⟨hlocked.1, hfree hd⟩ hw).2⟩
    obtain ⟨⟨⟨hp, hheld, hrow⟩, _⟩, hfree⟩ := hl
    refine Txn.Tx.wp_pure s1 ⟨?_, ⟨Set.mem_insert_of_mem _ (Set.mem_union_left _ hheld), hrow⟩,
      ⟨Set.mem_insert _ _, hfresh⟩, hfree⟩ fun l hl _ hinv => ⟨?_, ?_⟩
    · show Store.set l.pend .instance id _ = _
      rw [hp]
    · refine s1.settled hl fun l hl _ hinv => ?_
      obtain ⟨hp, ⟨hheld, hrow⟩, ⟨_, hfresh⟩, hfree⟩ := hl
      refine ⟨?_, hheld⟩
      rw [hp]
      exact .requested ⟨hrow, hinv.jobId _ j hrow, hkept, hfresh, hfree⟩
    · obtain ⟨hp, ⟨_, hrow⟩, _⟩ := hl
      have hwritten : l.pend .instance id =
          some (newInstance (Creator.manualSnapshot j (normalized m)) id) := by rw [hp]; simp
      exact ⟨_, Store.apply_of_some hwritten, manual_for (hinv.jobId _ j hrow)⟩

/-- The transaction of a manual request ends with its one round. -/
theorem triggerManualTx_wp (hw : Arrived pid m w) :
    ManualTx env pid m (Creator.triggerManualTx (normalized m)) (Loc.start w) := by
  have s0 : Stable env pid fun l => l.pend = noWrites ∧ Arrived pid m l.world :=
    stable_noWrites.and stable_arrived
  refine wp_lockJob s0 ⟨rfl, hw⟩ (fun l hl hnone => ?_) (fun l j hl hj hd => ?_)
    fun l j hl _ hj hkept => ?_
  · -- the job of a round that stands for the request is there
    refine refuses (by simp) (hl.2.resolve_right fun hmade => ?_)
    obtain ⟨_, j, hj⟩ := hmade
    rw [row_of_view hl.1] at hnone
    cases hj.symm.trans hnone
  · rw [row_of_view hl.1] at hj
    have hs : Stable env pid fun l => Deleted m.jobId l.world.db :=
      stable_db Deleted.follows
    exact Txn.Tx.wp_throw hs ⟨j, hj, hd⟩ fun l hl _ _ => Or.inl hl
  have hlocked : LockedJob m.jobId j (l.hold (jobRow m.jobId)) := .of_hold hl.1 hj
  have s1 : Stable env pid fun l => LockedJob m.jobId j l ∧ Arrived pid m l.world :=
    (stable_lockedJob m.jobId j).and stable_arrived
  refine Txn.Tx.wp_query s1 ⟨hlocked, hl.2⟩ fun l hl hwf hinv => ?_
  split
  · next prior hfind => exact replayTx_wp hl.1.1 (prior_of_find hl.1.1 hinv hfind)
  next hfind =>
  have hent : Entered pid m l.world :=
    hl.2.resolve_right (not_made_of_find hwf hl.1.1 hfind)
  have s2 : Stable env pid fun l => LockedJob m.jobId j l ∧ Entered pid m l.world :=
    (stable_lockedJob m.jobId j).and stable_entered
  refine Txn.Tx.wp_query s2 ⟨hl.1, hent⟩ fun l hl _ _ => ?_
  split
  · exact refuses (by simp) hl.2
  split
  · refine Txn.Tx.wp_query s2 hl fun l hl hwf hinv => ?_
    split
    · exact refuses (by simp) hl.2
    · next hactive =>
      rw [hinv.jobId _ j hl.1.2.2] at hactive
      exact createManual_wp hl hkept fun _ =>
        noActive_of_view hwf hl.1.1 (by simpa using hactive)
  · next hd => exact createManual_wp hl hkept fun h => absurd h hd

/-! ## The call -/

theorem ManualAnswer.of_db {w' : World} (h : ManualAnswer pid m w r) (hf : Db.Follows w.db w'.db)
    (hent : EnteredBefore pid m w → EnteredBefore pid m w') : ManualAnswer pid m w' r := by
  have found : ∀ {id i}, w.db .instance id = some i → i.For m →
      ∃ i', w'.db .instance id = some i' ∧ i'.For m ∧ (i'.SameOverride m ↔ i.SameOverride m) := by
    intro id i hi hfor
    obtain ⟨i', hi', hfi⟩ := hf.round id i hi
    refine ⟨i', hi', hfor.follows hfi, fun hs => ?_, fun hs => hs.follows hfi⟩
    exact ⟨hfi.paramsOverridden.symm.trans hs.1, fun hm => by
      rw [← hfi.executionConfig]; exact hs.2 hm⟩
  unfold ManualAnswer at h ⊢
  split at h
  · obtain ⟨i, hi, hfor, hs⟩ := h
    obtain ⟨i', hi', hfor', hiff⟩ := found hi hfor
    exact ⟨i', hi', hfor', hiff.mpr hs⟩
  · trivial
  · obtain ⟨id, i, hi, hfor, hs⟩ := h
    obtain ⟨i', hi', hfor', hiff⟩ := found hi hfor
    exact ⟨id, i', hi', hfor', fun h => hs (hiff.mp h)⟩
  · exact h.imp (Deleted.follows _ _ hf) hent

theorem steady_enteredBefore : Steady env pid (EnteredBefore pid m) := by
  refine .of_step fun w w' hs h => ?_
  cases hs with
  | @commit q op l _ _ _ _ _ =>
    have hrec : EnteredBefore pid m (l.world.record (.commit q op l.world.db l.pend)) :=
      h.record (by simp)
    exact hrec
  | act _ who =>
    refine h.record fun he => ?_
    injection he with hq
    exact who.elim (fun hne => hne hq) fun hc => by simp at hc
  | asked reads => exact h.record fun he => by cases he; cases reads
  | lost => exact h.record (by simp)
  | tick | bump => exact h

theorem steady_manualAnswer (r : Except Err ℕ) :
    Steady env pid fun w => ManualAnswer pid m w r :=
  fun w w' hw h => h.of_db (rely_follows hw) (steady_enteredBefore w w' hw)

theorem ManualAnswer.record (h : ManualAnswer pid m w r) (he : e ≠ .act pid .entered ()) :
    ManualAnswer pid m (w.record e) r :=
  h.of_db (.refl _) fun h => h.record he

theorem transactManual_keeps :
    Triple env pid (fun w => Never pid isReturn w ∧ Arrived pid m w)
      (transact (fun r => .triggerManual (normalized m) r.1 r.2)
        (Creator.triggerManualTx (normalized m)))
      fun r w => Never pid isReturn w ∧ ManualAnswer pid m w (r.map Prod.fst) := by
  intro w hw
  have hR : Fact env pid fun w => Never pid isReturn w ∧ Arrived pid m w :=
    Fact.unreturned.and arrived_fact
  refine Txn.Proc.wp_transact hR.steady hR.steady hw (fun l a h hc => hR.commit l _ hc h)
    (fun w a h => hR.lost w _ (h.elim id id)) (fun w hw _ _ => triggerManualTx_wp hw.2)
    ?_ ?_ ?_ ?_
  · rintro r l hl hc ⟨i, hi, hfor, hsame⟩
    refine Txn.Proc.wp_ret (hR.steady.and (steady_manualAnswer (.ok r.1)))
      ⟨hR.commit l _ hc hl, i, hi, hfor, hsame⟩ fun w h => ⟨h.1.1, h.2⟩
  · exact fun e w hw hans => Txn.Proc.wp_ret (hR.steady.and (steady_manualAnswer (.error e)))
      ⟨hw, hans⟩ fun w h => ⟨h.1.1, h.2⟩
  · exact fun f w hw => Txn.Proc.wp_ret hR.steady hw fun w h => ⟨h.1, trivial⟩
  · exact fun f w hw _ => Txn.Proc.wp_ret hR.steady hw fun w h => ⟨h.1, trivial⟩

theorem normalizeParams_error {e : Err} (h : Creator.normalizeParams value = .error e) :
    e ≠ .requestConflict := by
  unfold Creator.normalizeParams at h
  split at h
  · cases h; simp
  · cases h

theorem normalizeParams_eq {params : String} (h : Creator.normalizeParams value = .ok params) :
    params = Text.trimSpace value := by
  unfold Creator.normalizeParams at h
  split at h
  · cases h
  · cases h; rfl

/-- `TriggerManual` keeps the contract. -/
theorem triggerManual_keeps (m : ManualTrigger) :
    Triple env pid (fun w => Never pid isReturn w ∧ Never pid isEntry w)
      (Creator.triggerManual m) fun _ _ => True := by
  have hR : Fact env pid fun w => Never pid isReturn w ∧ Never pid isEntry w :=
    Fact.unreturned.and Fact.unentered
  have early : ∀ e : Err, e ≠ .requestConflict → Triple env pid
      (fun w => Never pid isReturn w ∧ Never pid isEntry w) (pure (.error e))
      fun r w => Never pid isReturn w ∧ ManualAnswer pid m w r := fun e he =>
    .pure hR.steady fun w h => ⟨h.1, .of_entered he (enteredBefore_of_never h.2)⟩
  refine Txn.Proc.Triple.mono (Triple.returning ?_
    steady_manualAnswer (fun r w h => h.record (by simp)) fun _ _ h => h) (fun _ h => h)
    fun _ _ _ => trivial
  split
  · exact early _ (by simp)
  split
  · next e he => exact early e (normalizeParams_error he)
  next params hparams =>
  obtain rfl := normalizeParams_eq hparams
  refine .bind (Creator.acquire_keeps hR.steady hR.act false) fun permit => ?_
  cases permit with
  | error e =>
    intro w hw
    exact early e (fun he => hw.2.1 (by rw [he])) w hw.1
  | ok =>
    intro w hw
    refine Txn.Proc.wp_act hR.steady hw.1 fun w hw hinv _ => ⟨hw.2, ?_⟩
    have harr : Arrived pid m (w.record (.act pid .entered ())) := arrived_of_entry hinv hw.2
    refine Txn.Proc.Triple.bind transactManual_keeps (fun r => ?_) _
      ⟨hw.1.record fun _ => rfl, harr⟩
    cases r with
    | error e =>
      exact .pure (spoken_isReturn.steady.and (steady_manualAnswer (.error e))) fun _ h => h
    | ok r =>
      have hs : Steady env pid fun w =>
          Never pid isReturn w ∧ ManualAnswer pid m w (.ok r.1) :=
        spoken_isReturn.steady.and (steady_manualAnswer (.ok r.1))
      dsimp only
      split
      · refine .bind (Triple.perform_of rfl hs fun w a h => ⟨h.1.record fun _ => rfl,
          h.2.record (by simp)⟩) fun _ => ?_
        exact .pure hs fun _ h => h
      · exact .pure hs fun _ h => h

end Dogx.Job
