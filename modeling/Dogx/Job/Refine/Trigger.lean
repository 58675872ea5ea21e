import Dogx.Job.Refine.Dispatch

/-!
# Triggers within the contract

A due hint is decided and the job advanced in one step, and so is a manual request.
-/

namespace Dogx.Job

open Txn (Stable Steady Settled Verdict Store Loc.start)
open JobDefinitionRepository (advance advanceSet checkWrite lock writeWhere)
open JobInstanceRepository

variable {env : Env} {pid id : ℕ} {l : Loc} {P : Loc → Prop} {w : World} {e : Event}

/-! ## A locked job -/

def LockedJob (id : ℕ) (j : JobDefinition) (l : Loc) : Prop :=
  l.pend = noWrites ∧ jobRow id ∈ l.held ∧ l.world.db .job id = some j

theorem stable_lockedJob (id : ℕ) (j : JobDefinition) :
    Stable env pid (LockedJob id j) :=
  stable_noWrites.and (stable_row .job id (some j))

theorem LockedJob.of_hold {j : JobDefinition} (hp : l.pend = noWrites)
    (hj : l.view.rows .job id = some j) : LockedJob id j (l.hold (jobRow id)) :=
  ⟨hp, Set.mem_insert _ _, by rwa [row_of_view hp] at hj⟩

theorem noActive_of_view (hwf : l.WF) (hp : l.pend = noWrites) (h : hasActive id l.view = false) :
    NoActive l.world.db id := by
  intro instanceId i hi hid
  have hmem : i ∈ Txn.View.all l.view .instance :=
    Txn.View.mem_all.mpr
      ⟨instanceId, (hwf.bounded .instance instanceId i hi).2, by rw [row_of_view hp]; exact hi⟩
  simp only [hasActive, List.any_eq_false, Bool.and_eq_true, decide_eq_true_eq, not_and,
    Bool.not_eq_true] at h
  exact h i hmem hid

theorem wp_lockJob {α : Type} {Q : α → Loc → Prop} {E : Err → World → Prop}
    {k : JobDefinition → Tx α} (hs : Stable env pid P) (hP : P l)
    (hnone : ∀ l, P l → l.view.rows .job id = none →
      (throw .jobNotFound : Tx α).wp (contract env) pid Q E l)
    (hdeleted : ∀ l j, P l → l.view.rows .job id = some j → j.deletedAt.isSome →
      (throw .jobNotFound : Tx α).wp (contract env) pid Q E (l.hold (jobRow id)))
    (hrow : ∀ l j, P l → Inv l.world → l.view.rows .job id = some j → j.deletedAt = none →
      (k j).wp (contract env) pid Q E (l.hold (jobRow id))) :
    (lock id >>= k).wp (contract env) pid Q E l := by
  refine Txn.Tx.wp_lockRow hs hP (fun hn => by cases hn) (fun l hl _ _ hv => hnone l hl hv)
    fun l j hl _ hinv hj => ?_
  dsimp only [Txn.Tx.ret_bind]
  split
  · next hd => exact hdeleted l j hl hj hd
  · next hd => exact hrow l j hl hinv hj (by simpa using hd)

theorem writeJob_wp {Q : Unit → Loc → Prop} {p : JobDefinition → Bool}
    {g : JobDefinition → JobDefinition} (hs : Stable env pid P) (hP : P l)
    (hset : ∀ l j, P l → l.view.rows .job id = some j → j.deletedAt = none → p j = true →
      Achieves env pid (pure () : Tx Unit) Q (l.write .job id (g j))) :
    Achieves env pid (updateRow .job id (writeWhere p g) >>= fun changed => checkWrite id changed) Q
      l := by
  refine Txn.Tx.wp_updateRow hs hP (fun l hl _ _ _ => ?_) fun l j j' hl _ _ hj h => ?_
  · -- the second statement only tells the two errors apart
    refine Txn.Tx.wp_query hs hl fun l hl _ _ => ?_
    split
    · exact gives_up
    · split <;> exact gives_up
  · obtain ⟨hw, rfl⟩ := updateWhere_eq_set.mp h
    simp only [Bool.and_eq_true, decide_eq_true_eq] at hw
    exact ⟨rfl, hset l j hl hj hw.1 hw.2⟩

/-! ## Automatic triggers -/

namespace Creator

def Once (pid : ℕ) (w : World) : Prop :=
  w.Lost pid ∨ (Never pid Event.isCommit w ∧ Never pid Event.isReturn w)

theorem lost_record (h : w.Lost pid) : (w.record e).Lost pid := by
  obtain ⟨op, h⟩ := h
  exact ⟨op, List.mem_cons_of_mem _ h⟩

theorem Once.record (h : Once pid w) (he : e.pid = pid → w.Lost pid ∨ (w.record e).Lost pid) :
    Once pid (w.record e) := by
  rcases h with h | ⟨hc, hr⟩
  · exact Or.inl (lost_record h)
  · by_cases hp : e.pid = pid
    · exact Or.inl ((he hp).elim lost_record fun h => h)
    · exact Or.inr ⟨hc.record fun h => absurd h hp, hr.record fun h => absurd h hp⟩

theorem Once.act {q : ℕ} {a : Act} {r : a.Reply} (h : Once pid w) (ha : a.harmless = true) :
    Once pid (w.record (.act q a r)) :=
  h.imp lost_record fun h =>
    ⟨h.1.record fun _ => rfl, h.2.record fun _ => spoken_isReturn.act q a r ha⟩

theorem stable_once : Stable env pid fun l => Once pid l.world := by
  intro l w h hw
  refine hw.preserves (fun a b hs h => ?_) h
  cases hs with
  | @commit q op l _ _ _ _ who =>
    have hrec : Once pid (l.world.record (.commit q op l.world.db l.pend)) :=
      h.record fun hp => Or.inl (who.resolve_left fun hq => hq hp)
    exact hrec
  | act _ who => exact h.record fun hp => Or.inl (who.resolve_left fun hq => hq hp).2
  | asked reads => exact h.act (Act.harmless_of_reads reads)
  | @lost _ _ op who => exact h.record fun hp => Or.inr ⟨op, by rw [← hp]; simp [Txn.Event.pid]⟩
  | tick | bump => exact h

/-- It stays true that the job was not there at that moment. -/
theorem stable_unfound (id : ℕ) :
    Stable env pid fun l => Unfound pid id l.world.db l.world.log := by
  intro l w h hw
  refine hw.preserves (P := fun w => Unfound pid id w.db w.log) (fun a b hs h => ?_) h
  obtain ⟨since, earlier, hlog, hpermit, hnone⟩ := h
  cases hs with
  | commit | act | asked | lost => exact ⟨_ :: since, earlier, congrArg _ hlog, hpermit, hnone⟩
  | tick | bump => exact ⟨since, earlier, hlog, hpermit, hnone⟩

def Timed (pid decisionAt : ℕ) (w : World) : Prop := Once pid w ∧ .act pid .clock decisionAt ∈ w.log

theorem stable_timed (decisionAt : ℕ) :
    Stable env pid fun l => Timed pid decisionAt l.world :=
  stable_once.and fun _ _ h hw => hw.mem_log h

theorem Timed.guarded {decisionAt : ℕ} {r : AutomaticResult} (h : Timed pid decisionAt l.world)
    (hr : r.reason ≠ "not_found") : Guarded pid l (.triggerAutomatic id decisionAt r) := by
  refine ⟨h.1, ?_⟩
  rw [DecidedOn, if_neg hr]
  exact h.2

inductive Handled (id : ℕ) (j : JobDefinition) (decisionAt scheduledAt : ℕ) (l : Loc) :
    AutomaticResult → Prop where
  | passed {reason : String} (locked : LockedJob id j l)
      (why : reason = "misfire_ignored" ∨ reason = "blocked" ∨ reason = "duplicate") :
      Handled id j decisionAt scheduledAt l { reason }
  | created {newId : ℕ} (pend : l.pend = Store.set noWrites .instance newId
        (newInstance (occurrence j decisionAt scheduledAt) newId))
      (locked : jobRow id ∈ l.held ∧ l.world.db .job id = some j)
      (fresh : instanceRow newId ∈ l.held ∧ l.world.db .instance newId = none)
      (free : j.blockPolicy = .discard → NoActive l.world.db id) :
      Handled id j decisionAt scheduledAt l
        { instanceId := newId, created := true, reason := "created" }

theorem stable_handled (id : ℕ) (j : JobDefinition) (decisionAt scheduledAt : ℕ)
    (r : AutomaticResult) :
    Stable env pid fun l => Handled id j decisionAt scheduledAt l r := by
  intro l w h hw
  cases h with
  | passed locked why => exact .passed (stable_lockedJob id j l w locked hw) why
  | created pend locked fresh free =>
    exact .created pend (stable_row .job id (some j) l w locked hw)
      (stable_row .instance _ none l w fresh hw)
      fun hd => (stable_noActive id l w ⟨locked.1, free hd⟩ hw).2

theorem createOccurrence_wp {j : JobDefinition} {decisionAt scheduledAt : ℕ} (hl : LockedJob id j l)
    (hfree : j.blockPolicy = .discard → NoActive l.world.db id) :
    Achieves env pid (createOccurrence j decisionAt scheduledAt)
      (fun r l => Handled id j decisionAt scheduledAt l r) l := by
  have hs : Stable env pid fun l =>
      LockedJob id j l ∧ (j.blockPolicy = .discard → NoActive l.world.db id) := by
    rintro l w ⟨hl, hfree⟩ hw
    exact ⟨stable_lockedJob id j l w hl hw,
      fun hd => (stable_noActive id l w ⟨hl.2.1, hfree hd⟩ hw).2⟩
  refine Txn.Tx.wp_insertRow hs ⟨hl, hfree⟩ (fun l hl => ?_) fun l newId hl hfresh _ => ?_
  · exact Txn.Tx.wp_pure (stable_handled id j decisionAt scheduledAt _)
      (.passed hl.1 (Or.inr (Or.inr rfl))) fun _ h _ _ => h
  · have hout : Handled id j decisionAt scheduledAt (l.add .instance newId
        (newInstance (occurrence j decisionAt scheduledAt) newId))
        { instanceId := newId, created := true, reason := "created" } := by
      obtain ⟨⟨hp, hheld, hrow⟩, hfree⟩ := hl
      refine .created ?_ ⟨Set.mem_insert_of_mem _ (Set.mem_union_left _ hheld), hrow⟩
        ⟨Set.mem_insert _ _, hfresh⟩ hfree
      show Store.set l.pend .instance newId _ = _
      rw [hp]
    exact Txn.Tx.wp_pure (stable_handled id j decisionAt scheduledAt _) hout fun _ h _ _ => h

theorem decideOccurrence_wp {j : JobDefinition} {decisionAt scheduledAt : ℕ} (hl : LockedJob id j l) :
    Achieves env pid (decideOccurrence j id decisionAt scheduledAt)
      (fun r l => Handled id j decisionAt scheduledAt l r) l := by
  unfold decideOccurrence
  split
  · exact Txn.Tx.wp_pure (stable_handled id j decisionAt scheduledAt _) (.passed hl (Or.inl rfl))
      fun _ h _ _ => h
  split
  · refine Txn.Tx.wp_query (stable_lockedJob id j) hl fun l hl hwf _ => ?_
    split
    · exact Txn.Tx.wp_pure (stable_handled id j decisionAt scheduledAt _)
        (.passed hl (Or.inr (Or.inl rfl))) fun _ h _ _ => h
    · next hactive =>
      exact createOccurrence_wp hl fun _ => noActive_of_view hwf hl.1 (by simpa using hactive)
  · next hd => exact createOccurrence_wp hl fun h => absurd h hd

/-- The writes of an automatic trigger make up its effect. -/
theorem advance_wp {j : JobDefinition} {decisionAt scheduledAt next : ℕ} {r : AutomaticResult}
    (hl : Handled id j decisionAt scheduledAt l r ∧ Timed pid decisionAt l.world)
    (hkept : j.deletedAt = none)
    (henabled : j.status = .enabled) (hsched : j.nextTriggerAt = some scheduledAt)
    (hdue : scheduledAt ≤ decisionAt) (hnext : Schedule.next env j.cronExpr decisionAt = .ok next) :
    (advance id next >>= fun _ => pure (r, decisionAt)).wp (contract env)
      pid (fun r l => Settled (contract env) pid (.triggerAutomatic id r.2 r.1) l)
      (fun _ _ => True) l := by
  refine Txn.Tx.wp_bind (writeJob_wp ((stable_handled id j decisionAt scheduledAt r).and
    (stable_timed decisionAt)) hl fun l j' hl hj' _ _ => Txn.Tx.wp_pure_bind ?_)
  obtain ⟨hhandled, htimed⟩ := hl
  cases hhandled with
  | passed locked why =>
    rw [row_of_view locked.1, locked.2.2] at hj'
    cases hj'
    have s1 : Stable env pid _ := (stable_wrote .job id j
      (advanceSet next j)).and (stable_timed decisionAt)
    refine Txn.Tx.wp_pure s1 ⟨.of_write locked.1 ?_, htimed⟩ fun l hl _ _ => ?_
    · rw [row_of_view locked.1]; exact locked.2.2
    refine s1.settled hl fun l hl _ _ => ⟨?_, hl.2.guarded ?_⟩
    swap
    · rcases why with rfl | rfl | rfl <;> simp
    obtain ⟨⟨hp, _, hrow⟩, _⟩ := hl
    rw [hp]
    exact .passed ⟨hrow, hkept, henabled, hsched, hdue, hnext⟩ why
  | @created newId pend locked fresh free =>
    have hview : l.view.rows .job id = some j := by
      show Store.apply l.world.db l.pend .job id = some j
      rw [Store.apply_of_none (by rw [pend]; simp)]
      exact locked.2
    cases hview.symm.trans hj'
    have s1 : Stable env pid fun l => (l.pend = (Store.set noWrites .instance newId
        (newInstance (occurrence j decisionAt scheduledAt) newId)).set .job id
          (advanceSet next j) ∧ Timed pid decisionAt l.world) ∧
        (jobRow id ∈ l.held ∧ l.world.db .job id = some j) ∧
        (instanceRow newId ∈ l.held ∧ l.world.db .instance newId = none) ∧
        (j.blockPolicy = .discard → NoActive l.world.db id) := by
      rintro l w ⟨⟨hp, htimed⟩, hlocked, hfresh, hfree⟩ hw
      exact ⟨⟨hp, stable_timed decisionAt l w htimed hw⟩, stable_row .job id (some j) l w hlocked hw,
        stable_row .instance newId none l w hfresh hw,
        fun hd => (stable_noActive id l w ⟨hlocked.1, hfree hd⟩ hw).2⟩
    refine Txn.Tx.wp_pure s1 ⟨⟨?_, htimed⟩, ⟨Set.mem_insert _ _, locked.2⟩,
      ⟨Set.mem_insert_of_mem _ fresh.1, fresh.2⟩, free⟩ fun l hl _ _ => ?_
    · show Store.set l.pend .job id _ = _
      rw [pend]
    refine s1.settled hl fun l hl _ hinv => ⟨?_, hl.1.2.guarded (by simp)⟩
    obtain ⟨⟨hp, _⟩, ⟨_, hrow⟩, ⟨_, hfresh⟩, hfree⟩ := hl
    rw [hp]
    exact .occurred ⟨hrow, hkept, henabled, hsched, hdue, hnext⟩
      ⟨hrow, hinv.jobId id j hrow, hkept, hfresh, hfree⟩

theorem skip_wp {decisionAt : ℕ} {reason : String} (hs : Stable env pid P) (hl : P l)
    (hpend : ∀ l, P l → l.pend = noWrites)
    (hwhy : ∀ l, P l → NotDue l.world id decisionAt reason)
    (hguard : ∀ l, P l → Guarded pid l (.triggerAutomatic id decisionAt { reason })) :
    Settles env pid (fun r => .triggerAutomatic id r.2 r.1)
      (pure (skip decisionAt reason) : Tx (AutomaticResult × ℕ)) l :=
  Txn.Tx.wp_pure hs hl fun _ hl _ _ => hs.settled hl fun l hl _ _ =>
    ⟨by rw [hpend l hl]; exact .skipped (hwhy l hl), hguard l hl⟩

/-- What an automatic trigger decides under the lock of the job. -/
theorem triggerLocked_wp {j : JobDefinition} {decisionAt : ℕ}
    (hl : LockedJob id j l ∧ Timed pid decisionAt l.world) (hkept : j.deletedAt = none) :
    Settles env pid (fun r => .triggerAutomatic id r.2 r.1)
      (triggerLocked env id j decisionAt) l := by
  have hs : Stable env pid fun l => LockedJob id j l ∧ Timed pid decisionAt l.world :=
    (stable_lockedJob id j).and (stable_timed decisionAt)
  unfold triggerLocked
  split
  · next hne =>
    exact skip_wp hs hl (fun _ h => h.1.1) (fun _ h => .disabled h.1.2.2 hkept hne)
      fun _ h => h.2.guarded (by simp)
  next hen =>
  have late : (∀ t, j.nextTriggerAt = some t → decisionAt < t) →
      Settles env pid (fun r => .triggerAutomatic id r.2 r.1)
        (pure (skip decisionAt "not_due") : Tx (AutomaticResult × ℕ)) l := fun hlate =>
    skip_wp hs hl (fun _ h => h.1.1) (fun _ h => .notDue h.1.2.2 hkept hlate)
      fun _ h => h.2.guarded (by simp)
  split
  · next hnone =>
    refine late fun t ht => ?_
    cases hnone.symm.trans ht
  next scheduledAt hsched =>
  split
  · next hlate =>
    refine late fun t ht => ?_
    cases hsched.symm.trans ht
    exact hlate
  next hdue =>
  split
  · exact gives_up
  next next hnext =>
  refine Txn.Tx.wp_bind (Txn.Tx.wp_mono (fun r l h => ?_) (fun _ _ _ => trivial)
    (Txn.Tx.wp_frame (stable_timed decisionAt).steady hl.2 (decideOccurrence_wp hl.1)))
  exact advance_wp ⟨h.1, h.2.1⟩ hkept (Decidable.not_not.mp hen) hsched (Nat.le_of_not_lt hdue)
    hnext

theorem triggerAutomaticTx_body (id : ℕ) (hw : Once pid w)
    (hpermit : .act pid (.acquire true) true ∈ w.log) :
    Body env pid (fun r => .triggerAutomatic id r.2 r.1) (triggerAutomaticTx env id) w := by
  have s0 : Stable env pid fun l => l.pend = noWrites ∧ Once pid l.world :=
    stable_noWrites.and stable_once
  have s1 : Stable env pid fun l =>
      (l.pend = noWrites ∧ Once pid l.world) ∧ .act pid (.acquire true) true ∈ l.world.log :=
    s0.and fun _ _ h hw => hw.mem_log h
  -- the moment of the locking read is the one the history is to show
  have missing : ∀ l : Loc, (l.pend = noWrites ∧ Once pid l.world) ∧
      .act pid (.acquire true) true ∈ l.world.log →
      (∀ j, l.world.db .job id = some j → j.deletedAt.isSome = true) →
      Settles env pid (fun r => .triggerAutomatic id r.2 r.1)
        (pure (skip 0 "not_found") : Tx (AutomaticResult × ℕ)) l := fun l hl hnone =>
    skip_wp (s0.and (stable_unfound id)) ⟨hl.1, [], l.world.log, rfl, hl.2, hnone⟩
      (fun _ h => h.1.1) (fun _ _ => .notFound) fun _ h => ⟨h.1.2, h.2⟩
  refine Txn.Tx.wp_lockRow s1 ⟨⟨rfl, hw⟩, hpermit⟩ (fun hn => by cases hn) (fun l hl _ _ hnone => ?_)
    fun l j hl _ _ hj => ?_
  · refine missing l hl fun j hj => ?_
    rw [row_of_view hl.1.1, hj] at hnone
    cases hnone
  have hlocked : LockedJob id j (l.hold (jobRow id)) := .of_hold hl.1.1 hj
  dsimp only
  split
  · next hdel =>
    refine missing _ ⟨⟨hlocked.1, hl.1.2⟩, hl.2⟩ fun j' hj' => ?_
    cases hlocked.2.2.symm.trans hj'
    exact hdel
  next hkept =>
  exact Txn.Tx.wp_input ((stable_lockedJob id j).and stable_once) ⟨hlocked, hl.1.2⟩ rfl
    (fun _ _ => trivial) fun decisionAt l hl hclock =>
      triggerLocked_wp ⟨hl.1, hl.2, hclock⟩ (by simpa using hkept)

def Uncommitted (pid : ℕ) (w : World) : Prop := w.Lost pid ∨ Never pid Event.isCommit w

theorem Uncommitted.record (h : Uncommitted pid w)
    (he : e.pid = pid → Event.isCommit e = false ∨ w.Lost pid) : Uncommitted pid (w.record e) := by
  rcases h with h | h
  · exact Or.inl (lost_record h)
  · by_cases hp : e.pid = pid
    · exact (he hp).elim (fun hc => Or.inr (h.record fun _ => hc)) fun hl => Or.inl (lost_record hl)
    · exact Or.inr (h.record fun h => absurd h hp)

theorem steady_uncommitted : Steady env pid (Uncommitted pid) := by
  refine .of_step fun w w' hs h => ?_
  cases hs with
  | @commit q op l _ _ _ _ who =>
    have hrec : Uncommitted pid (l.world.record (.commit q op l.world.db l.pend)) :=
      h.record fun hp => Or.inr (who.resolve_left fun hq => hq hp)
    exact hrec
  | act | asked | lost => exact h.record fun _ => Or.inl rfl
  | tick | bump => exact h

theorem acquire_keeps {R : World → Prop} (hR : Steady env pid R)
    (hact : ∀ (w : World) (a : Act) r, a.harmless = true → R w → R (w.record (.act pid a r)))
    (wait : Bool) : Triple env pid R (acquire wait)
      fun r w => R w ∧ r ≠ .error .requestConflict ∧
        (r = .ok () → .act pid (.acquire wait) true ∈ w.log) := by
  refine .bind (Triple.perform_of rfl hR fun w r => hact w .expired r rfl) fun late => ?_
  split
  · exact .pure hR fun _ h => ⟨h, by simp [expired]⟩
  have asked : Triple env pid R (perform (.acquire wait)) fun got w =>
      R w ∧ .act pid (.acquire wait) got ∈ w.log := by
    intro w hw
    refine Txn.Proc.wp_act hR hw fun w hw _ got => ⟨trivial, ?_⟩
    exact Txn.Proc.wp_ret (hR.and (.mem_log _)) ⟨hact w _ got rfl hw, List.mem_cons_self⟩ fun _ h => h
  refine .bind asked fun got => ?_
  split
  · next hgot =>
    subst hgot
    exact .pure (hR.and (.mem_log _)) fun _ h => ⟨h.1, by simp, fun _ => h.2⟩
  · exact .pure (hR.and (.mem_log _)) fun _ h => ⟨h.1, by cases wait <;> simp [expired]⟩

def Answered (pid id : ℕ) (w : World) : Except Err (AutomaticResult × ℕ) → Prop
  | .ok r => Committed pid (.triggerAutomatic id r.2 r.1) w
  | .error _ => Uncommitted pid w

theorem transactAutomatic_keeps (id : ℕ) :
    Triple env pid (fun w => (Never pid Event.isReturn w ∧ Uncommitted pid w) ∧
        .act pid (.acquire true) true ∈ w.log)
      (transact (fun r => .triggerAutomatic id r.2 r.1) (triggerAutomaticTx env id))
      fun r w => Never pid Event.isReturn w ∧ Answered pid id w r := by
  intro w hw
  have unreturned : Fact env pid (Never pid Event.isReturn) := Fact.unreturned
  have hR : Steady env pid fun w => Never pid Event.isReturn w ∧ Uncommitted pid w :=
    unreturned.steady.and steady_uncommitted
  refine Txn.Proc.wp_transact (G := fun _ _ => True) (hR.and (.mem_log _)) unreturned.steady hw
    (fun l a h hc => unreturned.commit l _ hc h.1.1)
    (fun w a h => unreturned.lost w _ (h.elim (fun h => h.1.1) fun h => h))
    (fun w hw _ _ => Txn.Tx.wp_mono (fun _ _ h => ⟨h, trivial⟩) (fun _ _ _ => trivial)
      (triggerAutomaticTx_body id ?_ hw.2)) ?_ ?_ ?_ ?_
  · exact hw.1.2.imp (fun h => h) fun h => ⟨h, hw.1.1⟩
  · intro a l hl hc _
    exact Txn.Proc.wp_ret (unreturned.and (Committed.fact _)).steady
      ⟨unreturned.commit l _ hc hl.1.1, Committed.self l _⟩ fun _ h => h
  · exact fun e w hw _ => Txn.Proc.wp_ret hR hw.1 fun _ h => h
  · exact fun f w hw => Txn.Proc.wp_ret hR hw.1 fun _ h => h
  · intro f w hw hlost
    exact Txn.Proc.wp_ret hR ⟨hw, Or.inl hlost⟩ fun _ h => h

/-- `TriggerAutomatic` keeps the contract. -/
theorem triggerAutomatic_keeps (id : ℕ) :
    Triple env pid (fun w => Never pid Event.isReturn w ∧ Never pid Event.isCommit w)
      (triggerAutomatic env id) fun _ _ => True := by
  have unreturned : Fact env pid (Never pid Event.isReturn) := Fact.unreturned
  have hR : Steady env pid fun w => Never pid Event.isReturn w ∧ Uncommitted pid w :=
    unreturned.steady.and steady_uncommitted
  have failed : ∀ e : Err, Triple env pid
      (fun w => Never pid Event.isReturn w ∧ Uncommitted pid w) (pure (.error e))
      fun r w => Never pid Event.isReturn w ∧ Justified pid w (.automatic id r) := fun e =>
    .pure hR fun _ h => h
  refine Txn.Proc.Triple.mono (Triple.returning
    ?_ ?_ ?_ fun _ _ h => h) (fun w h => (⟨h.1, Or.inr h.2⟩ : _ ∧ Uncommitted pid w))
    fun _ _ _ => trivial
  · split
    · exact failed _
    refine .bind (acquire_keeps hR (fun w a r ha h => ⟨unreturned.act w a r ha h.1,
      h.2.record fun _ => Or.inl rfl⟩) true) fun permit => ?_
    cases permit with
    | error e => exact (failed e).mono (fun _ h => h.1) fun _ _ h => h
    | ok =>
      refine .bind ((transactAutomatic_keeps id).mono (fun _ h => ⟨h.1, h.2.2 rfl⟩)
        fun _ _ h => h) fun r => ?_
      cases r with
      | error e => exact failed e
      | ok r =>
        have hfact : Fact env pid _ :=
          unreturned.and (Committed.fact (.triggerAutomatic id r.2 r.1))
        have answer : ∀ w, Committed pid (.triggerAutomatic id r.2 r.1) w →
            Justified pid w (.automatic id (.ok r.1)) := fun w ⟨before, writes, h⟩ =>
          ⟨r.2, before, writes, h⟩
        dsimp only
        split
        · exact .bind (Triple.perform rfl hfact) fun _ =>
            .pure hfact.steady fun w h => ⟨h.1, answer w h.2⟩
        · exact .pure hfact.steady fun w h => ⟨h.1, answer w h.2⟩
  · intro r
    cases r with
    | error => exact steady_uncommitted
    | ok =>
      rintro w _ hw ⟨decisionAt, before, writes, h⟩
      exact ⟨decisionAt, before, writes, hw.mem_log h⟩
  · intro r w h
    cases r with
    | error => exact Uncommitted.record h fun _ => Or.inl rfl
    | ok =>
      obtain ⟨decisionAt, before, writes, h⟩ := h
      exact ⟨decisionAt, before, writes, List.mem_cons_of_mem _ h⟩

end Creator

end Dogx.Job
