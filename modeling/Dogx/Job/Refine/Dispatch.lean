import Dogx.Job.Refine.Facts

/-!
# Registering, sending and answering within the contract

A registration, and a conditional update of one task, take effect in one step.
-/

namespace Dogx.Job

open Txn (Stable Settled Verdict Store Loc.start)
open JobTaskRepository JobInstanceRepository

variable {env : Env} {pid id : ℕ} {R : World → Prop} {c c' : ExecutionConfig} {i : JobInstance}
  {l : Loc} {α : Type} {Q : α → Loc → Prop} {P : Loc → Prop} {b : RetryRegistration}

/-! ## Answers -/

theorem always (db db' : Db) (_ : Db.Follows db db') (h : True) : True := h

theorem writeTask_keeps {label : Bool → Op} {taskId : ℕ} {f : View → JobTask → Verdict JobTask}
    {Φ : Db → Prop} (hΦ : ∀ db db', Db.Follows db db' → Φ db → Φ db')
    (hquiet : (label false).quiet = true) (hguard : ∀ b (l : Loc), Guarded pid l (label b))
    (hset : ∀ v t t', f v t = .set t' → t'.keys = t.keys ∧
      ∀ w : World, w.db .task taskId = some t → Φ w.db → TaskUpdate w (label true) taskId t t') :
    Triple env pid (fun w => Φ w.db) (writeTask label taskId f) fun _ w => Φ w.db :=
  (Triple.transact (Fact.db hΦ) (fun _ => always)
    (fun _ hw _ _ => writeTask_body hΦ hquiet hguard hset hw) (fun _ _ _ _ => trivial)).mono
    (fun _ h => h) fun _ _ h => h.1

theorem bindExecutor_keeps (b : ExecutorBinding) :
    Triple env pid (fun _ => True) (bindExecutor env b) fun _ _ => True := by
  unfold bindExecutor
  split
  · exact .pure .anything fun _ h => h
  · refine writeTask_keeps (Φ := fun _ => True) always rfl (fun _ _ => trivial) ?_
    intro v t t' h
    obtain ⟨hw, rfl⟩ := updateWhere_eq_set.mp h
    exact ⟨rfl, fun _ _ _ => .bound hw⟩

theorem saveDispatchBusy_keeps (b : DispatchBusyWrite) :
    Triple env pid (fun _ => True) (saveDispatchBusy b) fun _ _ => True := by
  unfold saveDispatchBusy
  split
  · exact .pure .anything fun _ h => h
  · refine writeTask_keeps (Φ := fun _ => True) always rfl (fun _ _ => trivial) ?_
    intro v t t' h
    obtain ⟨hw, rfl⟩ := updateWhere_eq_set.mp h
    exact ⟨rfl, fun _ _ _ => .busy hw⟩

def Policy (id : ℕ) (maxRetries : Int) (db : Db) : Prop :=
  ∃ i, db .instance id = some i ∧ i.executionConfig.maxRetries = maxRetries

theorem Policy.follows {n : Int} (db db' : Db) (hf : Db.Follows db db') (h : Policy id n db) :
    Policy id n db' := by
  obtain ⟨i, hi, hn⟩ := h
  obtain ⟨i', hi', hf'⟩ := hf.round id i hi
  exact ⟨i', hi', by rw [hf'.executionConfig]; exact hn⟩

theorem saveDispatchRejection_keeps (b : DispatchRejectionWrite) :
    Triple env pid (fun w => Policy b.instanceId b.maxRetries w.db) (saveDispatchRejection b)
      fun _ w => Policy b.instanceId b.maxRetries w.db := by
  unfold saveDispatchRejection
  split
  · exact .pure (Fact.db Policy.follows).steady fun _ h => h
  · refine writeTask_keeps Policy.follows rfl (fun _ _ => trivial) ?_
    intro v t t' h
    obtain ⟨hw, rfl⟩ := updateWhere_eq_set.mp h
    refine ⟨rfl, fun w _ hp => ?_⟩
    obtain ⟨i, hi, hn⟩ := hp
    exact .rejected hw hi hn

/-! ## Registration -/

theorem decodeConfig_eq (h : Registrar.decodeConfig c = .ok c') : c' = c := by
  unfold Registrar.decodeConfig at h
  split at h
  · cases h
  · split at h
    · cases h; rfl
    · split at h <;> cases h; rfl

theorem ordinary_of_decode (h : Registrar.decodeConfig c = .ok c')
    (hm : ¬ c'.executionMode = .sharded) : c.Ordinary := by
  obtain rfl := decodeConfig_eq h
  refine ⟨h, ?_⟩
  cases hc : c'.executionMode with
  | normal => rfl
  | sharded => exact absurd hc hm

def LockedRound (id : ℕ) (i : JobInstance) (l : Loc) : Prop :=
  l.pend = noWrites ∧ instanceRow id ∈ l.held ∧ l.world.db .instance id = some i

theorem stable_lockedRound (id : ℕ) (i : JobInstance) :
    Stable env pid (LockedRound id i) :=
  stable_noWrites.and (stable_row .instance id (some i))

theorem LockedRound.of_hold (hp : l.pend = noWrites) (hi : l.view.rows .instance id = some i) :
    LockedRound id i (l.hold (instanceRow id)) :=
  ⟨hp, Set.mem_insert _ _, by rwa [row_of_view hp] at hi⟩

theorem wp_lockForExecution {f : Option JobInstance → Tx α} (hl : l.pend = noWrites)
    (hnone : ∀ l, l.pend = noWrites → Achieves env pid (f none) Q l)
    (hsome : ∀ l i, LockedRound id i l → Inv l.world →
      Achieves env pid (f (some i)) Q l) :
    Achieves env pid (lockForExecution id >>= f) Q l :=
  Txn.Tx.wp_lockRow stable_noWrites hl (fun _ _ _ => gives_up) (fun l hl _ _ _ => hnone l hl)
    fun _ i hl _ hinv hi => hsome _ i (.of_hold hl hi) hinv

theorem wp_insertOrdinary {f : ℕ → Tx α} {startedAt : ℕ} (hs : Stable env pid P)
    (hP : P l)
    (h : ∀ l taskId, P l → l.world.db .task taskId = none →
      Achieves env pid (f taskId) Q (l.add .task taskId (ordinaryTask id startedAt taskId))) :
    Achieves env pid (insertOrdinary id startedAt >>= f) Q l := by
  unfold insertOrdinary
  split
  · exact gives_up
  · exact Txn.Tx.wp_insertRow hs hP (fun _ _ => gives_up) fun l taskId hl hn _ => h l taskId hl hn

def Started (id taskId startedAt : ℕ) (i : JobInstance) (l : Loc) : Prop :=
  l.pend = (Store.set noWrites .instance id (startSet startedAt
      (addSeconds startedAt i.executionConfig.timeoutSeconds) i)).set
        .task taskId (ordinaryTask id startedAt taskId) ∧
    (instanceRow id ∈ l.held ∧ l.world.db .instance id = some i) ∧
    (taskRow taskId ∈ l.held ∧ l.world.db .task taskId = none) ∧
    startedAt ≤ l.world.now

theorem stable_started (id taskId startedAt : ℕ) (i : JobInstance) :
    Stable env pid (Started id taskId startedAt i) :=
  (Stable.own fun pend _ => pend = _).and
    ((stable_row .instance id (some i)).and ((stable_row .task taskId none).and (Stable.now _)))

/-- The writes of a first start make up its effect. -/
theorem beginExecution_wp (hl : LockedRound id i l) (hid : i.id = id) (hs : startWhere i = true)
    (hc : i.executionConfig.Ordinary) :
    Settles env pid (.startOrdinary id) (Registrar.beginExecution id i i.executionConfig) l := by
  refine Txn.Tx.wp_query (stable_lockedRound id i) hl fun l hl _ _ => ?_
  -- the clock is read once; it has not gone back when the transaction commits
  generalize hnow : databaseTime l.view = startedAt
  have hpast : startedAt ≤ l.world.now := by rw [← hnow]; exact Nat.le_refl _
  split
  · exact gives_up
  have s1 : Stable env pid fun l => LockedRound id i l ∧ startedAt ≤ l.world.now :=
    (stable_lockedRound id i).and (Stable.now startedAt)
  refine Txn.Tx.wp_updateRow s1 ⟨hl, hpast⟩ (fun l hl _ _ hskip => ?_)
    fun l r r' hl _ _ hr hset => ?_
  · -- the round is locked and waiting, so the update finds it
    have := hskip i (by rw [row_of_view hl.1.1]; exact hl.1.2.2)
    rw [updateWhere_eq_skip, hs] at this
    cases this
  have hi : r = i := by
    rw [row_of_view hl.1.1, hl.1.2.2] at hr
    exact (Option.some.inj hr).symm
  subst hi
  obtain ⟨_, rfl⟩ := updateWhere_eq_set.mp hset
  refine ⟨rfl, ?_⟩
  have s2 : Stable env pid _ := (stable_wrote .instance id r
    (startSet startedAt (addSeconds startedAt r.executionConfig.timeoutSeconds) r)).and
    (Stable.now startedAt)
  refine wp_insertOrdinary s2 ⟨.of_write hl.1.1 hr, hl.2⟩ fun l taskId hl hfresh => ?_
  split
  · exact gives_up
  have hdone : Started id taskId startedAt r
      (l.add .task taskId (ordinaryTask id startedAt taskId)) := by
    obtain ⟨⟨hp, hheld, hrow⟩, hpast⟩ := hl
    refine ⟨by rw [← hp]; rfl, ⟨?_, hrow⟩, ⟨Set.mem_insert _ _, hfresh⟩, hpast⟩
    exact Set.mem_insert_of_mem _ (Set.mem_union_left _ hheld)
  refine Txn.Tx.wp_pure (stable_started id taskId startedAt r) hdone fun l hl _ _ => ?_
  refine (stable_started id taskId startedAt r).settled hl fun l hl _ _ => ⟨?_, trivial⟩
  obtain ⟨hp, ⟨_, hrow⟩, ⟨_, hfresh⟩, hpast⟩ := hl
  have hstart : Starts l.world id r startedAt taskId := ⟨hrow, hid, hs, hc, hpast, hfresh⟩
  rw [hp]
  subst hid
  exact .started hstart

theorem startOrdinaryTx_body (id : ℕ) (w : World) :
    Body env pid (.startOrdinary id) (Registrar.startOrdinaryTx id) w := by
  have nothing : ∀ l : Loc, l.pend = noWrites → (pure none : Tx (Option RegisteredAttempt)).wp
      (contract env) pid (fun a l => Settled (contract env) pid (.startOrdinary id a) l)
      (fun _ _ => True) l := fun l hl =>
    Txn.Tx.wp_pure stable_noWrites hl fun _ hl _ _ => settled_quiet hl rfl fun _ => trivial
  refine wp_lockForExecution rfl nothing fun l i hl _ => ?_
  dsimp only
  split
  · exact nothing l hl.1
  next hwait =>
  split
  · exact gives_up
  next hvalid =>
  split
  · exact gives_up
  next config hc =>
  split
  · exact nothing l hl.1
  next hmode =>
  split
  · exact gives_up
  obtain rfl := decodeConfig_eq hc
  have hs : startWhere i = true := by
    simp only [not_or, Bool.not_eq_true, Option.isSome_eq_false_iff, Option.isNone_iff_eq_none,
      Decidable.not_not] at hvalid hwait
    simp [startWhere, hwait, hvalid]
  exact beginExecution_wp hl (Decidable.not_not.mp fun h => hvalid (Or.inl h)) hs (ordinary_of_decode hc hmode)

theorem set_of_registerUpdate {v : View} {t t' : JobTask} (h : registerUpdate b v t = .set t') :
    registerWhere b t = true ∧ t' = registerSet b t := by
  unfold registerUpdate at h
  split at h
  · next hw =>
    split at h
    · cases h
    · cases h; exact ⟨hw, rfl⟩
  · cases h

def registeredTask (b : RetryRegistration) (t : JobTask) : RegisteredTask :=
  { taskId := t.id, instanceId := t.instanceId, attemptNo := t.attemptNo + 1
    usedAttempts := t.usedAttempts + 1, registeredAt := b.registeredAt }

theorem wp_registerOrdinaryRetry {f : Option RegisteredTask → Tx α}
    (hs : Stable env pid P) (hP : P l)
    (hnone : ∀ l, P l → Achieves env pid (f none) Q l)
    (hsome : ∀ l t, P l → l.view.rows .task b.taskId = some t → registerWhere b t = true →
      Achieves env pid (f (some (registeredTask b t))) Q
        (l.write .task b.taskId (registerSet b t))) :
    Achieves env pid (registerOrdinaryRetry b >>= f) Q l := by
  unfold registerOrdinaryRetry
  split
  · exact gives_up
  refine Txn.Tx.wp_updateRow hs hP (fun l hl _ _ _ => hnone l hl) fun l t t' hl _ _ ht hset => ?_
  obtain ⟨hwhere, rfl⟩ := set_of_registerUpdate hset
  exact ⟨rfl, hsome l t hl ht hwhere⟩

/-- The writes of a retry make up its effect. -/
theorem registerRetry_wp {c : RetryCandidate} {registeredAt deadlineAt : ℕ}
    (hl : LockedRound c.instanceId i l ∧ registeredAt ≤ l.world.now) (hid : i.id = c.instanceId)
    (hopen : Open i registeredAt deadlineAt) (hc : i.executionConfig.Ordinary) :
    Settles env pid (.retryOrdinary c)
      (Registrar.registerRetry c i i.executionConfig registeredAt deadlineAt) l := by
  have s0 : Stable env pid fun l =>
      LockedRound c.instanceId i l ∧ registeredAt ≤ l.world.now :=
    (stable_lockedRound c.instanceId i).and (Stable.now registeredAt)
  refine wp_registerOrdinaryRetry s0 hl
    (fun l hl => ?_) fun l t hl ht hwhere => ?_
  · exact Txn.Tx.wp_pure s0 hl fun l hl _ _ => settled_quiet hl.1.1 rfl fun _ => trivial
  dsimp only
  split
  · exact gives_up
  next hfacts =>
  have s1 : Stable env pid _ := (stable_wrote .task c.taskId t
    (registerSet (retryRegistration c i registeredAt) t)).and
      ((stable_row .instance c.instanceId (some i)).and (Stable.now registeredAt))
  refine Txn.Tx.wp_pure s1 ⟨.of_write hl.1.1 ht, ⟨?_, hl.1.2.2⟩, hl.2⟩ fun l hl _ _ => ?_
  · exact Set.mem_insert_of_mem _ hl.1.2.1
  refine s1.settled hl fun l hl _ _ => ⟨?_, trivial⟩
  obtain ⟨⟨hp, _, htask⟩, ⟨_, hround⟩, hpast⟩ := hl
  -- the update named the attempt before, so the new one is its successor
  have hnext : nextAttempt c i registeredAt deadlineAt =
      { jobId := i.jobId, instanceId := i.id, executorGroupId := i.executorGroupId, taskId := t.id
        attemptNo := t.attemptNo + 1, executionConfig := i.executionConfig, registeredAt
        deadlineAt } := by
    simp only [registeredTask] at hfacts
    simp only [nextAttempt, RegisteredAttempt.mk.injEq, true_and, and_true]
    omega
  have heff : Effect env l.world _ _ := .task htask (.retried hround hid hopen hc hpast hwhere)
  rw [hnext] at heff
  rw [hp]
  exact heff

theorem retryOrdinaryTx_body (c : RetryCandidate) (w : World) :
    Body env pid (fun r => .retryOrdinary c r.1) (Registrar.retryOrdinaryTx c) w := by
  have nothing : ∀ (l : Loc) b, l.pend = noWrites →
      Settles env pid (fun r => .retryOrdinary c r.1)
        (pure (none, b) : Tx (Option RegisteredAttempt × Bool)) l :=
    fun l b hl =>
      Txn.Tx.wp_pure stable_noWrites hl fun _ hl _ _ => settled_quiet hl rfl fun _ => trivial
  refine wp_lockForExecution rfl (fun l => nothing l false) fun l i hl _ => ?_
  dsimp only
  split
  · exact gives_up
  next hid =>
  split
  · exact nothing l _ hl.1
  next hrun =>
  refine Txn.Tx.wp_query (stable_lockedRound c.instanceId i) hl fun l hl _ hinv => ?_
  generalize hnow : databaseTime l.view = registeredAt
  have hpast : registeredAt = l.world.now := hnow.symm
  split
  next startedAt deadlineAt hs hd =>
    split
    · exact gives_up
    split
    · exact nothing l _ hl.1
    next hbefore =>
    split
    · exact gives_up
    next config hc =>
    split
    · exact nothing l _ hl.1
    next hmode =>
    obtain rfl := decodeConfig_eq hc
    have hopen : Open i registeredAt deadlineAt :=
      ⟨Decidable.not_not.mp hrun, ⟨startedAt, hs, hpast ▸ hinv.started _ i _ hl.2.2 hs⟩, hd,
        Decidable.not_not.mp hbefore⟩
    refine Txn.Tx.wp_bind (Txn.Tx.wp_mono (fun a l h => ?_) (fun _ _ h => h)
      (registerRetry_wp ⟨hl, hpast.le⟩ (Decidable.not_not.mp hid) hopen
        (ordinary_of_decode hc hmode)))
    exact fun w hw hwf hinv w' hw' => h w' (hw.leave.trans hw')
  · exact gives_up

/-! ## The calls -/

theorem Effect.retried_inv {w : World} {writes : Db} {c : RetryCandidate} {a : RegisteredAttempt}
    (h : Effect env w (.retryOrdinary c (some a)) writes) :
    ∃ i registeredAt deadlineAt t, a = nextAttempt c i registeredAt deadlineAt ∧
      w.db .instance c.instanceId = some i ∧ i.id = c.instanceId ∧
      w.db .task c.taskId = some t ∧
      registerWhere (retryRegistration c i registeredAt) t = true ∧
      writes = Store.set noWrites .task c.taskId
        (registerSet (retryRegistration c i registeredAt) t) := by
  cases h with
  | quiet h => simp [Op.quiet] at h
  | task row h =>
    cases h with
    | retried parent ids _ _ _ waiting => exact ⟨_, _, _, _, rfl, parent, ids, row, waiting, rfl⟩
  | round _ h => cases h
  | job _ h => cases h

def Registers (pid : ℕ) (r : Except Err (Option RegisteredAttempt)) (w : World) : Prop :=
  ∀ a, r = .ok (some a) → (∃ op, op.registers = some a ∧ Committed pid op w) ∧
    Policy a.instanceId a.executionConfig.maxRetries w.db

theorem Registers.of_nothing {r : Except Err (Option RegisteredAttempt)} {w : World}
    (h : ∀ a, r ≠ .ok (some a)) : Registers pid r w :=
  fun a ha => absurd ha (h a)

theorem Registers.fact (r : Except Err (Option RegisteredAttempt)) :
    Fact env pid (Registers pid r) where
  steady := fun w w' hw h a ha =>
    ⟨(h a ha).1.imp fun op ho => ⟨ho.1, (Committed.fact op).steady w w' hw ho.2⟩,
      Policy.follows _ _ (rely_follows hw) (h a ha).2⟩
  commit := fun l op hc h a ha =>
    ⟨(h a ha).1.imp fun op' ho => ⟨ho.1, (Committed.fact op').commit l op hc ho.2⟩,
      Policy.follows _ _ hc.1.follows (h a ha).2⟩
  lost := fun _ _ h a ha =>
    ⟨(h a ha).1.imp fun _ ho => ⟨ho.1, Committed.record ho.2⟩, (h a ha).2⟩
  act := fun _ _ _ _ h a ha =>
    ⟨(h a ha).1.imp fun _ ho => ⟨ho.1, Committed.record ho.2⟩, (h a ha).2⟩

def Backed (r : Option RegisteredAttempt) (db : Db) : Prop :=
  ∀ a, r = some a → Policy a.instanceId a.executionConfig.maxRetries db

theorem Backed.follows {r : Option RegisteredAttempt} (db db' : Db) (hf : Db.Follows db db')
    (h : Backed r db) : Backed r db' :=
  fun a ha => Policy.follows db db' hf (h a ha)

/-- `StartOrdinary` keeps the contract, and registers what it returns. -/
theorem startOrdinary_keeps (hR : Fact env pid R) (id : ℕ) :
    Triple env pid R (Registrar.startOrdinary id) fun r w => R w ∧ Registers pid r w := by
  unfold Registrar.startOrdinary
  split
  · exact .pure hR.steady fun w hw => ⟨hw, .of_nothing (by simp)⟩
  refine Triple.inTime hR (.pure hR.steady fun w hw => ⟨hw, .of_nothing (by simp)⟩) ?_
  refine (Triple.transact (D := Backed) hR (fun _ => Backed.follows)
    (fun w _ _ _ => startOrdinaryTx_body id w) ?_).mono (fun _ h => h) ?_
  · rintro r w _ h a rfl
    obtain ⟨i, _, _, rfl, hs, _⟩ := h.started_inv
    have hrow : w.db .instance i.id = some i := by rw [hs.ids]; exact hs.row
    exact Policy.follows _ _ h.follows ⟨i, hrow, rfl⟩
  · rintro r w ⟨hw, h⟩
    refine ⟨hw, fun a ha => ?_⟩
    obtain ⟨hcom, hpol⟩ := h (some a) ha
    exact ⟨⟨_, rfl, hcom⟩, hpol a rfl⟩

/-- `RetryOrdinary` keeps the contract, and registers what it returns. -/
theorem retryOrdinary_keeps (hR : Fact env pid R) (c : RetryCandidate) :
    Triple env pid R (Registrar.retryOrdinary c) fun r w => R w ∧ Registers pid r w := by
  unfold Registrar.retryOrdinary
  split
  · exact .pure hR.steady fun w hw => ⟨hw, .of_nothing (by simp)⟩
  refine Triple.inTime hR (.pure hR.steady fun w hw => ⟨hw, .of_nothing (by simp)⟩) ?_
  have tx : Triple env pid R (transact (fun r => .retryOrdinary c r.1)
      (Registrar.retryOrdinaryTx c)) fun r w => R w ∧ Registers pid (r.map Prod.fst) w := by
    refine (Triple.transact (D := fun r => Backed r.1) hR (fun _ => Backed.follows)
      (fun w _ _ _ => retryOrdinaryTx_body c w) ?_).mono (fun _ h => h) ?_
    · rintro ⟨r, b⟩ w _ h a rfl
      obtain ⟨i, _, _, t, rfl, hi, hid, _⟩ := h.retried_inv
      have hrow : w.db .instance i.id = some i := by rw [hid]; exact hi
      exact Policy.follows _ _ h.follows ⟨i, hrow, rfl⟩
    · rintro r w ⟨hw, h⟩
      refine ⟨hw, fun a ha => ?_⟩
      cases r with
      | error => simp [Except.map] at ha
      | ok r =>
        obtain ⟨hcom, hpol⟩ := h r rfl
        simp only [Except.map, Except.ok.injEq] at ha
        exact ⟨⟨.retryOrdinary c r.1, ha, hcom⟩, hpol a ha⟩
  refine .bind tx fun r => ?_
  cases r with
  | error => exact .pure (hR.and (Registers.fact _)).steady fun w hw => hw
  | ok r =>
    have hfact : Fact env pid _ := hR.and (Registers.fact (.ok r.1))
    dsimp only
    split
    · refine .bind (Triple.perform rfl hfact) fun _ => ?_
      exact .pure hfact.steady fun w hw => hw
    · exact .pure hfact.steady fun w hw => hw

theorem registered_keeps {p : Proc (Except Err (Option RegisteredAttempt))}
    (hp : ∀ R, Fact env pid R → Triple env pid R p fun r w => R w ∧ Registers pid r w) :
    Triple env pid (fun w => Never pid Event.isReturn w ∧ Never pid Event.isSend w)
      (returning .registered p) fun r w => (Never pid Event.isSend w ∧ Registers pid r w) ∧
        .act pid (.returned (.registered r)) () ∈ w.log := by
  refine Triple.returning ((hp _ (Fact.unreturned.and Fact.unsent)).mono (fun _ h => h)
    fun r w h => ⟨h.1.1, h.1.2, h.2⟩) (fun r => Fact.unsent.steady.and (Registers.fact r).steady)
    ?_ ?_
  · rintro r w ⟨hs, hr⟩
    refine ⟨hs.record fun _ => rfl, fun a ha => ⟨?_, (hr a ha).2⟩⟩
    obtain ⟨op, ho, before, writes, hmem⟩ := (hr a ha).1
    exact ⟨op, ho, before, writes, List.mem_cons_of_mem _ hmem⟩
  · rintro r w ⟨_, hr⟩
    match r with
    | .error _ => trivial
    | .ok none => trivial
    | .ok (some a) =>
      obtain ⟨op, ho, before, writes, hmem⟩ := (hr a rfl).1
      exact ⟨op, before, writes, hmem, ho⟩

namespace Dispatcher

def ResponseWrite.Backed : ResponseWrite → Db → Prop
  | .rejection b, db => Policy b.instanceId b.maxRetries db
  | _, _ => True

theorem ResponseWrite.Backed.follows {write : ResponseWrite} (db db' : Db)
    (hf : Db.Follows db db') (h : write.Backed db) : write.Backed db' := by
  cases write with
  | bind | busy => trivial
  | rejection => exact Policy.follows db db' hf h

theorem code_keeps (write : ResponseWrite) :
    Triple env pid (fun w => write.Backed w.db) (write.code env) fun _ w => write.Backed w.db := by
  cases write with
  | bind b => exact bindExecutor_keeps b
  | busy b => exact saveDispatchBusy_keeps b
  | rejection b => exact saveDispatchRejection_keeps b

theorem saveResponse_keeps (write : ResponseWrite) (n : ℕ) :
    Triple env pid (fun w => write.Backed w.db) (saveResponse (write.code env) n)
      fun _ _ => True := by
  have hfact : Fact env pid fun w => write.Backed w.db := Fact.db ResponseWrite.Backed.follows
  induction n with
  | zero =>
    unfold saveResponse
    refine Triple.inTime hfact (.done _) ?_
    refine .bind (code_keeps write) fun r => ?_
    split
    · exact .done _
    · split <;> exact .done _
  | succ n ih =>
    unfold saveResponse
    refine Triple.inTime hfact (.done _) ?_
    refine .bind (code_keeps write) fun r => ?_
    split
    · exact .done _
    split
    · exact .done _
    refine .bind (Triple.perform rfl hfact) fun cut => ?_
    split
    · exact .done _
    · exact ih

theorem responseWrite_keeps (busyDelay : ℕ) (a : RegisteredAttempt) (r : Response) :
    Triple env pid (fun w => Policy a.instanceId a.executionConfig.maxRetries w.db)
      (responseWrite busyDelay a r) fun r w => ∀ write, r = .ok (some write) →
        write.Backed w.db := by
  have hfact : Fact env pid fun w => Policy a.instanceId a.executionConfig.maxRetries w.db :=
    Fact.db Policy.follows
  unfold responseWrite
  split
  · exact .pure hfact.steady fun _ _ _ h => by cases h; trivial
  · refine .bind (Triple.perform rfl hfact) fun random => ?_
    exact .pure hfact.steady fun _ _ _ h => by cases h; trivial
  · exact .pure hfact.steady fun _ hw _ h => by cases h; exact hw
  · exact .pure hfact.steady fun _ _ _ h => by cases h
  · exact .pure hfact.steady fun _ _ _ h => by cases h

theorem handleResponse_keeps (busyDelay : ℕ) (a : RegisteredAttempt) (r : Response) :
    Triple env pid (fun w => Policy a.instanceId a.executionConfig.maxRetries w.db)
      (handleResponse env busyDelay a r) fun _ _ => True := by
  refine .bind (responseWrite_keeps busyDelay a r) fun chosen => ?_
  match chosen with
  | .error _ => exact .done _
  | .ok none => exact .done _
  | .ok (some write) =>
    refine .bind ((saveResponse_keeps write _).mono (fun w h => h write rfl) fun _ _ h => h)
      fun saved => ?_
    match saved with
    | .error _ => exact .done _
    | .ok applied =>
      dsimp only
      split
      · exact .bind (Triple.perform rfl .anything) fun _ => .done _
      · exact .done _

/--
A dispatch sends what its registration returned, after it returned, and only once. A registration
that returned an error or nothing is not followed by a send.
-/
theorem dispatch_keeps (busyDelay : ℕ) {register : Proc (Except Err (Option RegisteredAttempt))}
    (hr : ∀ R, Fact env pid R → Triple env pid R register fun r w => R w ∧ Registers pid r w) :
    Triple env pid (fun w => Never pid Event.isReturn w ∧ Never pid Event.isSend w)
      (dispatch env busyDelay (returning .registered register)) fun _ _ => True := by
  refine Triple.inTime (Fact.unreturned.and Fact.unsent) (.done _) ?_
  refine .bind (registered_keeps hr) fun r => ?_
  rcases r with _ | _ | a
  · exact .done _
  · exact .done _
  · have hfact : Fact env pid fun w =>
        (Never pid Event.isSend w ∧ Registers pid (.ok (some a)) w) ∧
          .act pid (.returned (.registered (.ok (some a)))) () ∈ w.log :=
      (Fact.unsent.and (Registers.fact _)).and (Fact.mem_log _)
    refine Triple.inTime hfact (.done _) ?_
    intro w hw
    refine Txn.Proc.wp_act hfact.steady hw fun w hw _ _ => ⟨⟨hw.2, hw.1.1⟩, ?_⟩
    have hpolicy : Policy a.instanceId a.executionConfig.maxRetries w.db := (hw.1.2 a rfl).2
    refine Txn.Proc.Triple.bind
      (Triple.perform rfl (Fact.db Policy.follows)) (fun r => ?_) _ hpolicy
    cases r with
    | error => exact .done _
    | ok r => exact handleResponse_keeps busyDelay a r

theorem dispatchOrdinary_keeps (busyDelay id : ℕ) :
    Triple env pid (fun w => Never pid Event.isReturn w ∧ Never pid Event.isSend w)
      (dispatchOrdinary env busyDelay id) fun _ _ => True := by
  unfold dispatchOrdinary
  split
  · exact .done _
  · exact dispatch_keeps busyDelay fun R hR => startOrdinary_keeps hR id

theorem dispatchRetry_keeps (busyDelay : ℕ) (c : RetryCandidate) :
    Triple env pid (fun w => Never pid Event.isReturn w ∧ Never pid Event.isSend w)
      (dispatchRetry env busyDelay c) fun _ _ => True := by
  unfold dispatchRetry
  split
  · exact .done _
  · exact dispatch_keeps busyDelay fun R hR => retryOrdinary_keeps hR c

end Dispatcher

end Dogx.Job
