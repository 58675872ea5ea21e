import Dogx.Job.Spec.Changes
import Dogx.Txn.Rules

/-!
# What a call can count on

The facts that the calls of the service carry from one statement to the next, and why nobody
disturbs them.
-/

namespace Dogx.Job

open Txn (Rely Interferes Stable Steady Settled Loc.start Store Verdict)

variable {env : Env} {pid id groupId : ℕ} {α β : Type} {Φ : Db → Prop} {w : World} {writes : Db}
  {a : RegisteredAttempt} {l : Loc} {op : Op} {table : Table} {kind : Event → Bool}

abbrev Stable (env : Env) (pid : ℕ) (P : Loc → Prop) : Prop := Txn.Stable (contract env) pid P

abbrev Steady (env : Env) (pid : ℕ) (R : World → Prop) : Prop := Txn.Steady (contract env) pid R

/-- The transaction keeps the contract, and ends as `Q` says unless it gives up. -/
abbrev Achieves (env : Env) (pid : ℕ) (p : Tx α) (Q : α → Loc → Prop) (l : Loc) : Prop :=
  p.wp (contract env) pid Q (fun _ _ => True) l

/-- Where the transaction ends without giving up, it is ready to commit. -/
abbrev Settles (env : Env) (pid : ℕ) (label : α → Op) (p : Tx α) (l : Loc) : Prop :=
  Achieves env pid p (fun a => Settled (contract env) pid (label a)) l

/-! ## Rows -/

theorem stable_db (h : ∀ db db', Db.Follows db db' → Φ db → Φ db') :
    Stable env pid fun l => Φ l.world.db :=
  fun _ _ hl hw => h _ _ (rely_follows hw) hl

theorem Effect.started_inv (h : Effect env w (.startOrdinary id (some a)) writes) :
    ∃ i startedAt taskId, a = firstAttempt i startedAt taskId ∧ Starts w id i startedAt taskId ∧
      writes = (Store.set noWrites .instance id (JobInstanceRepository.startSet startedAt
        (addSeconds startedAt i.executionConfig.timeoutSeconds) i)).set
        .task taskId (JobTaskRepository.ordinaryTask id startedAt taskId) := by
  cases h with
  | quiet h => simp [Op.quiet] at h
  | started h => exact ⟨_, _, _, rfl, h, rfl⟩
  | task _ h => cases h
  | round _ h => cases h
  | job _ h => cases h

theorem held_of_start (hwf : l.WF) (h : Effect env l.world (.startOrdinary id (some a)) l.pend) :
    instanceRow id ∈ l.held := by
  obtain ⟨i, _, _, _, _, hw⟩ := h.started_inv
  obtain ⟨i', hi'⟩ : ∃ i', l.pend .instance id = some i' := by simp [hw]
  exact hwf.pend_held .instance id i' hi'

theorem held_of_occurrence {jobId decisionAt : ℕ} (hwf : l.WF)
    (h : Effect env l.world (.triggerAutomatic jobId decisionAt
      { instanceId := id, created := true, reason := "created" }) l.pend) :
    jobRow jobId ∈ l.held := by
  generalize hp : l.pend = writes at h
  cases h with
  | quiet h => simp [Op.quiet] at h
  | task _ h => cases h
  | round _ h => cases h
  | job _ h => cases h
  | occurred =>
    obtain ⟨j', hj'⟩ : ∃ j', l.pend .job jobId = some j' := by simp [hp]
    exact hwf.pend_held .job jobId j' hj'

/-- What the commits of the others preserve, as long as a lock is kept from them. -/
theorem stable_locked {r : Txn.Res sig}
    (h : ∀ (l : Loc) q op, l.WF → Effect env l.world op l.pend → Guarded q l op → r ∉ l.held →
      Φ l.world.db → Φ (l.world.db.apply l.pend)) :
    Stable env pid fun l => r ∈ l.held ∧ Φ l.world.db := by
  rintro l w ⟨hh, hΦ⟩ hw
  refine ⟨hh, hw.preserves (P := fun w => Φ w.db) ?_ hΦ⟩
  intro a b hs hΦ
  cases hs with
  | commit wf _ ok disj =>
    exact h _ _ _ wf ok.1 ok.2 (fun hr => Set.disjoint_left.mp disj hr hh) hΦ
  | _ => exact hΦ

/-- Nobody gives new tasks to a round that is locked. -/
theorem stable_noUnfinished (id : ℕ) :
    Stable env pid fun l => instanceRow id ∈ l.held ∧ NoUnfinished l.world.db id := by
  refine stable_locked (Φ := fun db => NoUnfinished db id) ?_
  intro l q op hwf he _ hfree hno taskId t' ht hid
  rcases Store.apply_eq_some ht with hp | ⟨_, ht⟩
  · cases he.task_write hp with
    | @new instanceId _ _ hop _ ht' =>
      -- a new task comes with its round, which is ours
      have heq : instanceId = id := by rw [ht'] at hid; exact hid
      rw [hop, heq] at he
      exact absurd (held_of_start hwf he) hfree
    | old row hu =>
      have hf := hu.follows
      rw [hf.instanceId] at hid
      have hfin := hno taskId _ row hid
      rw [hf.final hfin]
      exact hfin
  · exact hno taskId t' ht hid

theorem stable_noActive (id : ℕ) :
    Stable env pid fun l => jobRow id ∈ l.held ∧ NoActive l.world.db id := by
  refine stable_locked (Φ := fun db => NoActive db id) ?_
  intro l q op hwf he hg hfree hno instanceId i' hi hid
  rcases he.round_before hi with ⟨i, hrow, hf⟩ | ⟨j, hnew⟩
  · exact hf.inactive (hno instanceId i hrow (hf.jobId.symm.trans hid))
  · rcases hnew.how with ⟨m, rfl, hm⟩ | ⟨decisionAt, rfl⟩
    · rw [Guarded, hm, hid] at hg
      exact absurd hg hfree
    · rw [hid] at he
      exact absurd (held_of_occurrence hwf he) hfree

theorem stable_available (id : ℕ) :
    Stable env pid fun l => groupRow id ∈ l.held ∧ Available l.world.db id :=
  Stable.row (S := sig) .group id fun r : Option ExecutorGroup =>
    ∃ g, r = some g ∧ g.deletedAt = none

theorem Effect.noReference (h : Effect env w op writes) (hno : NoReference w.db groupId)
    (hnew : ∀ id j, (∃ t, op = .createJob id t) ∨ op = .updateJob id → writes .job id = some j →
      j.executorGroupId ≠ groupId) : NoReference (w.db.apply writes) groupId := by
  intro id j' hj hkept hgroup
  rcases Store.apply_eq_some hj with hw | ⟨_, hj⟩
  · cases h.job_write hw with
    | created hop => exact hnew id j' (Or.inl ⟨_, hop⟩) hw hgroup
    | advanced _ due hj' =>
      subst hj'
      exact hno id _ due.row hkept hgroup
    | old row hu =>
      cases hu with
      | updated => exact hnew id _ (Or.inr rfl) hw hgroup
      | enabled kept | disabled kept => exact hno id _ row kept hgroup
      | deleted => cases hkept
  · exact hno id j' hj hkept hgroup

theorem noReference_of_guarded {q : ℕ} (h : Effect env l.world op l.pend) (hg : Guarded q l op)
    (hfree : groupRow groupId ∉ l.held) (hno : NoReference l.world.db groupId) :
    NoReference (l.world.db.apply l.pend) groupId := by
  refine h.noReference hno fun id j hop hw hgroup => ?_
  subst hgroup
  rcases hop with ⟨_, rfl⟩ | rfl
  · exact hfree (hg.1 id j hw)
  · exact hfree (hg id j hw)

theorem stable_noReference (id : ℕ) :
    Stable env pid fun l => groupRow id ∈ l.held ∧ NoReference l.world.db id :=
  stable_locked (Φ := fun db => NoReference db id)
    fun _ _ _ _ he hg hfree hno => noReference_of_guarded he hg hfree hno

theorem Effect.noActiveFor (h : Effect env w op writes) (href : NoReference w.db groupId)
    (hno : NoActiveFor w.db groupId) : NoActiveFor (w.db.apply writes) groupId := by
  intro id i' hi hgroup
  rcases h.round_before hi with ⟨i, hrow, hf⟩ | ⟨j, hnew⟩
  · exact hf.inactive (hno id i hrow (hf.executorGroupId.symm.trans hgroup))
  · exact absurd (hnew.group.symm.trans hgroup) (href _ j hnew.admits.row hnew.admits.kept)

theorem stable_unused (id : ℕ) :
    Stable env pid fun l =>
      groupRow id ∈ l.held ∧ NoReference l.world.db id ∧ NoActiveFor l.world.db id :=
  stable_locked (Φ := fun db => NoReference db id ∧ NoActiveFor db id)
    fun _ _ _ _ he hg hfree h =>
      ⟨noReference_of_guarded he hg hfree h.1, he.noActiveFor h.1 h.2⟩

/-! ## A transaction with one write -/

theorem stable_noWrites : Stable env pid fun l => l.pend = noWrites :=
  Stable.own fun pend _ => pend = noWrites

/-- Nobody else changes a row that is locked. -/
theorem stable_row (table : Table) (id : ℕ) (row : Option (Row table)) :
    Stable env pid fun l =>
      Txn.Res.row (S := sig) table id ∈ l.held ∧ l.world.db table id = row :=
  Stable.row (S := sig) table id fun r : Option (Row table) => r = row

def Wrote (table : Table) (id : ℕ) (r r' : Row table) (l : Loc) : Prop :=
  l.pend = Store.set noWrites table id r' ∧ Txn.Res.row (S := sig) table id ∈ l.held ∧
    l.world.db table id = some r

theorem stable_wrote (table : Table) (id : ℕ) (r r' : Row table) :
    Stable env pid (Wrote table id r r') :=
  (Stable.own fun pend _ => pend = Store.set noWrites table id r').and
    (stable_row table id (some r))

theorem Wrote.of_write {r r' : Row table} (hp : l.pend = noWrites)
    (hr : l.view.rows table id = some r) : Wrote table id r r' (l.write table id r') := by
  refine ⟨?_, Set.mem_insert _ _, ?_⟩
  · show Store.set l.pend table id r' = _
    rw [hp]
  · simpa [hp] using hr

theorem row_of_view (hp : l.pend = noWrites) : l.view.rows table id = l.world.db table id := by
  simp [hp]

theorem settled_quiet (hp : l.pend = noWrites) (hq : op.quiet = true) (hg : ∀ l, Guarded pid l op) :
    Settled (contract env) pid op l :=
  stable_noWrites.settled hp fun l hp _ _ => ⟨by rw [hp]; exact .quiet hq, hg l⟩

/-! ## What a process has said -/

namespace Never

variable {kind : Event → Bool} {w : World}

theorem record {e : Event} (h : Never pid kind w) (he : e.pid = pid → kind e = false) :
    Never pid kind (w.record e) := by
  intro e' he' hp
  rcases List.mem_cons.mp he' with rfl | he'
  · exact he hp
  · exact h e' he' hp

theorem of_fresh (h : w.Fresh pid) : Never pid kind w := fun e he hp => absurd hp (h e he)

end Never

def Act.harmless : Act → Bool
  | .send _ | .returned _ | .entered => false
  | _ => true

theorem Act.permitted {a : Act} (h : a.harmless = true) : Permitted pid w a := by
  cases a <;> trivial

theorem Act.harmless_of_reads {a : Act} (h : a.reads = true) : a.harmless = true := by
  cases a <;> first | rfl | cases h

structure Spoken (kind : Event → Bool) : Prop where
  commit : ∀ q op before writes, kind (.commit q op before writes) = false
  lost : ∀ q op, kind (.lost q op) = false
  act : ∀ q (a : Act) r, a.harmless = true → kind (.act q a r) = false

theorem spoken_isReturn : Spoken Event.isReturn :=
  ⟨fun _ _ _ _ => rfl, fun _ _ => rfl, fun _ a _ h => by cases a <;> first | rfl | cases h⟩

theorem spoken_isSend : Spoken Event.isSend :=
  ⟨fun _ _ _ _ => rfl, fun _ _ => rfl, fun _ a _ h => by cases a <;> first | rfl | cases h⟩

theorem spoken_isEntry : Spoken Event.isEntry :=
  ⟨fun _ _ _ _ => rfl, fun _ _ => rfl, fun _ a _ h => by cases a <;> first | rfl | cases h⟩

theorem Spoken.steady (hk : Spoken kind) : Steady env pid (Never pid kind) := by
  refine .of_step fun w w' hs h => ?_
  cases hs with
  | commit => exact Never.record h fun _ => hk.commit _ _ _ _
  | act _ who =>
    rcases who with hq | ⟨ha, _⟩
    · exact Never.record h fun hp => absurd hp hq
    · simp at ha
  | asked reads => exact Never.record h fun _ => hk.act _ _ _ (Act.harmless_of_reads reads)
  | lost => exact Never.record h fun _ => hk.lost _ _
  | tick | bump => exact h

structure Fact (env : Env) (pid : ℕ) (R : World → Prop) : Prop where
  steady : Steady env pid R
  commit : ∀ (l : Loc) op, (contract env).Commits pid op l → R l.world → R (l.commit pid op)
  lost : ∀ (w : World) op, R w → R (w.record (.lost pid op))
  act : ∀ (w : World) (a : Act) r, a.harmless = true → R w → R (w.record (.act pid a r))

namespace Fact

variable {R R' : World → Prop}

theorem const (P : Prop) : Fact env pid fun _ => P :=
  ⟨fun _ _ _ h => h, fun _ _ _ h => h, fun _ _ h => h, fun _ _ _ _ h => h⟩

theorem anything : Fact env pid fun _ => True := const True

theorem and (h : Fact env pid R) (h' : Fact env pid R') : Fact env pid fun w => R w ∧ R' w where
  steady := h.steady.and h'.steady
  commit := fun l op hc hR => ⟨h.commit l op hc hR.1, h'.commit l op hc hR.2⟩
  lost := fun w op hR => ⟨h.lost w op hR.1, h'.lost w op hR.2⟩
  act := fun w a r ha hR => ⟨h.act w a r ha hR.1, h'.act w a r ha hR.2⟩

theorem db (h : ∀ db db', Db.Follows db db' → Φ db → Φ db') : Fact env pid fun w => Φ w.db where
  steady := fun _ _ hw => h _ _ (rely_follows hw)
  commit := fun _ _ hc => h _ _ hc.1.follows
  lost := fun _ _ hR => hR
  act := fun _ _ _ _ hR => hR

theorem mem_log (e : Event) : Fact env pid fun w => e ∈ w.log where
  steady := .mem_log e
  commit := fun _ _ _ h => List.mem_cons_of_mem _ h
  lost := fun _ _ h => List.mem_cons_of_mem _ h
  act := fun _ _ _ _ h => List.mem_cons_of_mem _ h

theorem never (hk : Spoken kind) : Fact env pid (Never pid kind) where
  steady := hk.steady
  commit := fun _ _ _ h => h.record fun _ => hk.commit _ _ _ _
  lost := fun _ _ h => h.record fun _ => hk.lost _ _
  act := fun _ a r ha h => h.record fun _ => hk.act _ a r ha

theorem unreturned : Fact env pid (Never pid Event.isReturn) := never spoken_isReturn

theorem unsent : Fact env pid (Never pid Event.isSend) := never spoken_isSend

theorem unentered : Fact env pid (Never pid Event.isEntry) := never spoken_isEntry

end Fact

/-! ## Steps of a call -/

theorem gives_up {Q : α → Loc → Prop} {e : Err} :
    Achieves env pid (throw e : Tx α) Q l :=
  fun _ _ _ _ => trivial

abbrev Triple (env : Env) (pid : ℕ) (R : World → Prop) (p : Proc α) (Q : α → World → Prop) : Prop :=
  Txn.Proc.Triple (contract env) pid R p Q

abbrev Body (env : Env) (pid : ℕ) (label : α → Op) (body : Tx α) (w : World) : Prop :=
  Settles env pid label body (Loc.start w)

def Committed (pid : ℕ) (op : Op) (w : World) : Prop :=
  ∃ before writes, .commit pid op before writes ∈ w.log

theorem Committed.record {e : Event} (h : Committed pid op w) : Committed pid op (w.record e) := by
  obtain ⟨before, writes, h⟩ := h
  exact ⟨before, writes, List.mem_cons_of_mem _ h⟩

theorem Committed.fact (op : Op) : Fact env pid (Committed pid op) where
  steady := fun _ _ hw ⟨before, writes, h⟩ => ⟨before, writes, hw.mem_log h⟩
  commit := fun _ _ _ ⟨before, writes, h⟩ => ⟨before, writes, List.mem_cons_of_mem _ h⟩
  lost := fun _ _ h => h.record
  act := fun _ _ _ _ h => h.record

theorem Committed.self (l : Loc) (op : Op) : Committed pid op (l.commit pid op) :=
  ⟨l.world.db, l.pend, List.mem_cons_self⟩

namespace Triple

variable {R : World → Prop} {Q : α → World → Prop}

theorem perform_of {a : Act} (ha : a.harmless = true) (hR : Steady env pid R)
    (hact : ∀ (w : World) r, R w → R (w.record (.act pid a r))) :
    Triple env pid R (perform a) fun _ => R := by
  intro w hw
  refine Txn.Proc.wp_act hR hw fun w hw _ r => ⟨Act.permitted ha, ?_⟩
  exact Txn.Proc.wp_ret hR (hact w r hw) fun _ h => h

theorem perform {a : Act} (ha : a.harmless = true) (hR : Fact env pid R) :
    Triple env pid R (perform a) fun _ => R :=
  perform_of ha hR.steady fun w r => hR.act w a r ha

/-- A check of the context in front of the rest of the code. -/
theorem inTime {late p : Proc α} (hR : Fact env pid R) (hlate : Triple env pid R late Q)
    (h : Triple env pid R p Q) :
    Triple env pid R (Job.perform .expired >>= fun expired => if expired then late else p) Q := by
  refine .bind (perform rfl hR) fun expired => ?_
  split
  · exact hlate
  · exact h

/-- What a query says can be used as long as others keep it. -/
theorem read {q : View → α} (hR : Fact env pid R)
    (hok : ∀ w, R w → (Loc.start w).WF → Inv w → Q (q w.view) w)
    (hQ : ∀ a, Steady env pid (Q a)) :
    Triple env pid R (read q) fun r w => R w ∧ ∀ a, r = .ok a → Q a w := by
  intro w hw
  refine Txn.Proc.wp_read hR.steady hw (fun w hw hwf hinv => ?_) fun f w hw => ?_
  · refine Txn.Proc.wp_ret (hR.steady.and (hQ (q w.view))) ⟨hw, hok w hw hwf hinv⟩ ?_
    rintro _ ⟨hw', hq⟩
    exact ⟨hw', fun a ha => by cases ha; exact hq⟩
  · exact Txn.Proc.wp_ret hR.steady hw fun w hw => ⟨hw, fun a ha => by cases ha⟩

/-- A transaction on its own. `D` is what its effect leaves in the database. -/
theorem transact {label : α → Op} {body : Tx α} {D : α → Db → Prop} (hR : Fact env pid R)
    (hD : ∀ a db db', Db.Follows db db' → D a db → D a db')
    (hbody : ∀ w, R w → (Loc.start w).WF → Inv w → Body env pid label body w)
    (heff : ∀ a w writes, Effect env w (label a) writes → D a (w.db.apply writes)) :
    Triple env pid R (transact label body) fun r w =>
      R w ∧ ∀ a, r = .ok a → Committed pid (label a) w ∧ D a w.db := by
  intro w hw
  have gone : ∀ e w, R w → (Txn.Proc.ret (Except.error e) : Proc (Except Err α)).wp (contract env)
      pid (fun r w => R w ∧ ∀ a, r = .ok a → Committed pid (label a) w ∧ D a w.db) w :=
    fun e w hw => Txn.Proc.wp_ret hR.steady hw fun w hw => ⟨hw, fun a ha => by cases ha⟩
  refine Txn.Proc.wp_transact (G := fun _ _ => True) hR.steady hR.steady hw
    (fun l a h hc => hR.commit l _ hc h) (fun w a h => hR.lost w _ (h.elim id id))
    (fun w hw hwf hinv => Txn.Tx.wp_mono (fun a l h => ⟨h, trivial⟩) (fun _ _ _ => trivial)
      (hbody w hw hwf hinv))
    ?_ (fun e w hw _ => gone e w hw) (fun f w hw => gone _ w hw) fun f w hw _ => gone _ w hw
  intro a l hl hc _
  have hfact := (hR.and (Committed.fact (label a))).and (Fact.db (hD a))
  refine Txn.Proc.wp_ret hfact.steady
    ⟨⟨hR.commit l _ hc hl, Committed.self l _⟩, heff a l.world l.pend hc.1⟩ ?_
  rintro w ⟨⟨hw, hcom⟩, hd⟩
  exact ⟨hw, fun a' ha => by cases ha; exact ⟨hcom, hd⟩⟩

/-- A call notes its result once. -/
theorem returning {note : Except Err α → Outcome} {p : Proc (Except Err α)}
    {P : Except Err α → World → Prop}
    (hp : Triple env pid R p fun r w => Never pid Event.isReturn w ∧ P r w)
    (hP : ∀ r, Steady env pid (P r))
    (hret : ∀ r w, P r w → P r (w.record (.act pid (.returned (note r)) ())))
    (hj : ∀ r w, P r w → Justified pid w (note r)) :
    Triple env pid R (returning note p) fun r w =>
      P r w ∧ .act pid (.returned (note r)) () ∈ w.log := by
  refine .bind hp fun r w hw => ?_
  refine Txn.Proc.wp_act (spoken_isReturn.steady.and (hP r)) hw fun w hw _ _ => ?_
  refine ⟨⟨hw.1, hj r w hw.2⟩, ?_⟩
  exact Txn.Proc.wp_ret ((hP r).and (.mem_log _)) ⟨hret r w hw.2, List.mem_cons_self⟩ fun _ h => h

end Triple

/--
A conditional update of one task. `Φ` is what the caller has read before; it still holds when the
update looks at the current row, and when it commits.
-/
theorem writeTask_body {label : Bool → Op} {taskId : ℕ} {f : View → JobTask → Verdict JobTask}
    (hΦ : ∀ db db', Db.Follows db db' → Φ db → Φ db') (hquiet : (label false).quiet = true)
    (hguard : ∀ b (l : Loc), Guarded pid l (label b))
    (hset : ∀ v t t', f v t = .set t' → t'.keys = t.keys ∧
      ∀ w : World, w.db .task taskId = some t → Φ w.db → TaskUpdate w (label true) taskId t t')
    (hw : Φ w.db) :
    Body env pid label (updateRow .task taskId f >>= fun changed => pure changed.isSome) w := by
  have s0 : Stable env pid fun l => l.pend = noWrites ∧ Φ l.world.db :=
    stable_noWrites.and (stable_db hΦ)
  refine Txn.Tx.wp_updateRow s0 ⟨rfl, hw⟩ (fun l hl _ _ _ => ?_) fun l t t' hl _ _ ht hf => ?_
  · exact Txn.Tx.wp_pure s0 hl fun l hl _ _ => settled_quiet hl.1 hquiet (hguard false)
  · obtain ⟨hkeys, hup⟩ := hset _ t t' hf
    have s1 : Stable env pid fun l => Wrote .task taskId t t' l ∧ Φ l.world.db :=
      (stable_wrote .task taskId t t').and (stable_db hΦ)
    refine ⟨hkeys, Txn.Tx.wp_pure s1 ⟨.of_write hl.1 ht, hl.2⟩ fun l hl _ _ => ?_⟩
    refine s1.settled hl fun l hl _ _ => ⟨?_, hguard true l⟩
    obtain ⟨⟨hp, _, hrow⟩, hφ⟩ := hl
    rw [hp]
    exact .task hrow (hup l.world hrow hφ)

end Dogx.Job
