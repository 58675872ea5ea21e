import Dogx.Txn.Account
import Dogx.Txn.Strengthen
import Dogx.Job.Transactions
import Dogx.Job.Refine.Service

/-!
# Completion and timeout

A check asks for a timeout stop only on facts that leave it no other way, and what it concludes from
unlocked facts is still true when it returns.
-/

namespace Dogx.Job

open Txn (Stable Told Opens Account Spawned Answered Loc.start)
open Txn.Tx (Lasts Grants)
open JobInstanceRepository

variable {env : Env} {pid id now : ℕ} {w : World} {ms : List Move} {s s' : Sys}
  {told : List (Told sig)}

/-! ## What a stop request commits -/

def JobInstance.Overdue (i : JobInstance) (now : ℕ) : Prop :=
  i.status = .running ∧ ∃ deadlineAt, i.deadlineAt = some deadlineAt ∧ deadlineAt ≤ now

def Decides : Op → Loc → Prop
  | .requestStop id timeout d, l => instanceRow id ∈ l.held ∧ ∃ i, l.world.db .instance id = some i ∧
      (d.new = false → d.status = i.status) ∧
      (d.new = true → timeout = true → i.Overdue l.world.now)
  | _, _ => True

namespace Controller

variable {i : JobInstance} {l : Loc} {timeout : Bool}

theorem observed_decides (hl : LockedRound id i l) :
    Achieves env pid (pure (observedDecision i) : Tx Decision)
      (fun d l => Lasts (contract env) Decides pid (.requestStop id timeout d) l) l := by
  have hs : Stable env pid (LockedRound id i) := stable_lockedRound id i
  refine Txn.Tx.wp_pure hs hl fun l hl _ _ => hs.lasts hl fun l hl => ?_
  exact ⟨hl.2.1, i, hl.2.2, fun _ => rfl, nofun⟩

theorem stable_overdue (i : JobInstance) :
    Stable env pid fun l => timeout = true → i.Overdue l.world.now := by
  intro l w h hw ht
  obtain ⟨hrun, deadlineAt, hdeadline, hle⟩ := h ht
  exact ⟨hrun, deadlineAt, hdeadline, Nat.le_trans hle hw.now_le⟩

theorem decideStop_decides {reason : EndReason} {summary : String} (hl : LockedRound id i l)
    (hdue : timeout = true → i.Overdue l.world.now) :
    Achieves env pid (decideStop id i reason summary now)
      (fun d l => Lasts (contract env) Decides pid (.requestStop id timeout d) l) l := by
  unfold decideStop recordStop
  split
  · exact gives_up
  have hdue' : Stable env pid fun l => timeout = true → i.Overdue l.world.now :=
    stable_overdue i
  refine Txn.Tx.wp_updateRow ((stable_lockedRound id i).and hdue') ⟨hl, hdue⟩
    (fun l hl _ _ h => gives_up) fun l r r' hl _ _ hr hset => ?_
  obtain ⟨⟨hp, hheld, hrow⟩, hdue⟩ := hl
  obtain ⟨-, rfl⟩ := updateWhere_eq_set.mp hset
  have hri : r = i := by
    rw [row_of_view hp, hrow] at hr
    exact (Option.some.inj hr).symm
  subst hri
  have hs := (stable_wrote .instance id r (stopSet reason summary r)).and hdue'
  refine ⟨rfl, Txn.Tx.wp_pure hs ⟨LockedRound.wrote ⟨hp, hheld, hrow⟩, hdue⟩ fun l hl _ _ => ?_⟩
  refine hs.lasts hl fun l hl => ?_
  obtain ⟨⟨-, hheld, hrow⟩, hdue⟩ := hl
  exact ⟨hheld, r, hrow, nofun, fun _ => hdue⟩

/-- A new timeout decision finds the round overdue. -/
theorem stopActive_decides (hl : LockedRound id i l)
    (hrun : timeout = true → i.status = .running) :
    Achieves env pid (stopActive id timeout i)
      (fun d l => Lasts (contract env) Decides pid (.requestStop id timeout d) l) l := by
  refine Txn.Tx.wp_query (stable_lockedRound id i) hl fun l hl _ _ => ?_
  split
  · exact gives_up
  split
  · exact gives_up
  cases timeout with
  | false => exact decideStop_decides hl nofun
  | true =>
    split
    · split
      · exact gives_up
      next deadlineAt hdeadline =>
        split
        · exact observed_decides hl
        next hlate =>
          exact decideStop_decides hl fun _ =>
            ⟨hrun rfl, deadlineAt, hdeadline, Nat.le_of_not_lt hlate⟩
    next h => exact absurd rfl h

theorem requestStopTx_decides (id : ℕ) (timeout : Bool) :
    Grants (contract env) Decides _ (.requestStop id timeout) (requestStopTx id timeout) := by
  refine .inr fun pid w _ _ => wp_lockForStop rfl (fun l hl => gives_up) fun l i hl => ?_
  dsimp only
  split
  · exact gives_up
  split
  · exact observed_decides hl
  · exact observed_decides hl
  · exact observed_decides hl
  · exact observed_decides hl
  · split
    · exact observed_decides hl
    next ht => exact stopActive_decides hl fun h => absurd h ht
  next hrun => exact stopActive_decides hl fun _ => hrun

end Controller

theorem transactions_decide (env : Env) :
    Transactions env (fun _ _ _ => True) (Grants (contract env) Decides) where
  startOrdinary := fun _ => .inl fun _ _ => trivial
  retryOrdinary := fun _ => .inl fun _ _ => trivial
  writeTask := fun _ _ _ hlabel => .inl fun _ _ => by cases hlabel <;> trivial
  settleOrdinaryUnknown := fun w => by
    unfold JobTaskRepository.settleOrdinaryUnknown
    split
    · exact .pure _
    · exact .run (.inl fun _ _ => trivial)
  complete := fun _ _ _ _ => .inl fun _ _ => trivial
  requestStop := Controller.requestStopTx_decides
  processBatch := fun _ _ _ _ => .inl fun _ _ => trivial
  triggerManual := fun _ => .inl fun _ _ => trivial
  triggerAutomatic := fun _ => .inl fun _ _ => trivial
  createExecutorGroup := fun _ => .run (.inl fun _ _ => trivial)
  deleteExecutorGroup := fun _ => .inl fun _ _ => trivial
  createJob := fun _ => .inl fun _ _ => trivial
  updateJob := fun _ _ => .inl fun _ _ => trivial
  enableJob := fun _ => .inl fun _ _ => trivial
  disableJob := fun _ _ => .inl fun _ _ => trivial
  deleteJob := fun _ => .inl fun _ _ => trivial

abbrev stopContract (env : Env) : Txn.Contract sig := (contract env).also Decides

theorem stop_kept (env : Env) : (stopContract env).Kept := (contract_kept env).also

theorem stop_keeps (env : Env) : (service env).Keeps (stopContract env) :=
  (service_keeps env).also fun c => (transactions_decide env).each c .listed fun _ _ _ => trivial

theorem run_stop_sound (hr : run env ms = some s) : Txn.Sound (stopContract env) s :=
  ((Txn.Sound.init Inv.init).run (stop_kept env) (stop_keeps env) hr).1

/-! ## What a check has been told -/

namespace Checker

structure Late (facts : InstanceCompletion) (now : ℕ) : Prop where
  running : facts.status = .running
  ordinary : facts.executionConfig.executionMode = .normal
  unfinished : facts.taskId = none ∨
    (facts.taskStatus ≠ some .succeeded ∧ facts.taskStatus ≠ some .failed)
  deadline : ∃ deadlineAt, facts.deadlineAt = some deadlineAt ∧ deadlineAt ≤ now

def Lately (id : ℕ) (facts : InstanceCompletion) (now : ℕ) (rest : List (Told sig)) :
    List (Told sig) :=
  .act .expired false :: .read (findCompletion id) (.ok (some facts)) :: .act .expired false ::
    .read databaseTime (.ok now) :: rest

def Asks (id : ℕ) (told : List (Told sig)) (α : Type) (label : α → Op) (_ : Tx α) : Prop :=
  ∀ a id' timeout d, label a = .requestStop id' timeout d → id' = id ∧ timeout = true ∧
    ∃ facts now rest, told = Lately id facts now rest ∧ Late facts now

inductive Shows (id : ℕ) (told : List (Told sig)) : Prop where
  | facts (late : Bool) (facts : InstanceCompletion) (rest : List (Told sig))
      (h : told = .act .expired late :: .read (findCompletion id) (.ok (some facts)) :: rest)
      (ended : facts.status.active = false)
  | completed (target : InstanceStatus) (summary : Option String) (body : Tx Bool)
      (h : .transact (.complete id target summary) body (.ok true) ∈ told)
  | decided (body : Tx Decision) (d : Decision) (new : d.new = false)
      (h : .transact (.requestStop id true) body (.ok d) ∈ told) (ended : d.status.active = false)

def Concludes (id : ℕ) (told : List (Told sig)) (r : CheckOutcome × Option Err) : Prop :=
  r = (.terminal, none) → Shows id told

theorem hears_resumeStopping (stopping : Bool) {Q : List (Told sig) → Unit → Prop}
    (h : ∀ told, Q told ()) : (resumeStopping stopping id).Hears (Asks id) Q told := by
  unfold resumeStopping
  split
  · exact fun _ => h _
  · exact h _

theorem hears_handleDecision (stopping : Bool) {body : Tx Decision} {d : Decision}
    (h : .transact (.requestStop id true) body (.ok d) ∈ told) :
    (handleDecision stopping id d).Hears (Asks id) (Concludes id) told := by
  unfold handleDecision
  split
  · exact nofun
  next hvalid =>
  have ended : d.status ≠ .stopping → d.status.active = false →
      Txn.Proc.Hears (Asks id) (pure (CheckOutcome.terminal, none)) (Concludes id) told := by
    intro hne hover _
    refine .decided body d ?_ h hover
    by_contra hnew
    exact hvalid (.inr ⟨eq_true_of_ne_false hnew, .inl hne⟩)
  split
  · dsimp only
    split
    · exact .perform fun _ => nofun
    · exact .bind (hears_resumeStopping stopping fun _ => nofun)
  next hs => exact ended (by rw [hs]; nofun) (hs ▸ rfl)
  next hs => exact ended (by rw [hs]; nofun) (hs ▸ rfl)
  next hs => exact ended (by rw [hs]; nofun) (hs ▸ rfl)
  · exact nofun
  · exact nofun

theorem hears_requestStop {facts : InstanceCompletion} (rest : List (Told sig)) (h : Late facts now) :
    (Controller.requestStop id true).Hears (Asks id) (fun told r => ∀ d, r = .ok d →
      ∃ body, .transact (.requestStop id true) body (.ok d) ∈ told) (Lately id facts now rest) := by
  refine .bind ?_
  split
  · exact fun _ => nofun
  refine .perform fun late => ?_
  split
  · exact fun _ => nofun
  refine ⟨?_, fun r _ d hd => ?_⟩
  · rintro d _ _ _ ⟨⟩
    exact ⟨rfl, rfl, facts, now, _, rfl, h⟩
  · subst hd
    exact ⟨_, List.mem_append_left _ (List.mem_append_right _ List.mem_cons_self)⟩

/-- A check of a round that is not ready asks for a stop only when it is late. -/
theorem hears_notReady (stopping : Bool) {facts : InstanceCompletion} (hid : facts.id = id)
    (hrun : facts.status = .running) (hmode : facts.executionConfig.executionMode = .normal)
    (htask : facts.taskId = none ∨
      (facts.taskStatus ≠ some .succeeded ∧ facts.taskStatus ≠ some .failed)) :
    (notReady stopping facts).Hears (Asks id) (Concludes id)
      [.act .expired false, .read (findCompletion id) (.ok (some facts))] := by
  unfold notReady
  split
  · exact nofun
  split
  · exact nofun
  next deadlineAt hdeadline =>
  split
  · exact nofun
  refine .perform fun late => ?_
  split
  · exact nofun
  next hlate =>
  obtain rfl := eq_false_of_ne_true hlate
  refine .query fun now => ?_
  cases now with
  | error => exact nofun
  | ok =>
    refine .perform fun late => ?_
    split
    · exact nofun
    split
    · exact nofun
    split
    · exact nofun
    next hpast =>
    subst hid
    refine .bind (Txn.Proc.Hears.mono (fun told r hr => ?_) (hears_requestStop [_]
      ⟨hrun, hmode, htask, deadlineAt, hdeadline, Nat.le_of_not_lt hpast⟩))
    cases r with
    | error => exact nofun
    | ok d =>
      obtain ⟨_, hbody⟩ := hr d rfl
      exact hears_handleDecision stopping hbody

theorem hears_completeRound (target : InstanceStatus) (summary : Option String)
    (told : List (Told sig)) :
    (completeRound id target summary).Hears (Asks id) (Concludes id) told := by
  refine .bind ?_
  unfold JobInstanceRepository.complete
  split
  · exact nofun
  refine ⟨nofun, fun r => ?_⟩
  match r with
  | .error e => exact nofun
  | .ok false => exact nofun
  | .ok true =>
    intro _
    exact .completed target summary _ (List.mem_append_right _ List.mem_cons_self)

theorem hears_checkRunning (stopping : Bool) {facts : InstanceCompletion} (hid : facts.id = id)
    (hrun : facts.status = .running) :
    (checkRunning stopping id facts).Hears (Asks id) (Concludes id)
      [.act .expired false, .read (findCompletion id) (.ok (some facts))] := by
  unfold checkRunning
  dsimp only
  split
  · exact nofun
  split
  · exact nofun
  next hmode =>
  have hmode : facts.executionConfig.executionMode = .normal := by
    cases h : facts.executionConfig.executionMode with
    | normal => rfl
    | sharded => exact absurd h hmode
  split
  · exact nofun
  split
  next htask => exact hears_notReady stopping hid hrun hmode (.inl htask)
  · exact nofun
  next taskId status _ hstatus =>
  split
  · exact nofun
  split
  case h_5 | h_6 => exact hears_completeRound _ _ _
  all_goals exact hears_notReady stopping hid hrun hmode (.inr (hstatus ▸ ⟨nofun, nofun⟩))

/-- What a check has been told when it asks for a stop, and when it returns. -/
theorem check_hears (stopping : Bool) (id : ℕ) :
    (check stopping id).Hears (Asks id) (Concludes id) [] := by
  unfold check
  split
  · exact nofun
  refine .perform fun late => ?_
  split
  · exact nofun
  next hlate =>
  obtain rfl := eq_false_of_ne_true hlate
  refine .query fun x => ?_
  match x with
  | .error e => exact nofun
  | .ok none => exact nofun
  | .ok (some facts) =>
    dsimp only
    split
    · exact nofun
    next hid =>
    have ended : facts.status.active = false →
        Txn.Proc.Hears (Asks id) (pure (CheckOutcome.terminal, none)) (Concludes id)
          [.act .expired false, .read (findCompletion id) (.ok (some facts))] :=
      fun hover _ => .facts false facts [] rfl hover
    split
    next hs => exact ended (hs ▸ rfl)
    next hs => exact ended (hs ▸ rfl)
    next hs => exact ended (hs ▸ rfl)
    · exact nofun
    · exact .bind (hears_resumeStopping stopping fun _ => nofun)
    next hrun => exact hears_checkRunning stopping (Decidable.not_not.mp hid) hrun

end Checker

/-! ## Checks of a run -/

section Check

variable {stopping timeout : Bool} {told : List (Told sig)} {p : Proc Unit}
  {facts : InstanceCompletion}

theorem late_of_opens (h : Account (service env) ms s pid (.check stopping id) told p) {id' : ℕ}
    {d : Decision} (ho : Opens (S := sig) (.requestStop id' timeout d) told p) :
    id' = id ∧ timeout = true ∧
      ∃ facts now rest, told = Checker.Lately id facts now rest ∧ Checker.Late facts now := by
  have hears : (ignore (Checker.check stopping id)).Hears (Checker.Asks id) (fun _ _ => True) [] :=
    .bind ((Checker.check_hears stopping id).mono fun _ _ _ => trivial)
  obtain ⟨α, _, _, a, hop, hwhere⟩ := ho
  obtain ⟨_, rest, rfl, hasks⟩ := hears.opened h.after hwhere
  obtain ⟨rfl, rfl, facts, now, rest', hfirst, hlate⟩ := hasks a id' timeout d hop.symm
  subst hfirst
  exact ⟨rfl, rfl, facts, now, rest' ++ rest, rfl, hlate⟩

theorem moment_of_facts (h : Account (service env) ms s pid (.check stopping id) told p)
    (hr : run env ms = some s) (hread : .read (findCompletion id) (.ok (some facts)) ∈ told) :
    ∃ before s1, run env before = some s1 ∧ findCompletion id s1.world.view = some facts ∧
      Db.Follows s1.world.db s.world.db := by
  obtain ⟨before, _, s1, rfl, hr1, hholds⟩ := h.answered.moment hread
  obtain ⟨_, hr2, hr⟩ := Txn.Sys.run_append.mp hr
  cases hr1.symm.trans hr2
  exact ⟨before, s1, hr1, hholds.symm, evolution_follows (run_onwards hr1 hr)⟩

theorem findCompletion_inv {v : View} (h : findCompletion id v = some facts) :
    ∃ i, v.rows .instance id = some i ∧ facts.status = i.status ∧
      (facts.taskId = none → facts.taskStatus = none) := by
  simp only [findCompletion, Option.bind_eq_bind, Option.bind_eq_some_iff, Option.pure_def,
    Option.some.injEq] at h
  obtain ⟨i, hi, rfl⟩ := h
  refine ⟨i, hi, rfl, fun hnone => ?_⟩
  rw [Option.map_eq_none_iff] at hnone ⊢
  exact hnone

theorem over_of_follows {db : Db} {i : JobInstance} (hf : Db.Follows db s.world.db)
    (hi : db .instance id = some i) (hover : i.status.active = false) :
    ∃ i, s.world.db .instance id = some i ∧ i.status.terminal = true := by
  obtain ⟨i', hi', hfollows⟩ := hf.round id i hi
  refine ⟨i', hi', ?_⟩
  rw [InstanceStatus.terminal, hfollows.inactive hover]
  rfl

theorem Effect.completed_inv {target : InstanceStatus} {summary : Option String} {writes : Db}
    (h : Effect env w (.complete id target summary true) writes) :
    ∃ i, writes .instance id = some i ∧ i.status.active = false := by
  cases h with
  | quiet h => simp [Op.quiet] at h
  | task _ h => cases h
  | job _ h => cases h
  | round _ h =>
    cases h with
    | completed _ _ _ _ final =>
      refine ⟨_, by rw [Txn.Store.set_same, if_pos rfl], ?_⟩
      rcases final with ⟨rfl, -⟩ | ⟨rfl, -⟩ <;> rfl

theorem moment_of_decision (hr : run env ms = some s) {d : Decision} {before writes : Db}
    (he : .commit pid (.requestStop id timeout d) before writes ∈ s.world.log) :
    ∃ l : Loc, Decides (.requestStop id timeout d) l ∧ Db.Follows l.world.db s.world.db := by
  have hon := Txn.run_evolves Inv.init (stop_kept env) (stop_keeps env) hr
  obtain ⟨_, -, hhap, hafter⟩ := hon.happened_of_mem he
  have hfollows := evolution_follows ((Txn.Evolution.single hhap.evolves).trans hafter).of_also
  cases hhap with
  | @commit _ _ l hw _ ok =>
    subst hw
    exact ⟨l, ok.2, hfollows⟩

/-- What shows a check that the round is over is right. -/
theorem over_of_shows (h : Account (service env) ms s pid (.check stopping id) told p)
    (hr : run env ms = some s) (hshows : Checker.Shows id told) :
    ∃ i, s.world.db .instance id = some i ∧ i.status.terminal = true := by
  -- a confirmed transaction is in the history of the run
  have committed : ∀ {α : Type} {label : α → Op} {body : Tx α} {a : α},
      .transact label body (.ok a) ∈ told →
      ∃ before writes, .commit pid (label a) before writes ∈ s.world.log := by
    intro α label body a hmem
    obtain ⟨_, _, s1, rfl, hr1, before, writes, hcommit⟩ := h.answered.moment hmem
    obtain ⟨_, hr2, hr⟩ := Txn.Sys.run_append.mp hr
    cases hr1.symm.trans hr2
    exact ⟨before, writes, (run_onwards hr1 hr).mem_log hcommit⟩
  cases hshows with
  | facts _ facts _ heq hover =>
    have hread : .read (findCompletion id) (.ok (some facts)) ∈ told := by
      rw [heq]
      exact List.mem_cons_of_mem _ List.mem_cons_self
    obtain ⟨before, _, -, hfind, hfollows⟩ := moment_of_facts h hr hread
    obtain ⟨i, hi, hstatus, -⟩ := findCompletion_inv hfind
    exact over_of_follows hfollows hi (hstatus ▸ hover)
  | completed _ _ _ hmem =>
    obtain ⟨before, writes, hcommit⟩ := committed hmem
    obtain ⟨_, -, rfl, heff, hfollows⟩ := (run_reached hr).since hcommit
    obtain ⟨i, hi, hover⟩ := heff.completed_inv
    exact over_of_follows hfollows (Txn.Store.apply_of_some hi) hover
  | decided _ d hnew hmem hover =>
    obtain ⟨_, _, hcommit⟩ := committed hmem
    obtain ⟨l, ⟨-, i, hi, hsame, -⟩, hfollows⟩ := moment_of_decision hr hcommit
    exact over_of_follows hfollows hi (hsame hnew ▸ hover)

end Check

/-! ## Every run -/

/--
Of every check there is an account of what it was told, in states of the run. It asks for a stop
only after facts of a running, ordinary round without a succeeded or failed task, and a later time
at or past the deadline. A timeout is committed only under the lock of a round that is running and
overdue at that moment.
-/
theorem timeout_follows_facts {stopping : Bool} (hr : run env ms = some s)
    (hc : Spawned (service env) ms pid (.check stopping id)) :
    (∃ told p, Account (service env) ms s pid (.check stopping id) told p ∧
      (∀ id' timeout d, Opens (S := sig) (.requestStop id' timeout d) told p →
        id' = id ∧ timeout = true ∧ ∃ facts now rest deadlineAt,
          told = .act .expired false :: .read (findCompletion id) (.ok (some facts)) ::
            .act .expired false :: .read databaseTime (.ok now) :: rest ∧
          facts.status = .running ∧ facts.executionConfig.executionMode = .normal ∧
          facts.taskStatus ≠ some .succeeded ∧ facts.taskStatus ≠ some .failed ∧
          facts.deadlineAt = some deadlineAt ∧ deadlineAt ≤ now) ∧
      (∀ late facts rest,
        told = .act .expired late :: .read (findCompletion id) (.ok (some facts)) :: rest →
        facts.taskStatus = some .succeeded ∨ facts.taskStatus = some .failed →
        ∀ id' timeout d, ¬ Opens (S := sig) (.requestStop id' timeout d) told p ∧
          ∀ before writes, .commit pid (.requestStop id' timeout d) before writes ∉ s.world.log) ∧
      ((Checker.check stopping id).Returns told (.terminal, none) →
        ∃ i, s.world.db .instance id = some i ∧ i.status.terminal = true)) ∧
    ∀ m s' q id' d before writes, s.step (service env) m = some s' →
      s'.world.log = .commit q (.requestStop id' true d) before writes :: s.world.log →
      d.new = true → ∃ sid σ i deadlineAt, s.sessions sid = some σ ∧ σ.pid = q ∧
        s.locks (instanceRow id') = some sid ∧
        s.world.db .instance id' = some i ∧ i.status = .running ∧
        i.deadlineAt = some deadlineAt ∧ deadlineAt ≤ s.world.now := by
  obtain ⟨told, p, h⟩ := Txn.account_of_run Inv.init (contract_kept env) (service_keeps env) hr hc
  have asked : ∀ id' timeout d, Opens (S := sig) (.requestStop id' timeout d) told p →
      id' = id ∧ timeout = true ∧ ∃ facts now rest, told = Checker.Lately id facts now rest ∧
        Checker.Late facts now ∧ facts.taskStatus ≠ some .succeeded ∧
        facts.taskStatus ≠ some .failed := by
    intro id' timeout d ho
    obtain ⟨hid, htimeout, facts, now, rest, rfl, hlate⟩ := late_of_opens h ho
    refine ⟨hid, htimeout, facts, now, rest, rfl, hlate, ?_⟩
    rcases hlate.unfinished with hnone | hstatus
    · obtain ⟨before, _, -, hfind, -⟩ := moment_of_facts h hr
        (List.mem_cons_of_mem _ List.mem_cons_self)
      obtain ⟨i, -, -, htask⟩ := findCompletion_inv hfind
      rw [htask hnone]
      exact ⟨nofun, nofun⟩
    · exact hstatus
  refine ⟨⟨told, p, h, ?_, ?_, ?_⟩, ?_⟩
  · intro id' timeout d ho
    obtain ⟨hid, htimeout, facts, now, rest, htold, hlate, hsucc, hfail⟩ := asked id' timeout d ho
    obtain ⟨deadlineAt, hdeadline, hpast⟩ := hlate.deadline
    exact ⟨hid, htimeout, facts, now, rest, deadlineAt, htold, hlate.running, hlate.ordinary, hsucc,
      hfail, hdeadline, hpast⟩
  · intro late facts rest htold hfinal id' timeout d
    have hnever : ¬ Opens (S := sig) (.requestStop id' timeout d) told p := by
      intro ho
      obtain ⟨-, -, _, _, _, htold', -, hsucc, hfail⟩ := asked id' timeout d ho
      cases htold.symm.trans htold'
      exact hfinal.elim hsucc hfail
    exact ⟨hnever, fun before writes he => hnever (h.committed _ before writes he)⟩
  · intro hret
    have hears : Txn.Proc.Hears _ _ _ ([] ++ told) := (Checker.check_hears stopping id).after hret
    exact over_of_shows h hr (hears rfl)
  · intro m s' q id' d before writes hm hlog hnew
    obtain ⟨sid, σ, hsid, hpid, -, hheld, i, hi, -, hdue⟩ := (run_stop_sound hr).commits hm hlog
    obtain ⟨hrun, deadlineAt, hdeadline, hpast⟩ := hdue hnew rfl
    exact ⟨sid, σ, i, deadlineAt, hsid, hpid, hheld, hi, hrun, hdeadline, hpast⟩

namespace Demo

def timedOut : Decision :=
  { instanceId := 1, executorGroupId := 1, status := .stopping, endReason := some .instanceTimeout
    new := true }

/-- The round is checked at its deadline, while its attempt is on the way. -/
def overdue : List Move :=
  (sent ++ [.tick (60 * second)]) ++ .spawn (.check true 1) ::
    ([.reply 4 .expired false, .exec 4, .reply 4 .expired false, .exec 4, .reply 4 .expired false,
      .reply 4 .expired false] ++ tx 4 3)

def stops : Event → Bool
  | .commit 4 op _ _ => op = .requestStop 1 true timedOut
  | _ => false

end Demo

theorem demo_timeout : ∃ s told p, run Demo.library Demo.overdue = some s ∧
    Account (service Demo.library) Demo.overdue s 4 (.check true 1) told p ∧
    Opens (S := sig) (.requestStop 1 true Demo.timedOut) told p ∧
    ∃ facts now rest deadlineAt,
      told = .act .expired false :: .read (findCompletion 1) (.ok (some facts)) ::
        .act .expired false :: .read databaseTime (.ok now) :: rest ∧
      facts.status = .running ∧ facts.deadlineAt = some deadlineAt ∧ deadlineAt ≤ now := by
  obtain ⟨s₀, hs₀, hnext⟩ : ∃ s ∈ run Demo.library (Demo.sent ++ [.tick (60 * second)]),
      s.next = 4 := by decide +kernel
  obtain ⟨s, hs, e, he, hcommit⟩ : ∃ s ∈ run Demo.library Demo.overdue, ∃ e ∈ s.world.log,
      Demo.stops e = true := by decide +kernel
  obtain ⟨⟨told, p, h, hasked, -, -⟩, -⟩ :=
    timeout_follows_facts hs ⟨_, _, s₀, rfl, hs₀, hnext⟩
  have ho : Opens (S := sig) (.requestStop 1 true Demo.timedOut) told p := by
    unfold Demo.stops at hcommit
    split at hcommit
    next op before writes =>
      cases of_decide_eq_true hcommit
      exact h.committed _ before writes he
    next => cases hcommit
  obtain ⟨-, -, facts, now, rest, deadlineAt, htold, hrun, -, -, -, hdeadline, hpast⟩ :=
    hasked 1 true Demo.timedOut ho
  exact ⟨s, told, p, hs, h, ho, facts, now, rest, deadlineAt, htold, hrun, hdeadline, hpast⟩

end Dogx.Job
