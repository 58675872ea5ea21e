import Dogx.Job.Transactions
import Dogx.Job.Refine.Batch
import Dogx.Job.Refine.Service

/-!
# A stopping round converges

Every batch that reports more work has closed all the tasks it listed, and the round has at least
that many unfinished tasks less than it had at the listing. Since nobody adds any, the number of
such batches is bounded, and the batch after them ends the round.

The listing is a moment of the run: `Listed` finds it again from the commit. From the listing to the
commit the batch has the round locked, so that no other batch of the round commits in between.
-/

namespace Dogx.Job

open Txn (Sound)
open Txn.Sys (execTx execTx_cases holder_eq put_inj put_self put_world)
open JobTaskRepository JobInstanceRepository Controller

variable {env : Env} {ms ms' : List Move} {s s' : Sys} {pid id size : ℕ} {w w₀ : World} {e : Event}
  {news : List Event} {l : Loc} {result : Option BatchResult}

/-! ## The listing of a batch -/

/-- The commit of a batch of the round that reports more work. -/
def Event.more (id : ℕ) : Event → Bool
  | .commit _ (.processBatch id' (some r)) _ _ => id' = id && r.more
  | _ => false

theorem Event.more_inv (h : Event.more id e = true) : ∃ pid r before writes,
    e = .commit pid (.processBatch id (some r)) before writes ∧ r.more = true := by
  unfold more at h
  split at h
  · simp only [Bool.and_eq_true, decide_eq_true_eq] at h
    obtain ⟨rfl, hmore⟩ := h
    exact ⟨_, _, _, _, rfl, hmore⟩
  · cases h

section Timeline

variable (env : Env) (w₀ : World) (ms : List Move)

/-- The move after `ms₁` executes the statement by which a batch of the round lists its tasks. -/
structure Listing (pid id size : ℕ) (ms₁ : List Move) (s₁ : Sys) : Prop where
  run : runFrom env w₀ ms₁ = some s₁
  next : ms₁ ++ [.exec pid] <+: ms
  stands : ∃ k k', s₁.sessions pid =
    some ⟨pid, .running (.processBatch id) (.select (listUnfinishedIds id size) k) k'⟩
  view : s₁.view pid = s₁.world.view

/-- The batch has listed its tasks in the world `w`, and has had the round locked since. -/
def Listed (log : List Event) (pid id size : ℕ) (w : World) : Prop :=
  ∃ ms₁ s₁, s₁.world = w ∧ Listing env w₀ ms pid id size ms₁ s₁ ∧
    (∀ ms₂ s₂, ms₁ <+: ms₂ → ms₂ <+: ms → runFrom env w₀ ms₂ = some s₂ →
      s₂.holder (instanceRow id) = some pid) ∧
    ∃ later, log = later ++ w.log ∧ ∀ e ∈ later, Event.more id e = false

/-! ## Where a batch stands -/

def Op.isBatch : Op → Bool
  | .processBatch _ _ => true
  | _ => false

inductive Tried : (α : Type) → (α → Op) → Tx α → Prop where
  | other {α : Type} {label : α → Op} {body : Tx α} (h : ∀ a, (label a).isBatch = false) :
      Tried α label body
  | batch {size id : ℕ} (spawned : .spawn (.processBatch size id) ∈ ms) :
      Tried _ (.processBatch id) (processBatchTx .listed size id)

/-- Where the transaction of a batch stands. -/
inductive Stage (pid : ℕ) (l : Loc) : (α : Type) → (α → Op) → Tx α → Prop where
  | other {α : Type} {label : α → Op} {body : Tx α} (h : ∀ a, (label a).isBatch = false) :
      Stage pid l α label body
  | start {size id : ℕ} (spawned : .spawn (.processBatch size id) ∈ ms) (quiet : l.pend = noWrites) :
      Stage pid l _ (.processBatch id) (processBatchTx .listed size id)
  | locked {size id : ℕ} {i : JobInstance} (spawned : .spawn (.processBatch size id) ∈ ms)
      (round : LockedRound id i l) (ids : i.id = id) (stopping : i.status = .stopping) :
      Stage pid l _ (.processBatch id) (processStopping .listed size id i)
  | ending {size id : ℕ} {body : Tx (Option BatchResult)} {L : World → Prop}
      (spawned : .spawn (.processBatch size id) ∈ ms)
      (listing : ∀ w, L w → Listed env w₀ ms l.world.log pid id size w ∧ instanceRow id ∈ l.held)
      (h : Achieves env pid body (BatchEnd id size L) l) :
      Stage pid l _ (.processBatch id) body

def Ended (pid id : ℕ) (result : Option BatchResult) (l : Loc) : Prop :=
  ∃ size L, .spawn (.processBatch size id) ∈ ms ∧
    (∀ w, L w → Listed env w₀ ms l.world.log pid id size w ∧ instanceRow id ∈ l.held) ∧
    BatchEnd id size L result l

def Staged (σ : Txn.Session sig) (l : Loc) : Prop :=
  match σ.phase with
  | .running label body _ => Stage env w₀ ms σ.pid l _ label body
  | .doubt op => ∀ id result, op = .processBatch id result → Ended env w₀ ms σ.pid id result l
  | _ => True

def Rests (e : Event) : Prop :=
  ∀ pid id result before writes, e = .commit pid (.processBatch id result) before writes →
    ∃ ms₁ l, ms₁ <+: ms ∧ l.world.db = before ∧ l.pend = writes ∧ Ended env w₀ ms₁ pid id result l

/-- What a run has to show for its batches. -/
structure Timeline (s : Sys) : Prop where
  start : (contract env).Sane w₀
  run : runFrom env w₀ ms = some s
  each : ∀ j σ, s.sessions j = some σ → σ.Each (Tried ms)
  stage : ∀ j σ, s.sessions j = some σ → Staged env w₀ ms σ (s.loc j)
  events : ∀ e ∈ s.world.log, Rests env w₀ ms e

end Timeline

theorem Listed.extend {log : List Event} {m : Move} (h : Listed env w₀ ms log pid id size w)
    (hr : runFrom env w₀ (ms ++ [m]) = some s') (hholder : s'.holder (instanceRow id) = some pid)
    (hnews : ∀ e ∈ news, Event.more id e = false) :
    Listed env w₀ (ms ++ [m]) (news ++ log) pid id size w := by
  obtain ⟨ms1, s1, hw, hl, hopen, later, hlog, hlater⟩ := h
  refine ⟨ms1, s1, hw, ⟨hl.run, hl.next.trans (List.prefix_append ..), hl.stands, hl.view⟩, ?_,
    news ++ later, by rw [hlog, List.append_assoc], ?_⟩
  · intro ms2 s2 h1 h2 hr2
    rcases List.prefix_concat_iff.mp h2 with rfl | h2
    · cases hr.symm.trans hr2
      exact hholder
    · exact hopen ms2 s2 h1 h2 hr2
  · intro e he
    rcases List.mem_append.mp he with he | he
    · exact hnews e he
    · exact hlater e he

theorem Tried.mono (hsub : ms <+: ms') (α : Type) (label : α → Op) (body : Tx α)
    (h : Tried ms α label body) : Tried ms' α label body := by
  cases h with
  | other h => exact .other h
  | batch spawned => exact .batch (hsub.subset spawned)

theorem processBatchTx_head (size id : ℕ) :
    (∃ e, processBatchTx .listed size id = .throw e) ∨ ∃ k, processBatchTx .listed size id = .lock .instance id true k := by
  unfold processBatchTx lockForStop
  split
  · exact .inl ⟨_, rfl⟩
  · exact .inr ⟨_, rfl⟩

theorem Stage.ended {α : Type} {label : α → Op} {a : α} (hwf : l.WF) (hinv : Inv l.world)
    (h : Stage env w₀ ms pid l α label (.ret a)) (hop : label a = .processBatch id result) :
    Ended env w₀ ms pid id result l := by
  generalize hbody : Txn.Tx.ret a = body at h
  cases h with
  | other h =>
    have hname := h a
    rw [hop] at hname
    cases hname
  | @start size id spawned quiet =>
    rcases processBatchTx_head size id with ⟨e, he⟩ | ⟨k, hk⟩
    · rw [he] at hbody
      cases hbody
    · rw [hk] at hbody
      cases hbody
  | @locked size id i spawned round ids stopping =>
    rcases processStopping_ends env pid size ids stopping with ⟨e, he⟩ | ⟨k, hk, -⟩
    · rw [he] at hbody
      cases hbody
    · rw [hk] at hbody
      cases hbody
  | ending spawned listing h =>
    subst hbody
    cases hop
    exact ⟨_, _, spawned, listing, h _ .refl hwf hinv⟩

namespace Timeline

variable {m : Move} {j : ℕ} {σ σ' : Txn.Session sig}
  {k : Except Err (Option BatchResult) → Proc Unit}

theorem sound (h : Timeline env w₀ ms s) : Sound (contract env) s := runFrom_sound h.start h.run

theorem init (h : (contract env).Sane w₀) : Timeline env w₀ [] (Txn.Sys.atRest w₀) where
  start := h
  run := rfl
  each := fun _ _ hj => by cases hj
  stage := fun _ _ hj => by cases hj
  events := fun _ he => by simp [Txn.Sys.atRest, h.unlogged] at he

theorem commits (h : Timeline env w₀ ms s) {op : Op} (hj : s.sessions j = some σ)
    (hop : op = .processBatch id result)
    (hphase : σ.phase.Commits op) :
    Ended env w₀ ms σ.pid id result (s.loc j) := by
  have hst := h.stage j σ hj
  obtain ⟨_, _⟩ := σ
  rcases hphase with hphase | ⟨α, label, a, k, hphase, rfl⟩
  · cases hphase
    exact hst id result hop
  · cases hphase
    exact Stage.ended (h.sound.wf j) h.sound.inv hst hop

structure New (env : Env) (w₀ : World) (ms : List Move) (s s' : Sys) (m : Move) (e : Event) : Prop where
  ended : ∀ pid id result before writes, e = .commit pid (.processBatch id result) before writes →
    before = s.world.db ∧ s'.world.db = before.apply writes ∧
      ∃ l, l.world = s.world ∧ l.pend = writes ∧ Ended env w₀ ms pid id result l
  locked : ∀ id, Event.more id e = true → ∃ j, m.sid = some j ∧ instanceRow id ∈ (s.loc j).held

theorem New.rests (h : New env w₀ ms s s' m e) : Rests env w₀ ms e := by
  intro pid id result before writes he
  obtain ⟨hbefore, -, l, hw, hp, hend⟩ := h.ended pid id result before writes he
  exact ⟨ms, l, List.prefix_rfl, by rw [hw, hbefore], hp, hend⟩

theorem new_commit (h : Timeline env w₀ ms s) {op : Op} (hj : s.sessions j = some σ)
    (hsid : m.sid = some j) (hphase : σ.phase.Commits op)
    (hdb : s'.world.db = s.world.db.apply (s.pend j)) :
    New env w₀ ms s s' m (.commit σ.pid op s.world.db (s.pend j)) where
  ended := by
    rintro pid id _ before writes ⟨⟩
    exact ⟨rfl, hdb, s.loc j, rfl, rfl, h.commits hj rfl hphase⟩
  locked := by
    intro id hmore
    obtain ⟨_, r, _, _, he, hr⟩ := Event.more_inv hmore
    cases he
    obtain ⟨_, L, -, -, hend⟩ := h.commits hj rfl hphase
    refine ⟨j, hsid, ?_⟩
    cases hend with
    | passed _ _ more _ | completed more _ _ _ | nothing _ more _ =>
      cases more.symm.trans hr
    | canceled _ _ ids _ _ h =>
      subst ids
      exact h.canceling.round.1

theorem new_other (he : ∀ pid op before writes, e ≠ .commit pid op before writes) :
    New env w₀ ms s s' m e where
  ended pid id _ before writes heq := absurd heq (he _ _ _ _)
  locked id hmore := by
    obtain ⟨_, r, _, _, heq, -⟩ := Event.more_inv hmore
    exact absurd heq (he _ _ _ _)

theorem listing_extend {L : World → Prop} {phase : Txn.Phase sig}
    (hlisting : ∀ w, L w → Listed env w₀ ms l.world.log pid id size w ∧ instanceRow id ∈ l.held)
    (hr : runFrom env w₀ (ms ++ [m]) = some s') (hσ' : s'.sessions j = some ⟨pid, phase⟩)
    (hlog : s'.world.log = news ++ l.world.log) (hheld : l.held ⊆ (s'.loc j).held)
    (hnews : instanceRow id ∈ l.held → ∀ e ∈ news, Event.more id e = false) :
    ∀ w, L w → Listed env w₀ (ms ++ [m]) s'.world.log pid id size w ∧ instanceRow id ∈ (s'.loc j).held := by
  intro w hw
  obtain ⟨hlisted, hlock⟩ := hlisting w hw
  rw [hlog]
  exact ⟨hlisted.extend hr (holder_eq hσ' (hheld hlock)) (hnews hlock), hheld hlock⟩

theorem mem_snoc {c : Call} (h : .spawn c ∈ ms) : .spawn c ∈ ms ++ [m] := List.mem_append_left _ h

theorem staged_lock (hspawned : .spawn (.processBatch size id) ∈ ms)
    (hquiet : (s.loc j).pend = noWrites)
    (he : s.execTx j pid (.processBatch id) k (processBatchTx .listed size id) = some s')
    (hσ' : s'.sessions j = some σ') : Staged env w₀ (ms ++ [m]) σ' (s'.loc j) := by
  have ends : ∀ (body : Tx (Option BatchResult)) (l : Loc),
      Achieves env pid body (BatchEnd id size fun _ => False) l →
      Stage env w₀ (ms ++ [m]) pid l _ (.processBatch id) body := fun body l hwp =>
    .ending (mem_snoc hspawned) (fun _ h => h.elim) hwp
  have returns : ∀ (result : Option BatchResult) (l : Loc), BatchEnd id size (fun _ => False) result l →
      Stage env w₀ (ms ++ [m]) pid l _ (.processBatch id) (pure result) := fun result l hend =>
    ends _ l (Txn.Tx.wp_pure (stable_batchEnd _ _ _ result) hend fun _ h _ _ => h)
  unfold processBatchTx lockForStop at he
  split at he
  · cases he
    cases put_inj hσ'
    trivial
  change s.execTx j pid (.processBatch id) k (.lock .instance id true _) = some s' at he
  simp only [execTx] at he
  split at he
  · cases he
    cases put_inj hσ'
    exact returns none _ .missing
  · next i hi =>
    split at he
    · cases he
      cases put_inj hσ'
      have hround : LockedRound id i ((s.grab j (instanceRow id)).loc j) := by
        rw [Txn.Sys.grab_loc_self]
        exact .of_hold hquiet hi
      change Stage env w₀ (ms ++ [m]) pid _ _ (.processBatch id) (ite _ _ _)
      split
      · exact ends _ _ gives_up
      next hid =>
      have passes : i.status ≠ .stopping → BatchEnd id size (fun _ => False)
          (some ⟨id, i.status, 0, false, false⟩) ((s.grab j (instanceRow id)).loc j) :=
        fun hne => .passed hround.2 hne rfl rfl
      split
      case h_6 hstop => exact .locked (mem_snoc hspawned) hround (Decidable.not_not.mp hid) hstop
      all_goals
        next hstatus => exact returns _ _ (passes (by rw [hstatus]; decide))
    · cases he
      cases put_inj hσ'
      exact ends _ _ gives_up

theorem transactions_tried (env : Env) (ms : List Move) :
    Transactions env (fun order size id => order = .listed ∧ .spawn (.processBatch size id) ∈ ms)
      (Tried ms) where
  startOrdinary := fun _ => .other fun _ => rfl
  retryOrdinary := fun _ => .other fun _ => rfl
  writeTask := fun label _ _ hlabel => by cases hlabel <;> exact .other fun _ => rfl
  settleOrdinaryUnknown := fun w => by
    unfold settleOrdinaryUnknown
    split
    · exact .pure _
    · exact .run (.other fun _ => rfl)
  complete := fun _ _ _ _ => .other fun _ => rfl
  requestStop := fun _ _ => .other fun _ => rfl
  processBatch := fun order size id h => by
    obtain ⟨rfl, hmem⟩ := h
    exact .batch hmem
  triggerManual := fun _ => .other fun _ => rfl
  triggerAutomatic := fun _ => .other fun _ => rfl
  createExecutorGroup := fun _ => .run (.other fun _ => rfl)
  deleteExecutorGroup := fun _ => .other fun _ => rfl
  createJob := fun _ => .other fun _ => rfl
  updateJob := fun _ _ => .other fun _ => rfl
  enableJob := fun _ => .other fun _ => rfl
  disableJob := fun _ _ => .other fun _ => rfl
  deleteJob := fun _ => .other fun _ => rfl

section Step

variable (h : Timeline env w₀ ms s) (hm : s.step (service env) m = some s')

include h hm

theorem run_snoc : runFrom env w₀ (ms ++ [m]) = some s' := Txn.Sys.run_snoc.mpr ⟨s, h.run, hm⟩

theorem adds :
    s'.world.log = s.world.log ∨ ∃ e, s'.world.log = e :: s.world.log ∧ New env w₀ ms s s' m e := by
  cases h.sound.news hm with
  | silent hlog => exact .inl hlog
  | event hlog other => exact .inr ⟨_, hlog, new_other other⟩
  | commit hj hsid hphase hlog hdb => exact .inr ⟨_, hlog, h.new_commit hj hsid hphase hdb⟩

theorem news_list :
    ∃ news, s'.world.log = news ++ s.world.log ∧ ∀ e ∈ news, New env w₀ ms s s' m e := by
  rcases h.adds hm with heq | ⟨e, heq, hnew⟩
  · exact ⟨[], heq, fun e he => by cases he⟩
  · exact ⟨[e], heq, fun e' he' => List.mem_singleton.mp he' ▸ hnew⟩

/-- A move of another session keeps what a batch rests on. -/
theorem staged_aside (hj : s.sessions j = some σ) (hother : m.sid ≠ some j) :
    Staged env w₀ (ms ++ [m]) σ (s'.loc j) := by
  have haside := h.sound.aside hm hj hother
  have hr := h.run_snoc hm
  have hheld : (s.loc j).held ⊆ (s'.loc j).held := by
    rw [haside.loc]
    exact subset_rfl
  obtain ⟨news, hlog, hnew⟩ := h.news_list hm
  -- another batch of the round would need the lock that this one has
  have hnews : ∀ id, instanceRow id ∈ (s.loc j).held → ∀ e ∈ news, Event.more id e = false := by
    intro id hlock e he
    by_contra hmore
    obtain ⟨j', hsid, hlock'⟩ := (hnew e he).locked id (by simpa using hmore)
    have h1 : s.locks (instanceRow id) = some j := hlock
    have h2 : s.locks (instanceRow id) = some j' := hlock'
    cases h1.symm.trans h2
    exact hother hsid
  have hst := h.stage j σ hj
  obtain ⟨_, phase⟩ := σ
  rw [haside.loc]
  cases phase with
  | running =>
    cases hst with
    | other h => exact .other h
    | start spawned quiet => exact .start (mem_snoc spawned) quiet
    | locked spawned round ids stopping =>
      refine .locked (mem_snoc spawned) ?_ ids stopping
      exact stable_lockedRound _ _ (s.loc j) _ round haside.rely.leave
    | ending spawned listing hwp =>
      refine .ending (mem_snoc spawned) ?_ (Txn.Tx.wp_rely hwp haside.rely)
      rw [← haside.loc]
      exact listing_extend listing hr haside.session hlog hheld (hnews _)
  | doubt =>
    intro id result hop
    obtain ⟨size, L, spawned, listing, hend⟩ := hst id result hop
    refine ⟨size, L, mem_snoc spawned, ?_, stable_batchEnd _ _ _ _ (s.loc j) _ hend haside.rely⟩
    rw [← haside.loc]
    exact listing_extend listing hr haside.session hlog hheld (hnews _)
  | _ => trivial

theorem staged_doubt {i : ℕ} {α : Type} {label : α → Op} {a : α} {k : Except Err α → Proc Unit}
    (hj : s.sessions j = some ⟨pid, .running label (.ret a) k⟩)
    (hi : s'.sessions i = some ⟨pid, .doubt (label a)⟩) (hloc : s'.loc i = (s.loc j).on s'.world)
    (hworld : s'.world = s.world.record (.lost pid (label a))) :
    Staged env w₀ (ms ++ [m]) ⟨pid, .doubt (label a)⟩ (s'.loc i) := by
  have hr := h.run_snoc hm
  intro id result hop
  obtain ⟨size, L, spawned, listing, hend⟩ :=
    Stage.ended (h.sound.wf j) h.sound.inv (h.stage j _ hj) hop
  have hheld : (s.loc j).held ⊆ (s'.loc i).held := by
    rw [hloc]
    exact subset_rfl
  have hrely : Txn.Rely (contract env) pid true (s.loc j).held s.world s'.world := by
    rw [hworld]
    exact .single (.lost (.inr rfl))
  refine ⟨size, L, mem_snoc spawned, ?_, hloc ▸ stable_batchEnd _ _ _ _ (s.loc j) _ hend hrely⟩
  have hlog : s'.world.log = [.lost pid (label a)] ++ s.world.log := hworld ▸ rfl
  refine listing_extend listing hr hi hlog hheld fun _ e he => ?_
  rw [List.mem_singleton.mp he]
  rfl

theorem staged_list (hsid : m.sid = some j) {i : JobInstance}
    (hj : s.sessions j = some ⟨pid, .running (.processBatch id) (processStopping .listed size id i) k⟩)
    (hspawned : .spawn (.processBatch size id) ∈ ms) (hround : LockedRound id i (s.loc j))
    (hid : i.id = id) (hstop : i.status = .stopping) (hσ' : s'.sessions j = some σ') :
    Staged env w₀ (ms ++ [m]) σ' (s'.loc j) := by
  have hpid : pid = j := (h.sound.named j _ hj).2.2 rfl
  subst hpid
  have hr := h.run_snoc hm
  rcases processStopping_ends env pid size hid hstop with ⟨e, he⟩ | ⟨k', hk, hwp⟩
  · rw [he] at hj
    obtain ⟨σ, hσ, ho⟩ := Txn.Sys.Own.of_step hm hsid
    cases hj.symm.trans hσ
    cases ho with
    | exec he =>
      cases he
      cases put_inj hσ'
      trivial
    | undo =>
      cases put_inj hσ'
      trivial
  rw [hk] at hj
  rcases Txn.Sys.step_select hm hsid hj with ⟨rfl, rfl⟩ | ⟨f, rfl⟩
  · cases put_inj hσ'
    refine .ending (mem_snoc hspawned) (fun w hw => ⟨?_, hround.2.1⟩)
      (hwp _ hround (h.sound.wf pid) h.sound.inv)
    subst hw
    refine ⟨ms, s, rfl, ⟨h.run, List.prefix_rfl, ⟨k', k, hj⟩, view_of_noWrites hround.1⟩, ?_, [], rfl,
      fun e he => by cases he⟩
    intro ms2 s2 h1 h2 hr2
    rcases List.prefix_concat_iff.mp h2 with rfl | h2
    · cases hr.symm.trans hr2
      exact holder_eq (put_self _) hround.2.1
    · cases (h1.eq_of_length_le h2.length_le : ms = ms2)
      cases h.run.symm.trans hr2
      have hholder := holder_eq hj hround.2.1
      exact hholder
  · cases put_inj hσ'
    trivial

/-- A session's own move keeps what its batch rests on. -/
theorem staged_own (hsid : m.sid = some j) (hσ' : s'.sessions j = some σ') :
    Staged env w₀ (ms ++ [m]) σ' (s'.loc j) := by
  have hr := h.run_snoc hm
  have put : ∀ {s1 : Sys} {τ : Txn.Session sig} {l : Loc}, (s1.put j τ).sessions j = some σ' →
      Staged env w₀ (ms ++ [m]) τ l → Staged env w₀ (ms ++ [m]) σ' l := by
    intro s1 τ l hτ hst
    cases put_inj hτ
    exact hst
  obtain ⟨σ, hj, ho⟩ := Txn.Sys.Own.of_step hm hsid
  have hst := h.stage j σ hj
  cases ho with
  | begin _ label body =>
    refine put hσ' ?_
    have hquiet : (s.loc j).pend = noWrites := by
      rw [h.sound.loc_of_quiet fun τ hτ => by rw [hj] at hτ; cases hτ; exact id]
      rfl
    obtain ⟨htried, -⟩ : Tried ms _ label body ∧ _ := h.each j _ hj
    cases htried with
    | other h => exact .other h
    | batch spawned => exact .start (mem_snoc spawned) hquiet
  | @exec α pid label body k _ he =>
    cases hst with
    | other hother =>
      rcases execTx_cases h.sound.wf h.sound.inv (h.sound.ok j _ hj).1 he with
        ⟨e, -, rfl⟩ | ⟨body', s1, hran, -, rfl⟩
      · exact put hσ' trivial
      · exact put hσ' (Stage.other hother)
    | start spawned quiet => exact staged_lock spawned quiet he hσ'
    | locked spawned round ids stopping =>
      exact h.staged_list hm hsid hj spawned round ids stopping hσ'
    | ending spawned listing hwp =>
      rcases execTx_cases h.sound.wf h.sound.inv hwp he with
        ⟨e, -, rfl⟩ | ⟨body', s1, hran, hwp', rfl⟩
      · exact put hσ' trivial
      · refine put hσ' (Stage.ending (mem_snoc spawned) ?_ hwp')
        have hlog : s1.world.log = [] ++ s.world.log := by
          rcases hran.world with heq | ⟨t, heq⟩
          · rw [heq]; rfl
          · rw [heq]; rfl
        exact listing_extend listing hr (put_self _) hlog hran.held fun _ e he => by cases he
  | ask pid _ a k' k r =>
    refine put hσ' ?_
    generalize hbody : Txn.Tx.ask a k' = body at hst
    cases hst with
    | other hother => exact .other hother
    | @start size id =>
      rcases processBatchTx_head size id with ⟨e, he⟩ | ⟨k, hk⟩
      · rw [he] at hbody
        cases hbody
      · rw [hk] at hbody
        cases hbody
    | @locked size id i spawned round ids stopping =>
      rcases processStopping_ends env pid size ids stopping with ⟨e, he⟩ | ⟨k, hk, -⟩
      · rw [he] at hbody
        cases hbody
      · rw [hk] at hbody
        cases hbody
    | ending spawned listing hwp =>
      subst hbody
      refine Stage.ending (mem_snoc spawned) ?_ ((hwp _ .refl (h.sound.wf j) h.sound.inv).2 r).2
      have hlog : (s.world.record (.act pid a r)).log = [.act pid a r] ++ s.world.log := rfl
      refine listing_extend listing hr (put_self _) hlog subset_rfl fun _ e he => ?_
      rw [List.mem_singleton.mp he]
      rfl
  | abandon | settle =>
    cases Txn.Sys.drop_self.symm.trans hσ'
  | _ => exact put hσ' trivial

/-- One move keeps the timeline. -/
theorem step : Timeline env w₀ (ms ++ [m]) s' := by
  have hmono := Tried.mono (List.prefix_append ms [m])
  refine ⟨h.start, h.run_snoc hm, fun j σ' hσ' => ?_, fun j σ' hσ' => ?_, fun e he => ?_⟩
  · cases hj : s.sessions j with
    | none =>
      rcases h.sound.newcomer hm hj hσ' with ⟨c, rfl, rfl⟩ | ⟨_, _, _, _, _, _, -, -, rfl, -⟩
      · have heach := (transactions_tried env (ms ++ [.spawn c])).each c .listed fun size id hc =>
          ⟨rfl, hc ▸ List.mem_append_right _ (List.mem_singleton_self _)⟩
        exact heach
      · trivial
    | some σ =>
      by_cases hsid : m.sid = some j
      · exact ((h.each j σ hj).mono hmono).own h.sound hj hm hsid hσ'
      · cases (h.sound.aside hm hj hsid).session.symm.trans hσ'
        exact (h.each j _ hj).mono hmono
  · cases hj : s.sessions j with
    | none =>
      rcases h.sound.newcomer hm hj hσ' with
        ⟨c, rfl, rfl⟩ | ⟨j', pid, α, label, a, k, -, hj', rfl, hloc, hworld⟩
      · trivial
      · exact h.staged_doubt hm hj' hσ' hloc hworld
    | some =>
      by_cases hsid : m.sid = some j
      · exact h.staged_own hm hsid hσ'
      · cases (h.sound.aside hm hj hsid).session.symm.trans hσ'
        exact h.staged_aside hm hj hsid
  · have extend : Rests env w₀ ms e → Rests env w₀ (ms ++ [m]) e := by
      intro hrests pid id result before writes heq
      obtain ⟨ms1, l, hpre, hrest⟩ := hrests pid id result before writes heq
      exact ⟨ms1, l, hpre.trans (List.prefix_append ..), hrest⟩
    obtain ⟨_, hlog, hnew⟩ := h.news_list hm
    rw [hlog] at he
    rcases List.mem_append.mp he with he | he
    · exact extend (hnew e he).rests
    · exact extend (h.events e he)

end Step

theorem of_run (hw : (contract env).Sane w₀) (hr : runFrom env w₀ ms = some s) :
    Timeline env w₀ ms s := by
  induction ms using List.reverseRecOn generalizing s with
  | nil =>
    cases hr
    exact .init hw
  | append_singleton _ m ih =>
    obtain ⟨_, h0, hm⟩ := Txn.Sys.run_snoc.mp hr
    exact (ih h0).step hm

end Timeline

/-! ## Counting -/

def Event.counts (s₀ : Sys) (id : ℕ) (e : Event) : Bool :=
  Event.more id e && s₀.holder (instanceRow id) ≠ some (Txn.Event.pid e)

def moreBatches (s₀ : Sys) (id : ℕ) (log : List Event) : ℕ := log.countP (Event.counts s₀ id)

/-- A batch that reports more work leaves fewer tasks than it has listed. -/
theorem Listed.shrinks {s₀ : Sys} {ms₀ : List Move} {b : TaskCancellation} {i : JobInstance}
    (h : Listed env w₀ (ms₀ ++ ms) l.world.log pid id size w) (hstart : (contract env).Sane w₀)
    (h0 : runFrom env w₀ ms₀ = some s₀)
    (hfree : s₀.holder (instanceRow id) ≠ some pid) (hid : b.instanceId = id)
    (hlisted : listUnfinishedIds id size w.view ≠ [])
    (hconv : Converging b i (Unfinished w.db id) {x | x ∈ listUnfinishedIds id size w.view} [] l) :
    ∃ ms1 s1, ms1.length < ms.length ∧ ms1 <+: ms ∧ s₀.run (service env) ms1 = some s1 ∧
      moreBatches s₀ id l.world.log = moreBatches s₀ id s1.world.log ∧
      (Unfinished s1.world.db id).Nonempty ∧
      (Unfinished (l.world.db.apply l.pend) id = ∅ ∨
        (Unfinished (l.world.db.apply l.pend) id).ncard + size ≤ (Unfinished s1.world.db id).ncard) := by
  obtain ⟨ms1, s1, rfl, hl, hopen, _, hlog, hlater⟩ := h
  have hpre : ms1 <+: ms₀ ++ ms := (List.prefix_append ..).trans hl.next
  -- otherwise the batch would have had the round locked
  obtain ⟨ms2, rfl⟩ : ms₀ <+: ms1 := by
    refine (List.prefix_or_prefix_of_prefix hpre (List.prefix_append ms₀ ms)).resolve_left fun hle => ?_
    exact hfree (hopen ms₀ s₀ hle (List.prefix_append ..) h0)
  have hsound : Sound (contract env) s1 := runFrom_sound hstart hl.run
  have hwf := (hsound.wf 0).restart
  have hnext := hl.next
  rw [List.append_assoc, List.prefix_append_right_inj] at hnext
  refine ⟨ms2, s1, ?_, (List.prefix_append ..).trans hnext, ?_, ?_, ?_, ?_⟩
  · have hlen := hnext.length_le
    rw [List.length_append, List.length_singleton] at hlen
    omega
  · obtain ⟨_, h0', hrun⟩ := Txn.Sys.run_append.mp hl.run
    cases h0.symm.trans h0'
    exact hrun
  · rw [hlog, moreBatches, moreBatches, List.countP_append, List.countP_eq_zero.mpr, Nat.zero_add]
    intro e he
    simp [Event.counts, hlater e he]
  · obtain ⟨taskId, hmem⟩ := List.exists_mem_of_ne_nil _ hlisted
    exact ⟨taskId, listed_subset hsound.inv hwf hmem⟩
  · have hleft := hconv.unfinished
    rw [hid] at hleft
    exact ncard_remaining hsound.inv hwf (fun x hx => (hleft hx).1) fun x hx hun => (hleft hun).2 hx

section Count

variable {s₀ : Sys} {ms₀ : List Move} {b n k : ℕ} {U U' : Set ℕ} {r : BatchResult}

structure Counted (b n k : ℕ) (U : Set ℕ) : Prop where
  left : U = ∅ ∨ U.ncard + b * k ≤ n
  needed : k = 0 ∨ b * (k - 1) < n

theorem Counted.next (h : Counted b n k U) (hfin : U.Finite) (hU : U.Nonempty)
    (hU' : U' = ∅ ∨ U'.ncard + b ≤ U.ncard) : Counted b n (k + 1) U' := by
  have hle := h.left.resolve_left hU.ne_empty
  have hpos : 0 < U.ncard := (Set.ncard_pos hfin).mpr hU
  refine ⟨hU'.imp_right fun hle' => ?_, .inr ?_⟩
  · rw [Nat.mul_succ]
    omega
  · rw [Nat.add_sub_cancel]
    omega

theorem Counted.mono (h : Counted b n k U) (hfin : U.Finite) (hU : U' ⊆ U) : Counted b n k U' := by
  refine ⟨?_, h.needed⟩
  rcases h.left with hempty | hle
  · exact .inl (Set.subset_eq_empty hU hempty)
  · exact .inr ((Nat.add_le_add_right (Set.ncard_le_ncard hU hfin) _).trans hle)

/-- Every further batch uses up a whole page of tasks. -/
theorem counted (hstart : (contract env).Sane w₀) (h0 : runFrom env w₀ ms₀ = some s₀) (hbegun : Begun s₀.world.db id)
    (hr : s₀.run (service env) ms = some s)
    (hsize : ∀ size, .spawn (.processBatch size id) ∈ ms₀ ++ ms → size = b) :
    ∃ k, moreBatches s₀ id s.world.log = k + moreBatches s₀ id s₀.world.log ∧
      Counted b (Unfinished s₀.world.db id).ncard k (Unfinished s.world.db id) := by
  have onwards : ∀ {ms s}, s₀.run (service env) ms = some s →
      Sound (contract env) s ∧ Txn.Evolution (contract env) s₀.world s.world := fun hr =>
    (runFrom_sound hstart h0).run (contract_kept env) (service_keeps env) hr
  -- on the number of moves: a batch refers back to its listing
  induction hn : ms.length using Nat.strong_induction_on generalizing ms s with
  | _ n ih =>
    rcases List.eq_nil_or_concat ms with rfl | ⟨ms', m, rfl⟩
    · cases hr
      exact ⟨0, (Nat.zero_add _).symm, .inr (by simp), .inl rfl⟩
    rw [List.concat_eq_append] at *
    obtain ⟨s', hr', hm⟩ := Txn.Sys.run_snoc.mp hr
    have hline : Timeline env w₀ (ms₀ ++ ms') s' :=
      .of_run hstart (Txn.Sys.run_append.mpr ⟨s₀, h0, hr'⟩)
    have hlen : (ms' ++ [m]).length = ms'.length + 1 := by simp
    have hsub : ∀ ms1, ms1 <+: ms' → ∀ size, .spawn (.processBatch size id) ∈ ms₀ ++ ms1 → size = b := by
      intro ms1 hpre size hmem
      refine hsize size ?_
      rw [← List.append_assoc]
      exact List.mem_append_left _ (((List.prefix_append_right_inj ms₀).mpr hpre).subset hmem)
    obtain ⟨k, hk, hcount⟩ := ih ms'.length (by omega) hr' (hsub ms' List.prefix_rfl) rfl
    -- a move that is not counted leaves as much or less
    have hless : Counted b (Unfinished s₀.world.db id).ncard k (Unfinished s.world.db id) := by
      have hev := (hline.sound.step (contract_kept env) (service_keeps env) hm).2
      have hb : Begun s'.world.db id := hbegun.follows (evolution_follows (onwards hr').2)
      exact hcount.mono (unfinished_finite hline.sound.inv (hline.sound.wf 0).restart)
        (evolution_within hev ⟨hb, subset_rfl⟩).subset
    rcases hline.adds hm with heq | ⟨e, heq, hnew⟩
    · exact ⟨k, by rw [heq, hk], hless⟩
    by_cases hcounts : Event.counts s₀ id e = true
    · obtain ⟨hmore, hfree⟩ := Bool.and_eq_true _ _ ▸ hcounts
      obtain ⟨pid, r, before, writes, rfl, hgoes⟩ := Event.more_inv hmore
      obtain ⟨rfl, hafter, l, hworld, rfl, size, L, hspawned, hlisting, hend⟩ :=
        hnew.ended pid id (some r) before writes rfl
      cases hsub ms' List.prefix_rfl size hspawned
      cases hend with
      | passed _ _ more _ | completed more _ _ _ | nothing _ more _ =>
        cases more.symm.trans hgoes
      | canceled _ _ ids listing listed hconv =>
        obtain ⟨ms1, s1, _, hpre, hr1, hsame, hne, hleft⟩ :=
          (hlisting _ listing).1.shrinks hstart h0 (of_decide_eq_true hfree) ids listed hconv
        obtain ⟨k1, hk1, hcount1⟩ := ih ms1.length (by omega) hr1 (hsub ms1 hpre) rfl
        rw [hworld] at hsame hleft
        refine ⟨k1 + 1, ?_, ?_⟩
        · rw [heq, moreBatches, List.countP_cons_of_pos hcounts, ← moreBatches]
          omega
        · have hfin : (Unfinished s1.world.db id).Finite := by
            have hs1 := (onwards hr1).1
            exact unfinished_finite hs1.inv (hs1.wf 0).restart
          rw [hafter]
          exact hcount1.next hfin hne hleft
    · refine ⟨k, ?_, hless⟩
      rw [heq, moreBatches, List.countP_cons_of_neg hcounts]
      exact hk

structure Cleared (env : Env) (w₀ : World) (ms : List Move) (pid id size : ℕ) (after : Db) (ms₁ : List Move)
    (s₁ : Sys) : Prop extends Listing env w₀ ms pid id size ms₁ s₁ where
  ended : ∀ taskId ∈ listUnfinishedIds id size (s₁.view pid),
    ∃ t, after .task taskId = some t ∧ t.status.unfinished = false
  fewer : Unfinished after id ⊂ Unfinished s₁.world.db id

/-- What a committed batch has found and done. -/
structure Processed (env : Env) (w₀ : World) (ms : List Move) (pid id size : ℕ) (r : BatchResult)
    (before writes : Db) : Prop where
  more : r.more = true → ∃ ms₁ s₁, Cleared env w₀ ms pid id size (before.apply writes) ms₁ s₁
  last : r.more = false → ∀ i, before .instance id = some i → i.status = .stopping →
    r.completed = true
  completed : r.completed = true → Unfinished before id = ∅ ∧ ∃ i reason now,
    before .instance id = some i ∧ writes = Txn.Store.set noWrites .instance id (finishSet reason now i)

theorem Listed.cleared {c : TaskCancellation} {i : JobInstance}
    (h : Listed env w₀ ms l.world.log pid id size w) (hstart : (contract env).Sane w₀)
    (hid : c.instanceId = id)
    (hlisted : listUnfinishedIds id size w.view ≠ [])
    (hconv : Converging c i (Unfinished w.db id) {x | x ∈ listUnfinishedIds id size w.view} [] l) :
    ∃ ms1 s1, Cleared env w₀ ms pid id size (l.world.db.apply l.pend) ms1 s1 := by
  obtain ⟨ms1, s1, rfl, hl, -⟩ := h
  have hsound : Sound (contract env) s1 := runFrom_sound hstart hl.run
  have hleft := hconv.unfinished
  rw [hid] at hleft
  refine ⟨ms1, s1, hl, ?_, fun x hx => (hleft hx).1, fun hsub => ?_⟩
  · rw [hl.view]
    exact hconv.ended
  · obtain ⟨_, hmem⟩ := List.exists_mem_of_ne_nil _ hlisted
    exact (hleft (hsub (listed_subset hsound.inv (hsound.wf 0).restart hmem))).2 hmem

theorem Cleared.mono (hsub : ms <+: ms') {after : Db} {ms1 : List Move} {s1 : Sys}
    (h : Cleared env w₀ ms pid id size after ms1 s1) : Cleared env w₀ ms' pid id size after ms1 s1 :=
  { h with next := h.next.trans hsub }

theorem Ended.processed (h : Ended env w₀ ms pid id (some r) l) (hstart : (contract env).Sane w₀)
    (hb : 1 ≤ b)
    (hsize : ∀ size, .spawn (.processBatch size id) ∈ ms → size = b) :
    Processed env w₀ ms pid id b r l.world.db l.pend := by
  obtain ⟨size, L, hspawned, hlisting, hend⟩ := h
  cases hsize size hspawned
  cases hend with
  | @passed _ i _ round other more completed =>
    refine ⟨fun h => ?_, fun _ i' hi' hstop => ?_, fun h => ?_⟩
    · cases more.symm.trans h
    · cases round.2.symm.trans hi'
      exact absurd hstop other
    · cases completed.symm.trans h
  | canceled more completed ids listing listed hconv =>
    refine ⟨fun _ => (hlisting _ listing).1.cleared hstart ids listed hconv, fun h => ?_, fun h => ?_⟩
    · cases more.symm.trans h
    · cases completed.symm.trans h
  | @completed _ i reason now _ more completed wrote none =>
    refine ⟨fun h => ?_, fun _ _ _ _ => completed, fun _ => ⟨?_, i, reason, now, wrote.2.2, wrote.1⟩⟩
    · cases more.symm.trans h
    · refine Set.eq_empty_of_forall_notMem ?_
      rintro taskId ⟨t, ht, hid, hun⟩
      cases (none taskId t ht hid).symm.trans hun
  | nothing => omega

theorem Processed.mono (hsub : ms <+: ms') {before writes : Db}
    (h : Processed env w₀ ms pid id size r before writes) :
    Processed env w₀ ms' pid id size r before writes where
  more hmore := by
    obtain ⟨ms1, s1, hc⟩ := h.more hmore
    exact ⟨ms1, s1, hc.mono hsub⟩
  last := h.last
  completed := h.completed

end Count

namespace Demo

def stoppingRound : JobInstance :=
  { id := 1, jobId := 1, jobName := "job", executorGroupId := 1, triggerType := .manual
    scheduledAt := none, requestId := none, paramsOverridden := false, triggeredBy := none
    executionConfig := { attempt.executionConfig with executionMode := .sharded }
    status := .stopping, startedAt := some 1, deadlineAt := none, finishedAt := none
    endReason := some .manualStop, resultSummary := none }

/-- A sharded round of three tasks that is being stopped. -/
def sharded : World where
  db
    | .instance, id => if id = 1 then some stoppingRound else none
    | .task, id =>
      if 0 < id ∧ id ≤ 3 then some { ordinaryTask 1 1 id with taskType := .shard } else none
    | _, _ => none
  seq := fun _ => 3
  now := 1
  log := []

/-- With batches of two tasks, two batches report more work and a third one ends the round. -/
def batches : List Move :=
  [.spawn (.processBatch 2 1), .reply 0 .expired false] ++ tx 0 5 ++
    [.spawn (.processBatch 2 1), .reply 1 .expired false] ++ tx 1 4 ++
    [.spawn (.processBatch 2 1), .reply 2 .expired false] ++ tx 2 3

end Demo

end Dogx.Job
