import Dogx.Job.Result
import Dogx.Txn.Trace

/-!
# Batches of unknown results

`SettleBatch` can end at many points, before or after the item at hand is counted. Whatever it is told
on the way, it has gone through a prefix of its candidates: each one was found ineligible, or one
settlement was attempted for it.
-/

namespace Dogx.TaskRecovery

open Job Job.Settler Txn
open Told (opens read)
open Txn.Proc (Returns Hears Tells)

variable {period processedAt : ℕ} {c : UnboundCandidate} {cs : List UnboundCandidate}
  {target : UnboundTarget} {targets : List UnboundTarget} {w : UnknownSettlement}
  {told told₀ : List (Told sig)} {err : Option Err} {fate : Option UnknownSettlement}
  {result next result' : SettleResult}

/-! ## One candidate -/

def Decided (period processedAt : ℕ) (targets : List UnboundTarget) (c : UnboundCandidate)
    (fate : Option UnknownSettlement) : Prop :=
  (targets.find? (fun t => t.taskId = c.taskId) = none ∧ fate = none) ∨
    ∃ target told, targets.find? (fun t => t.taskId = c.taskId) = some target ∧
      (prepare period c target processedAt).Returns told (.ok fate)

def Settles (t : Told sig) (w : UnknownSettlement) : Prop :=
  ∃ body x, t = .transact (Op.settleOrdinaryUnknown w) body x

def Named (c : UnboundCandidate) : Prop := c.taskId ≠ 0 ∧ c.instanceId ≠ 0 ∧ 0 < c.attemptNo

structure Proper (c : UnboundCandidate) (w : UnknownSettlement) : Prop where
  task : w.taskId = c.taskId
  round : w.instanceId = c.instanceId
  attempt : w.expectedAttemptNo = c.attemptNo
  budget : 0 < w.maxAttempts
  cutoff : w.observationCutoff ≠ 0
  observed : w.observationCutoff < w.processedAt
  retry : w.processedAt < w.retryAt

theorem frozenBudget_pos {config : ExecutionConfig} {n interval : Int}
    (h : frozenBudget config = .ok (some (n, interval))) : 0 < n ∧ 0 < interval := by
  unfold frozenBudget at h
  split at h
  · cases h
  split at h
  · cases h
  split at h
  · cases h
  next hvalid =>
    cases h
    omega

theorem prepareRunning_proper {cutoff : ℕ} (hcutoff : cutoff ≠ 0) (hobserved : cutoff < processedAt) :
    (prepareRunning c target processedAt cutoff).Tells (fun _ x => ∀ w, x = .ok (some w) → Proper c w)
      told := by
  unfold prepareRunning
  split
  · split
    · exact .ret nofun
    split
    · exact .perform fun _ => .ret nofun
    split
    · exact .ret nofun
    · exact .ret nofun
    next n interval hbudget =>
      obtain ⟨hn, hinterval⟩ := frozenBudget_pos hbudget
      rintro w ⟨⟩
      refine ⟨rfl, rfl, rfl, hn, hcutoff, hobserved, ?_⟩
      exact Nat.lt_add_of_pos_right (Nat.mul_pos (Int.lt_toNat.mpr hinterval) (by decide))
  · exact .ret nofun

theorem prepare_proper (hperiod : 0 < period)
    (h : (prepare period c target processedAt).Returns told (.ok (some w))) : Proper c w := by
  have hears : (prepare period c target processedAt).Tells
      (fun _ x => ∀ w, x = .ok (some w) → Proper c w) [] := by
    unfold prepare
    dsimp only
    repeat' split
    all_goals
      first
      | exact .ret nofun
      | exact .perform fun _ => .ret nofun
      | exact prepareRunning_proper (by omega) (by omega)
  exact hears.returns h w rfl

theorem prepare_quiet {x : Except Err (Option UnknownSettlement)}
    (h : (prepare period c target processedAt).Returns told x) :
    told.filter opens = [] := by
  have hears : (prepare period c target processedAt).Tells
      (fun told _ => told.filter opens = []) [] := by
    unfold prepare prepareRunning
    dsimp only
    repeat' split
    all_goals
      first
      | exact .ret rfl
      | exact .perform fun _ => .ret rfl
  exact hears.returns h

theorem settleOne_settles (hc : Named c) (hw : Proper c w) {out : Except Err Bool × Bool}
    (h : (settleOne c w).Returns told out) :
    ∃ t, told.filter opens = [t] ∧ Settles t w := by
  have hears : (settleOne c w).Tells
      (fun told _ => ∃ t, told.filter opens = [t] ∧ Settles t w) [] := by
    obtain ⟨_, _, _⟩ := hc
    unfold settleOne JobTaskRepository.settleOrdinaryUnknown
    rw [if_neg]
    · refine .bind ⟨trivial, fun x => .perform fun late => ?_⟩
      repeat' split
      all_goals
        first
        | exact .ret ⟨_, rfl, _, _, rfl⟩
        | exact .perform fun _ => .ret ⟨_, rfl, _, _, rfl⟩
    · have hbudget := hw.budget
      have hcutoff := hw.cutoff
      have hobserved := hw.observed
      have hretry := hw.retry
      rw [hw.task, hw.round, hw.attempt]
      omega
  exact hears.returns h

/-! ## The loop -/

structure Through (period processedAt : ℕ) (targets : List UnboundTarget) (cs : List UnboundCandidate)
    (told : List (Told sig)) (fates : List (Option UnknownSettlement)) : Prop where
  le : fates.length ≤ cs.length
  decided : List.Forall₂ (Decided period processedAt targets) (cs.take fates.length) fates
  settles : List.Forall₂ Settles (told.filter opens) (fates.filterMap id)

namespace Through

variable {fates : List (Option UnknownSettlement)} {first rest : List (Told sig)}

theorem none (h : told.filter opens = []) : Through period processedAt targets cs told [] :=
  ⟨Nat.zero_le _, by simp, by rw [h]; exact .nil⟩

theorem cons (h : Through period processedAt targets cs rest fates)
    (hdecided : Decided period processedAt targets c fate)
    (hsettles : List.Forall₂ Settles (first.filter opens) fate.toList) :
    Through period processedAt targets (c :: cs) (first ++ rest) (fate :: fates) where
  le := Nat.succ_le_succ h.le
  decided := .cons hdecided h.decided
  settles := by
    have hfates : (fate :: fates).filterMap id = fate.toList ++ fates.filterMap id := by
      cases fate <;> rfl
    rw [List.filter_append, hfates]
    exact List.rel_append hsettles h.settles

end Through

structure Counts (result result' : SettleResult) (n : ℕ) : Prop where
  processed : result'.processed = result.processed + n
  le : result.applied ≤ result'.applied
  applied : result'.applied ≤ result.applied + n

theorem Counts.cons {n : ℕ} (h : Counts next result' n)
    (hprocessed : next.processed = result.processed + 1) (hle : result.applied ≤ next.applied)
    (happlied : next.applied ≤ result.applied + 1) : Counts result result' (n + 1) where
  processed := by rw [h.processed]; omega
  le := Nat.le_trans hle h.le
  applied := by have := h.applied; omega

def Goes (period processedAt : ℕ) (targets : List UnboundTarget) (cs : List UnboundCandidate)
    (result : SettleResult) (told₀ told : List (Told sig)) (out : SettleResult × Option Err) : Prop :=
  ∃ more fates, told = told₀ ++ more ∧ Through period processedAt targets cs more fates ∧
    Counts result out.1 fates.length ∧ (out.2 = none → fates.length = cs.length)

namespace Goes

variable {result next : SettleResult} {told₀ first : List (Told sig)} {out : SettleResult × Option Err}

theorem stops {e : Err} (h : first.filter opens = []) :
    Goes period processedAt targets cs result told₀ (told₀ ++ first) (result, some e) :=
  ⟨first, [], rfl, .none h, ⟨rfl, Nat.le_refl _, Nat.le_refl _⟩, nofun⟩

theorem cons (h : Goes period processedAt targets cs next (told₀ ++ first) told out)
    (hdecided : Decided period processedAt targets c fate)
    (hsettles : List.Forall₂ Settles (first.filter opens) fate.toList)
    (hprocessed : next.processed = result.processed + 1) (hle : result.applied ≤ next.applied)
    (happlied : next.applied ≤ result.applied + 1) :
    Goes period processedAt targets (c :: cs) result told₀ told out := by
  obtain ⟨more, fates, rfl, hthrough, hcounts, hall⟩ := h
  refine ⟨first ++ more, fate :: fates, List.append_assoc .., hthrough.cons hdecided hsettles,
    hcounts.cons hprocessed hle happlied, fun he => congrArg Nat.succ (hall he)⟩

end Goes

/-- What the loop of `SettleBatch` does, candidate by candidate. -/
theorem settleEach_goes (hperiod : 0 < period) (hcs : ∀ c ∈ cs, Named c) :
    (settleEach period targets processedAt cs result).Tells
      (Goes period processedAt targets cs result told₀) told₀ := by
  induction cs generalizing told₀ result with
  | nil =>
    exact .ret ⟨[], [], (List.append_nil _).symm, .none rfl, ⟨rfl, Nat.le_refl _, Nat.le_refl _⟩,
      fun _ => rfl⟩
  | cons c cs ih =>
    obtain ⟨hc, hcs⟩ := List.forall_mem_cons.mp hcs
    have skips : ∀ {first : List (Told sig)}, first.filter opens = [] →
        Decided period processedAt targets c none →
        (settleEach period targets processedAt cs
          { result with processed := result.processed + 1 }).Tells
          (Goes period processedAt targets (c :: cs) result told₀) (told₀ ++ first) :=
      fun hquiet hdecided => (ih hcs).mono fun _ _ h =>
        h.cons hdecided (hquiet ▸ .nil) rfl (Nat.le_refl _) (Nat.le_succ _)
    refine .perform fun late => ?_
    cases late with
    | true => exact .ret (.stops rfl)
    | false =>
      rw [if_neg (by decide)]
      split
      next hfind => exact skips rfl (.inl ⟨hfind, rfl⟩)
      next target hfind =>
        refine .bind (.of_returns fun judged prepared hprepare => ?_)
        have hquiet := prepare_quiet hprepare
        rw [List.append_assoc]
        split
        · exact .ret (.stops hquiet)
        · exact skips hquiet (.inr ⟨target, judged, hfind, hprepare⟩)
        next w =>
          refine .perform fun late => ?_
          rw [List.append_assoc]
          cases late with
          | true => exact .ret (.stops (by simp [hquiet, opens]))
          | false =>
            refine .bind (.of_returns fun written out hwritten => ?_)
            obtain ⟨t, ht, hsettles⟩ := settleOne_settles hc (prepare_proper hperiod hprepare) hwritten
            have hdecided : Decided period processedAt targets c (some w) :=
              .inr ⟨target, judged, hfind, hprepare⟩
            rw [List.append_assoc]
            generalize hfirst : [_] ++ judged ++ [_] ++ written = first
            have hone : List.Forall₂ Settles (first.filter opens) [w] := by
              rw [← hfirst]
              simp only [List.filter_append, hquiet, ht]
              exact .cons hsettles .nil
            -- the candidate counts, and the call ends or goes on
            have here : ∀ {done : SettleResult} {e : Err},
                Goes period processedAt targets cs done (told₀ ++ first) (told₀ ++ first) (done, some e) :=
              ⟨[], [], (List.append_nil _).symm, .none rfl, ⟨rfl, Nat.le_refl _, Nat.le_refl _⟩, nofun⟩
            split
            · exact .ret (here.cons hdecided hone rfl (Nat.le_refl _) (Nat.le_succ _))
            next applied late =>
              generalize hdone : (if applied then _ else _ : SettleResult) = done
              have hprocessed : done.processed = result.processed + 1 := by
                rw [← hdone]
                split <;> rfl
              have happlied : result.applied ≤ done.applied ∧ done.applied ≤ result.applied + 1 := by
                rw [← hdone]
                split
                · exact ⟨Nat.le_succ _, Nat.le_refl _⟩
                · exact ⟨Nat.le_refl _, Nat.le_succ _⟩
              cases late with
              | true => exact .ret (here.cons hdecided hone hprocessed happlied.1 happlied.2)
              | false =>
                exact (ih hcs).mono fun _ _ h => h.cons hdecided hone hprocessed happlied.1 happlied.2

/-! ## The call -/

/-- What `SettleBatch` has done when it returns, told this: the result counts a prefix of the candidates,
all of them if there is no error; each candidate of the prefix was judged by the facts that were read, and
the transactions opened are one settlement for each of them that was found eligible. -/
structure Prefix (period : ℕ) (cs : List UnboundCandidate) (told : List (Told sig))
    (result : SettleResult) (err : Option Err) : Prop where
  applied : result.applied ≤ result.processed
  processed : result.processed ≤ cs.length
  all : err = none → result.processed = cs.length
  fates : ∃ fates : List (Option UnknownSettlement),
    List.Forall₂ (fun c fate => ∃ processedAt targets,
      read JobInstanceRepository.databaseTime (.ok processedAt) ∈ told ∧
      read (JobTaskRepository.findUnboundTargets (cs.map UnboundCandidate.taskId)) (.ok targets) ∈
        told ∧
      Decided period processedAt targets c fate ∧ ∀ w, fate = some w → Proper c w)
      (cs.take result.processed) fates ∧
    List.Forall₂ Settles (told.filter opens) (fates.filterMap id)

theorem Prefix.empty (hout : (result, err) = ({}, err)) (hquiet : told.filter opens = [])
    (hall : err = none → cs = []) : Prefix period cs told result err := by
  cases hout
  refine ⟨Nat.le_refl _, Nat.zero_le _, fun he => by rw [hall he]; rfl, [], ?_, ?_⟩
  · rw [List.take_zero]
    exact .nil
  · rw [hquiet]
    exact .nil

/-- What `SettleBatch` has done when it returns. -/
theorem settleBatch_tells (hperiod : 0 < period) :
    (settleBatch period cs).Tells (fun told out => Prefix period cs told out.1 out.2) [] := by
  -- the call ends before the first candidate, with an error
  have stops : ∀ {t : List (Told sig)} {e : Err}, t.filter opens = [] →
      Prefix period cs t {} (some e) := fun ht => .empty rfl ht nofun
  unfold settleBatch
  split
  · exact .ret (stops rfl)
  split
  next hnil => exact .ret (.empty rfl rfl fun _ => hnil)
  split
  · exact .ret (stops rfl)
  next hcs =>
  have hnamed : ∀ c ∈ cs, Named c := by
    intro c hc
    have hvalid : ¬ _ := fun hany => hcs (List.any_eq_true.mpr ⟨c, hc, hany⟩)
    simp only [Bool.or_eq_true, decide_eq_true_eq, not_or] at hvalid
    exact ⟨hvalid.1.1.1, hvalid.1.1.2, by omega⟩
  refine .perform fun late => ?_
  split
  · exact .ret (stops rfl)
  refine .query fun now => ?_
  split
  · exact .ret (stops rfl)
  next processedAt =>
  refine .perform fun late => ?_
  split
  · exact .ret (stops rfl)
  split
  · exact .ret (stops rfl)
  refine .query fun found => ?_
  split
  · exact .ret (stops rfl)
  next targets =>
  refine .perform fun late => ?_
  split
  · exact .ret (stops rfl)
  split
  · exact .ret (stops rfl)
  refine (settleEach_goes hperiod hnamed).mono ?_
  rintro _ ⟨result, _⟩ ⟨_, fates, rfl, hthrough, hcounts, hall⟩
  have hprocessed : result.processed = fates.length := hcounts.processed.trans (Nat.zero_add _)
  refine ⟨?_, ?_, fun he => ?_, fates, ?_, hthrough.settles⟩
  · rw [hprocessed]
    simpa using hcounts.applied
  · rw [hprocessed]
    exact hthrough.le
  · rw [hprocessed, hall he]
  · rw [hprocessed]
    refine hthrough.decided.imp fun c fate hdecided => ?_
    refine ⟨processedAt, targets, by simp, by simp, hdecided, ?_⟩
    rintro w rfl
    rcases hdecided with ⟨-, hnone⟩ | ⟨target, judged, -, hprepare⟩
    · cases hnone
    · exact prepare_proper hperiod hprepare

end Dogx.TaskRecovery
