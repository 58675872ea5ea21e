import Dogx.Dispatch.Step
import Dogx.Machine.Pool

/-!
# The stock of the supply

Candidates, owners and registrations are the stock. `Still s s'` says that an operation leaves the
stock alone, as those of conflicts and of the page budget do. `Flow r r'` is what a step does to the
candidates in custody: those of `pending` and those that workers hold.
-/

namespace Dogx.Dispatch

variable {cfg : RuntimeConfig} {r r' : Runtime} {now random : ℕ} {c : Candidate}

/-! ## Operations that leave the stock alone -/

namespace Supply

variable {s s' s'' : Supply} {result : Registration}

structure Still (s s' : Supply) : Prop where
  started : s'.started = s.started
  stopping : s'.stopping = s.stopping
  waiting : s'.waiting = s.waiting
  reserved : s'.reserved = s.reserved
  pending : s'.pending = s.pending
  owned : s'.owned = s.owned
  registering : s'.registering = s.registering
  lastParent : s'.lastParent = s.lastParent
  parentShare : s'.parentShare = s.parentShare

namespace Still

theorem refl (s : Supply) : Still s s := ⟨rfl, rfl, rfl, rfl, rfl, rfl, rfl, rfl, rfl⟩

theorem trans (h : Still s s') (h' : Still s' s'') : Still s s'' where
  started := h'.started.trans h.started
  stopping := h'.stopping.trans h.stopping
  waiting := h'.waiting.trans h.waiting
  reserved := h'.reserved.trans h.reserved
  pending := h'.pending.trans h.pending
  owned := h'.owned.trans h.owned
  registering := h'.registering.trans h.registering
  lastParent := h'.lastParent.trans h.lastParent
  parentShare := h'.parentShare.trans h.parentShare

end Still

theorem still_expireConflicts (s : Supply) : Still s (s.expireConflicts cfg now) := by
  unfold expireConflicts
  split <;> exact ⟨rfl, rfl, rfl, rfl, rfl, rfl, rfl, rfl, rfl⟩

theorem still_restoreBudget (s : Supply) : Still s (Runtime.restoreBudget now s) := by
  unfold Runtime.restoreBudget
  split <;> exact ⟨rfl, rfl, rfl, rfl, rfl, rfl, rfl, rfl, rfl⟩

theorem still_pauseBudget (s : Supply) : Still s (s.pauseBudget cfg now random) := by
  unfold pauseBudget
  split <;> exact ⟨rfl, rfl, rfl, rfl, rfl, rfl, rfl, rfl, rfl⟩

theorem still_chargePage (s : Supply) : Still s (s.chargePage cfg now).2 := by
  unfold chargePage
  split
  · exact .refl s
  · simp only
    split
    · exact still_expireConflicts s
    · exact (still_expireConflicts s).trans ⟨rfl, rfl, rfl, rfl, rfl, rfl, rfl, rfl, rfl⟩

theorem still_refreshed : Still r.supply (r.refreshed cfg) :=
  (still_expireConflicts _).trans (still_restoreBudget _)

/-! ## The others -/

def keep (s : Supply) (p : Candidate → Bool) : Supply :=
  { s with
    owned := Queue.disown Candidate.key s.owned (s.pending.filter (!p ·))
    waiting := s.waiting - (s.pending.filter (!p ·)).length
    pending := s.pending.filter p }

def unregister (s : Supply) (id : Int) : Supply :=
  { s with registering := Function.update s.registering id none }

theorem still_blockParent (s : Supply) (id : Int) :
    Still (s.keep (·.instanceId ≠ id)) (s.blockParent cfg now random id) := by
  have hrecord : ∀ s : Supply, Still s (s.recordConflict cfg now random id) := by
    intro s
    unfold recordConflict
    split <;> exact ⟨rfl, rfl, rfl, rfl, rfl, rfl, rfl, rfl, rfl⟩
  have h : Still s ((s.expireConflicts cfg now).recordConflict cfg now random id) :=
    (still_expireConflicts s).trans (hrecord _)
  have hdrop : (fun c : Candidate => !decide (c.instanceId ≠ id)) =
      fun c => decide (c.instanceId = id) := by
    simp
  constructor <;> simp only [blockParent, keep, h.started, h.stopping, h.waiting, h.reserved,
    h.pending, h.owned, h.registering, h.lastParent, h.parentShare, hdrop]

def rewarded (s : Supply) (c : Candidate) (result : Registration) : Supply :=
  notify (if result = .confirmed ∧ c.scanGeneration ≠ 0 ∧
      c.scanGeneration = s.scanGeneration c.scanKind then
    { s with pagesLeft := dispatchPageBudget, budgetResumeAt := 0 } else s)

theorem registrationFinished_of_ne (h : s.registering c.instanceId ≠ some c) :
    s.registrationFinished cfg now random c result = s := if_pos h

theorem registrationFinished_of_eq (h : s.registering c.instanceId = some c) :
    s.registrationFinished cfg now random c result =
      (if result = .locked then (s.unregister c.instanceId).blockParent cfg now random c.instanceId
        else s.unregister c.instanceId).rewarded c result := if_neg (not_not.mpr h)

theorem still_rewarded (s : Supply) : Still s (s.rewarded c result) := by
  unfold rewarded
  split <;> exact ⟨rfl, rfl, rfl, rfl, rfl, rfl, rfl, rfl, rfl⟩

/-- `registrationFinished` clears its own mark only, and drops the candidates of a locked parent. -/
theorem registrationFinished_cases (s : Supply) (c : Candidate) (result : Registration) :
    s.registrationFinished cfg now random c result = s ∧ s.registering c.instanceId ≠ some c ∨
    s.registering c.instanceId = some c ∧ (result = .locked ∧
        Still ((s.unregister c.instanceId).keep (·.instanceId ≠ c.instanceId))
          (s.registrationFinished cfg now random c result) ∨
      result ≠ .locked ∧ Still (s.unregister c.instanceId)
        (s.registrationFinished cfg now random c result)) := by
  by_cases h : s.registering c.instanceId = some c
  · refine .inr ⟨h, ?_⟩
    rw [registrationFinished_of_eq h]
    by_cases hlocked : result = .locked
    · rw [if_pos hlocked]
      exact .inl ⟨hlocked, (still_blockParent _ _).trans (still_rewarded _)⟩
    · rw [if_neg hlocked]
      exact .inr ⟨hlocked, still_rewarded _⟩
  · exact .inl ⟨registrationFinished_of_ne h, h⟩

/-- A hint adds one candidate, or nothing. -/
theorem hint_cases (s : Supply) (id : Int) : Still s (s.hint cfg now id).2 ∨
    ∃ c : Candidate, c.row = .new id .zero ∧ s.owned c.key = none ∧ s.waiting ≠ cfg.waitingCapacity ∧
      Still { s with
        pending := s.pending ++ [c], owned := Function.update s.owned c.key (some c.sequence)
        waiting := s.waiting + 1 } (s.hint cfg now id).2 := by
  have h : Still s (s.expireConflicts cfg now) := still_expireConflicts s
  unfold hint
  split
  · exact .inl (.refl s)
  · simp only
    split
    · exact .inl h
    · next hfree =>
      split
      · exact .inl h
      · split
        · exact .inl h
        · next hfull =>
          refine .inr ⟨{ Candidate.new id .zero with
            sequence := (s.expireConflicts cfg now).sequence + 1 }, rfl, ?_, h.waiting ▸ hfull, ?_⟩
          · rw [← h.owned]
            exact Option.not_isSome_iff_eq_none.mp hfree
          · constructor <;> simp only [notify, h.started, h.stopping, h.waiting, h.reserved,
              h.pending, h.owned, h.registering, h.lastParent, h.parentShare]

structure Admits (page : List Candidate) (s : Supply) (cs added : List Candidate) : Prop where
  perm : added.Perm cs
  nodup : (cs.map Candidate.key).Nodup
  free : ∀ c ∈ cs, s.owned c.key = none
  length : cs.length ≤ page.length
  row : ∀ c ∈ cs, ∃ p ∈ page, p.row = c.row

/-- What an admitted page does to the stock. -/
theorem admitPage_stock {kind : ScanKind} {generation : ℕ} {page : List Candidate}
    (h : s.admitPage cfg now random kind generation page = (true, s')) :
    ∃ cs added, Admits page s cs added ∧ Still { s with
      reserved := 0, pending := s.pending ++ added
      owned := Queue.own Candidate.key Candidate.sequence s.owned cs
      waiting := s.waiting - s.reserved + cs.length } s' := by
  have hstop : s.stopping = false := by
    refine Bool.eq_false_iff.mpr fun hstop => ?_
    cases (admitPage_of_stopping hstop).symm.trans h
  cases (admitPage_eq hstop).symm.trans h
  have hstill : Still s.unreserve (s.unreserve.expireConflicts cfg now) := still_expireConflicts _
  have hsub : (s.unreserve.expireConflicts cfg now).admissible page |>.Sublist page :=
    (Queue.firstsBy_sublist ..).trans List.filter_sublist
  have hrows := @accept_rows (s.unreserve.expireConflicts cfg now) kind generation page
  refine ⟨((s.unreserve.expireConflicts cfg now).accept kind generation page).2,
    (shares random _).flatMap Prod.snd, ⟨shares_perm, accept_nodup, ?_, ?_, ?_⟩, ?_⟩
  · intro c hc
    exact (congrFun hstill.owned _).symm.trans (owned_of_accept hc)
  · have hlen := congrArg List.length hrows
    rw [List.length_map, List.length_map] at hlen
    rw [hlen]
    exact hsub.length_le
  · intro c hc
    have hrow := List.mem_map_of_mem (f := Candidate.row) hc
    rw [hrows] at hrow
    obtain ⟨p, hp, heq⟩ := List.mem_map.mp hrow
    exact ⟨p, hsub.subset hp, heq⟩
  · exact ⟨hstill.started, hstill.stopping, congrArg (· + _) hstill.waiting, hstill.reserved, rfl,
      rfl, hstill.registering, hstill.lastParent, hstill.parentShare⟩

theorem stop_cases (s : Supply) : s.stop = s ∨
    Still (({ s with stopping := true } : Supply).keep fun _ => false) s.stop := by
  unfold stop
  split
  · exact .inl rfl
  · refine .inr ?_
    constructor <;> simp [keep, notify]

end Supply

/-! ## The workers -/

structure Staffed (cfg : RuntimeConfig) (r : Runtime) : Prop where
  outside : ∀ i, cfg.concurrency ≤ i → r.workers i = .absent
  workers : r.supply.started = false → ∀ i, r.workers i = .absent
  scanner : r.supply.started = false → r.scanner = .absent

namespace Staffed

variable {i : ℕ}

theorem lt (h : Staffed cfg r) (hw : r.workers i ≠ .absent) : i < cfg.concurrency :=
  Nat.lt_of_not_le fun hle => hw (h.outside i hle)

theorem moved (h : Staffed cfg r) (hstarted : r'.supply.started = r.supply.started)
    (hworker : r'.workers = r.workers ∨
      ∃ i w, r.workers i ≠ .absent ∧ r'.workers = Function.update r.workers i w)
    (hscanner : r'.scanner = r.scanner ∨ r.scanner ≠ .absent) : Staffed cfg r' where
  outside := by
    intro j hj
    rcases hworker with hw | ⟨i, w, hw, hw'⟩
    · rw [hw]
      exact h.outside j hj
    · rw [hw', Function.update_of_ne (Nat.ne_of_gt (Nat.lt_of_lt_of_le (h.lt hw) hj))]
      exact h.outside j hj
  workers := by
    intro hs
    rw [hstarted] at hs
    rcases hworker with hw | ⟨i, w, hw, -⟩
    · rw [hw]
      exact h.workers hs
    · exact absurd (h.workers hs i) hw
  scanner := by
    intro hs
    rw [hstarted] at hs
    rcases hscanner with hsc | hsc
    · rw [hsc]
      exact h.scanner hs
    · exact absurd (h.scanner hs) hsc

end Staffed

open Supply in
theorem started_registrationFinished (s : Supply) (result : Registration) :
    (s.registrationFinished cfg now random c result).started = s.started := by
  rcases registrationFinished_cases s c result with ⟨h, -⟩ | ⟨-, ⟨-, h⟩ | ⟨-, h⟩⟩
  · rw [h]
  · exact h.started
  · exact h.started

theorem Reading.scanner_ne {scanner : Scanner} {scans : ScanKind → Scan} (h : Reading r scanner scans) :
    r.scanner ≠ .absent := by
  cases h with
  | exited h =>
    rcases h with h | ⟨_, _, h⟩ <;> simp [h]
  | _ => simp_all

theorem Passing.ne {w w' : Worker} (h : Passing w w') : w ≠ .absent := by
  cases h <;> simp

theorem Supply.started_hint (s : Supply) (id : Int) :
    (s.hint cfg now id).2.started = s.started := by
  rcases hint_cases s id with h | ⟨c, -, -, -, h⟩ <;> exact h.started

theorem Supply.started_stop (s : Supply) : s.stop.started = s.started := by
  rcases stop_cases s with h | h
  · rw [h]
  · exact h.started

/-- In every run, workers and scanner exist from `Start` on. -/
theorem staffed (cfg : RuntimeConfig) : (runtime cfg).Invariant (Staffed cfg) := by
  refine invariant_of_change ⟨fun _ _ => rfl, fun _ _ => rfl, fun _ => rfl⟩ fun {r r'} h hc => ?_
  cases hc with
  | elsewhere => exact h.moved rfl (.inl rfl) (.inl rfl)
  | started =>
    refine ⟨fun i hi => if_neg (Nat.not_lt.mpr hi), ?_, ?_⟩ <;>
    · nofun
  | stopped => exact h.moved (Supply.started_stop _) (.inl rfl) (.inl rfl)
  | hinted => exact h.moved (Supply.started_hint ..) (.inl rfl) (.inl rfl)
  | read _ _ hr => exact h.moved rfl (.inl rfl) (.inr hr.scanner_ne)
  | rested hs => exact h.moved Supply.still_refreshed.started (.inl rfl) (.inr (by simp [hs]))
  | reserved _ hs =>
    refine h.moved ?_ (.inl rfl) (.inr (by simp [hs]))
    unfold Runtime.reserve Runtime.begin
    split <;> exact Supply.still_refreshed.started
  | refused _ _ _ hs | charged _ _ hs =>
    exact h.moved (Supply.still_chargePage _).started (.inl rfl) (.inr (by simp [hs]))
  | paused _ _ _ hs =>
    exact h.moved (Supply.still_pauseBudget _).started (.inl rfl) (.inr (by simp [hs]))
  | released _ _ _ hs | discarded _ _ hs => exact h.moved rfl (.inl rfl) (.inr (by simp [hs]))
  | admitted _ _ _ s hs _ hadm =>
    obtain ⟨_, _, _, hstill⟩ := Supply.admitPage_stock hadm
    exact h.moved hstill.started (.inl rfl) (.inr (by simp [hs]))
  | passed i w hp => exact h.moved rfl (.inr ⟨i, w, hp.ne, rfl⟩) (.inl rfl)
  | idle i s hw _ hs =>
    exact h.moved (hs ▸ (Supply.still_expireConflicts _).started) (.inr ⟨i, _, by simp [hw], rfl⟩)
      (.inl rfl)
  | took i _ c hw | asked i c w hw =>
    exact h.moved (Supply.still_expireConflicts _).started (.inr ⟨i, _, by simp [hw], rfl⟩) (.inl rfl)
  | registered i c _ _ _ hw | cleaned i c _ hw =>
    exact h.moved (started_registrationFinished ..) (.inr ⟨i, _, by simp [hw], rfl⟩) (.inl rfl)
  | finished i c hw => exact h.moved rfl (.inr ⟨i, _, by simp [hw], rfl⟩) (.inl rfl)

end Dogx.Dispatch
