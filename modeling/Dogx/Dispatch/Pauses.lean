import Dogx.Dispatch.Conflicts

/-!
# Pauses

The scanner pauses after its page budget and while the conflict set is full, a worker while the
conflict set is full.
-/

namespace Dogx.Dispatch

variable {cfg : RuntimeConfig} {r r' : Runtime} {now random generation changed : ℕ}
  {c : Candidate} {kind : ScanKind} {page : List Candidate} {scanner : Scanner}
  {scans : ScanKind → Scan}

/-! ## The page budget -/

def Scanner.uncharged : Scanner → Bool
  | bounding _ _ _ | charging _ _ => true
  | _ => false

def Scanner.unsettled : Scanner → Bool
  | listing _ _ _ | returned _ _ => true
  | _ => false

structure Budget (r : Runtime) : Prop where
  nonneg : 0 ≤ r.supply.pagesLeft
  le : r.supply.pagesLeft ≤ dispatchPageBudget
  uncharged : r.scanner.uncharged = true → 0 < r.supply.pagesLeft
  resume : r.supply.pagesLeft = 0 → r.supply.budgetResumeAt = 0 → r.scanner.unsettled = true

namespace Supply

variable {s s' s'' : Supply}

structure Paced (s s' : Supply) : Prop where
  pagesLeft : s'.pagesLeft = s.pagesLeft
  budgetResumeAt : s'.budgetResumeAt = s.budgetResumeAt

theorem Paced.trans (h : Paced s s') (h' : Paced s' s'') : Paced s s'' :=
  ⟨h'.pagesLeft.trans h.pagesLeft, h'.budgetResumeAt.trans h.budgetResumeAt⟩

theorem paced_expireConflicts (s : Supply) : Paced s (s.expireConflicts cfg now) := by
  unfold expireConflicts
  split <;> exact ⟨rfl, rfl⟩

theorem paced_hint (s : Supply) (id : Int) : Paced s (s.hint cfg now id).2 := by
  have h : Paced s (s.expireConflicts cfg now) := paced_expireConflicts s
  unfold hint
  split
  · exact ⟨rfl, rfl⟩
  · simp only
    split
    · exact h
    · split
      · exact h
      · split
        · exact h
        · exact ⟨h.pagesLeft, h.budgetResumeAt⟩

theorem paced_stop (s : Supply) : Paced s s.stop := by
  unfold stop
  split <;> exact ⟨rfl, rfl⟩

theorem paced_blockParent (s : Supply) (id : Int) : Paced s (s.blockParent cfg now random id) := by
  have h : Paced s (s.expireConflicts cfg now) := paced_expireConflicts s
  unfold blockParent recordConflict
  split <;> exact ⟨h.pagesLeft, h.budgetResumeAt⟩

theorem paced_rewarded (s : Supply) (result : Registration) :
    Paced s (s.rewarded c result) ∨ (s.rewarded c result).pagesLeft = dispatchPageBudget := by
  unfold rewarded
  split
  · exact .inr rfl
  · exact .inl ⟨rfl, rfl⟩

theorem paced_registrationFinished (s : Supply) (result : Registration) :
    Paced s (s.registrationFinished cfg now random c result) ∨
      (s.registrationFinished cfg now random c result).pagesLeft = dispatchPageBudget := by
  by_cases h : s.registering c.instanceId = some c
  · rw [registrationFinished_of_eq h]
    refine (paced_rewarded _ result).imp_left fun hp => ?_
    by_cases hlocked : result = .locked
    · rw [if_pos hlocked] at hp ⊢
      obtain ⟨h1, h2⟩ := (paced_blockParent (s.unregister c.instanceId) _).trans hp
      exact ⟨h1, h2⟩
    · rw [if_neg hlocked] at hp ⊢
      exact ⟨hp.pagesLeft, hp.budgetResumeAt⟩
  · rw [registrationFinished_of_ne h]
    exact .inl ⟨rfl, rfl⟩

theorem paced_of_refused {e : ScanError} (h : (s.chargePage cfg now).1 = .error e) :
    Paced s (s.chargePage cfg now).2 := by
  revert h
  unfold chargePage
  split
  · exact fun _ => ⟨rfl, rfl⟩
  · simp only
    split
    · exact fun _ => paced_expireConflicts s
    · nofun

theorem pagesLeft_of_charged (h : (s.chargePage cfg now).1 = .ok ()) :
    (s.chargePage cfg now).2.pagesLeft = s.pagesLeft - 1 := by
  have hp : Paced s (s.expireConflicts cfg now) := paced_expireConflicts s
  revert h
  unfold chargePage
  split
  · nofun
  · simp only
    split
    · nofun
    · exact fun _ => congrArg (· - 1) hp.pagesLeft

theorem paced_admitPage (h : s.admitPage cfg now random kind generation page = (true, s')) :
    Paced s s' := by
  have hp : Paced s.unreserve (s.unreserve.expireConflicts cfg now) := paced_expireConflicts _
  unfold admitPage at h
  dsimp only at h
  split at h
  · cases h
  · cases h
    rw [accept_eq]
    exact ⟨hp.pagesLeft, hp.budgetResumeAt⟩

theorem paced_refreshed :
    Paced r.supply (r.refreshed cfg) ∨ (r.refreshed cfg).pagesLeft = dispatchPageBudget := by
  have h : Paced r.supply (r.supply.expireConflicts cfg r.now) := paced_expireConflicts _
  unfold Runtime.refreshed Runtime.restoreBudget
  split
  · exact .inr rfl
  · exact .inl h

end Supply

namespace Budget

theorem same (h : Budget r) (hp : r.supply.Paced r'.supply)
    (hu : r'.scanner.uncharged = true → r.scanner.uncharged = true)
    (hs : r.scanner.unsettled = true → r'.scanner.unsettled = true) : Budget r' := by
  refine ⟨?_, ?_, ?_, ?_⟩
  · rw [hp.pagesLeft]
    exact h.nonneg
  · rw [hp.pagesLeft]
    exact h.le
  · rw [hp.pagesLeft]
    exact fun hr => h.uncharged (hu hr)
  · rw [hp.pagesLeft, hp.budgetResumeAt]
    exact fun h1 h2 => hs (h.resume h1 h2)

theorem left (hpos : 0 < r.supply.pagesLeft) (hle : r.supply.pagesLeft ≤ dispatchPageBudget) :
    Budget r :=
  ⟨hpos.le, hle, fun _ => hpos, fun h => absurd h hpos.ne'⟩

theorem full (hp : r.supply.pagesLeft = dispatchPageBudget) : Budget r :=
  .left (by rw [hp]; decide) hp.le

theorem restored (h : Budget r)
    (hp : r.supply.Paced r'.supply ∨ r'.supply.pagesLeft = dispatchPageBudget)
    (hu : r'.scanner.uncharged = true → r.scanner.uncharged = true)
    (hs : r.scanner.unsettled = true → r'.scanner.unsettled = true) : Budget r' := by
  rcases hp with hp | hp
  · exact h.same hp hu hs
  · exact .full hp

end Budget

theorem Reading.uncharged (h : Reading r scanner scans) (hu : scanner.uncharged = true) :
    r.scanner.uncharged = true := by
  cases h <;> simp_all [Scanner.uncharged]

theorem Reading.unsettled (h : Reading r scanner scans) (hu : r.scanner.unsettled = true) :
    scanner.unsettled = true := by
  cases h with
  | exited h =>
    rcases h with h | ⟨_, _, h⟩ <;> simp_all [Scanner.unsettled]
  | _ => simp_all [Scanner.unsettled]

theorem Budget.pause (h : Budget r) {result : Except ScanError Page}
    (hsupply : r'.supply = r.supply.pauseBudget cfg r.now random)
    (hscanner : r'.scanner = .settling kind result) : Budget r' := by
  have hdelay := cfg.scanDelay_pos random
  unfold Supply.pauseBudget at hsupply
  split at hsupply
  · refine ⟨?_, ?_, ?_, ?_⟩ <;> rw [hsupply]
    · exact h.nonneg
    · exact h.le
    · rw [hscanner]
      nofun
    · intro _ hzero
      dsimp only at hzero
      omega
  · next hno =>
    refine ⟨?_, ?_, ?_, ?_⟩ <;> rw [hsupply]
    · exact h.nonneg
    · exact h.le
    · rw [hscanner]
      nofun
    · exact fun h1 h2 => absurd ⟨h1, h2⟩ hno

/-- In every run, the page budget stays in its bounds, and ends with a pause. -/
theorem budget (cfg : RuntimeConfig) : (runtime cfg).Invariant fun r => Staffed cfg r ∧ Budget r := by
  refine (staffed cfg).and (.full rfl) (keeps_of_change fun {r r'} hstaff h hc => ?_)
  cases hc with
  | started hstart =>
    exact h.same ⟨rfl, rfl⟩ nofun (by simp [hstaff.scanner hstart, Scanner.unsettled])
  | stopped => exact h.same (Supply.paced_stop _) id id
  | hinted => exact h.same (Supply.paced_hint ..) id id
  | read _ _ hr => exact h.same ⟨rfl, rfl⟩ hr.uncharged hr.unsettled
  | rested hs => exact h.restored Supply.paced_refreshed nofun (by simp [hs, Scanner.unsettled])
  | reserved kind _ _ _ hpages =>
    have hpaced : r.supply.Paced (r.refreshed cfg) ∨ _ := Supply.paced_refreshed
    have hle : (r.refreshed cfg).pagesLeft ≤ dispatchPageBudget := by
      rcases hpaced with hp | hp
      · rw [hp.pagesLeft]
        exact h.le
      · exact hp.le
    have hsame : (r.reserve cfg (r.refreshed cfg) kind).supply.pagesLeft =
        (r.refreshed cfg).pagesLeft := by
      unfold Runtime.reserve Runtime.begin
      split <;> rfl
    exact .left (hsame ▸ hpages) (hsame ▸ hle)
  | refused _ _ e hs hcharge =>
    exact h.same (Supply.paced_of_refused hcharge) nofun (by simp [Scanner.unsettled])
  | charged _ _ hs hcharge =>
    have hpos := h.uncharged (hs ▸ rfl)
    have hle := h.le
    have hleft := Supply.pagesLeft_of_charged hcharge
    refine ⟨?_, ?_, nofun, fun _ _ => rfl⟩
    · dsimp only
      omega
    · dsimp only
      omega
  | paused => exact h.pause rfl rfl
  | released _ _ _ hs | discarded _ _ hs =>
    exact h.same ⟨rfl, rfl⟩ nofun (by simp [hs, Scanner.unsettled])
  | admitted _ _ _ s hs _ hadm =>
    exact h.same (Supply.paced_admitPage hadm) nofun (by simp [hs, Scanner.unsettled])
  | idle i s _ _ hs =>
    subst hs
    exact h.same (Supply.paced_expireConflicts _) id id
  | took =>
    have hp : r.supply.Paced (r.supply.expireConflicts cfg r.now) := Supply.paced_expireConflicts _
    exact h.same ⟨hp.pagesLeft, hp.budgetResumeAt⟩ id id
  | asked => exact h.same (Supply.paced_expireConflicts _) id id
  | registered | cleaned => exact h.restored (r.supply.paced_registrationFinished _) id id
  | _ => exact h.same ⟨rfl, rfl⟩ id id

/-! ## Sleepers -/

namespace Supply

variable {s s' s'' : Supply}

def Hushed (s s' : Supply) : Prop :=
  s.changed < s'.changed ∨ s'.changed = s.changed ∧ s'.conflictFull = s.conflictFull

def Quiet (s s' : Supply) : Prop :=
  s.changed < s'.changed ∨
    s'.changed = s.changed ∧ s'.conflictFull = s.conflictFull ∧ s'.pagesLeft = s.pagesLeft

theorem Quiet.hushed (h : Quiet s s') : Hushed s s' := h.imp_right fun h => ⟨h.1, h.2.1⟩

theorem Quiet.le (h : Quiet s s') : s.changed ≤ s'.changed := h.elim Nat.le_of_lt fun h => h.1.ge

theorem Quiet.refl (s : Supply) : Quiet s s := .inr ⟨rfl, rfl, rfl⟩

theorem quiet_expireConflicts (s : Supply) : Quiet s (s.expireConflicts cfg now) := by
  unfold expireConflicts
  split
  · exact .inl (Nat.lt_succ_self _)
  · exact .refl s

theorem quiet_hint (s : Supply) (id : Int) : Quiet s (s.hint cfg now id).2 := by
  have h : Quiet s (s.expireConflicts cfg now) := quiet_expireConflicts s
  unfold hint
  split
  · exact .refl s
  · simp only
    split
    · exact h
    · split
      · exact h
      · split
        · exact h
        · exact .inl (Nat.lt_succ_of_le h.le)

theorem quiet_stop (s : Supply) : Quiet s s.stop := by
  unfold stop
  split
  · exact .refl s
  · exact .inl (Nat.lt_succ_self _)

theorem changed_blockParent (s : Supply) (id : Int) :
    s.changed ≤ (s.blockParent cfg now random id).changed := by
  have h : Quiet s (s.expireConflicts cfg now) := quiet_expireConflicts s
  unfold blockParent recordConflict
  split <;> exact h.le

theorem quiet_registrationFinished (s : Supply) (result : Registration) :
    Quiet s (s.registrationFinished cfg now random c result) := by
  by_cases h : s.registering c.instanceId = some c
  · have hnotify : ∀ s : Supply, s.changed < (s.rewarded c result).changed := by
      intro s
      unfold rewarded
      split <;> exact Nat.lt_succ_self _
    rw [registrationFinished_of_eq h]
    refine .inl (Nat.lt_of_le_of_lt ?_ (hnotify _))
    split
    · exact changed_blockParent (s.unregister c.instanceId) _
    · exact Nat.le_refl _
  · rw [registrationFinished_of_ne h]
    exact .refl s

theorem hushed_refreshed : Hushed r.supply (r.refreshed cfg) := by
  have h : Quiet r.supply (r.supply.expireConflicts cfg r.now) := quiet_expireConflicts _
  unfold Runtime.refreshed Runtime.restoreBudget
  split <;> exact h.hushed

theorem hushed_chargePage (s : Supply) : Hushed s (s.chargePage cfg now).2 := by
  have h : Quiet s (s.expireConflicts cfg now) := quiet_expireConflicts s
  unfold chargePage
  split
  · exact (Quiet.refl s).hushed
  · simp only
    split <;> exact h.hushed

theorem hushed_pauseBudget (s : Supply) : Hushed s (s.pauseBudget cfg now random) := by
  unfold pauseBudget
  split <;> exact .inr ⟨rfl, rfl⟩

theorem hushed_admitPage (h : s.admitPage cfg now random kind generation page = (true, s')) :
    Hushed s s' := by
  have hq : Quiet s.unreserve (s.unreserve.expireConflicts cfg now) := quiet_expireConflicts _
  unfold admitPage at h
  dsimp only at h
  split at h
  · cases h
  · cases h
    rw [accept_eq]
    exact .inl (Nat.lt_succ_of_le hq.le)

end Supply

/-- Each step notifies the sleepers, or leaves what they sleep on. -/
theorem Change.hushed (hc : Change cfg r r') :
    r.supply.Hushed r'.supply ∧ (r'.scanner = r.scanner → r.supply.Quiet r'.supply) := by
  have both : r.supply.Quiet r'.supply →
      r.supply.Hushed r'.supply ∧ (r'.scanner = r.scanner → r.supply.Quiet r'.supply) :=
    fun h => ⟨h.hushed, fun _ => h⟩
  cases hc with
  | released | discarded | finished => exact both (.inl (Nat.lt_succ_self _))
  | stopped => exact both (Supply.quiet_stop _)
  | hinted => exact both (Supply.quiet_hint ..)
  | rested hs => exact ⟨Supply.hushed_refreshed, fun h => by simp [hs] at h⟩
  | reserved _ hs =>
    have h : r.supply.Hushed (r.refreshed cfg) := Supply.hushed_refreshed
    unfold Runtime.reserve Runtime.begin
    dsimp only
    refine ⟨?_, fun hsame => ?_⟩
    · split <;> exact h
    · rw [hs] at hsame
      split at hsame <;> split at hsame <;> cases hsame
  | refused _ _ _ hs | charged _ _ hs =>
    exact ⟨Supply.hushed_chargePage _, fun h => by simp [hs] at h⟩
  | paused _ _ _ hs => exact ⟨Supply.hushed_pauseBudget _, fun h => by simp [hs] at h⟩
  | admitted _ _ _ _ hs _ hadm =>
    exact ⟨Supply.hushed_admitPage hadm, fun h => by simp [hs, Runtime.goOn] at h⟩
  | idle _ _ _ _ hs =>
    subst hs
    exact both (Supply.quiet_expireConflicts _)
  | took =>
    have h : r.supply.Quiet (r.supply.expireConflicts cfg r.now) := Supply.quiet_expireConflicts _
    exact both (.inl (Nat.lt_succ_of_le h.le))
  | asked => exact both (Supply.quiet_expireConflicts _)
  | registered | cleaned => exact both (Supply.quiet_registrationFinished ..)
  | _ => exact both (.refl _)

structure Alarm (r : Runtime) : Prop where
  scanner : ∀ changed wakeAt, r.scanner = .asleep changed wakeAt → changed ≤ r.supply.changed ∧
    (changed = r.supply.changed → r.supply.pagesLeft = 0 ∨ r.supply.conflictFull = true → wakeAt ≠ 0)
  worker : ∀ i changed wakeAt, r.workers i = .asleep changed wakeAt → changed ≤ r.supply.changed ∧
    (changed = r.supply.changed → r.supply.conflictFull = true → wakeAt ≠ 0)

theorem Supply.Conflicts.until_ne_zero {s : Supply} (h : s.Conflicts cfg) (hfull : s.conflictFull = true) :
    s.conflictUntil ≠ 0 := by
  intro hzero
  have hnil := h.earliest.zero.mp hzero
  rw [List.map_eq_nil_iff] at hnil
  rw [h.full, decide_eq_true_eq, hnil, List.length_nil] at hfull
  have := cfg.waitingCapacity_pos
  omega

theorem Runtime.wakeAt_ne_zero {s : Supply} {order : List ScanKind}
    (hbudget : s.pagesLeft = 0 → s.budgetResumeAt ≠ 0)
    (hfull : s.conflictFull = true → s.conflictUntil ≠ 0)
    (hpause : s.pagesLeft = 0 ∨ s.conflictFull = true) : wakeAt now scans s order ≠ 0 := by
  unfold wakeAt
  cases hf : s.conflictFull with
  | true =>
    exact earlier_ne_zero (hfull hf)
  | false =>
    have hp : s.pagesLeft = 0 := hpause.resolve_right (by simp [hf])
    simp only [hp]
    exact earlier_ne_zero (hbudget hp)

theorem Change.scanner_asleep (hc : Change cfg r r') {wakeAt : ℕ}
    (h : r'.scanner = .asleep changed wakeAt) :
    r.scanner = .asleep changed wakeAt ∨
      r.scanner = .ready ∧ r'.supply = r.refreshed cfg ∧ changed = r'.supply.changed ∧
        wakeAt = Runtime.wakeAt r.now r.scans (r.refreshed cfg) [r.next, r.next.other] := by
  cases hc with
  | rested hs =>
    cases h
    exact .inr ⟨hs, rfl, rfl, rfl⟩
  | read _ _ hr => cases hr <;> cases h
  | reserved =>
    simp only [Runtime.reserve] at h
    split at h <;> cases h
  | started | refused | charged | paused | released | discarded | admitted => cases h
  | _ =>
    exact .inl h

theorem Change.worker_asleep (hc : Change cfg r r') {i wakeAt : ℕ}
    (h : r'.workers i = .asleep changed wakeAt) : r.workers i = .asleep changed wakeAt ∨
      changed = r'.supply.changed ∧
        (r'.supply.conflictFull = true → wakeAt = r'.supply.conflictUntil) := by
  have hset : ∀ {j : ℕ} {w : Worker}, Function.update r.workers j w i = .asleep changed wakeAt →
      w = .asleep changed wakeAt ∨ r.workers i = .asleep changed wakeAt := by
    intro j w hw
    by_cases hij : i = j
    · rw [hij, Function.update_self] at hw
      exact .inl hw
    · rw [Function.update_of_ne hij] at hw
      exact .inr hw
  cases hc with
  | elsewhere | stopped | hinted | read | rested | reserved | refused | charged | paused | released
  | discarded | admitted => exact .inl h
  | started =>
    dsimp only at h
    split at h <;> cases h
  | passed j w hp =>
    rcases hset h with rfl | h
    · generalize r.workers j = w0 at hp
      cases hp
    · exact .inl h
  | idle =>
    rcases hset h with h | h
    · cases h
      exact .inr ⟨rfl, fun hfull => if_pos hfull⟩
    · exact .inl h
  | asked j c w _ hown =>
    rcases hset h with rfl | h
    · rcases hown with h | ⟨_, _, h⟩ <;> cases h
    · exact .inl h
  | _ =>
    rcases hset h with h | h
    · cases h
    · exact .inl h

/-- In every run, a sleeper on a pause is notified or has a timer. -/
theorem alarm (cfg : RuntimeConfig) : (runtime cfg).Invariant fun r =>
    ((Staffed cfg r ∧ Budget r) ∧ r.supply.Conflicts cfg) ∧ Alarm r := by
  have hbase := (budget cfg).and (conflicts cfg).init fun _ _ _ _ h hm => (conflicts cfg).step h hm
  refine hbase.and ⟨nofun, nofun⟩ fun r m r' hI h hm => ?_
  have hc : Change cfg r r' := .of_step hm
  obtain ⟨⟨-, hbudget⟩, hconflicts⟩ := hbase.step hI hm
  obtain ⟨hhushed, hquiet⟩ := hc.hushed
  refine ⟨fun changed wakeAt hs => ?_, fun i changed wakeAt hw => ?_⟩
  · rcases hc.scanner_asleep hs with hold | ⟨hready, hsupply, hchanged, hwake⟩
    · obtain ⟨hle, htimer⟩ := h.scanner changed wakeAt hold
      rcases hquiet (hs.trans hold.symm) with hlt | ⟨heq, hfull, hpages⟩
      · exact ⟨by omega, fun _ => by omega⟩
      · rw [heq, hfull, hpages]
        exact ⟨hle, htimer⟩
    · refine ⟨hchanged.le, fun _ hpause => ?_⟩
      rw [hwake]
      rw [hsupply] at hconflicts hpause
      refine Runtime.wakeAt_ne_zero (fun hzero hresume => ?_) hconflicts.until_ne_zero hpause
      rw [← hsupply] at hzero hresume
      have hunsettled := hbudget.resume hzero hresume
      rw [hs] at hunsettled
      cases hunsettled
  · rcases hc.worker_asleep hw with hold | ⟨hchanged, hwake⟩
    · obtain ⟨hle, htimer⟩ := h.worker i changed wakeAt hold
      rcases hhushed with hlt | ⟨heq, hfull⟩
      · exact ⟨by omega, fun _ => by omega⟩
      · rw [heq, hfull]
        exact ⟨hle, htimer⟩
    · refine ⟨hchanged.le, fun _ hfull => ?_⟩
      rw [hwake hfull]
      exact hconflicts.until_ne_zero hfull

/-- Conflicts, page budget and timers, in every run. -/
theorem pauses_bounded {ms : List Move} (h : (runtime cfg).run ms = some r) :
    (r.supply.conflicted.map Prod.fst).Nodup ∧
    r.supply.conflicted.length ≤ cfg.waitingCapacity + cfg.concurrency - 1 ∧
    Earliest r.supply.conflictUntil (r.supply.conflicted.map Prod.snd) ∧
    (r.supply.conflictFull = true ↔ cfg.waitingCapacity ≤ r.supply.conflicted.length) ∧
    (∀ m r' parent deadline, (runtime cfg).step r m = some r' →
      r.supply.conflict parent = some deadline → r.now < deadline →
      r'.supply.conflict parent = some deadline) ∧
    (0 ≤ r.supply.pagesLeft ∧ r.supply.pagesLeft ≤ 4) ∧
    -- nobody sleeps on a pause without a timer
    (∀ changed wakeAt, r.scanner = .asleep changed wakeAt → changed = r.supply.changed →
      r.supply.pagesLeft = 0 ∨ r.supply.conflictFull = true → wakeAt ≠ 0) ∧
    ∀ i changed wakeAt, r.workers i = .asleep changed wakeAt → changed = r.supply.changed →
      r.supply.conflictFull = true → wakeAt ≠ 0 := by
  obtain ⟨⟨⟨-, hbudget⟩, hconflicts⟩, halarm⟩ := (alarm cfg).run h
  have hcrowd := ((crowd cfg).run h).2 [] .nil (by simp)
  refine ⟨hconflicts.nodup, Nat.le_sub_one_of_lt hcrowd, hconflicts.earliest, ?_, ?_,
    ⟨hbudget.nonneg, hbudget.le⟩, ?_, ?_⟩
  · rw [hconflicts.full, decide_eq_true_eq]
  · exact fun m r' parent deadline hm hp hnow =>
      hconflicts.deadline (Change.of_step hm).disturbs hp hnow
  · exact fun changed wakeAt hs => (halarm.scanner changed wakeAt hs).2
  · exact fun i changed wakeAt hw => (halarm.worker i changed wakeAt hw).2

/-- The parent of the only hint is locked: the conflict set is full, and the scanner goes to sleep. -/
def demoConflict : List Move :=
  [.start, .hint 7, .work 0 0, .work 0 0, .registered 0 .locked 0, .scan 0]

def Scanner.sleeps (changed : ℕ) : Scanner → Bool
  | .asleep changed' _ => changed' == changed
  | _ => false

theorem demo_pause : ∃ r wakeAt, (runtime demoConfig).run demoConflict = some r ∧
    r.supply.conflictFull = true ∧ r.scanner = .asleep r.supply.changed wakeAt ∧ wakeAt ≠ 0 := by
  obtain ⟨r, hr, hfull, hasleep⟩ : ∃ r ∈ (runtime demoConfig).run demoConflict,
      r.supply.conflictFull = true ∧ r.scanner.sleeps r.supply.changed = true := by decide +kernel
  unfold Scanner.sleeps at hasleep
  split at hasleep
  · next changed wakeAt hs =>
    obtain rfl := beq_iff_eq.mp hasleep
    have htimer := (pauses_bounded hr).2.2.2.2.2.2.1
    exact ⟨r, wakeAt, hr, hfull, hs, htimer _ wakeAt hs rfl (.inr hfull)⟩
  · cases hasleep

end Dogx.Dispatch
