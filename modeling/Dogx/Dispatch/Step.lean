import Dogx.Dispatch.Admission
import Dogx.Dispatch.Runtime

/-!
# Steps of the dispatch runtime

`Change r r'` lists every way a step can change the runtime, with what the code has checked before.
`Reading` are the steps of the scanner outside `mu`, `Passing` those of a worker.
-/

namespace Dogx.Dispatch

variable {cfg : RuntimeConfig} {r r' : Runtime} {m : Move} {random : ℕ} {I P : Runtime → Prop}

/-! ## Outside the lock -/

inductive Reading (r : Runtime) : Scanner → (ScanKind → Scan) → Prop where
  | exited (h : r.scanner = .ready ∨ ∃ changed wakeAt, r.scanner = .asleep changed wakeAt)
      (hstop : r.supply.stopping = true) : Reading r .exited r.scans
  | woken (changed wakeAt : ℕ) (h : r.scanner = .asleep changed wakeAt) : Reading r .ready r.scans
  | sampledBound (kind : ScanKind) (limit : ℕ) (read : Option Int) (value : Int)
      (h : r.scanner = .bounding kind limit read) :
      Reading r (.bounding kind limit (some value)) r.scans
  | failedBound (kind : ScanKind) (limit : ℕ) (read : Option Int)
      (h : r.scanner = .bounding kind limit read) :
      Reading r (.returned kind (.error .failed)) r.scans
  | noBound (limit : ℕ) (h : r.scanner = .bounding .waiting limit (some 0)) :
      Reading r (.returned .waiting (.ok ([], true))) r.scans
  | boundWaiting (limit : ℕ) (value : Int) (h : r.scanner = .bounding .waiting limit (some value))
      (hvalue : 0 < value) : Reading r (.charging .waiting limit)
        (Function.update r.scans .waiting { r.scans .waiting with upperId := value })
  | boundRetry (limit : ℕ) (value : Int) (h : r.scanner = .bounding .retry limit (some value))
      (hvalue : value.toNat ≠ 0) : Reading r (.charging .retry limit)
        (Function.update r.scans .retry { r.scans .retry with scanNow := value.toNat })
  | sampledList (kind : ScanKind) (limit : ℕ) (read : Option (List Candidate))
      (h : r.scanner = .listing kind limit read) :
      Reading r (.listing kind limit (some ((r.scans kind).list limit r.source kind))) r.scans
  | failedList (kind : ScanKind) (limit : ℕ) (read : Option (List Candidate))
      (h : r.scanner = .listing kind limit read) :
      Reading r (.returned kind (.error .failed)) r.scans
  | listed (kind : ScanKind) (limit : ℕ) (page : List Candidate)
      (h : r.scanner = .listing kind limit (some page)) :
      Reading r (.returned kind ((r.scans kind).check limit page kind)) r.scans

inductive Passing : Worker → Worker → Prop where
  | exited : Passing .ready .exited
  | cancelled (changed wakeAt : ℕ) : Passing (.asleep changed wakeAt) .exited
  | woken (changed wakeAt : ℕ) : Passing (.asleep changed wakeAt) .ready
  | bypassed (c : Candidate) : Passing (.dispatching c) (.finishing c)
  | sent (c : Candidate) : Passing (.sending c) (.finishing c)

/-! ## All steps -/

def Runtime.refreshed (r : Runtime) (cfg : RuntimeConfig) : Supply :=
  Runtime.restoreBudget r.now (r.supply.expireConflicts cfg r.now)

inductive Change (cfg : RuntimeConfig) (r : Runtime) : Runtime → Prop where
  | elsewhere (now : ℕ) (source : Source) (hnow : r.now ≤ now) : Change cfg r { r with now, source }
  | started (hstart : r.supply.started = false) (hstop : r.supply.stopping = false) :
      Change cfg r { r with
        supply := { r.supply with started := true }, scanner := .ready
        workers := fun i => if i < cfg.concurrency then .ready else .absent }
  | stopped : Change cfg r { r with supply := r.supply.stop }
  | hinted (id : Int) : Change cfg r { r with
      supply := (r.supply.hint cfg r.now id).2
      appended := r.appended ++ (r.supply.hint cfg r.now id).2.pending.drop r.supply.pending.length }
  | read (scanner : Scanner) (scans : ScanKind → Scan) (h : Reading r scanner scans) :
      Change cfg r { r with scanner, scans }
  | rested (h : r.scanner = .ready) (hstop : r.supply.stopping = false) : Change cfg r { r with
      supply := r.refreshed cfg
      scanner := .asleep (r.refreshed cfg).changed
        (Runtime.wakeAt r.now r.scans (r.refreshed cfg) [r.next, r.next.other]) }
  | reserved (kind : ScanKind) (h : r.scanner = .ready) (hstop : r.supply.stopping = false)
      (hready : (r.scans kind).readyAt ≤ r.now) (hpages : 0 < (r.refreshed cfg).pagesLeft)
      (hfull : (r.refreshed cfg).conflictFull = false)
      (hroom : (r.refreshed cfg).waiting < cfg.waitingCapacity) :
      Change cfg r (r.reserve cfg (r.refreshed cfg) kind)
  | refused (kind : ScanKind) (limit : ℕ) (e : ScanError) (h : r.scanner = .charging kind limit)
      (hcharge : (r.supply.chargePage cfg r.now).1 = .error e) : Change cfg r { r with
        supply := (r.supply.chargePage cfg r.now).2, scanner := .returned kind (.error e) }
  | charged (kind : ScanKind) (limit : ℕ) (h : r.scanner = .charging kind limit)
      (hcharge : (r.supply.chargePage cfg r.now).1 = .ok ()) : Change cfg r { r with
        supply := (r.supply.chargePage cfg r.now).2, scanner := .listing kind limit none }
  | paused (kind : ScanKind) (result : Except ScanError Page) (random : ℕ)
      (h : r.scanner = .returned kind result) : Change cfg r { r with
        supply := r.supply.pauseBudget cfg r.now random, scanner := .settling kind result }
  | released (kind : ScanKind) (e : ScanError) (readyAt : ℕ) (h : r.scanner = .settling kind (.error e))
      (hready : e = .paused → readyAt = (r.scans kind).readyAt) : Change cfg r { r with
        supply := r.supply.releasePage, scanner := .ready
        scans := Function.update r.scans kind { r.scans kind with readyAt } }
  | discarded (kind : ScanKind) (page : Page) (h : r.scanner = .settling kind (.ok page))
      (hstop : r.supply.stopping = true) : Change cfg r { r with
        supply := r.supply.unreserve.notify, scanner := .exited }
  | admitted (kind : ScanKind) (page : Page) (random : ℕ) (s : Supply)
      (h : r.scanner = .settling kind (.ok page)) (hstop : r.supply.stopping = false)
      (hs : r.supply.admitPage cfg r.now random kind (r.scans kind).generation page.1 = (true, s)) :
      Change cfg r ({ r with
        supply := s
        appended := r.appended ++ s.pending.drop r.supply.pending.length }.goOn cfg random kind page)
  | passed (i : ℕ) (w : Worker) (h : Passing (r.workers i) w) : Change cfg r (r.setWorker i w)
  | idle (i : ℕ) (s : Supply) (h : r.workers i = .ready) (hstop : r.supply.stopping = false)
      (hs : s = r.supply.expireConflicts cfg r.now) :
      Change cfg r ({ r with supply := s }.setWorker i
        (.asleep s.changed (if s.conflictFull then s.conflictUntil else 0)))
  | took (i index : ℕ) (c : Candidate) (h : r.workers i = .ready) (hstop : r.supply.stopping = false)
      (hchosen : (r.supply.expireConflicts cfg r.now).choose = some index)
      (hc : r.supply.pending[index]? = some c) :
      Change cfg r ({ r with
        supply := (r.supply.expireConflicts cfg r.now).takeAt index c
        taken := r.taken ++ [c] }.setWorker i (.dispatching c))
  | asked (i : ℕ) (c : Candidate) (w : Worker) (h : r.workers i = .dispatching c)
      (hw : w = .sending c ∨ ∃ own, r.supply.registering (Runtime.parent c) = some own ∧
        w = .registering c own) :
      Change cfg r ({ r with supply := r.supply.expireConflicts cfg r.now }.setWorker i w)
  | registered (i : ℕ) (c own : Candidate) (result : Registration) (random : ℕ)
      (h : r.workers i = .registering c own) :
      Change cfg r ({ r with
        supply := r.supply.registrationFinished cfg r.now random own result }.setWorker i (.sending c))
  | cleaned (i : ℕ) (c : Candidate) (random : ℕ) (h : r.workers i = .finishing c) :
      Change cfg r ({ r with
        supply := r.supply.registrationFinished cfg r.now random c .other }.setWorker i (.releasing c))
  | finished (i : ℕ) (c : Candidate) (h : r.workers i = .releasing c) :
      Change cfg r ({ r with supply := r.supply.finish c }.setWorker i .ready)

/-! ## Inversion -/

theorem Change.of_nextPage (h : r.scanner = .ready) : Change cfg r (r.nextPage cfg) := by
  unfold Runtime.nextPage
  split
  · next hstop => exact .read _ _ (.exited (.inl h) hstop)
  · next hstop =>
    have hstop := Bool.eq_false_iff.mpr hstop
    simp only
    split
    · next kind hkind =>
      split
      · next hok =>
        have hready := List.find?_some hkind
        exact .reserved kind h hstop (of_decide_eq_true hready) hok.1 hok.2.1 hok.2.2
      · exact .rested h hstop
    · exact .rested h hstop

theorem Change.of_settle {kind : ScanKind} {result : Except ScanError Page}
    (h : r.scanner = .settling kind result) : Change cfg r (r.settle cfg random kind result) := by
  unfold Runtime.settle
  split
  · next e =>
    split
    · next he =>
      have hsame : Function.update r.scans kind
          { r.scans kind with readyAt := (r.scans kind).readyAt } = r.scans :=
        Function.update_eq_self ..
      have hchange : Change cfg r _ := .released kind e _ h fun _ => rfl
      rwa [hsame] at hchange
    · next he => exact .released kind e _ h fun hpaused => absurd hpaused he
  · next page =>
    cases hstop : r.supply.stopping with
    | true =>
      rw [Supply.admitPage_of_stopping hstop]
      exact .discarded kind page h hstop
    | false =>
      rw [Supply.admitPage_eq hstop]
      exact .admitted kind page random _ h hstop (Supply.admitPage_eq hstop)

theorem Change.of_scan (h : r.scan cfg random = some r') : Change cfg r r' := by
  unfold Runtime.scan at h
  split at h
  · next hscanner =>
    cases h
    exact .of_nextPage hscanner
  · next kind limit hscanner =>
    cases hcharge : (r.supply.chargePage cfg r.now).1 with
    | ok =>
      simp only [hcharge] at h
      cases h
      exact .charged kind limit hscanner hcharge
    | error e =>
      simp only [hcharge] at h
      cases h
      exact .refused kind limit e hscanner hcharge
  · next kind result hscanner =>
    cases h
    exact .paused kind result random hscanner
  · next kind result hscanner =>
    cases h
    exact .of_settle hscanner
  · cases h

theorem Change.of_bound {kind : ScanKind} {limit : ℕ} {value : Int}
    (h : r.scanner = .bounding kind limit (some value)) : Change cfg r (r.bound kind limit value) := by
  unfold Runtime.bound
  split
  · split
    · exact .read _ _ (.failedBound _ limit _ h)
    · split
      · next hzero => exact .read _ _ (.noBound limit (hzero ▸ h))
      · exact .read _ _ (.boundWaiting limit value h (by omega))
  · split
    · exact .read _ _ (.failedBound _ limit _ h)
    · next hzero => exact .read _ _ (.boundRetry limit value h hzero)

theorem Change.of_sample {time : ℕ} (h : r.sample time = some r') : Change cfg r r' := by
  unfold Runtime.sample at h
  split at h
  · next kind limit read hscanner =>
    cases h
    exact .read _ _ (.sampledBound kind limit read _ hscanner)
  · next kind limit read hscanner =>
    cases h
    exact .read _ _ (.sampledList kind limit read hscanner)
  · cases h

theorem Change.of_answer {a : Answer} (h : r.answer a = some r') : Change cfg r r' := by
  unfold Runtime.answer at h
  split at h
  · next kind limit value hscanner =>
    split at h
    · cases h
    · cases h
      exact .of_bound hscanner
  · next kind limit read hscanner =>
    cases h
    exact .read _ _ (.failedBound kind limit read hscanner)
  · next kind limit page hscanner =>
    split at h
    · cases h
    · cases h
      exact .read _ _ (.listed kind limit page hscanner)
  · next kind limit read hscanner =>
    cases h
    exact .read _ _ (.failedList kind limit read hscanner)
  · cases h

theorem Change.of_work {i : ℕ} (h : r.work cfg i random = some r') : Change cfg r r' := by
  unfold Runtime.work at h
  split at h
  · next hw =>
    cases hstop : r.supply.stopping with
    | true =>
      simp only [Supply.take, hstop] at h
      cases h
      exact .passed i _ (hw ▸ .exited)
    | false =>
      simp only [Supply.take, hstop, Bool.false_eq_true, if_false] at h
      split at h
      · next hr =>
        split at hr <;> cases hr
      · next wakeAt hr =>
        split at hr
        · cases hr
        · next hnone =>
          rw [hnone] at h
          cases hr
          cases h
          exact .idle i _ hw hstop rfl
      · next c hr =>
        split at hr
        · next index c' hsome =>
          cases hr
          rw [hsome] at h
          cases h
          obtain ⟨_, hchosen, hget⟩ := Option.bind_eq_some_iff.mp hsome
          obtain ⟨_, hc, heq⟩ := Option.map_eq_some_iff.mp hget
          cases heq
          rw [Supply.expireConflicts_pending] at hc
          exact .took i index c hw hstop hchosen hc
        · cases hr
  · next c hw =>
    cases h
    refine .asked i c _ hw ?_
    unfold Supply.registrationCandidate
    cases hstop : r.supply.stopping with
    | true => exact .inl rfl
    | false =>
      cases hown : r.supply.registering (Runtime.parent c) with
      | none => exact .inl rfl
      | some own => exact .inr ⟨own, rfl, rfl⟩
  · next c hw =>
    cases h
    exact .cleaned i c random hw
  · next c hw =>
    cases h
    exact .finished i c hw
  · cases h

/-- Every step of the runtime is one of the changes. -/
theorem Change.of_step (h : r.step cfg m = some r') : Change cfg r r' := by
  unfold Runtime.step at h
  split at h
  · cases h
    exact .elsewhere _ _ (Nat.le_add_right ..)
  · cases h
    exact .elsewhere _ _ le_rfl
  · split at h
    · cases h
    · next hno =>
      cases h
      simp only [not_or, Bool.not_eq_true] at hno
      exact .started hno.1 hno.2
  · cases h
    exact .stopped
  · cases h
    exact .hinted _
  · exact .of_scan h
  · exact .of_sample h
  · exact .of_answer h
  · split at h
    · next changed wakeAt hscanner =>
      split at h
      · split at h
        · next hstop =>
          cases h
          exact .read _ _ (.exited (.inr ⟨_, _, hscanner⟩) hstop)
        · cases h
      · split at h
        · cases h
          exact .read _ _ (.woken changed wakeAt hscanner)
        · cases h
    · cases h
  · exact .of_work h
  · split at h
    · next changed wakeAt hw =>
      split at h
      · split at h
        · cases h
          exact .passed _ _ (hw ▸ .cancelled ..)
        · cases h
      · split at h
        · cases h
          exact .passed _ _ (hw ▸ .woken ..)
        · cases h
    · cases h
  · split at h
    · next hw =>
      cases h
      exact .passed _ _ (hw ▸ .bypassed _)
    · cases h
  · split at h
    · next hw =>
      cases h
      exact .registered _ _ _ _ _ hw
    · cases h
  · split at h
    · next hw =>
      cases h
      exact .passed _ _ (hw ▸ .sent _)
    · cases h

/-! ## Pages -/

namespace Scan

variable {scan : Scan} {limit : ℕ} {page : List Candidate} {result : Page} {kind : ScanKind}

theorem check_waiting (h : scan.check limit page .waiting = .ok result) :
    validWaitingPage scan.upperId limit (page.map (·.instanceId)) scan.cursor = true ∧
    result = (page, decide ((page.map (·.instanceId)).length < limit) ||
      (page.map (·.instanceId)).getLast? == some scan.upperId) := by
  simp only [check] at h
  split at h
  · next hvalid => exact ⟨hvalid, (Except.ok.inj h).symm⟩
  · cases h

theorem check_retry (h : scan.check limit page .retry = .ok result) :
    validRetryPage scan.scanNow limit (page.map (·.retry)) scan.retryCursor = true ∧
    result = (page, decide ((page.map (·.retry)).length < limit)) := by
  simp only [check] at h
  split at h
  · next hvalid => exact ⟨hvalid, (Except.ok.inj h).symm⟩
  · cases h

theorem page_of_check (h : scan.check limit page kind = .ok result) : result.1 = page := by
  cases kind with
  | waiting => rw [(check_waiting h).2]
  | retry => rw [(check_retry h).2]

theorem length_le_of_check (h : scan.check limit page kind = .ok result) :
    result.1.length ≤ limit := by
  cases kind with
  | waiting =>
    obtain ⟨hvalid, rfl⟩ := check_waiting h
    simp only [validWaitingPage, Bool.and_eq_true, decide_eq_true_eq, List.length_map] at hvalid
    exact hvalid.1
  | retry =>
    obtain ⟨hvalid, rfl⟩ := check_retry h
    simp only [validRetryPage, Bool.and_eq_true, decide_eq_true_eq, List.length_map] at hvalid
    exact hvalid.1

end Scan

theorem invariant_of_change (init : I .init) (step : ∀ {r r'}, I r → Change cfg r r' → I r') :
    (runtime cfg).Invariant I :=
  ⟨init, fun _ _ _ h hm => step h (.of_step hm)⟩

theorem keeps_of_change (h : ∀ {r r'}, I r → P r → Change cfg r r' → P r') :
    (runtime cfg).Keeps I P :=
  fun _ _ _ hI hP hm => h hI hP (.of_step hm)

end Dogx.Dispatch
