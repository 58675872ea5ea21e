import Dogx.Dispatch.Choice
import Dogx.Dispatch.Stock

/-!
# Candidates in custody

A candidate is in custody from the moment it enters `pending` until its worker has finished with it.
A parent registers one candidate at a time, and a worker holds it.
-/

namespace Dogx.Dispatch

open Machine
open Candidate (key new retry row sequence)
open Function (forall_update_iff update update_of_ne update_self)

variable {cfg : RuntimeConfig} {r r' : Runtime} {c c' : Candidate} {random i : ℕ}
  {result : Registration} {w : Worker} {s : Supply} {reserved : Int} {scanner : Scanner}
  {scans : ScanKind → Scan} {kind : ScanKind}

/-! ## Owners -/

def Runtime.held (cfg : RuntimeConfig) (r : Runtime) : List Candidate :=
  Pool.collect cfg.concurrency r.workers Worker.held

def Scanner.page : Scanner → List Candidate
  | listing _ _ (some page) => page
  | returned _ (.ok page) | settling _ (.ok page) => page.1
  | _ => []

def Runtime.Offers (r : Runtime) (c : Candidate) : Prop :=
  c.retry.taskId = 0 ∨ ∃ p ∈ r.scanner.page, p.row = c.row

inductive Flow (cfg : RuntimeConfig) (r r' : Runtime) : Prop where
  | kept (hp : r'.supply.pending = r.supply.pending) (ho : r'.supply.owned = r.supply.owned)
      (hh : r'.held cfg = r.held cfg)
  | added (cs added : List Candidate) (hperm : added.Perm cs) (hnd : (cs.map key).Nodup)
      (hfree : ∀ c ∈ cs, r.supply.owned c.key = none) (hoffer : ∀ c ∈ cs, r.Offers c)
      (hp : r'.supply.pending = r.supply.pending ++ added)
      (ho : r'.supply.owned = Queue.own key sequence r.supply.owned cs)
      (hh : r'.held cfg = r.held cfg)
  | dropped (p : Candidate → Bool) (hp : r'.supply.pending = r.supply.pending.filter p)
      (ho : r'.supply.owned =
        Queue.disown key r.supply.owned (r.supply.pending.filter (!p ·)))
      (hh : r'.held cfg = r.held cfg)
  | taken (c : Candidate) (hp : r.supply.pending.Perm (c :: r'.supply.pending))
      (ho : r'.supply.owned = r.supply.owned) (hh : (r'.held cfg).Perm (c :: r.held cfg))
  | finished (c : Candidate) (hp : r'.supply.pending = r.supply.pending)
      (ho : r'.supply.owned = (r.supply.finish c).owned) (hh : (r.held cfg).Perm (c :: r'.held cfg))

namespace Flow

theorem of_still (hs : r.supply.Still r'.supply) (hh : r'.held cfg = r.held cfg) : Flow cfg r r' :=
  .kept hs.pending hs.owned hh

theorem of_registrationFinished
    (hs : r'.supply = r.supply.registrationFinished cfg r.now random c result)
    (hh : r'.held cfg = r.held cfg) : Flow cfg r r' := by
  rcases Supply.registrationFinished_cases r.supply c result with
    ⟨h, -⟩ | ⟨-, ⟨-, h⟩ | ⟨-, h⟩⟩
  · exact .of_still (hs.trans h ▸ .refl _) hh
  · rw [← hs] at h
    exact .dropped _ h.pending h.owned hh
  · rw [← hs] at h
    exact .kept h.pending h.owned hh

end Flow

theorem Passing.held_eq {w' : Worker} (h : Passing w w') : w'.held = w.held := by
  cases h <;> rfl

namespace Staffed

variable {i : ℕ}

theorem held_took (h : Staffed cfg r) (hw : r.workers i = .ready)
    (hw' : r'.workers = update r.workers i (.dispatching c)) :
    (r'.held cfg).Perm (c :: r.held cfg) := by
  have hperm : ((r.workers i).held.toList ++
      Pool.collect cfg.concurrency (update r.workers i (.dispatching c)) Worker.held).Perm _ :=
    Pool.collect_update (h.lt (by simp [hw])) _
  rw [hw, ← hw'] at hperm
  exact hperm

theorem held_finished (h : Staffed cfg r) (hw : r.workers i = .releasing c)
    (hw' : r'.workers = update r.workers i .ready) :
    (r.held cfg).Perm (c :: r'.held cfg) := by
  have hperm : ((r.workers i).held.toList ++
      Pool.collect cfg.concurrency (update r.workers i .ready) Worker.held).Perm _ :=
    Pool.collect_update (h.lt (by simp [hw])) _
  rw [hw, ← hw'] at hperm
  exact hperm.symm

end Staffed

/-- What each step does to the candidates in custody. -/
theorem Change.flow (h : Staffed cfg r) (hc : Change cfg r r') : Flow cfg r r' := by
  cases hc with
  | started hstart =>
    refine .kept rfl rfl (Pool.collect_congr fun i hi => ?_)
    simp only [hi, h.workers hstart i]
    rfl
  | stopped =>
    rcases Supply.stop_cases r.supply with hs | hs
    · exact .kept (congrArg Supply.pending hs) (congrArg Supply.owned hs) rfl
    · exact .dropped _ hs.pending hs.owned rfl
  | hinted id =>
    rcases Supply.hint_cases r.supply id with hs | ⟨c, hrow, hfree, -, hs⟩
    · exact .of_still hs rfl
    · have hoffer : r.Offers c := .inl (congrArg (·.retry.taskId) hrow)
      exact .added [c] [c] (.refl _) (List.nodup_singleton _) (by simpa using hfree)
        (by simpa using hoffer) hs.pending hs.owned rfl
  | rested => exact .of_still Supply.still_refreshed rfl
  | reserved =>
    have hs : r.supply.Still (r.refreshed cfg) := Supply.still_refreshed
    unfold Runtime.reserve Runtime.begin
    split <;> exact .kept hs.pending hs.owned rfl
  | refused | charged => exact .of_still (Supply.still_chargePage _) rfl
  | paused => exact .of_still (Supply.still_pauseBudget _) rfl
  | admitted _ _ _ s hs _ hadm =>
    obtain ⟨cs, added, hcs, hstill⟩ := Supply.admitPage_stock hadm
    refine .added cs added hcs.perm hcs.nodup hcs.free (fun c hc => .inr ?_) hstill.pending
      hstill.owned rfl
    rw [hs]
    exact hcs.row c hc
  | passed i w hp => exact .kept rfl rfl (Pool.collect_update_of_eq hp.held_eq)
  | idle i s hw _ hs =>
    subst hs
    exact .of_still (Supply.still_expireConflicts _) (Pool.collect_update_of_eq (hw ▸ rfl))
  | took i _ c hw _ _ hget =>
    have hs : r.supply.Still (r.supply.expireConflicts cfg r.now) := Supply.still_expireConflicts _
    refine .taken c ?_ hs.owned ?_
    · obtain ⟨hlt, rfl⟩ := List.getElem?_eq_some_iff.mp hget
      simp only [Supply.takeAt, hs.pending]
      exact (List.getElem_cons_eraseIdx_perm hlt).symm
    · exact h.held_took hw rfl
  | asked i c w hw hown =>
    refine .of_still (Supply.still_expireConflicts _) (Pool.collect_update_of_eq ?_)
    rw [hw]
    rcases hown with rfl | ⟨own, -, rfl⟩ <;> rfl
  | registered i c _ _ _ hw | cleaned i c _ hw =>
    exact .of_registrationFinished rfl (Pool.collect_update_of_eq (hw ▸ rfl))
  | finished i c hw => exact .finished c rfl rfl (h.held_finished hw rfl)
  | _ => exact .kept rfl rfl rfl

def Owned (cfg : RuntimeConfig) (r : Runtime) : Prop :=
  Queue.Owns key sequence r.supply.owned (r.supply.pending ++ r.held cfg)

theorem Supply.finish_owned (h : s.owned c.key = some c.sequence) :
    (s.finish c).owned = Queue.disown key s.owned [c] := by
  funext k
  simp only [finish, notify, h, Queue.disown]
  by_cases hk : k = c.key <;> simp [hk]

/-- The owner map follows the flow of candidates. -/
theorem Owned.flow (h : Owned cfg r) (hf : Flow cfg r r') : Owned cfg r' := by
  unfold Owned at h ⊢
  cases hf with
  | kept hp ho hh => rwa [hp, ho, hh]
  | added _ _ hperm hnd hfree _ hp ho hh =>
    rw [hp, ho, hh]
    refine (h.own hnd hfree).perm ?_
    rw [List.append_assoc, List.append_assoc]
    exact (List.perm_append_comm.trans (hperm.symm.append_right _)).append_left _
  | dropped p hp ho hh =>
    rw [hp, ho, hh]
    refine (h.perm ?_).disown
    rw [← List.append_assoc]
    exact (List.perm_append_comm.trans (List.filter_append_perm p _)).symm.append_right _
  | taken c hp ho hh =>
    rw [ho]
    exact h.perm ((hp.append_right _).trans (List.perm_middle.symm.trans (hh.symm.append_left _)))
  | finished c hp ho hh =>
    have hc : c ∈ r.supply.pending ++ r.held cfg :=
      List.mem_append_right _ (hh.mem_iff.mpr List.mem_cons_self)
    rw [hp, ho, Supply.finish_owned (h.owned_of_mem hc)]
    exact (h.perm ((hh.append_left _).trans List.perm_middle)).disown

theorem owned (cfg : RuntimeConfig) : (runtime cfg).Invariant fun r => Staffed cfg r ∧ Owned cfg r := by
  refine (staffed cfg).and ?_ (keeps_of_change fun hs ho hc => ho.flow (hc.flow hs))
  have hheld : Runtime.init.held cfg = [] := by
    simp [Runtime.held, Pool.collect, Runtime.init, Worker.held]
  unfold Owned
  rw [show (runtime cfg).init = Runtime.init from rfl, hheld]
  exact .empty

/-! ## Room -/

def Scanner.Fits (reserved : Int) : Scanner → Prop
  | bounding _ limit _ | charging _ limit | listing _ limit _ => reserved = limit
  | returned _ result | settling _ result => 0 ≤ reserved ∧ ∀ page, result = .ok page →
      page.1.length ≤ reserved
  | absent | ready | asleep _ _ | exited => reserved = 0

theorem Scanner.Fits.nonneg (h : scanner.Fits reserved) : 0 ≤ reserved := by
  cases scanner <;> simp only [Fits] at h <;> omega

structure Room (cfg : RuntimeConfig) (r : Runtime) : Prop where
  waiting : r.supply.waiting = r.supply.pending.length + r.supply.reserved
  capacity : r.supply.waiting ≤ cfg.waitingCapacity
  fits : r.scanner.Fits r.supply.reserved

theorem Reading.fits (h : r.scanner.Fits reserved) (hr : Reading r scanner scans) :
    scanner.Fits reserved := by
  have hpos := h.nonneg
  cases hr with
  | exited hs =>
    rcases hs with hs | ⟨_, _, hs⟩ <;> rw [hs] at h <;> exact h
  | woken _ _ hs | sampledBound _ _ _ _ hs | sampledList _ _ _ hs | boundWaiting _ _ hs
  | boundRetry _ _ hs =>
    rw [hs] at h
    exact h
  | noBound =>
    refine ⟨hpos, ?_⟩
    rintro _ ⟨⟩
    exact hpos
  | listed _ _ _ hs =>
    rw [hs] at h
    refine ⟨hpos, fun result hresult => ?_⟩
    have hlen := Scan.length_le_of_check hresult
    simp only [Scanner.Fits] at h
    omega
  | _ => exact ⟨hpos, nofun⟩

namespace Room

variable (h : Room cfg r)
include h

theorem of_eq (hp : r'.supply.pending = r.supply.pending)
    (hw : r'.supply.waiting = r.supply.waiting) (hr : r'.supply.reserved = r.supply.reserved)
    (hfits : r'.scanner.Fits r.supply.reserved) : Room cfg r' := by
  refine ⟨?_, ?_, ?_⟩
  · rw [hw, hp, hr]
    exact h.waiting
  · rw [hw]
    exact h.capacity
  · rw [hr]
    exact hfits

theorem still (hs : r.supply.Still r'.supply) (hfits : r'.scanner.Fits r.supply.reserved) :
    Room cfg r' :=
  h.of_eq hs.pending hs.waiting hs.reserved hfits

theorem keep (p : Candidate → Bool) (hp : s.pending = r.supply.pending)
    (hw : s.waiting = r.supply.waiting) (hr : s.reserved = r.supply.reserved)
    (hs : (s.keep p).Still r'.supply) (hscanner : r'.scanner = r.scanner) : Room cfg r' := by
  have hlen := List.length_eq_length_filter_add (l := r.supply.pending) p
  have hwaiting := h.waiting
  have hcapacity := h.capacity
  have hs1 := hs.waiting
  simp only [Supply.keep] at hs1
  refine ⟨?_, ?_, ?_⟩
  · rw [hs1, hs.pending, hs.reserved]
    simp only [Supply.keep, hp]
    omega
  · omega
  · rw [hs.reserved, hscanner]
    exact hr ▸ h.fits

theorem registrationFinished
    (hs : r'.supply = r.supply.registrationFinished cfg r.now random c result)
    (hscanner : r'.scanner = r.scanner) : Room cfg r' := by
  rcases Supply.registrationFinished_cases r.supply c result with
    ⟨heq, -⟩ | ⟨-, ⟨-, hstill⟩ | ⟨-, hstill⟩⟩
  · exact h.still (hs.trans heq ▸ .refl _) (hscanner ▸ h.fits)
  · exact h.keep _ (s := r.supply.unregister c.instanceId) rfl rfl rfl (hs ▸ hstill) hscanner
  · rw [← hs] at hstill
    exact h.of_eq hstill.pending hstill.waiting hstill.reserved (hscanner ▸ h.fits)

theorem reserve (hs : r.scanner = .ready) (hroom : (r.refreshed cfg).waiting < cfg.waitingCapacity) :
    Room cfg (r.reserve cfg (r.refreshed cfg) kind) := by
  have hstill : r.supply.Still (r.refreshed cfg) := Supply.still_refreshed
  have hwaiting := h.waiting
  have hzero : r.supply.reserved = 0 := by
    have hfits := h.fits
    rwa [hs] at hfits
  have hplaces : 0 ≤ Runtime.room cfg (r.refreshed cfg) ∧
      (r.refreshed cfg).waiting + Runtime.room cfg (r.refreshed cfg) ≤ cfg.waitingCapacity := by
    simp only [Runtime.room]
    omega
  refine ⟨?_, ?_, ?_⟩
  · simp only [Runtime.reserve, Runtime.begin]
    split <;> simp only [hstill.pending, hstill.waiting] <;> omega
  · simp only [Runtime.reserve, Runtime.begin]
    split <;> exact hplaces.2
  · have hnat : Runtime.room cfg (r.refreshed cfg) = (Runtime.room cfg (r.refreshed cfg)).toNat := by
      omega
    simp only [Runtime.reserve, Runtime.begin]
    split <;> split <;> exact hnat

theorem release (hs : s = r.supply.unreserve.notify) (hsupply : r'.supply = s)
    (hfits : r'.scanner.Fits 0) : Room cfg r' := by
  have hwaiting := h.waiting
  have hcapacity := h.capacity
  have hreserved := h.fits.nonneg
  subst hs
  refine ⟨?_, ?_, ?_⟩ <;> rw [hsupply]
  · simp only [Supply.unreserve, Supply.notify]
    omega
  · simp only [Supply.unreserve, Supply.notify]
    omega
  · exact hfits

theorem enroll {page : Page} {cs added : List Candidate} (hs : r.scanner = .settling kind (.ok page))
    (hcs : Supply.Admits page.1 r.supply cs added) (hstill : Supply.Still { r.supply with
      reserved := 0, pending := r.supply.pending ++ added
      owned := Queue.own key sequence r.supply.owned cs
      waiting := r.supply.waiting - r.supply.reserved + cs.length } r'.supply)
    (hready : r'.scanner = .ready) : Room cfg r' := by
  have hwaiting := h.waiting
  have hcapacity := h.capacity
  have hfits := h.fits
  rw [hs] at hfits
  have hpage := hfits.2 page rfl
  have hlen := hcs.length
  have hadded := hcs.perm.length_eq
  refine ⟨?_, ?_, ?_⟩
  · rw [hstill.waiting, hstill.pending, hstill.reserved, List.length_append]
    push_cast
    omega
  · rw [hstill.waiting]
    dsimp only
    omega
  · rw [hready, hstill.reserved]
    exact rfl

end Room

/-- In every run, pending candidates and reserved places fit into the capacity. -/
theorem room (cfg : RuntimeConfig) : (runtime cfg).Invariant fun r => Staffed cfg r ∧ Room cfg r := by
  refine (staffed cfg).and ⟨rfl, Int.natCast_nonneg _, rfl⟩ (keeps_of_change ?_)
  intro r r' hstaff h hc
  cases hc with
  | started hstart =>
    have hfits := h.fits
    rw [hstaff.scanner hstart] at hfits
    exact h.of_eq rfl rfl rfl hfits
  | stopped =>
    rcases Supply.stop_cases r.supply with hs | hs
    · exact h.still (by rw [hs]; exact .refl _) h.fits
    · exact h.keep _ (s := { r.supply with stopping := true }) rfl rfl rfl hs rfl
  | hinted id =>
    rcases Supply.hint_cases r.supply id with hs | ⟨c, -, -, hfull, hs⟩
    · exact h.still hs h.fits
    · have hwaiting := h.waiting
      have hcapacity := h.capacity
      refine ⟨?_, ?_, ?_⟩
      · rw [hs.waiting, hs.pending, hs.reserved, List.length_append]
        simp only [List.length_singleton]
        omega
      · rw [hs.waiting]
        dsimp only
        omega
      · exact hs.reserved ▸ h.fits
  | read _ _ hr => exact h.of_eq rfl rfl rfl (hr.fits h.fits)
  | rested hs =>
    have hfits := h.fits
    rw [hs] at hfits
    exact h.still Supply.still_refreshed hfits
  | reserved _ hs _ _ _ _ hroom => exact h.reserve hs hroom
  | refused => exact h.still (Supply.still_chargePage _) ⟨h.fits.nonneg, nofun⟩
  | charged _ _ hs =>
    have hfits := h.fits
    rw [hs] at hfits
    exact h.still (Supply.still_chargePage _) hfits
  | paused _ _ _ hs =>
    have hfits := h.fits
    rw [hs] at hfits
    exact h.still (Supply.still_pauseBudget _) hfits
  | released | discarded => exact h.release rfl rfl rfl
  | admitted _ _ _ s hs _ hadm =>
    obtain ⟨_, _, hcs, hstill⟩ := Supply.admitPage_stock hadm
    exact h.enroll hs hcs hstill rfl
  | idle i s _ _ hs => exact h.still (hs ▸ Supply.still_expireConflicts _) h.fits
  | took i _ c _ _ _ hget =>
    have hs : r.supply.Still (r.supply.expireConflicts cfg r.now) := Supply.still_expireConflicts _
    have hwaiting := h.waiting
    have hcapacity := h.capacity
    obtain ⟨hlt, -⟩ := List.getElem?_eq_some_iff.mp hget
    have hlen := List.length_eraseIdx_of_lt hlt
    refine ⟨?_, ?_, ?_⟩ <;>
      simp [Runtime.setWorker, Supply.takeAt, Supply.notify, hs.waiting, hs.reserved]
    · omega
    · omega
    · exact h.fits
  | asked => exact h.still (Supply.still_expireConflicts _) h.fits
  | registered | cleaned => exact h.registrationFinished rfl rfl
  | _ => exact h.of_eq rfl rfl rfl h.fits

/-! ## Registrations -/

def Candidate.Proper (c : Candidate) : Prop := Runtime.parent c = c.instanceId

theorem Candidate.Proper.of_row (hrow : c'.row = c.row) (h : c'.Proper) : c.Proper := by
  have hid : c'.instanceId = c.instanceId := by simpa using congrArg Candidate.instanceId hrow
  have hretry : c'.retry = c.retry := by
    simpa [row, new] using congrArg retry hrow
  unfold Proper Runtime.parent at h ⊢
  rwa [← hid, ← hretry]

theorem Scan.proper_of_list {scan : Scan} {limit : ℕ} {src : Source}
    (h : c ∈ scan.list limit src kind) : c.Proper := by
  cases kind with
  | waiting =>
    obtain ⟨_, -, rfl⟩ := List.mem_map.mp h
    rfl
  | retry =>
    obtain ⟨_, -, rfl⟩ := List.mem_map.mp h
    exact ite_self _

structure Addressed (cfg : RuntimeConfig) (r : Runtime) : Prop where
  custody : ∀ c ∈ r.supply.pending ++ r.held cfg, c.Proper
  page : ∀ c ∈ r.scanner.page, c.Proper

theorem Addressed.flow (h : Addressed cfg r) (hf : Flow cfg r r') :
    ∀ c ∈ r'.supply.pending ++ r'.held cfg, c.Proper := by
  intro c hc
  have hold := h.custody c
  simp only [List.mem_append] at hc hold
  cases hf with
  | kept hp _ hh =>
    rw [hp, hh] at hc
    exact hold hc
  | added _ _ hperm _ _ hoffer hp _ hh =>
    rw [hp, hh, List.mem_append, hperm.mem_iff, or_right_comm] at hc
    rcases hc with hc | hc
    · exact hold hc
    · rcases hoffer c hc with hzero | ⟨p, hpage, hrow⟩
      · exact if_pos hzero
      · exact (h.page p hpage).of_row hrow
  | dropped p hp _ hh =>
    rw [hp, hh] at hc
    exact hold (hc.imp_left fun hc => (List.mem_filter.mp hc).1)
  | taken _ hp _ hh =>
    rw [hh.mem_iff, List.mem_cons] at hc
    rw [hp.mem_iff, List.mem_cons] at hold
    tauto
  | finished _ hp _ hh =>
    rw [hp] at hc
    rw [hh.mem_iff] at hold
    tauto

theorem Reading.page (h : ∀ c ∈ r.scanner.page, c.Proper) (hr : Reading r scanner scans) :
    ∀ c ∈ scanner.page, c.Proper := by
  cases hr with
  | sampledList => exact fun c hc => Scan.proper_of_list hc
  | listed kind limit page hs =>
    rw [hs] at h
    intro c hc
    cases hcheck : (r.scans kind).check limit page kind with
    | error =>
      rw [hcheck] at hc
      exact absurd hc List.not_mem_nil
    | ok =>
      rw [hcheck] at hc
      exact h c (Scan.page_of_check hcheck ▸ hc)
  | _ => exact fun c hc => absurd hc List.not_mem_nil

theorem Change.page (h : ∀ c ∈ r.scanner.page, c.Proper) (hc : Change cfg r r') :
    ∀ c ∈ r'.scanner.page, c.Proper := by
  cases hc with
  | read _ _ hr => exact hr.page h
  | paused _ result _ hs =>
    rw [hs] at h
    cases result <;> exact h
  | reserved =>
    intro c hc
    simp only [Runtime.reserve] at hc
    split at hc <;> exact absurd hc List.not_mem_nil
  | started | rested | refused | charged | released | discarded | admitted =>
    exact fun c hc => absurd hc List.not_mem_nil
  | _ => exact h

theorem addressed (cfg : RuntimeConfig) :
    (runtime cfg).Invariant fun r => (Staffed cfg r ∧ Owned cfg r) ∧ Addressed cfg r := by
  refine (owned cfg).and ⟨?_, fun c hc => absurd hc List.not_mem_nil⟩
    (keeps_of_change fun hs h hc => ⟨h.flow (hc.flow hs.1), hc.page h.page⟩)
  intro c hc
  simp [runtime, Runtime.init, Supply.init, Runtime.held, Pool.collect, Worker.held] at hc

/-- The candidate whose registration a worker has in hand. -/
def Worker.registrant : Worker → Option Candidate
  | dispatching c | registering c _ => some c
  | _ => none

def Worker.own : Worker → Option Candidate
  | registering _ own => some own
  | _ => none

def Worker.cleaned : Worker → Option Candidate
  | releasing c => some c
  | _ => none

structure Worker.Marked (registering : Int → Option Candidate) (w : Worker) : Prop where
  /-- Before the end of its registration it has the mark of its parent. -/
  registrant : ∀ c, w.registrant = some c → registering c.instanceId = some c
  own : ∀ c, w.own = some c → w.held = some c
  /-- Once it has cleaned up, it has no mark. -/
  cleaned : ∀ c, w.cleaned = some c → registering c.instanceId ≠ some c

theorem Worker.Marked.idle {registering : Int → Option Candidate}
    (hregistrant : w.registrant = none) (hown : w.own = none) (hcleaned : w.cleaned = none) :
    w.Marked registering := by
  refine ⟨?_, ?_, ?_⟩ <;> intro c hc
  · cases hregistrant.symm.trans hc
  · cases hown.symm.trans hc
  · cases hcleaned.symm.trans hc

structure Registrations (cfg : RuntimeConfig) (r : Runtime) : Prop where
  /-- A mark stands for a candidate that a worker holds. -/
  held : ∀ p c, r.supply.registering p = some c → c.instanceId = p ∧ c ∈ r.held cfg
  workers : ∀ i, (r.workers i).Marked r.supply.registering

theorem Worker.held_of_registrant (h : w.registrant = some c) : w.held = some c := by
  cases w <;> simp_all [registrant, held]

theorem Worker.held_of_cleaned (h : w.cleaned = some c) : w.held = some c := by
  cases w <;> simp_all [cleaned, held]

namespace Owned

variable {i j : ℕ}

theorem worker_unique (h : Owned cfg r) (hs : Staffed cfg r) (hi : (r.workers i).held = some c)
    (hj : (r.workers j).held = some c) : i = j := by
  have hnd := h.nodup
  rw [List.map_append, List.nodup_append] at hnd
  have hne : ∀ {k}, (r.workers k).held = some c → r.workers k ≠ .absent := by
    intro k hk heq
    rw [heq] at hk
    cases hk
  exact Pool.eq_of_key_eq hnd.2.1 (hs.lt (hne hi)) (hs.lt (hne hj)) hi hj rfl

theorem notMem_held (h : Owned cfg r) (hc : c ∈ r.supply.pending) : c ∉ r.held cfg := by
  have hnd := h.nodup
  rw [List.map_append, List.nodup_append] at hnd
  intro hheld
  exact hnd.2.2 _ (List.mem_map_of_mem hc) _ (List.mem_map_of_mem hheld) rfl

end Owned

theorem Staffed.mem_held (hs : Staffed cfg r) (h : (r.workers i).held = some c) :
    c ∈ r.held cfg := by
  refine Pool.mem_collect.mpr ⟨i, hs.lt fun habsent => ?_, h⟩
  rw [habsent] at h
  cases h

namespace Registrations

variable {i : ℕ} {w : Worker}

section

variable (h : Registrations cfg r)
include h

theorem same (hw : r'.workers = r.workers) (hreg : r'.supply.registering = r.supply.registering) :
    Registrations cfg r' := by
  refine ⟨?_, ?_⟩
  · rw [hreg, Runtime.held, hw]
    exact h.held
  · rw [hreg, hw]
    exact h.workers

theorem moved (hw : r'.workers = update r.workers i w)
    (hreg : r'.supply.registering = r.supply.registering)
    (hheld : ∀ p c, r.supply.registering p = some c → c ∈ r'.held cfg)
    (hmark : w.Marked r.supply.registering) : Registrations cfg r' := by
  refine ⟨?_, ?_⟩
  · rw [hreg]
    exact fun p c hc => ⟨(h.held p c hc).1, hheld p c hc⟩
  · rw [hreg, hw]
    exact (forall_update_iff _ fun _ => Worker.Marked _).mpr ⟨hmark, fun j _ => h.workers j⟩

/-- The mark of one parent changes, with one worker. No other worker has a mark of that parent, and the
mark is of nobody that has cleaned up. -/
theorem remarked {p : Int} {m : Option Candidate} (hw : r'.workers = update r.workers i w)
    (hreg : r'.supply.registering = update r.supply.registering p m)
    (hheld : ∀ c ∈ r.held cfg, c ∈ r'.held cfg)
    (hm : ∀ c, m = some c → c.instanceId = p ∧ c ∈ r'.held cfg)
    (hself : w.Marked (update r.supply.registering p m))
    (hothers : ∀ j, j ≠ i → ∀ c, ((r.workers j).registrant = some c → c.instanceId ≠ p) ∧
      ((r.workers j).cleaned = some c → m ≠ some c)) : Registrations cfg r' := by
  refine ⟨fun q c hq => ?_, ?_⟩
  · rw [hreg] at hq
    by_cases heq : q = p
    · subst heq
      rw [update_self] at hq
      exact hm c hq
    · rw [update_of_ne heq] at hq
      exact ⟨(h.held q c hq).1, hheld c (h.held q c hq).2⟩
  · rw [hreg, hw]
    refine (forall_update_iff _ fun _ => Worker.Marked _).mpr ⟨hself, fun j hj => ?_⟩
    obtain ⟨hmark, hown, hclean⟩ := h.workers j
    refine ⟨fun c hc => ?_, hown, fun c hc => ?_⟩
    · rw [update_of_ne ((hothers j hj c).1 hc)]
      exact hmark c hc
    · by_cases heq : c.instanceId = p
      · rw [heq, update_self]
        exact (hothers j hj c).2 hc
      · rw [update_of_ne heq]
        exact hclean c hc

theorem mark (hs : Staffed cfg r) (ho : Owned cfg r)
    (hw : r'.workers = update r.workers i (.dispatching c))
    (hreg : r'.supply.registering = update r.supply.registering c.instanceId (some c))
    (hfree : r.supply.registering c.instanceId = none) (hc : c ∈ r.supply.pending)
    (hheld : (r'.held cfg).Perm (c :: r.held cfg)) : Registrations cfg r' := by
  refine h.remarked hw hreg (fun c' hc' => hheld.mem_iff.mpr (List.mem_cons_of_mem _ hc')) ?_
    ⟨?_, nofun, nofun⟩ fun j _ c' => ⟨fun hc' heq => ?_, ?_⟩
  · rintro _ ⟨⟩
    exact ⟨rfl, hheld.mem_iff.mpr List.mem_cons_self⟩
  · rintro _ ⟨⟩
    exact update_self ..
  · rw [← heq, (h.workers j).registrant c' hc'] at hfree
    cases hfree
  · rintro hc' ⟨⟩
    exact ho.notMem_held hc (hs.mem_held (Worker.held_of_cleaned hc'))

theorem unmark (hs : Staffed cfg r) (ho : Owned cfg r) (hw : r'.workers = update r.workers i w)
    (hafter : w = .sending c ∨ w = .releasing c)
    (hreg : r'.supply.registering = update r.supply.registering c.instanceId none)
    (hc : r.supply.registering c.instanceId = some c) (hi : (r.workers i).held = some c)
    (hheld : r'.held cfg = r.held cfg) : Registrations cfg r' := by
  refine h.remarked hw hreg (fun _ hc' => hheld ▸ hc') nofun ?_
    fun j hj c' => ⟨fun hc' heq => ?_, fun _ => nofun⟩
  · rcases hafter with rfl | rfl
    · exact .idle rfl rfl rfl
    · refine ⟨nofun, nofun, ?_⟩
      rintro _ ⟨⟩
      simp
  · -- the mark of the parent is that of one candidate, and one worker holds it
    have hsame := (h.workers j).registrant c' hc'
    rw [heq, hc] at hsame
    cases hsame
    exact hj (ho.worker_unique hs (Worker.held_of_registrant hc') hi)

end

theorem held_eq (hw : r'.workers = update r.workers i w)
    (hheld : w.held = (r.workers i).held) : r'.held cfg = r.held cfg := by
  rw [Runtime.held, hw]
  exact Pool.collect_update_of_eq hheld

theorem asked (h : Registrations cfg r) (hs : Staffed cfg r) (ha : Addressed cfg r)
    (hw : r.workers i = .dispatching c)
    (hown : w = .sending c ∨ ∃ own, r.supply.registering (Runtime.parent c) = some own ∧
      w = .registering c own)
    (hw' : r'.workers = update r.workers i w)
    (hreg : r'.supply.registering = r.supply.registering) : Registrations cfg r' := by
  have hi : (r.workers i).held = some c := hw ▸ rfl
  have hmark := (h.workers i).registrant c (hw ▸ rfl)
  have hproper : c.Proper := ha.custody c (List.mem_append_right _ (hs.mem_held hi))
  have hheld : w.held = some c := by rcases hown with rfl | ⟨own, -, rfl⟩ <;> rfl
  refine h.moved hw' hreg (fun p c hc => held_eq hw' (hheld.trans hi.symm) ▸ (h.held p c hc).2) ?_
  rcases hown with rfl | ⟨own, hown, rfl⟩
  · exact .idle rfl rfl rfl
  · rw [hproper, hmark] at hown
    cases hown
    refine ⟨?_, ?_, nofun⟩ <;> rintro _ ⟨⟩
    · exact hmark
    · rfl

theorem ended (h : Registrations cfg r) (hs : Staffed cfg r) (ho : Owned cfg r)
    (hi : (r.workers i).held = some c) (hafter : w = .sending c ∨ w = .releasing c)
    (hw : r'.workers = update r.workers i w)
    (hsupply : r'.supply = r.supply.registrationFinished cfg r.now random c result) :
    Registrations cfg r' := by
  have hheld : w.held = some c := by rcases hafter with rfl | rfl <;> rfl
  have hsame : r'.held cfg = r.held cfg := held_eq hw (hheld.trans hi.symm)
  rcases Supply.registrationFinished_cases r.supply c result with
    ⟨heq, hno⟩ | ⟨hmark, ⟨-, hstill⟩ | ⟨-, hstill⟩⟩
  · refine h.moved hw (congrArg _ (hsupply.trans heq)) (fun p c hc => hsame ▸ (h.held p c hc).2) ?_
    rcases hafter with rfl | rfl
    · exact .idle rfl rfl rfl
    · refine ⟨nofun, nofun, ?_⟩
      rintro _ ⟨⟩
      exact hno
  · exact h.unmark hs ho hw hafter (hsupply ▸ hstill.registering) hmark hi hsame
  · exact h.unmark hs ho hw hafter (hsupply ▸ hstill.registering) hmark hi hsame

end Registrations

/-- In every run, a mark stands for a candidate that a worker holds. -/
theorem registrations (cfg : RuntimeConfig) : (runtime cfg).Invariant fun r =>
    ((Staffed cfg r ∧ Owned cfg r) ∧ Addressed cfg r) ∧ Registrations cfg r := by
  refine (addressed cfg).and ⟨nofun, fun _ => .idle rfl rfl rfl⟩ (keeps_of_change ?_)
  rintro r _ ⟨⟨hs, ho⟩, ha⟩ h hc
  cases hc with
  | started hstart =>
    refine ⟨fun p c hc => ?_, fun i => ?_⟩
    · obtain ⟨i, -, hi⟩ := Pool.mem_collect.mp (h.held p c hc).2
      rw [hs.workers hstart i] at hi
      cases hi
    · dsimp only
      split <;> exact .idle rfl rfl rfl
  | stopped =>
    rcases Supply.stop_cases r.supply with hstop | hstop
    · exact h.same rfl (congrArg Supply.registering hstop)
    · exact h.same rfl hstop.registering
  | hinted id =>
    rcases Supply.hint_cases r.supply id with hstill | ⟨c, -, -, -, hstill⟩ <;>
      exact h.same rfl hstill.registering
  | rested => exact h.same rfl Supply.still_refreshed.registering
  | reserved =>
    refine h.same rfl ?_
    unfold Runtime.reserve Runtime.begin
    split <;> exact Supply.still_refreshed.registering
  | refused | charged => exact h.same rfl (Supply.still_chargePage _).registering
  | paused => exact h.same rfl (Supply.still_pauseBudget _).registering
  | admitted _ _ _ s _ _ hadm =>
    obtain ⟨_, _, _, hstill⟩ := Supply.admitPage_stock hadm
    exact h.same rfl hstill.registering
  | passed i w hp =>
    have hheld : (r.setWorker i w).held cfg = r.held cfg := Pool.collect_update_of_eq hp.held_eq
    refine h.moved rfl rfl (fun p c hc => hheld ▸ (h.held p c hc).2) ?_
    generalize r.workers i = w0 at hp
    cases hp <;> exact .idle rfl rfl rfl
  | idle i s hw _ hexpired =>
    subst hexpired
    refine h.moved rfl (Supply.still_expireConflicts _).registering (fun p c hc => ?_)
      (.idle rfl rfl rfl)
    rw [Registrations.held_eq rfl (hw ▸ rfl)]
    exact (h.held p c hc).2
  | took i _ c hw _ hchosen hget =>
    have hstill : r.supply.Still (r.supply.expireConflicts cfg r.now) :=
      Supply.still_expireConflicts _
    have hfree := (Supply.chosen hchosen (hstill.pending ▸ hget)).free
    rw [hstill.registering] at hfree
    refine h.mark hs ho rfl ?_ hfree (List.mem_of_getElem? hget) (hs.held_took hw rfl)
    simp [Runtime.setWorker, Supply.takeAt, Supply.notify, hstill.registering]
  | asked i c w hw hown =>
    exact h.asked hs ha hw hown rfl (Supply.still_expireConflicts _).registering
  | registered i c own _ _ hw =>
    have hown := (h.workers i).own own (hw ▸ rfl)
    rw [hw] at hown
    cases hown
    exact h.ended hs ho (hw ▸ rfl) (.inl rfl) rfl rfl
  | cleaned i c _ hw => exact h.ended hs ho (hw ▸ rfl) (.inr rfl) rfl rfl
  | finished i c hw =>
    refine h.moved rfl rfl (fun p c' hc' => ?_) (.idle rfl rfl rfl)
    obtain ⟨rfl, hheld⟩ := h.held p c' hc'
    have hne : c' ≠ c := by
      rintro rfl
      exact (h.workers i).cleaned c' (hw ▸ rfl) hc'
    have hperm : (r.held cfg).Perm
        (c :: ({ r with supply := r.supply.finish c }.setWorker i .ready).held cfg) :=
      hs.held_finished hw rfl
    exact (List.mem_cons.mp (hperm.mem_iff.mp hheld)).resolve_left hne
  | _ => exact h.same rfl rfl

/-! ## Bounds of every run -/

/-- There are no more marks than workers. -/
theorem Registrations.length_le (h : Registrations cfg r) {parents : List Int} (hnd : parents.Nodup)
    (hreg : ∀ p ∈ parents, (r.supply.registering p).isSome) :
    parents.length ≤ cfg.concurrency := by
  have hsub : parents ⊆ (r.held cfg).map (·.instanceId) := by
    intro p hp
    obtain ⟨c, hc⟩ := Option.isSome_iff_exists.mp (hreg p hp)
    obtain ⟨rfl, hheld⟩ := h.held p c hc
    exact List.mem_map_of_mem hheld
  have hlen := (List.subperm_of_subset hnd hsub).length_le
  rw [List.length_map] at hlen
  exact hlen.trans Pool.length_collect_le

theorem Registrations.registrant_unique (h : Registrations cfg r) (hs : Staffed cfg r)
    (ho : Owned cfg r) {j : ℕ} (hi : (r.workers i).registrant = some c)
    (hj : (r.workers j).registrant = some c') (hp : c.instanceId = c'.instanceId) : i = j := by
  have hmark := (h.workers i).registrant c hi
  rw [hp, (h.workers j).registrant c' hj] at hmark
  cases hmark
  exact ho.worker_unique hs (Worker.held_of_registrant hi) (Worker.held_of_registrant hj)

/-- What the cleanup of a worker leaves alone: marks and owners of other candidates. -/
structure Supply.Spares (c : Candidate) (s s' : Supply) : Prop where
  registering : ∀ p c', s.registering p = some c' → c' ≠ c → s'.registering p = some c'
  owned : ∀ k sequence, s.owned k = some sequence → (k, sequence) ≠ (c.key, c.sequence) →
    s'.owned k = some sequence

theorem Supply.spares_registrationFinished (s : Supply) {now : ℕ} :
    s.Spares c (s.registrationFinished cfg now random c .other) := by
  rcases registrationFinished_cases s c .other with ⟨heq, -⟩ | ⟨hmark, ⟨hlocked, -⟩ | ⟨-, hstill⟩⟩
  · rw [heq]
    exact ⟨fun _ _ h _ => h, fun _ _ h _ => h⟩
  · cases hlocked
  · refine ⟨fun p c' hp hne => ?_, fun k q hk _ => (congrFun hstill.owned k).trans hk⟩
    rw [hstill.registering]
    refine (update_of_ne ?_ _ _).trans hp
    rintro rfl
    rw [hmark] at hp
    exact hne (Option.some.inj hp).symm

theorem Supply.spares_finish (s : Supply) : s.Spares c (s.finish c) := by
  refine ⟨fun _ _ h _ => h, fun k q hk hne => ?_⟩
  simp only [finish]
  split
  · next hc =>
    refine (update_of_ne ?_ _ _).trans hk
    rintro rfl
    cases hc.symm.trans hk
    exact hne rfl
  · exact hk

theorem spares_of_cleanup (hw : r.workers i = .finishing c ∨ r.workers i = .releasing c)
    (hm : r.step cfg (.work i random) = some r') : r.supply.Spares c r'.supply := by
  rcases hw with hw | hw <;> simp only [Runtime.step, Runtime.work, hw] at hm <;> cases hm
  · exact r.supply.spares_registrationFinished
  · exact r.supply.spares_finish

/-- What the runtime keeps in custody, in every run. -/
theorem custody_bounds {ms : List Move} (h : (runtime cfg).run ms = some r) :
    -- the places in use
    (r.supply.waiting = r.supply.pending.length + r.supply.reserved ∧ 0 ≤ r.supply.waiting ∧
      r.supply.waiting ≤ cfg.waitingCapacity) ∧
    -- the owned keys
    (((r.supply.pending ++ r.held cfg).map key).Nodup ∧
      (∀ k, (r.supply.owned k).isSome ↔ k ∈ (r.supply.pending ++ r.held cfg).map key) ∧
      (r.supply.pending ++ r.held cfg).length ≤ cfg.waitingCapacity + cfg.concurrency) ∧
    -- the registrations
    ((∀ p c, r.supply.registering p = some c → c.instanceId = p ∧ c ∈ r.held cfg) ∧
      (∀ i j c c', (r.workers i).registrant = some c → (r.workers j).registrant = some c' →
        c.instanceId = c'.instanceId → i = j) ∧
      ∀ parents : List Int, parents.Nodup → (∀ p ∈ parents, (r.supply.registering p).isSome) →
        parents.length ≤ cfg.concurrency) ∧
    -- the cleanup of a worker
    ∀ i c random r', r.workers i = .finishing c ∨ r.workers i = .releasing c →
      (runtime cfg).step r (.work i random) = some r' → r.supply.Spares c r'.supply := by
  obtain ⟨⟨⟨hs, ho⟩, -⟩, hreg⟩ := (registrations cfg).run h
  have hroom := ((room cfg).run h).2
  have hwaiting := hroom.waiting
  have hcapacity := hroom.capacity
  have hreserved := hroom.fits.nonneg
  refine ⟨⟨hwaiting, by omega, hcapacity⟩, ⟨ho.nodup, fun k => ?_, ?_⟩, ⟨hreg.held, ?_, ?_⟩, ?_⟩
  · simp only [Option.isSome_iff_exists, List.mem_map]
    constructor
    · rintro ⟨q, hq⟩
      obtain ⟨c, hc, hkey, -⟩ := (ho.iff k q).mp hq
      exact ⟨c, hc, hkey⟩
    · rintro ⟨c, hc, rfl⟩
      exact ⟨_, ho.owned_of_mem hc⟩
  · have hheld : (r.held cfg).length ≤ cfg.concurrency := Pool.length_collect_le
    rw [List.length_append]
    omega
  · exact fun i j c c' hi hj hp => hreg.registrant_unique hs ho hi hj hp
  · exact fun parents hnd hall => hreg.length_le hnd hall
  · exact fun i c random r' hw hm => spares_of_cleanup hw hm

def demoConfig : RuntimeConfig where
  concurrency := 2
  waitingCapacity := 1
  scanInterval := 5
  concurrency_pos := Nat.two_pos
  waitingCapacity_pos := Nat.one_pos
  scanInterval_pos := by decide

/-- A hint is taken by a worker, another one waits, and a third finds no place. -/
def demoHints : List Move := [.start, .hint 7, .work 0 0, .hint 8, .hint 9]

theorem demo_custody : ∃ r, (runtime demoConfig).run demoHints = some r ∧
    r.supply.pending.map (·.instanceId) = [8] ∧ (r.held demoConfig).map (·.instanceId) = [7] ∧
    (r.supply.pending ++ r.held demoConfig).length ≤ 3 := by
  obtain ⟨r, hr, hpending, hheld⟩ : ∃ r ∈ (runtime demoConfig).run demoHints,
      r.supply.pending.map (·.instanceId) = [8] ∧ (r.held demoConfig).map (·.instanceId) = [7] := by
    decide +kernel
  exact ⟨r, hr, hpending, hheld, (custody_bounds hr).2.1.2.2⟩

end Dogx.Dispatch
