import Dogx.Dispatch.Order

/-!
# Traversals

A traversal of a scan fixes its bound, and then reads page after page behind its cursor while rows
come and go. A row that stays in the bounded set is not passed over: the page that reaches it is
admitted with it before the cursor moves on.
-/

namespace Dogx.Dispatch

open Machine
open Function (update update_of_ne update_self)

variable {cfg : RuntimeConfig} {r r' : Runtime} {kind k : ScanKind} {scan bound scan' : Scan}
  {limit random : ℕ} {src : Source} {row c : Candidate} {page : List Candidate} {scanner : Scanner}
  {scans : ScanKind → Scan}

/-! ## Rows -/

def Handled (cfg : RuntimeConfig) (r r' : Runtime) (row : Candidate) : Prop :=
  (r.supply.expireConflicts cfg r.now).blocked row.instanceId = true ∨
  (r.supply.owned row.key).isSome ∨
  row.key ∈ r'.supply.pending.map Candidate.key

/-- The step admits a page of the scan with the row on it, and handles the row. -/
def Handles (cfg : RuntimeConfig) (kind : ScanKind) (row : Candidate) (r r' : Runtime) : Prop :=
  ∃ page, r.scanner = .settling kind (.ok page) ∧ row ∈ page.1 ∧ r'.scanner = .ready ∧
    Handled cfg r r' row

theorem handled_of_admitted {generation : ℕ}
    (h : r.supply.admitPage cfg r.now random kind generation page = (true, r'.supply))
    (hstop : r.supply.stopping = false) (hrow : row ∈ page) : Handled cfg r r' row := by
  by_cases hfree : (r.supply.expireConflicts cfg r.now).free row = true
  · have hkey : row.key ∈ ((r.supply.unreserve.expireConflicts cfg r.now).accept kind generation
        page).2.map Candidate.key := by
      rw [Supply.accept_map_key, Supply.unreserve_admissible]
      exact (Queue.mem_map_firstsBy _).mpr (List.mem_map_of_mem (List.mem_filter.mpr ⟨hrow, hfree⟩))
    rw [Supply.admitPage_eq hstop] at h
    have hpending := congrArg (·.2.pending) h
    dsimp only [Supply.notify] at hpending
    refine .inr (.inr ?_)
    rw [← hpending, List.map_append]
    exact List.mem_append_right _ ((Supply.shares_perm.map _).mem_iff.mpr hkey)
  · simp only [Supply.free, Supply.expireConflicts_owned, Bool.and_eq_true, Option.isNone_iff_eq_none,
      Bool.not_eq_true', not_and, Bool.not_eq_false] at hfree
    cases howned : r.supply.owned row.key with
    | none => exact .inl (hfree howned)
    | some => exact .inr (.inl (howned ▸ rfl))

/-- The rows inside the bound of a traversal. -/
def Scan.eligible (scan : Scan) (src : Source) : ScanKind → List Candidate
  | .waiting => (src.waiting.filter (· ≤ scan.upperId)).map (Candidate.new · .zero)
  | .retry => (src.due scan.scanNow).map fun r => Candidate.new r.instanceId r

def ScanKind.lt : ScanKind → Candidate → Candidate → Prop
  | waiting, a, b => a.instanceId < b.instanceId
  | retry, a, b => a.retry.position < b.retry.position

def Scan.ahead (scan : Scan) : ScanKind → Candidate → Prop
  | .waiting, c => scan.cursor < c.instanceId
  | .retry, c => ∀ p, scan.retryCursor = some p → p < c.retry.position

/-- A page reaches a row ahead, or is full of rows before it. -/
theorem Scan.list_reaches (limit : ℕ) (hrow : row ∈ scan.eligible src kind)
    (hahead : scan.ahead kind row) : row ∈ scan.list limit src kind ∨
      limit ≤ (scan.list limit src kind).length ∧ ∀ c ∈ scan.list limit src kind, kind.lt c row := by
  cases kind with
  | waiting =>
    obtain ⟨i, hi, rfl⟩ := List.mem_map.mp hrow
    have hafter : i ∈ Paging.after id (some scan.cursor) (src.waiting.filter (· ≤ scan.upperId)) := by
      refine Paging.mem_after.mpr ⟨hi, ?_⟩
      rintro _ ⟨⟩
      exact hahead
    have hord : Paging.Ordered id (src.waiting.filter (· ≤ scan.upperId)) :=
      src.waiting_ordered.filter _
    rcases Paging.page_reaches limit hord hafter with hmem | ⟨hlen, hlt⟩
    · exact .inl (List.mem_map_of_mem hmem)
    · refine .inr ⟨hlen.trans_eq (List.length_map _).symm, fun c hc => ?_⟩
      obtain ⟨j, hj, rfl⟩ := List.mem_map.mp hc
      exact hlt j hj
  | retry =>
    obtain ⟨t, ht, rfl⟩ := List.mem_map.mp hrow
    have hafter : t ∈ Paging.after RetryCandidate.position scan.retryCursor (src.due scan.scanNow) :=
      Paging.mem_after.mpr ⟨ht, hahead⟩
    rcases Paging.page_reaches limit (src.due_ordered _) hafter with hmem | ⟨hlen, hlt⟩
    · exact .inl (List.mem_map_of_mem hmem)
    · refine .inr ⟨hlen.trans_eq (List.length_map _).symm, fun c hc => ?_⟩
      obtain ⟨j, hj, rfl⟩ := List.mem_map.mp hc
      exact hlt j hj

/-- The check of a page drops no row within the bound. -/
theorem Scan.check_reaches {result : Page} (h : scan.check limit page kind = .ok result)
    (hrow : row ∈ scan.eligible src kind)
    (hreach : row ∈ page ∨ limit ≤ page.length ∧ ∀ c ∈ page, kind.lt c row) :
    row ∈ result.1 ∨ result.2 = false ∧ ∀ c ∈ result.1, kind.lt c row := by
  rw [Scan.page_of_check h]
  refine hreach.imp_right fun ⟨hlen, hlt⟩ => ⟨?_, hlt⟩
  cases kind with
  | waiting =>
    obtain ⟨-, rfl⟩ := check_waiting h
    have hle : row.instanceId ≤ scan.upperId := by
      obtain ⟨i, hi, rfl⟩ := List.mem_map.mp hrow
      exact of_decide_eq_true (List.mem_filter.mp hi).2
    -- the last row is before the row, so it is not at the bound
    have hlast : (page.map (·.instanceId)).getLast? ≠ some scan.upperId := by
      intro hlast
      obtain ⟨c, hc, _⟩ := List.mem_map.mp (List.mem_of_getLast? hlast)
      have hbefore : c.instanceId < row.instanceId := hlt c hc
      omega
    simp only [Bool.or_eq_false_iff, decide_eq_false_iff_not, Nat.not_lt, List.length_map,
      beq_eq_false_iff_ne]
    exact ⟨hlen, hlast⟩
  | retry =>
    obtain ⟨-, rfl⟩ := check_retry h
    simp [hlen]

theorem Scan.ahead_advance (h : scan.ahead kind row) (hlt : ∀ c ∈ page, kind.lt c row) :
    (scan.advance kind page).ahead kind row := by
  unfold advance
  cases hlast : page.getLast? with
  | none => exact h
  | some c =>
    have hc := hlt c (List.mem_of_getLast? hlast)
    cases kind with
    | waiting => exact hc
    | retry =>
      rintro p ⟨⟩
      exact hc

/-! ## One traversal -/

def Scanner.Toward (kind : ScanKind) (row : Candidate) : Scanner → Prop
  | bounding k _ _ => k ≠ kind
  | listing k limit (some page) =>
    k = kind → row ∈ page ∨ limit ≤ page.length ∧ ∀ c ∈ page, kind.lt c row
  | returned k (.ok page) | settling k (.ok page) =>
    k = kind → row ∈ page.1 ∨ page.2 = false ∧ ∀ c ∈ page.1, kind.lt c row
  | _ => True

structure Scan.Within (bound scan : Scan) : Prop where
  upperId : scan.upperId = bound.upperId
  scanNow : scan.scanNow = bound.scanNow

theorem Scan.Within.unbounded (h : bound.Within scan) :
    scan.unbounded kind = bound.unbounded kind := by
  cases kind
  · simp [Scan.unbounded, h.upperId]
  · simp [Scan.unbounded, h.scanNow]

theorem Scan.Within.eligible (h : bound.Within scan) :
    scan.eligible src kind = bound.eligible src kind := by
  cases kind
  · simp [Scan.eligible, h.upperId]
  · simp [Scan.eligible, h.scanNow]

theorem Scan.Within.trans (h : bound.Within scan) (h' : scan.Within scan') : bound.Within scan' :=
  ⟨h'.upperId.trans h.upperId, h'.scanNow.trans h.scanNow⟩

theorem Scan.within_advance (scan : Scan) (page : List Candidate) :
    scan.Within (scan.advance kind page) := by
  unfold advance
  cases page.getLast? with
  | none => exact ⟨rfl, rfl⟩
  | some => cases kind <;> exact ⟨rfl, rfl⟩

/-- The scan is at the same place, with the same bound. -/
structure Scan.SamePlace (scan scan' : Scan) : Prop extends scan.Within scan' where
  cursor : scan'.cursor = scan.cursor
  retryCursor : scan'.retryCursor = scan.retryCursor

theorem Scan.SamePlace.ahead (h : scan.SamePlace scan') (ha : scan.ahead kind row) :
    scan'.ahead kind row := by
  cases kind
  · simp only [Scan.ahead, h.cursor] at ha ⊢
    exact ha
  · simp only [Scan.ahead, h.retryCursor] at ha ⊢
    exact ha

theorem Runtime.reserve_cases (r : Runtime) (cfg : RuntimeConfig) (s : Supply) (k : ScanKind) : ∃ scan limit,
    (r.scans k).SamePlace scan ∧ (r.reserve cfg s k).scans = update r.scans k scan ∧
    (r.reserve cfg s k).scanner =
      if scan.unbounded k then .bounding k limit none else .charging k limit := by
  refine ⟨_, _, ?_, rfl, rfl⟩
  unfold begin
  split <;> exact ⟨⟨rfl, rfl⟩, rfl, rfl⟩

structure Ahead (kind : ScanKind) (bound : Scan) (row : Candidate) (r : Runtime) : Prop where
  within : bound.Within (r.scans kind)
  ahead : (r.scans kind).ahead kind row
  page : r.scanner.Toward kind row

namespace Ahead

variable {bound : Scan}

variable (h : Ahead kind bound row r)
include h

theorem same (hscans : r'.scans kind = r.scans kind) (hpage : r'.scanner.Toward kind row) :
    Ahead kind bound row r' := by
  refine ⟨?_, ?_, hpage⟩ <;> rw [hscans]
  · exact h.within
  · exact h.ahead

theorem read (hrow : row ∈ bound.eligible r.source kind) (hr : Reading r scanner scans) :
    Ahead kind bound row { r with scanner, scans } := by
  have hpage := h.page
  cases hr with
  | sampledBound k _ _ _ hs =>
    rw [hs] at hpage
    exact h.same rfl hpage
  | noBound _ hs =>
    rw [hs] at hpage
    exact h.same rfl fun hk => absurd hk hpage
  | boundWaiting limit value hs | boundRetry limit value hs =>
    rw [hs] at hpage
    exact h.same (update_of_ne (Ne.symm hpage) _ _) trivial
  | sampledList k limit =>
    refine h.same rfl ?_
    rintro rfl
    rw [← h.within.eligible] at hrow
    exact Scan.list_reaches limit hrow h.ahead
  | listed k limit page hs =>
    rw [hs] at hpage
    refine h.same rfl ?_
    cases hcheck : (r.scans k).check limit page k with
    | error => trivial
    | ok =>
      rintro rfl
      rw [← h.within.eligible] at hrow
      exact Scan.check_reaches hcheck hrow (hpage rfl)
  | _ => exact h.same rfl trivial

theorem reserve (hbound : bound.unbounded kind = false) {s : Supply} (k : ScanKind) :
    Ahead kind bound row (r.reserve cfg s k) := by
  obtain ⟨_, _, hplace, hscans, hscanner⟩ := r.reserve_cases cfg s k
  by_cases hk : k = kind
  · subst hk
    have hwithin := h.within.trans hplace.toWithin
    refine ⟨?_, ?_, ?_⟩
    · rw [hscans, update_self]
      exact hwithin
    · rw [hscans, update_self]
      exact hplace.ahead h.ahead
    · rw [hscanner, if_neg (by rw [hwithin.unbounded, hbound]; decide)]
      trivial
  · refine h.same ?_ ?_
    · rw [hscans, update_of_ne (Ne.symm hk)]
    · rw [hscanner]
      split
      · exact hk
      · trivial

theorem enroll {page : Page} {s : Supply} (hs : r.scanner = .settling k (.ok page))
    (hstop : r.supply.stopping = false)
    (hadm : r.supply.admitPage cfg r.now random k (r.scans k).generation page.1 = (true, s))
    (hr' : r'.supply = s) (hscanner : r'.scanner = .ready)
    (hscans : r'.scans = update r.scans k
      (if page.2 then .reset (r.now + cfg.scanDelay random) else (r.scans k).advance k page.1)) :
    Ahead kind bound row r' ∨ Handles cfg kind row r r' := by
  by_cases hk : k = kind
  · subst hk
    have hpage := h.page
    rw [hs] at hpage
    rcases hpage rfl with hmem | ⟨hlast, hlt⟩
    · exact .inr ⟨page, hs, hmem, hscanner, handled_of_admitted (hr' ▸ hadm) hstop hmem⟩
    · rw [hlast, if_neg (by decide)] at hscans
      have hscan : r'.scans k = (r.scans k).advance k page.1 := by
        rw [hscans, update_self]
      refine .inl ⟨?_, ?_, ?_⟩
      · rw [hscan]
        exact h.within.trans (Scan.within_advance _ _)
      · rw [hscan]
        exact Scan.ahead_advance h.ahead hlt
      · rw [hscanner]
        trivial
  · refine .inl (h.same ?_ ?_)
    · rw [hscans, update_of_ne (Ne.symm hk)]
    · rw [hscanner]
      trivial

/-- A traversal stays on its way to a row that stays, up to the step that handles the row. -/
theorem step (hbound : bound.unbounded kind = false) (hrow : row ∈ bound.eligible r.source kind)
    (hc : Change cfg r r') : Ahead kind bound row r' ∨ Handles cfg kind row r r' := by
  have hpage := h.page
  cases hc with
  | started | rested | refused | charged | discarded => exact .inl (h.same rfl trivial)
  | read _ _ hr => exact .inl (h.read hrow hr)
  | reserved k => exact .inl (h.reserve hbound k)
  | paused k result _ hs =>
    rw [hs] at hpage
    refine .inl (h.same rfl ?_)
    cases result <;> exact hpage
  | released k e readyAt =>
    have hplace : (r.scans kind).SamePlace
        (update r.scans k { r.scans k with readyAt } kind) := by
      by_cases hk : kind = k
      · subst hk
        rw [update_self]
        exact ⟨⟨rfl, rfl⟩, rfl, rfl⟩
      · rw [update_of_ne hk]
        exact ⟨⟨rfl, rfl⟩, rfl, rfl⟩
    exact .inl ⟨h.within.trans hplace.toWithin, hplace.ahead h.ahead, trivial⟩
  | admitted k _ _ s hs hstop hadm => exact h.enroll hs hstop hadm rfl rfl rfl
  | _ =>
    exact .inl (h.same rfl hpage)

end Ahead

/-! ## The place of a scan -/

def Scanner.Fixed (unbounded : ScanKind → Bool) : Scanner → Prop
  | bounding k _ _ => unbounded k = true
  | charging k _ | listing k _ _ => unbounded k = false
  | returned k (.ok page) | settling k (.ok page) => unbounded k = false ∨ page = ([], true)
  | _ => True

structure Placed (r : Runtime) : Prop where
  start : ∀ k, (r.scans k).unbounded k = true → (r.scans k).cursor = 0 ∧ (r.scans k).retryCursor = none
  fixed : r.scanner.Fixed fun k => (r.scans k).unbounded k

namespace Placed

theorem same (h : Placed r) (hscans : r'.scans = r.scans)
    (hfixed : r'.scanner.Fixed fun k => (r.scans k).unbounded k) : Placed r' := by
  refine ⟨?_, ?_⟩ <;> rw [hscans]
  · exact h.start
  · exact hfixed

theorem update (h : Placed r) (hscans : r'.scans = update r.scans k scan)
    (hscan : scan.unbounded k = true → scan.cursor = 0 ∧ scan.retryCursor = none)
    (hfixed : r'.scanner.Fixed fun k => (r'.scans k).unbounded k) : Placed r' := by
  refine ⟨fun j => ?_, hfixed⟩
  rw [hscans]
  by_cases hj : j = k
  · subst hj
    rw [update_self]
    exact hscan
  · rw [update_of_ne hj]
    exact h.start j

theorem read (h : Placed r) (hr : Reading r scanner scans) : Placed { r with scanner, scans } := by
  have hfixed := h.fixed
  cases hr with
  | sampledBound _ _ _ _ hs | sampledList _ _ _ hs =>
    rw [hs] at hfixed
    exact h.same rfl hfixed
  | noBound => exact h.same rfl (.inr rfl)
  | boundWaiting =>
    refine h.update rfl (fun hu => ?_) ?_
    · simp only [Scan.unbounded, decide_eq_true_eq] at hu
      omega
    · simp only [Scanner.Fixed, update_self, Scan.unbounded, decide_eq_false_iff_not]
      omega
  | boundRetry _ _ _ hvalue =>
    refine h.update rfl (fun hu => ?_) ?_
    · simp only [Scan.unbounded, decide_eq_true_eq] at hu
      exact absurd hu hvalue
    · simp only [Scanner.Fixed, Scan.unbounded, decide_eq_false_iff_not]
      exact hvalue
  | listed k limit page hs =>
    rw [hs] at hfixed
    refine h.same rfl ?_
    cases (r.scans k).check limit page k with
    | error => trivial
    | ok => exact .inl hfixed
  | _ => exact h.same rfl trivial

end Placed

/-- In every run, a scan without a bound is at its start. -/
theorem placed (cfg : RuntimeConfig) : (runtime cfg).Invariant Placed := by
  refine invariant_of_change ⟨fun _ _ => ⟨rfl, rfl⟩, trivial⟩ fun {r r'} h hc => ?_
  have hfixed := h.fixed
  cases hc with
  | started | rested | refused | discarded => exact h.same rfl trivial
  | read _ _ hr => exact h.read hr
  | reserved k =>
    obtain ⟨_, _, hplace, hscans, hscanner⟩ := r.reserve_cases cfg (r.refreshed cfg) k
    refine h.update hscans (fun hu => ?_) ?_
    · rw [hplace.unbounded] at hu
      rw [hplace.cursor, hplace.retryCursor]
      exact h.start k hu
    · rw [hscanner, hscans]
      split
      · next hu => simpa [Scanner.Fixed] using hu
      · next hu => simpa [Scanner.Fixed] using hu
  | charged k _ hs =>
    rw [hs] at hfixed
    exact h.same rfl hfixed
  | paused k result _ hs =>
    rw [hs] at hfixed
    refine h.same rfl ?_
    cases result <;> exact hfixed
  | released k => exact h.update rfl (h.start k) trivial
  | admitted k _ _ s hs =>
    rw [hs] at hfixed
    refine h.update rfl ?_ trivial
    split
    · exact fun _ => ⟨rfl, rfl⟩
    · next hlast =>
      intro hu
      rw [(Scan.within_advance _ _).unbounded] at hu
      rcases hfixed with hbound | hpage
      · cases hu.symm.trans hbound
      · rw [hpage] at hlast
        exact absurd rfl hlast
  | _ =>
    exact h.same rfl hfixed

/-- How a scan moves: its bound is fixed, or a page is admitted. -/
inductive Moves (cfg : RuntimeConfig) (kind : ScanKind) (r r' : Runtime) : Prop where
  | stays (h : (r.scans kind).SamePlace (r'.scans kind))
  | bounds (limit : ℕ) (read : Option Int) (hs : r.scanner = .bounding kind limit read)
      (hunset : (r.scans kind).unbounded kind = true)
      (hset : (r'.scans kind).unbounded kind = false) (hcursor : (r'.scans kind).cursor = 0)
      (hretry : (r'.scans kind).retryCursor = none) (hscanner : r'.scanner = .charging kind limit)
  | admits (page : Page) (hs : r.scanner = .settling kind (.ok page)) (hscanner : r'.scanner = .ready)
      (hrows : ∀ row ∈ page.1, Handled cfg r r' row)
      (hscan : (page.2 = false ∧ r'.scans kind = (r.scans kind).advance kind page.1) ∨
        page.2 = true ∧ ∃ readyAt, r'.scans kind = .reset readyAt)

theorem Moves.of_update (hscans : r'.scans = update r.scans k scan)
    (hk : k = kind → Moves cfg kind r r') : Moves cfg kind r r' := by
  by_cases h : k = kind
  · exact hk h
  · refine .stays ?_
    rw [hscans, update_of_ne (Ne.symm h)]
    exact ⟨⟨rfl, rfl⟩, rfl, rfl⟩

theorem Reading.moves (h : Placed r) (hr : Reading r scanner scans) (kind : ScanKind) :
    Moves cfg kind r { r with scanner, scans } := by
  have hfixed := h.fixed
  cases hr with
  | boundWaiting limit _ hs =>
    rw [hs] at hfixed
    refine .of_update rfl ?_
    rintro rfl
    obtain ⟨hcursor, hretry⟩ := h.start _ hfixed
    refine .bounds limit _ hs hfixed ?_ ?_ ?_ rfl <;> simp only [update_self]
    · simp only [Scan.unbounded, decide_eq_false_iff_not]
      omega
    · exact hcursor
    · exact hretry
  | boundRetry limit _ hs hvalue =>
    rw [hs] at hfixed
    refine .of_update rfl ?_
    rintro rfl
    obtain ⟨hcursor, hretry⟩ := h.start _ hfixed
    refine .bounds limit _ hs hfixed ?_ ?_ ?_ rfl <;> simp only [update_self]
    · simpa only [Scan.unbounded, decide_eq_false_iff_not] using hvalue
    · exact hcursor
    · exact hretry
  | _ => exact .stays ⟨⟨rfl, rfl⟩, rfl, rfl⟩

/-- How each step moves each scan. -/
theorem Change.moves (h : Placed r) (hc : Change cfg r r') (kind : ScanKind) :
    Moves cfg kind r r' := by
  cases hc with
  | elsewhere | stopped | hinted | passed | idle | took | asked | registered | cleaned | finished
  | started | rested | refused | charged | paused | discarded => exact .stays ⟨⟨rfl, rfl⟩, rfl, rfl⟩
  | read _ _ hr => exact hr.moves h kind
  | reserved k =>
    obtain ⟨_, _, hplace, hscans, -⟩ := r.reserve_cases cfg (r.refreshed cfg) k
    refine .of_update hscans ?_
    rintro rfl
    refine .stays ?_
    rw [hscans, update_self]
    exact hplace
  | released =>
    refine .of_update rfl ?_
    rintro rfl
    refine .stays ?_
    simp only [update_self]
    exact ⟨⟨rfl, rfl⟩, rfl, rfl⟩
  | admitted k page _ s hs hstop hadm =>
    refine .of_update rfl ?_
    rintro rfl
    refine .admits page hs rfl (fun row hrow => handled_of_admitted hadm hstop hrow) ?_
    simp only [Runtime.goOn, update_self]
    cases page.2 with
    | false => exact .inl ⟨rfl, rfl⟩
    | true => exact .inr ⟨rfl, _, rfl⟩

/-! ## Every traversal -/

theorem Scan.pos_of_eligible (h : row ∈ scan.eligible src .waiting) : 0 < row.instanceId := by
  obtain ⟨i, hi, rfl⟩ := List.mem_map.mp h
  exact src.waiting_pos i (List.mem_filter.mp hi).1

theorem Moves.ahead (h : Moves cfg kind r r') (hunset : (r.scans kind).unbounded kind = true)
    (hset : (r'.scans kind).unbounded kind = false)
    (hrow : row ∈ (r'.scans kind).eligible src kind) : Ahead kind (r'.scans kind) row r' := by
  cases h with
  | stays h =>
    rw [h.unbounded, hunset] at hset
    cases hset
  | bounds _ _ _ _ _ hcursor hretry hscanner =>
    refine ⟨⟨rfl, rfl⟩, ?_, ?_⟩
    · cases kind with
      | waiting =>
        simp only [Scan.ahead, hcursor]
        exact Scan.pos_of_eligible hrow
      | retry =>
        simp only [Scan.ahead, hretry]
        nofun
    · rw [hscanner]
      trivial
  | admits _ _ _ _ hscan =>
    rcases hscan with ⟨-, hscan⟩ | ⟨-, readyAt, hscan⟩
    · rw [hscan, (Scan.within_advance _ _).unbounded, hunset] at hset
      cases hset
    · rw [hscan] at hset
      cases kind <;> cases hset

/-- A failed read leaves the scan where it was. -/
theorem Moves.samePlace {e : ScanError} (h : Moves cfg kind r r')
    (herror : r.scanner = .returned k (.error e) ∨ r.scanner = .settling k (.error e) ∨
      r'.scanner = .returned k (.error e)) : (r.scans kind).SamePlace (r'.scans kind) := by
  cases h with
  | stays h => exact h
  | bounds _ _ hs _ _ _ _ hscanner | admits _ hs hscanner =>
    rcases herror with herror | herror | herror
    · cases hs.symm.trans herror
    · cases hs.symm.trans herror
    · cases hscanner.symm.trans herror

/-- No traversal passes over a row that stays, and a scan moves only over rows that are handled. -/
theorem scan_covers {ms : List Move} (h : (runtime cfg).run ms = some r) (kind : ScanKind) :
    -- from the step that fixes the bound to a state after the end of the traversal
    (∀ m r₀ ms' r₁ row, (runtime cfg).step r m = some r₀ → (r.scans kind).unbounded kind = true →
      (r₀.scans kind).unbounded kind = false →
      (runtime cfg).Along (fun s _ _ => row ∈ (r₀.scans kind).eligible s.source kind) r₀ ms' r₁ →
      (r₁.scans kind).unbounded kind = true →
      ∃ t m t', (runtime cfg).StepIn r₀ ms' r₁ t m t' ∧ Handles cfg kind row t t') ∧
    -- a step, and a step of a page that fails or is refused
    ∀ m r', (runtime cfg).step r m = some r' → Moves cfg kind r r' ∧
      ∀ k e, r.scanner = .returned k (.error e) ∨ r.scanner = .settling k (.error e) ∨
        r'.scanner = .returned k (.error e) → (r.scans kind).SamePlace (r'.scans kind) := by
  have hplaced := (placed cfg).run h
  refine ⟨?_, fun m r' hm => ?_⟩
  rotate_left
  · have hmoves := (Change.of_step hm).moves hplaced kind
    exact ⟨hmoves, fun k e herror => hmoves.samePlace herror⟩
  intro m r₀ ms' r₁ row hm hunset hset halong hend
  have hrow : row ∈ (r₀.scans kind).eligible r₀.source kind := by
    cases halong with
    | nil =>
      cases hset.symm.trans hend
    | cons _ hok => exact hok
  have hahead := ((Change.of_step hm).moves hplaced kind).ahead hunset hset hrow
  have hkeep := halong.keeps_or (placed cfg)
    (fun s m s' _ hs hm hok => Ahead.step hs hset hok (.of_step hm)) ((placed cfg).step hplaced hm)
    hahead
  rcases hkeep with hahead | hdone
  · rw [hahead.within.unbounded, hset] at hend
    cases hend
  · exact hdone

def demoBefore : List Move :=
  [.change demoSource, .start, .scan 0, .sample 0, .answer .value, .scan 0, .scan 0, .scan 0, .sample 2]

def demoTraversal : List Move := [.scan 0, .sample 0, .answer .value, .scan 0, .scan 0]

def demoRow : Candidate :=
  .new 8 { taskId := 10, instanceId := 8, attemptNo := 1, nextDispatchAt := 1 }

theorem demo_traversal : ∃ r₀ r₁ t m t', (r₀.scans .retry).scanNow = 2 ∧
    (r₁.scans .retry).unbounded .retry = true ∧
    (runtime demoQueue).StepIn r₀ demoTraversal r₁ t m t' ∧ Handles demoQueue .retry demoRow t t' := by
  obtain ⟨r, hr, hunset, r₀, hm, hscan, r₁, hcheck, hend⟩ : ∃ r ∈ (runtime demoQueue).run demoBefore,
      (r.scans .retry).unbounded .retry = true ∧ ∃ r₀ ∈ (runtime demoQueue).step r (.answer .value),
        (r₀.scans .retry).scanNow = 2 ∧ ∃ r₁ ∈ Along.check (runtime demoQueue) (fun s _ _ =>
          decide (demoRow ∈ (r₀.scans .retry).eligible s.source .retry)) r₀ demoTraversal,
          (r₁.scans .retry).unbounded .retry = true := by decide +kernel
  have hset : (r₀.scans .retry).unbounded .retry = false := by simp [Scan.unbounded, hscan]
  obtain ⟨t, m, t', hstep, hdone⟩ := (scan_covers hr .retry).1 _ r₀ demoTraversal r₁ demoRow hm
    hunset hset (.of_check hcheck fun _ _ _ => of_decide_eq_true) hend
  exact ⟨r₀, r₁, t, m, t', hscan, hend, hstep, hdone⟩

end Dogx.Dispatch
