import Dogx.Dispatch.Supply
import Dogx.Machine.Run
import Dogx.Paging.Keyset

/-!
# The dispatch runtime

The scanner, the workers and the shared state as one machine. A move is one critical section of `mu`
with the code around it, or one end of a call of the database or the registrar. The readings of the
clock do not go back.

A query of the scanner reads at some moment while it runs (`sample`): the first rows of the eligible
set, in order, behind the cursor. The eligible sets change at any time. A query may also fail.
-/

namespace Dogx.Dispatch

/-! ## The database -/

/-- `RetryCursor`: the time and the task of a row, in the order of the query. -/
abbrev RetryCursor := ℕ ×ₗ Int

def RetryCandidate.position (r : RetryCandidate) : RetryCursor := toLex (r.nextDispatchAt, r.taskId)

structure Source where
  waiting : List Int
  /-- The tasks due for a retry, at a scan time. -/
  due : ℕ → List RetryCandidate
  waiting_pos : ∀ id ∈ waiting, 0 < id
  waiting_ordered : Paging.Ordered id waiting
  due_ordered : ∀ scanNow, Paging.Ordered RetryCandidate.position (due scanNow)

namespace Source

theorem nil_pos : ∀ id ∈ ([] : List Int), 0 < id := by simp

def empty : Source where
  waiting := []
  due := fun _ => []
  waiting_pos := nil_pos
  waiting_ordered := .nil
  due_ordered := fun _ => .nil

def maxWaitingID (src : Source) : Int := src.waiting.getLast?.getD 0

def listWaitingIDs (src : Source) (cursor upperId : Int) (limit : ℕ) : List Int :=
  Paging.page id (some cursor) limit (src.waiting.filter (· ≤ upperId))

def listRetryCandidates (src : Source) (scanNow : ℕ) (cursor : Option RetryCursor) (limit : ℕ) :
    List RetryCandidate :=
  Paging.page RetryCandidate.position cursor limit (src.due scanNow)

end Source

/-! ## Pages -/

/-- `candidateScan`. -/
structure Scan where
  upperId : Int
  cursor : Int
  scanNow : ℕ
  retryCursor : Option RetryCursor
  generation : ℕ
  readyAt : ℕ

def Scan.reset (readyAt : ℕ) : Scan :=
  { upperId := 0, cursor := 0, scanNow := 0, retryCursor := none, generation := 0, readyAt }

def validWaitingPage (upperId : Int) (limit : ℕ) (ids : List Int) (cursor : Int) : Bool :=
  ids.length ≤ limit && go ids cursor
where
  go : List Int → Int → Bool
    | [], _ => true
    | id :: ids, cursor => !(id ≤ cursor || upperId < id) && go ids id

def validRetryPage (scanNow limit : ℕ) (rows : List RetryCandidate) (cursor : Option RetryCursor) :
    Bool :=
  rows.length ≤ limit && go rows cursor
where
  go : List RetryCandidate → Option RetryCursor → Bool
    | [], _ => true
    | row :: rows, cursor =>
      !(row.taskId ≤ 0 || row.instanceId ≤ 0 || row.attemptNo ≤ 0 || row.nextDispatchAt == 0 ||
        scanNow < row.nextDispatchAt) &&
      cursor.all (fun c => decide (c < row.position)) && go rows (some row.position)

/-- A page, and whether it is the last one of its traversal. -/
abbrev Page := List Candidate × Bool

namespace Scan

variable (scan : Scan) (kind : ScanKind) (limit : ℕ)

/-- The bound of the traversal is still to be read. -/
def unbounded : ScanKind → Bool
  | .waiting => scan.upperId = 0
  | .retry => scan.scanNow = 0

/-- What the source answers for the list query, as the rows of a page. -/
def list (src : Source) : ScanKind → List Candidate
  | .waiting => (src.listWaitingIDs scan.cursor scan.upperId limit).map (Candidate.new · .zero)
  | .retry => (src.listRetryCandidates scan.scanNow scan.retryCursor limit).map fun r =>
      Candidate.new r.instanceId r

/-- The rest of `readPage` after the list query. -/
def check (page : List Candidate) : ScanKind → Except ScanError Page
  | .waiting =>
    let ids := page.map (·.instanceId)
    if validWaitingPage scan.upperId limit ids scan.cursor then
      .ok (page, ids.length < limit || ids.getLast? == some scan.upperId)
    else .error .failed
  | .retry =>
    let rows := page.map (·.retry)
    if validRetryPage scan.scanNow limit rows scan.retryCursor then .ok (page, rows.length < limit)
    else .error .failed

/-- The traversal has reached the last row of the page. -/
def advance (page : List Candidate) : Scan :=
  match page.getLast? with
  | none => scan
  | some last =>
    match kind with
    | .waiting => { scan with cursor := last.instanceId }
    | .retry => { scan with retryCursor := some last.retry.position }

end Scan

/-! ## The machine -/

inductive Scanner where
  | absent
  /-- At the head of the loop of `nextPage`. -/
  | ready
  /-- In `waitChange`. -/
  | asleep (changed wakeAt : ℕ)
  /-- `MaxWaitingID` or `DatabaseTime` runs, with what it has read. -/
  | bounding (kind : ScanKind) (limit : ℕ) (read : Option Int)
  | charging (kind : ScanKind) (limit : ℕ)
  /-- The list query runs, with what it has read. -/
  | listing (kind : ScanKind) (limit : ℕ) (read : Option (List Candidate))
  /-- `readPage` has returned. -/
  | returned (kind : ScanKind) (result : Except ScanError Page)
  /-- The budget has been looked after, the page is to be released or admitted. -/
  | settling (kind : ScanKind) (result : Except ScanError Page)
  | exited

inductive Worker where
  | absent
  /-- At the head of the loop of `take`. -/
  | ready
  | asleep (changed wakeAt : ℕ)
  /-- In `dispatch`, before the registrar is called. -/
  | dispatching (c : Candidate)
  /-- The registrar runs, for the candidate that `registrationCandidate` has returned. -/
  | registering (c own : Candidate)
  /-- After the registrar. -/
  | sending (c : Candidate)
  /-- `dispatch` has returned. -/
  | finishing (c : Candidate)
  | releasing (c : Candidate)
  | exited

def Worker.held : Worker → Option Candidate
  | dispatching c | registering c _ | sending c | finishing c | releasing c => some c
  | absent | ready | asleep _ _ | exited => none

structure Runtime where
  now : ℕ
  source : Source
  supply : Supply
  scans : ScanKind → Scan
  next : ScanKind
  scanner : Scanner
  workers : ℕ → Worker
  appended : List Candidate
  taken : List Candidate

inductive Answer where
  | value
  /-- The query fails, or its context has ended. -/
  | failure

inductive Move where
  | tick (d : ℕ)
  | change (source : Source)
  | start
  | stop
  | hint (id : Int)
  /-- The next critical section of the scanner. -/
  | scan (random : ℕ)
  /-- The query of the scanner reads; `time` is the clock of the database. -/
  | sample (time : ℕ)
  | answer (a : Answer)
  /-- The sleep of the scanner ends, by the end of its context if `done`. -/
  | wakeScanner (done : Bool)
  /-- The next critical section of worker `i`. -/
  | work (i : ℕ) (random : ℕ)
  | wakeWorker (i : ℕ) (done : Bool)
  /-- The dispatcher returns without a call of the registrar. -/
  | bypass (i : ℕ)
  /-- The registrar returns. -/
  | registered (i : ℕ) (r : Registration) (random : ℕ)
  /-- The dispatcher returns after the registrar. -/
  | sent (i : ℕ)

namespace Runtime

def init : Runtime where
  now := 0
  source := .empty
  supply := .init
  scans := fun _ => .reset 0
  next := .waiting
  scanner := .absent
  workers := fun _ => .absent
  appended := []
  taken := []

/-- When the scanner is to look again, if nothing happens before. -/
def wakeAt (now : ℕ) (scans : ScanKind → Scan) (s : Supply) (order : List ScanKind) : ℕ :=
  let t := order.foldl (fun t k =>
    if (scans k).readyAt ≤ now then t else earlier t (scans k).readyAt) 0
  let t := if s.pagesLeft = 0 then earlier t s.budgetResumeAt else t
  if s.conflictFull then earlier t s.conflictUntil else t

/-- The budget of pages after its pause. -/
def restoreBudget (now : ℕ) (s : Supply) : Supply :=
  if s.pagesLeft = 0 ∧ s.budgetResumeAt ≠ 0 ∧ s.budgetResumeAt ≤ now then
    { s with pagesLeft := dispatchPageBudget, budgetResumeAt := 0 }
  else s

def room (cfg : RuntimeConfig) (s : Supply) : Int :=
  min dispatchPageLimit (cfg.waitingCapacity - s.waiting)

/-- A scan in its traversal, which has a generation. -/
def begin (s : Supply) (kind : ScanKind) (scan : Scan) : Supply × Scan :=
  if scan.generation = 0 then
    let generation := s.scanGeneration kind + 1
    ({ s with scanGeneration := Function.update s.scanGeneration kind generation },
      { scan with generation })
  else (s, scan)

/-- A page of scan `kind` is reserved, `readPage` begins. -/
def reserve (r : Runtime) (cfg : RuntimeConfig) (s : Supply) (kind : ScanKind) : Runtime :=
  let reserved := room cfg s
  let b := begin { s with reserved, waiting := s.waiting + reserved } kind (r.scans kind)
  { r with
    supply := b.1, scans := Function.update r.scans kind b.2, next := kind.other
    scanner := if b.2.unbounded kind then .bounding kind reserved.toNat none
      else .charging kind reserved.toNat }

/-- One pass through the loop of `nextPage`. -/
def nextPage (r : Runtime) (cfg : RuntimeConfig) : Runtime :=
  if r.supply.stopping then { r with scanner := .exited }
  else
    let s := restoreBudget r.now (r.supply.expireConflicts cfg r.now)
    let order := [r.next, r.next.other]
    match order.find? fun k => decide ((r.scans k).readyAt ≤ r.now) with
    | some kind =>
      if 0 < s.pagesLeft ∧ s.conflictFull = false ∧ s.waiting < cfg.waitingCapacity then
        r.reserve cfg s kind
      else { r with supply := s, scanner := .asleep s.changed (wakeAt r.now r.scans s order) }
    | none => { r with supply := s, scanner := .asleep s.changed (wakeAt r.now r.scans s order) }

/-- The scanner goes on with a page that has been admitted. -/
def goOn (r : Runtime) (cfg : RuntimeConfig) (random : ℕ) (kind : ScanKind) (page : Page) : Runtime :=
  { r with
    scanner := .ready
    scans := Function.update r.scans kind
      (if page.2 then .reset (r.now + cfg.scanDelay random)
        else (r.scans kind).advance kind page.1) }

/-- The end of a page in `scan`. -/
def settle (r : Runtime) (cfg : RuntimeConfig) (random : ℕ) (kind : ScanKind) :
    Except ScanError Page → Runtime
  | .error e =>
    { r with
      supply := r.supply.releasePage, scanner := .ready
      scans := if e = .paused then r.scans
        else Function.update r.scans kind
          { r.scans kind with readyAt := r.now + cfg.scanDelay random } }
  | .ok page =>
    let a := r.supply.admitPage cfg r.now random kind (r.scans kind).generation page.1
    if a.1 then
      { r with
        supply := a.2
        appended := r.appended ++ a.2.pending.drop r.supply.pending.length }.goOn cfg random kind page
    else { r with supply := a.2, scanner := .exited }

def scan (r : Runtime) (cfg : RuntimeConfig) (random : ℕ) : Option Runtime :=
  match r.scanner with
  | .ready => some (r.nextPage cfg)
  | .charging kind limit =>
    let c := r.supply.chargePage cfg r.now
    some { r with
      supply := c.2
      scanner := match c.1 with
        | .ok () => .listing kind limit none
        | .error e => .returned kind (.error e) }
  | .returned kind result =>
    some { r with
      supply := r.supply.pauseBudget cfg r.now random, scanner := .settling kind result }
  | .settling kind result => some (r.settle cfg random kind result)
  | _ => none

def sample (r : Runtime) (time : ℕ) : Option Runtime :=
  match r.scanner with
  | .bounding kind limit _ =>
    let read := match kind with
      | .waiting => r.source.maxWaitingID
      | .retry => time
    some { r with scanner := .bounding kind limit (some read) }
  | .listing kind limit _ =>
    some { r with
      scanner := .listing kind limit (some ((r.scans kind).list limit r.source kind)) }
  | _ => none

def bound (r : Runtime) (kind : ScanKind) (limit : ℕ) (value : Int) : Runtime :=
  match kind with
  | .waiting =>
    if value < 0 then { r with scanner := .returned kind (.error .failed) }
    else if value = 0 then { r with scanner := .returned kind (.ok ([], true)) }
    else { r with
      scans := Function.update r.scans kind { r.scans kind with upperId := value }
      scanner := .charging kind limit }
  | .retry =>
    if value.toNat = 0 then { r with scanner := .returned kind (.error .failed) }
    else { r with
      scans := Function.update r.scans kind { r.scans kind with scanNow := value.toNat }
      scanner := .charging kind limit }

def answer (r : Runtime) (a : Answer) : Option Runtime :=
  match r.scanner, a with
  | .bounding kind limit (some value), .value =>
    -- the context of the queries ends with the supply
    if r.supply.stopping then none else some (r.bound kind limit value)
  | .bounding kind _ _, .failure => some { r with scanner := .returned kind (.error .failed) }
  | .listing kind limit (some page), .value =>
    if r.supply.stopping then none
    else some { r with scanner := .returned kind ((r.scans kind).check limit page kind) }
  | .listing kind _ _, .failure => some { r with scanner := .returned kind (.error .failed) }
  | _, _ => none

/-- A sleeper may go on: it has been notified, or its timer has run off. -/
def awake (r : Runtime) (changed wakeAt : ℕ) : Bool :=
  changed ≠ r.supply.changed || (wakeAt ≠ 0 && wakeAt ≤ r.now)

def setWorker (r : Runtime) (i : ℕ) (w : Worker) : Runtime :=
  { r with workers := Function.update r.workers i w }

/-- The ID under which the dispatcher asks for the registration. -/
def parent (c : Candidate) : Int := if c.retry.taskId = 0 then c.instanceId else c.retry.instanceId

def work (r : Runtime) (cfg : RuntimeConfig) (i random : ℕ) : Option Runtime :=
  match r.workers i with
  | .ready =>
    let t := r.supply.take cfg r.now
    match t.1 with
    | .stopped => some (r.setWorker i .exited)
    | .sleep wakeAt => some ({ r with supply := t.2 }.setWorker i (.asleep t.2.changed wakeAt))
    | .candidate c =>
      some ({ r with supply := t.2, taken := r.taken ++ [c] }.setWorker i (.dispatching c))
  | .dispatching c =>
    let own := r.supply.registrationCandidate cfg r.now (parent c)
    some ({ r with supply := own.2 }.setWorker i
      (match own.1 with
        | some own => .registering c own
        | none => .sending c))
  | .finishing c =>
    some ({ r with supply := r.supply.registrationFinished cfg r.now random c .other }.setWorker i
      (.releasing c))
  | .releasing c => some ({ r with supply := r.supply.finish c }.setWorker i .ready)
  | _ => none

def step (cfg : RuntimeConfig) (r : Runtime) : Move → Option Runtime
  | .tick d => some { r with now := r.now + d }
  | .change source => some { r with source }
  | .start =>
    if r.supply.started ∨ r.supply.stopping then none
    else some { r with
      supply := { r.supply with started := true }, scanner := .ready
      workers := fun i => if i < cfg.concurrency then .ready else .absent }
  | .stop => some { r with supply := r.supply.stop }
  | .hint id =>
    let s := (r.supply.hint cfg r.now id).2
    some { r with
      supply := s, appended := r.appended ++ s.pending.drop r.supply.pending.length }
  | .scan random => r.scan cfg random
  | .sample time => r.sample time
  | .answer a => r.answer a
  | .wakeScanner done =>
    match r.scanner with
    | .asleep changed wakeAt =>
      if done then if r.supply.stopping then some { r with scanner := .exited } else none
      else if r.awake changed wakeAt then some { r with scanner := .ready } else none
    | _ => none
  | .work i random => r.work cfg i random
  | .wakeWorker i done =>
    match r.workers i with
    | .asleep changed wakeAt =>
      if done then if r.supply.stopping then some (r.setWorker i .exited) else none
      else if r.awake changed wakeAt then some (r.setWorker i .ready) else none
    | _ => none
  | .bypass i =>
    match r.workers i with
    | .dispatching c => some (r.setWorker i (.finishing c))
    | _ => none
  | .registered i result random =>
    match r.workers i with
    | .registering c own =>
      some ({ r with
        supply := r.supply.registrationFinished cfg r.now random own result }.setWorker i (.sending c))
    | _ => none
  | .sent i =>
    match r.workers i with
    | .sending c => some (r.setWorker i (.finishing c))
    | _ => none

end Runtime

def runtime (cfg : RuntimeConfig) : Machine Runtime Move :=
  { init := Runtime.init, step := Runtime.step cfg }

end Dogx.Dispatch
