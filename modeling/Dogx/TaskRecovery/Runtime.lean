import Dogx.Job.Result
import Dogx.Paging.Traversal

/-!
# Discovery of unbound tasks

`Runtime` of package `taskrecovery`: run after run of `scan` over one `traversal`. A page of candidates
is settled in batches, and the cursor moves by what each batch has processed. A failed query, a failed
batch or the end of the run's budget ends the run and keeps the traversal.

A query reads at some moment while it runs; tasks and instances may change between any two steps. What
a batch returns is an input. `processed` lists the candidates of the traversal that were processed.
-/

namespace Dogx.TaskRecovery

open Job (UnboundCandidate UnboundTarget)
open Job.Settler (maxBatchSize)

/-- `Config`, as `NewRuntime` accepts it, without the interval and the timeouts. -/
structure Config where
  pageSize : ℕ
  observationPeriod : ℕ
  pageSize_pos : 0 < pageSize
  observationPeriod_pos : 0 < observationPeriod

/-- `repository.UnboundCursor`. -/
structure UnboundCursor where
  attemptRegisteredAt : ℕ
  taskId : ℕ
  deriving DecidableEq

def UnboundCursor.place (c : UnboundCursor) : ℕ ×ₗ ℕ := toLex (c.attemptRegisteredAt, c.taskId)

def cursorOf (c : UnboundCandidate) : UnboundCursor :=
  { attemptRegisteredAt := c.attemptRegisteredAt, taskId := c.taskId }

/-- Candidates are read in the order of their registration. -/
def place (c : UnboundCandidate) : ℕ ×ₗ ℕ := (cursorOf c).place

structure Traversal where
  scanNow : ℤ
  cutoff : ℤ
  cursor : Option UnboundCursor

def Traversal.zero : Traversal := { scanNow := 0, cutoff := 0, cursor := none }

/-! ## The query -/

def candidateOf (t : UnboundTarget) : UnboundCandidate :=
  { taskId := t.taskId, instanceId := t.instanceId, attemptNo := t.attemptNo
    attemptRegisteredAt := t.attemptRegisteredAt.getD 0 }

/-- The conditions of the query without its cursor. -/
def unbound (scanNow cutoff : ℤ) (t : UnboundTarget) : Bool :=
  t.status = .running && t.executorInstanceId.isNone && t.executorAddress.isNone &&
    (t.attemptRegisteredAt.any fun registeredAt => registeredAt ≤ cutoff) &&
    t.instanceStatus = .running &&
    t.startedAt.any fun startedAt => t.deadlineAt.any fun deadlineAt =>
      startedAt < deadlineAt && scanNow < deadlineAt

/-- The tasks joined with their instances, in the order of the query. -/
structure Source where
  rows : List UnboundTarget
  ordered : Paging.Ordered (fun t => place (candidateOf t)) rows

namespace Source

def empty : Source := { rows := [], ordered := .nil }

def eligible (src : Source) (scanNow cutoff : ℤ) : List UnboundCandidate :=
  (src.rows.filter (unbound scanNow cutoff)).map candidateOf

/-- `ListUnboundCandidates`; `none` for bounds it does not accept. -/
def listUnboundCandidates (src : Source) (t : Traversal) (limit : ℕ) : Option (List UnboundCandidate) :=
  if t.scanNow = 0 ∨ t.cutoff = 0 ∨ ¬ t.cutoff < t.scanNow ∨ limit = 0 ∨
      t.cursor.any fun c =>
        c.taskId == 0 || c.attemptRegisteredAt == 0 || decide (t.cutoff < c.attemptRegisteredAt) then
    none
  else
    some (Paging.page place (t.cursor.map UnboundCursor.place) limit (src.eligible t.scanNow t.cutoff))

end Source

def validUnboundPage (page : List UnboundCandidate) (t : Traversal) (limit : ℕ) : Bool :=
  page.length ≤ limit && go page t.cursor
where
  go : List UnboundCandidate → Option UnboundCursor → Bool
    | [], _ => true
    | c :: cs, cursor =>
      !(c.taskId == 0 || c.instanceId == 0 || decide (c.attemptNo ≤ 0) || c.attemptRegisteredAt == 0 ||
        decide (t.cutoff < c.attemptRegisteredAt)) &&
      !(cursor.any fun p => c.attemptRegisteredAt < p.attemptRegisteredAt ||
        (c.attemptRegisteredAt == p.attemptRegisteredAt && c.taskId ≤ p.taskId)) &&
      go cs (some (cursorOf c))

/-! ## The machine -/

structure BatchResult where
  processed : ℤ
  applied : ℤ
  deriving DecidableEq

/-- The result of a batch of `n` candidates is one that `scan` accepts; `ok` if there is no error. -/
def BatchResult.valid (result : BatchResult) (ok : Bool) (n : ℕ) : Bool :=
  !(result.processed < 0 || n < result.processed || result.applied < 0 ||
    result.processed < result.applied || (ok && result.processed ≠ n))

inductive Phase where
  | idle
  /-- `DatabaseTime` runs, with what it has read. -/
  | timing (read : Option ℤ)
  /-- `ListUnboundCandidates` runs, with what it has read. -/
  | listing (read : Option (List UnboundCandidate))
  /-- `SettleBatch` runs for the first of the candidates left of the page; `full` if the page was. -/
  | settling (full : Bool) (left : List UnboundCandidate)

structure Runtime where
  source : Source
  traversal : Traversal
  phase : Phase
  processed : List UnboundCandidate

inductive Move where
  | change (source : Source)
  | run
  /-- The query reads; `now` is the clock of the database. -/
  | sample (now : ℤ)
  | answer (ok : Bool)
  /-- The run's budget is used up before the next batch. -/
  | expire
  | settled (result : BatchResult) (ok : Bool)

namespace Runtime

def init : Runtime := { source := .empty, traversal := .zero, phase := .idle, processed := [] }

def reset (r : Runtime) : Runtime := { r with traversal := .zero, phase := .idle, processed := [] }

/-- `scan` after the clock has been read. -/
def receiveTime (r : Runtime) (cfg : Config) (now : ℤ) : Runtime :=
  let cutoff := now - cfg.observationPeriod
  if now = 0 ∨ cutoff = 0 then { r with phase := .idle }
  else { r with traversal := { r.traversal with scanNow := now, cutoff }, phase := .listing none }

/-- `scan` before a batch, or at the end of a page. -/
def next (r : Runtime) (full : Bool) (left : List UnboundCandidate) : Runtime :=
  match left with
  | [] => if full then { r with phase := .listing none } else r.reset
  | _ => { r with phase := .settling full left }

/-- `scan` after a page has been read. -/
def receivePage (r : Runtime) (cfg : Config) (page : List UnboundCandidate) : Runtime :=
  if !validUnboundPage page r.traversal cfg.pageSize then { r with phase := .idle }
  else r.next (cfg.pageSize ≤ page.length) page

/-- The first candidates of the page have been processed. -/
def advance (r : Runtime) (done : List UnboundCandidate) : Runtime :=
  { r with
    traversal := { r.traversal with cursor := (done.getLast?.map cursorOf).or r.traversal.cursor }
    processed := r.processed ++ done }

/-- `scan` after a batch. -/
def receiveBatch (r : Runtime) (full : Bool) (left : List UnboundCandidate) (result : BatchResult)
    (ok : Bool) : Runtime :=
  let batch := left.take maxBatchSize
  if !result.valid ok batch.length then { r with phase := .idle }
  else
    let count := result.processed.toNat
    let r := r.advance (batch.take count)
    if !ok then { r with phase := .idle } else r.next full (left.drop count)

def step (cfg : Config) (r : Runtime) : Move → Option Runtime
  | .change source => some { r with source }
  | .run =>
    match r.phase with
    | .idle =>
      let phase := if r.traversal.scanNow = 0 then .timing none else .listing none
      some { r with phase }
    | _ => none
  | .sample now =>
    match r.phase with
    | .timing _ => some { r with phase := .timing (some now) }
    | .listing _ =>
      some { r with phase := .listing (r.source.listUnboundCandidates r.traversal cfg.pageSize) }
    | _ => none
  | .answer ok =>
    match r.phase, ok with
    | .timing (some now), true => some (r.receiveTime cfg now)
    | .listing (some page), true => some (r.receivePage cfg page)
    | .timing _, false | .listing _, false => some { r with phase := .idle }
    | _, _ => none
  | .expire =>
    match r.phase with
    | .settling _ _ => some { r with phase := .idle }
    | _ => none
  | .settled result ok =>
    match r.phase with
    | .settling full left => some (r.receiveBatch full left result ok)
    | _ => none

end Runtime

def recovery (cfg : Config) : Machine Runtime Move :=
  { init := Runtime.init, step := Runtime.step cfg }

end Dogx.TaskRecovery
