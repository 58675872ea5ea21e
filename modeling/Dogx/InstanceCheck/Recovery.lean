import Dogx.InstanceCheck.Queue
import Dogx.Paging.Traversal

/-!
# Discovery of running instances

`Recovery` of package `instancecheck`: one `Run`, which is pass after pass of `scan` over one
`position`, beside the check queue it admits to.

A query reads at some moment while it runs (`sample`). Between any two steps of the discovery the
running instances may change and the queue may take any step of its own. A failed query, the end of
the pass's budget and a closed queue end the pass. `accepted` lists the candidates of the traversal
whose hints were accepted, in order.
-/

namespace Dogx.InstanceCheck

/-- `RecoveryConfig`, as `NewRecovery` accepts it, without the timeouts, and the queue's settings. -/
structure RecoveryConfig where
  queue : Config
  pageSize : ℕ
  minAge : ℤ
  pageSize_pos : 0 < pageSize
  minAge_pos : 0 < minAge

/-- `repository.RunningCandidate`. -/
structure RunningCandidate where
  id : ℤ
  startedAt : ℤ
  deriving DecidableEq

def RunningCandidate.place (c : RunningCandidate) : ℤ ×ₗ ℤ := toLex (c.startedAt, c.id)

structure RunningPosition where
  eligibleBefore : ℤ
  after : Option RunningCandidate
  deriving DecidableEq

def RunningPosition.zero : RunningPosition := { eligibleBefore := 0, after := none }

/-- The running instances, in the order of the query. -/
structure Source where
  running : List RunningCandidate
  ordered : Paging.Ordered RunningCandidate.place running

namespace Source

def empty : Source := { running := [], ordered := .nil }

/-- The rows of the query: running instances that started before the bound. -/
def eligible (src : Source) (eligibleBefore : ℤ) : List RunningCandidate :=
  src.running.filter (·.startedAt < eligibleBefore)

/-- `ListRunningCandidates`; `none` for bounds it does not accept. -/
def listRunningCandidates (src : Source) (eligibleBefore : ℤ) (after : Option RunningCandidate)
    (limit : ℕ) : Option (List RunningCandidate) :=
  if eligibleBefore = 0 ∨ limit = 0 ∨
      after.any fun c => c.id ≤ 0 || c.startedAt == 0 || !decide (c.startedAt < eligibleBefore) then
    none
  else some (Paging.page RunningCandidate.place (after.map (·.place)) limit (src.eligible eligibleBefore))

end Source

def validRunningCandidates (candidates : List RunningCandidate) (position : RunningPosition)
    (limit : ℕ) : Bool :=
  candidates.length ≤ limit && go candidates position.after
where
  go : List RunningCandidate → Option RunningCandidate → Bool
    | [], _ => true
    | c :: cs, previous =>
      !(c.id ≤ 0 || c.startedAt == 0 || !decide (c.startedAt < position.eligibleBefore)) &&
      !(previous.any fun p => c.startedAt < p.startedAt || (c.startedAt == p.startedAt && c.id ≤ p.id)) &&
      go cs (some c)

/-! ## The machine -/

inductive Phase where
  /-- Between two passes. -/
  | idle
  /-- In `WaitRecoveryCapacity`. -/
  | waiting
  /-- `DatabaseTime` runs, with what it has read. -/
  | bounding (read : Option ℤ)
  /-- `ListRunningCandidates` runs, with what it has read. -/
  | listing (read : Option (List RunningCandidate))
  /-- In `HintRecovery` for the first of the candidates. -/
  | handing (candidates : List RunningCandidate)

structure Recovery where
  source : Source
  queue : Queue
  position : RunningPosition
  phase : Phase
  accepted : List RunningCandidate

inductive Move where
  | change (source : Source)
  | queue (m : QueueMove)
  | pass
  | capacity (now : ℤ) (expired : Bool)
  /-- The query reads; `now` is the clock of the database. -/
  | sample (now : ℤ)
  | answer (ok : Bool)
  | hint (now : ℤ) (expired : Bool)

namespace Recovery

def init : Recovery :=
  { source := .empty, queue := .init, position := .zero, phase := .idle, accepted := [] }

/-- `scan` after a page has been read. -/
def receive (r : Recovery) (cfg : RecoveryConfig) (candidates : List RunningCandidate) : Recovery :=
  if validRunningCandidates candidates r.position cfg.pageSize then
    match candidates with
    | [] => { r with position := .zero, accepted := [], phase := .idle }
    | _ => { r with phase := .handing candidates }
  else { r with phase := .idle }

/-- The candidate has been admitted to the queue `q`, or merged. -/
def accept (r : Recovery) (q : Queue) (c : RunningCandidate) (rest : List RunningCandidate) :
    Recovery :=
  { r with
    queue := q
    position := { r.position with after := some c }
    accepted := r.accepted ++ [c]
    phase := if rest.isEmpty then .waiting else .handing rest }

def step (cfg : RecoveryConfig) (r : Recovery) : Move → Option Recovery
  | .change source => some { r with source }
  | .queue m => (r.queue.step cfg.queue m).map fun queue => { r with queue }
  | .pass =>
    match r.phase with
    | .idle => some { r with phase := .waiting }
    | _ => none
  | .capacity now expired =>
    match r.phase, r.queue.waitRecoveryCapacity cfg.queue now expired with
    | .waiting, .failed => some { r with phase := .idle }
    | .waiting, .done queue =>
      let phase := if r.position.eligibleBefore = 0 then .bounding none else .listing none
      some { r with queue, phase }
    | _, _ => none
  | .sample now =>
    match r.phase with
    | .bounding _ => some { r with phase := .bounding (some now) }
    | .listing _ =>
      some { r with
        phase := .listing (r.source.listRunningCandidates r.position.eligibleBefore r.position.after
          cfg.pageSize) }
    | _ => none
  | .answer ok =>
    match r.phase, ok with
    | .bounding (some now), true =>
      some (if now = 0 then { r with phase := .idle }
        else { r with
          position := { r.position with eligibleBefore := now - cfg.minAge }, phase := .listing none })
    | .listing (some candidates), true => some (r.receive cfg candidates)
    | .bounding _, false | .listing _, false => some { r with phase := .idle }
    | _, _ => none
  | .hint now expired =>
    match r.phase with
    | .handing (c :: rest) =>
      match r.queue.hintRecovery cfg.queue now expired c.id with
      | .failed => some { r with phase := .idle }
      | .done queue => some (r.accept queue c rest)
      | .full => none
    | _ => none

end Recovery

def recovery (cfg : RecoveryConfig) : Machine Recovery Move :=
  { init := Recovery.init, step := Recovery.step cfg }

end Dogx.InstanceCheck
