import Dogx.InstanceStop.Queue
import Dogx.Paging.Traversal

/-!
# Discovery of stopping instances

`Recovery` of package `instancestop`, pass after pass of `scan` over one `position`, as for running
instances. `accepted` lists the instances of the traversal whose hints were accepted, in order.
-/

namespace Dogx.InstanceStop

/-- `RecoveryConfig`, as `NewRecovery` accepts it, without the timeouts, and the queue's settings. -/
structure RecoveryConfig where
  queue : Config
  pageSize : ℕ
  pageSize_pos : 0 < pageSize

structure StoppingPosition where
  upper : ℤ
  after : ℤ
  deriving DecidableEq

def StoppingPosition.zero : StoppingPosition := { upper := 0, after := 0 }

/-- Instances are read in the order of their IDs. -/
abbrev place (id : ℤ) : ℤ := id

/-- The IDs of the stopping instances, in order. -/
structure Source where
  stopping : List ℤ
  ordered : Paging.Ordered place stopping
  positive : ∀ id ∈ stopping, 0 < id

namespace Source

def empty : Source := { stopping := [], ordered := .nil, positive := nofun }

def stoppingUpperId (src : Source) : ℤ := src.stopping.getLast?.getD 0

/-- The rows of the query without its cursor. -/
def eligible (src : Source) (upper : ℤ) : List ℤ := src.stopping.filter (· ≤ upper)

/-- `ListStoppingCandidates`; `none` for bounds it does not accept. -/
def listStoppingCandidates (src : Source) (after upper : ℤ) (limit : ℕ) : Option (List ℤ) :=
  if after < 0 ∨ upper ≤ 0 ∨ upper < after ∨ limit = 0 then none
  else some (Paging.page place (some after) limit (src.eligible upper))

end Source

def validOrderedIds (ids : List ℤ) (limit : ℕ) : Bool := ids.length ≤ limit && go ids 0
where
  go : List ℤ → ℤ → Bool
    | [], _ => true
    | id :: ids, previous => previous < id && go ids id

/-! ## The machine -/

inductive Phase where
  | idle
  /-- `StoppingUpperID` runs, with what it has read. -/
  | bounding (read : Option ℤ)
  /-- `ListStoppingCandidates` runs, with what it has read. -/
  | listing (read : Option (List ℤ))
  /-- Before the hint of the first of the candidates. -/
  | handing (ids : List ℤ)

structure Recovery where
  source : Source
  queue : Queue
  position : StoppingPosition
  phase : Phase
  accepted : List ℤ

inductive Move where
  | change (source : Source)
  | queue (m : QueueMove)
  | pass
  | sample
  | answer (ok : Bool)
  /-- The next candidate is hinted, unless the budget of the pass is `expired`. -/
  | hint (expired : Bool)

namespace Recovery

def init : Recovery :=
  { source := .empty, queue := .init, position := .zero, phase := .idle, accepted := [] }

/-- The traversal is over. -/
def reset (r : Recovery) : Recovery := { r with position := .zero, accepted := [], phase := .idle }

/-- `scan` after the upper bound has been read. -/
def receiveUpper (r : Recovery) (upper : ℤ) : Recovery :=
  if upper ≤ 0 then { r with phase := .idle }
  else { r with position := { r.position with upper }, phase := .listing none }

/-- `scan` after a page has been read. -/
def receive (r : Recovery) (cfg : RecoveryConfig) (ids : List ℤ) : Recovery :=
  if !validOrderedIds ids cfg.pageSize || ids.head?.any (· ≤ r.position.after) ||
      ids.getLast?.any (r.position.upper < ·) then { r with phase := .idle }
  else
    match ids with
    | [] => r.reset
    | _ => { r with phase := .handing ids }

/-- The instance has been admitted to the queue `q`, or merged. -/
def accept (r : Recovery) (q : Queue) (id : ℤ) (rest : List ℤ) : Recovery :=
  let r := { r with
    queue := q
    position := { r.position with after := id }
    accepted := r.accepted ++ [id] }
  match rest with
  | [] => if r.position.after = r.position.upper then r.reset else { r with phase := .listing none }
  | _ => { r with phase := .handing rest }

def step (cfg : RecoveryConfig) (r : Recovery) : Move → Option Recovery
  | .change source => some { r with source }
  | .queue m => (r.queue.step cfg.queue m).map fun queue => { r with queue }
  | .pass =>
    match r.phase with
    | .idle =>
      let phase := if r.position.upper = 0 then .bounding none else .listing none
      some { r with phase }
    | _ => none
  | .sample =>
    match r.phase with
    | .bounding _ => some { r with phase := .bounding (some r.source.stoppingUpperId) }
    | .listing _ =>
      some { r with
        phase := .listing (r.source.listStoppingCandidates r.position.after r.position.upper
          cfg.pageSize) }
    | _ => none
  | .answer ok =>
    match r.phase, ok with
    | .bounding (some upper), true => some (r.receiveUpper upper)
    | .listing (some ids), true => some (r.receive cfg ids)
    | .bounding _, false | .listing _, false => some { r with phase := .idle }
    | _, _ => none
  | .hint expired =>
    match r.phase with
    | .handing (id :: rest) =>
      if expired then some { r with phase := .idle }
      else
        match r.queue.hint cfg.queue id with
        | (true, queue) => some (r.accept queue id rest)
        | (false, queue) => some { r with queue, phase := .idle }
    | _ => none

end Recovery

def recovery (cfg : RecoveryConfig) : Machine Recovery Move :=
  { init := Recovery.init, step := Recovery.step cfg }

end Dogx.InstanceStop
