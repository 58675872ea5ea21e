import Dogx.Queue.Owners
import Dogx.Queue.Rounds

/-!
# The shared state of the dispatch runtime

`Runtime` of package `dispatch`: what stands under `mu`, with one function for every critical
section. Times are nanoseconds and 0 is Go's zero time, which the code uses for "no deadline".
A random number is an argument: `scanDelay` and the start of a rotation are taken from it as
`rand.Int64N` and `rand.IntN` would.

`changed` counts `notifyLocked`, which closes the channel a sleeper holds and makes a new one.
-/

namespace Dogx.Dispatch

def dispatchPageLimit : ℕ := 128
def dispatchPageBudget : ℕ := 4
def dispatchParentShare : ℕ := 8

/-- `RuntimeConfig`, as `NewRuntime` accepts it. The timeouts of queries and sends are not read here. -/
structure RuntimeConfig where
  concurrency : ℕ
  waitingCapacity : ℕ
  scanInterval : ℕ
  concurrency_pos : 0 < concurrency
  waitingCapacity_pos : 0 < waitingCapacity
  scanInterval_pos : 0 < scanInterval

namespace RuntimeConfig

def scanDelay (cfg : RuntimeConfig) (random : ℕ) : ℕ :=
  cfg.scanInterval - cfg.scanInterval / 5 + random % (cfg.scanInterval / 5 * 2 + 1)

theorem scanDelay_pos (cfg : RuntimeConfig) (random : ℕ) : 0 < cfg.scanDelay random := by
  have := cfg.scanInterval_pos
  unfold scanDelay
  omega

end RuntimeConfig

/-- The earlier of two times, of which the zero time is none. -/
def earlier (a b : ℕ) : ℕ := if a = 0 ∨ b < a then b else a

/-! ## Candidates -/

inductive ScanKind where
  | waiting | retry
  deriving DecidableEq

def ScanKind.other : ScanKind → ScanKind
  | waiting => retry
  | retry => waiting

/-- `repository.RetryCandidate`; the zero value is no retry. -/
structure RetryCandidate where
  taskId : Int
  instanceId : Int
  attemptNo : Int
  nextDispatchAt : ℕ
  deriving DecidableEq

def RetryCandidate.zero : RetryCandidate :=
  { taskId := 0, instanceId := 0, attemptNo := 0, nextDispatchAt := 0 }

structure CandidateKey where
  instanceId : Int
  taskId : Int
  attemptNo : Int
  deriving DecidableEq

/-- `waitingCandidate`. -/
structure Candidate where
  sequence : ℕ
  instanceId : Int
  retry : RetryCandidate
  scanKind : ScanKind
  scanGeneration : ℕ
  deriving DecidableEq

namespace Candidate

/-- A candidate of a page or a hint, before it is admitted. -/
def new (instanceId : Int) (retry : RetryCandidate) : Candidate :=
  { sequence := 0, instanceId, retry, scanKind := .waiting, scanGeneration := 0 }

def key (c : Candidate) : CandidateKey :=
  if c.retry.taskId ≠ 0 then
    { instanceId := 0, taskId := c.retry.taskId, attemptNo := c.retry.attemptNo }
  else { instanceId := c.instanceId, taskId := 0, attemptNo := 0 }

end Candidate

/-! ## State -/

inductive ScanError where
  /-- `errScanPaused`. -/
  | paused
  | failed
  deriving DecidableEq

/-- What a worker gets from one pass through the loop of `take`. -/
inductive Taken where
  | stopped
  | candidate (c : Candidate)
  | sleep (wakeAt : ℕ)

inductive Registration where
  /-- A new attempt is committed. -/
  | confirmed
  /-- `repository.ErrInstanceLocked`. -/
  | locked
  | other
  deriving DecidableEq

structure Supply where
  started : Bool
  stopping : Bool
  waiting : Int
  reserved : Int
  pending : List Candidate
  owned : CandidateKey → Option ℕ
  registering : Int → Option Candidate
  lastParent : Int
  parentShare : ℕ
  changed : ℕ
  sequence : ℕ
  scanGeneration : ScanKind → ℕ
  pagesLeft : Int
  budgetResumeAt : ℕ
  /-- The parents with their deadlines, each parent once. -/
  conflicted : List (Int × ℕ)
  conflictUntil : ℕ
  conflictFull : Bool

namespace Supply

def init : Supply where
  started := false
  stopping := false
  waiting := 0
  reserved := 0
  pending := []
  owned := fun _ => none
  registering := fun _ => none
  lastParent := 0
  parentShare := 0
  changed := 0
  sequence := 0
  scanGeneration := fun _ => 0
  pagesLeft := dispatchPageBudget
  budgetResumeAt := 0
  conflicted := []
  conflictUntil := 0
  conflictFull := false

def notify (s : Supply) : Supply := { s with changed := s.changed + 1 }

def conflict (s : Supply) (id : Int) : Option ℕ := s.conflicted.lookup id

def blocked (s : Supply) (id : Int) : Bool := (s.conflict id).isSome

/-! ## Conflicts -/

/-- `expireConflictsLocked`. -/
def expireConflicts (cfg : RuntimeConfig) (now : ℕ) (s : Supply) : Supply :=
  if s.conflictUntil ≠ 0 ∧ s.conflictUntil ≤ now then
    let conflicted := s.conflicted.filter fun e => now < e.2
    { s with
      conflicted
      conflictUntil := conflicted.foldl (fun (t : ℕ) (e : Int × ℕ) => earlier t e.2) 0
      conflictFull := cfg.waitingCapacity ≤ conflicted.length }.notify
  else s

/-- The part of `blockParentLocked` that records the conflict. -/
def recordConflict (cfg : RuntimeConfig) (now random : ℕ) (id : Int) (s : Supply) : Supply :=
  if s.blocked id then s
  else
    let deadline := now + cfg.scanDelay random
    { s with
      conflicted := (id, deadline) :: s.conflicted
      conflictUntil := earlier s.conflictUntil deadline }

/-- `blockParentLocked`: the waiting candidates of the parent are dropped. -/
def blockParent (cfg : RuntimeConfig) (now random : ℕ) (id : Int) (s : Supply) : Supply :=
  let s := (s.expireConflicts cfg now).recordConflict cfg now random id
  let dropped := s.pending.filter (·.instanceId = id)
  { s with
    conflictFull := cfg.waitingCapacity ≤ s.conflicted.length
    owned := Queue.disown Candidate.key s.owned dropped
    waiting := s.waiting - dropped.length
    pending := s.pending.filter (·.instanceId ≠ id) }

/-! ## Hints and shutdown -/

/-- `Hint`, with its answer. -/
def hint (cfg : RuntimeConfig) (now : ℕ) (id : Int) (s : Supply) : Bool × Supply :=
  if id ≤ 0 ∨ !s.started ∨ s.stopping then (false, s)
  else
    let s := s.expireConflicts cfg now
    let c := { Candidate.new id .zero with sequence := s.sequence + 1 }
    if (s.owned c.key).isSome then (true, s)
    else if s.blocked id then (false, s)
    else if s.waiting = cfg.waitingCapacity then (false, s)
    else (true,
      { s with
        sequence := s.sequence + 1
        pending := s.pending ++ [c]
        owned := Function.update s.owned c.key (some c.sequence)
        waiting := s.waiting + 1 }.notify)

/-- `Stop`, without the cancellation of the scan. -/
def stop (s : Supply) : Supply :=
  if s.stopping then s
  else
    { s with
      stopping := true
      owned := Queue.disown Candidate.key s.owned s.pending
      waiting := s.waiting - s.pending.length
      pending := [] }.notify

/-! ## Pages -/

def chargePage (cfg : RuntimeConfig) (now : ℕ) (s : Supply) : Except ScanError Unit × Supply :=
  if s.stopping then (.error .failed, s)
  else
    let s := s.expireConflicts cfg now
    if s.conflictFull then (.error .paused, s)
    else
      (.ok (), { s with
        pagesLeft := s.pagesLeft - 1
        budgetResumeAt := if s.pagesLeft - 1 = 0 then 0 else s.budgetResumeAt })

/-- `scan` after a page has returned: the pause of an exhausted budget begins. -/
def pauseBudget (cfg : RuntimeConfig) (now random : ℕ) (s : Supply) : Supply :=
  if s.pagesLeft = 0 ∧ s.budgetResumeAt = 0 then
    { s with budgetResumeAt := now + cfg.scanDelay random }
  else s

def releasePage (s : Supply) : Supply :=
  { s with waiting := s.waiting - s.reserved, reserved := 0 }.notify

def stamp (s : Supply) (kind : ScanKind) (generation : ℕ) (c : Candidate) : Candidate :=
  { c with sequence := s.sequence + 1, scanKind := kind, scanGeneration := generation }

/-- The first loop of `admitPage`, with the candidates it keeps. -/
def accept (kind : ScanKind) (generation : ℕ) : List Candidate → Supply → Supply × List Candidate
  | [], s => (s, [])
  | c :: page, s =>
    if (s.owned c.key).isSome then accept kind generation page s
    else if s.blocked c.instanceId then accept kind generation page s
    else
      let c := s.stamp kind generation c
      let rest := accept kind generation page
        { s with
          sequence := s.sequence + 1
          owned := Function.update s.owned c.key (some c.sequence)
          waiting := s.waiting + 1 }
      (rest.1, c :: rest.2)

/-- The parents of the candidates, in the order in which they first occur. -/
def parents (cs : List Candidate) : List Int := Queue.firstsBy id (cs.map (·.instanceId))

/-- The second loop of `admitPage`: the shares of the parents, beginning at a random one. -/
def shares (random : ℕ) (cs : List Candidate) : List (Int × List Candidate) :=
  Queue.rounds dispatchParentShare ((parents cs).rotate (random % (parents cs).length)) cs.length
    fun id => cs.filter (·.instanceId = id)

def admitPage (cfg : RuntimeConfig) (now random : ℕ) (kind : ScanKind) (generation : ℕ)
    (page : List Candidate) (s : Supply) : Bool × Supply :=
  let s := { s with waiting := s.waiting - s.reserved, reserved := 0 }
  if s.stopping then (false, s.notify)
  else
    let accepted := (s.expireConflicts cfg now).accept kind generation page
    (true,
      { accepted.1 with
        pending := accepted.1.pending ++ (shares random accepted.2).flatMap Prod.snd }.notify)

/-! ## Workers -/

/-- The loop of `take` over the candidates from position `position` on. -/
def pick (busy : Int → Bool) (lastParent : Int) (parentShare : ℕ) :
    List Candidate → ℕ → Option ℕ → Option ℕ
  | [], _, index => index
  | c :: cs, position, index =>
    if busy c.instanceId then pick busy lastParent parentShare cs (position + 1) index
    else
      let index := index.or (some position)
      if dispatchParentShare ≤ parentShare ∧ c.instanceId ≠ lastParent then some position
      else if parentShare < dispatchParentShare then index
      else pick busy lastParent parentShare cs (position + 1) index

def choose (s : Supply) : Option ℕ :=
  if s.conflictFull then none
  else pick (fun id => (s.registering id).isSome) s.lastParent s.parentShare s.pending 0 none

/-- The candidate at the chosen position goes to a worker. -/
def takeAt (s : Supply) (index : ℕ) (c : Candidate) : Supply :=
  { s with
    pending := s.pending.eraseIdx index
    waiting := s.waiting - 1
    registering := Function.update s.registering c.instanceId (some c)
    lastParent := c.instanceId
    parentShare :=
      if s.lastParent = c.instanceId then min (s.parentShare + 1) dispatchParentShare else 1 }.notify

def take (cfg : RuntimeConfig) (now : ℕ) (s : Supply) : Taken × Supply :=
  if s.stopping then (.stopped, s)
  else
    let s := s.expireConflicts cfg now
    match s.choose.bind fun i => s.pending[i]?.map fun c => (i, c) with
    | some (i, c) => (.candidate c, s.takeAt i c)
    | none => (.sleep (if s.conflictFull then s.conflictUntil else 0), s)

/-- `registrationCandidate`; `none` when the registration is not to be made. -/
def registrationCandidate (cfg : RuntimeConfig) (now : ℕ) (id : Int) (s : Supply) :
    Option Candidate × Supply :=
  (if s.stopping then none else s.registering id, s.expireConflicts cfg now)

def registrationFinished (cfg : RuntimeConfig) (now random : ℕ) (c : Candidate) (r : Registration)
    (s : Supply) : Supply :=
  if s.registering c.instanceId ≠ some c then s
  else
    let s := { s with registering := Function.update s.registering c.instanceId none }
    let s := if r = .locked then s.blockParent cfg now random c.instanceId else s
    let s :=
      if r = .confirmed ∧ c.scanGeneration ≠ 0 ∧ c.scanGeneration = s.scanGeneration c.scanKind then
        { s with pagesLeft := dispatchPageBudget, budgetResumeAt := 0 }
      else s
    s.notify

/-- The end of `work` for a candidate. -/
def finish (c : Candidate) (s : Supply) : Supply :=
  { s with
    owned := if s.owned c.key = some c.sequence then Function.update s.owned c.key none
      else s.owned }.notify

end Supply

end Dogx.Dispatch
