import Dogx.Collation
import Dogx.Job.Model
import Dogx.Machine.Pool
import Dogx.Machine.Run

/-!
# The cancellation notifier

The notifier retains stop decisions as entries, one for each instance. One reader takes the entries in
turn and reads a page of saved addresses after the entry's cursor; sender workers share bounded storage
for the targets it queues; housekeeping ends entries whose time is over.

A later entry for the same instance has another number. Every move is one critical section, or the
return of a query; `ended` says what the contexts of entries gave when they were asked. `released` and
`queued` are history.
-/

namespace Dogx.Notify

/-! ## State -/

structure Notification where
  instanceId : ℤ
  executorGroupId : ℤ
  reason : Job.EndReason
  deriving DecidableEq

/-- `NotificationConfig` with its limits checked, and the order of the address column. -/
structure Config where
  instanceCapacity : ℕ
  pageSize : ℕ
  targetCapacity : ℕ
  concurrency : ℕ
  instanceTimeout : ℕ
  collation : Collation
  instanceCapacity_pos : 0 < instanceCapacity
  pageSize_pos : 1 ≤ pageSize
  pageSize_le : pageSize ≤ 32
  targetCapacity_pos : 0 < targetCapacity
  concurrency_pos : 0 < concurrency
  instanceTimeout_pos : 0 < instanceTimeout

/-- `notificationEntry`; `position` if it has a place in the list of entries to enumerate. -/
structure Entry where
  notification : Notification
  deadline : ℕ
  cursor : String := ""
  position : Bool := false
  reading : Bool := false
  enumerated : Bool := false
  expired : Bool := false
  outstanding : ℕ := 0
  deriving DecidableEq

structure Target where
  entry : ℕ
  address : String
  deriving DecidableEq

inductive Reader where
  | absent
  | ready
  | querying (id : ℕ)
  | offering (id : ℕ) (rest : List String)
  | finishing (id : ℕ) (complete : Bool)
  | exited
  deriving DecidableEq

inductive Sender where
  | absent
  | ready
  | sending (target : Target)
  | exited
  deriving DecidableEq

inductive Housekeeper where
  | absent | running | exited
  deriving DecidableEq

structure Notifier where
  started : Bool
  stopping : Bool
  completed : Bool
  canceled : Bool
  fullLogged : Bool
  entries : List (ℤ × ℕ)
  enumerating : List ℕ
  targets : List Target
  targetCount : ℕ
  /-- The entries made so far, by number. -/
  heap : ℕ → Option Entry
  admitted : ℕ
  reader : Reader
  senders : ℕ → Sender
  housekeeper : Housekeeper
  released : List ℕ
  queued : ℕ → List String

namespace Notifier

def init : Notifier :=
  { started := false, stopping := false, completed := false, canceled := false, fullLogged := false
    entries := [], enumerating := [], targets := [], targetCount := 0
    heap := fun _ => none, admitted := 0
    reader := .absent, senders := fun _ => .absent, housekeeper := .absent
    released := [], queued := fun _ => [] }

/-- Change entry `id`. -/
def setEntry (s : Notifier) (id : ℕ) (e : Entry) : Notifier :=
  { s with heap := Function.update s.heap id (some e) }

/-! ## Lifecycle and admission -/

def start (cfg : Config) (s : Notifier) : Option Notifier :=
  if s.started || s.stopping then none
  else some { s with
    started := true
    reader := .ready
    senders := fun i => if i < cfg.concurrency then .ready else .absent
    housekeeper := .running }

def stop (s : Notifier) : Notifier :=
  if s.stopping then s
  else if !s.started then { s with stopping := true, completed := true, canceled := true }
  else { s with stopping := true }

/-- A new entry, at the end of the entries to enumerate. -/
def enroll (cfg : Config) (s : Notifier) (now : ℕ) (n : Notification) : Notifier :=
  { s with
    heap := Function.update s.heap s.admitted (some
      { notification := n, deadline := now + cfg.instanceTimeout, position := true })
    admitted := s.admitted + 1
    entries := s.entries ++ [(n.instanceId, s.admitted)]
    enumerating := s.enumerating ++ [s.admitted] }

def find (s : Notifier) (instanceId : ℤ) : Option Entry :=
  (s.entries.find? fun p => p.1 = instanceId).bind fun p => s.heap p.2

def hint (cfg : Config) (s : Notifier) (now : ℕ) (n : Notification) : Bool × Notifier :=
  if n.instanceId ≤ 0 || n.executorGroupId ≤ 0 ||
      (n.reason ≠ .manualStop && n.reason ≠ .instanceTimeout) || !s.started || s.stopping then
    (false, s)
  else match s.find n.instanceId with
    | some e => (e.notification = n, s)
    | none =>
      if s.entries.length = cfg.instanceCapacity then (false, { s with fullLogged := true })
      else (true, s.enroll cfg now n)

def releaseLocked (s : Notifier) (id : ℕ) : Notifier :=
  match s.heap id with
  | none => s
  | some e =>
    if !e.enumerated || e.reading || e.outstanding ≠ 0 then s
    else { s with
      entries := s.entries.filter fun p => p.1 ≠ e.notification.instanceId
      fullLogged := false
      released := s.released ++ [id] }

/-! ## The reader -/

def atEnd (s : Notifier) : Bool := s.canceled || (s.stopping && s.entries.isEmpty)

/-- `takeEnumeration`; `none` while there is nothing to take. -/
def takeEnumeration (cfg : Config) (s : Notifier) : Option Notifier :=
  if s.atEnd then some { s with reader := .exited }
  else if s.targetCount < cfg.targetCapacity then
    match s.enumerating with
    | [] => none
    | id :: rest => do
      let e ← s.heap id
      some ({ s with enumerating := rest, reader := .querying id }.setEntry id
        { e with position := false, reading := true })
  else none

/-- The source's contract: a page is strictly increasing, after the cursor. -/
def lawful (cfg : Config) (cursor : String) : List String → Bool
  | [] => true
  | a :: rest => cfg.collation.lt cursor a && lawful cfg a rest

/-- The end of a query, from its result to the first address offered. -/
def answer (cfg : Config) (s : Notifier) (id : ℕ) (page : Option (List String)) : Notifier :=
  match page with
  | none | some [] => { s with reader := .finishing id true }
  | some addresses =>
    if cfg.pageSize < addresses.length then { s with reader := .finishing id true }
    else { s with reader := .offering id addresses }

/-- The reader after an address has been accepted. -/
def afterOffer (id : ℕ) : List String → Reader
  | [] => .finishing id false
  | rest => .offering id rest

/-- The target is queued and the cursor advances. -/
def accept (s : Notifier) (id : ℕ) (e : Entry) (address : String) : Notifier :=
  { s with
    targets := s.targets ++ [Target.mk id address]
    targetCount := s.targetCount + 1
    queued := Function.update s.queued id (s.queued id ++ [address])
    }.setEntry id { e with outstanding := e.outstanding + 1, cursor := address }

/-- One address of the page, with `offerTarget` under the mutex; `none` while targets are full. -/
def offer (cfg : Config) (s : Notifier) (now : ℕ) (ended : Bool) (id : ℕ) (e : Entry)
    (address : String) (rest : List String) : Option Notifier :=
  if address = "" then some { s with reader := .finishing id true }
  else if ended || !(now < e.deadline) then some { s with reader := .finishing id true }
  else if s.targetCount < cfg.targetCapacity then
    some ({ s with reader := afterOffer id rest }.accept id e address)
  else none

/-- The entry and its place in the list at the end of a page. -/
def endPage (s : Notifier) (id : ℕ) (e : Entry) (enumerated : Bool) : Notifier :=
  if enumerated then
    { s with reader := .ready }.setEntry id { e with reading := false, enumerated := true }
  else
    { s with enumerating := s.enumerating ++ [id], reader := .ready }.setEntry id
      { e with reading := false, position := true }

def finishEnumeration (s : Notifier) (now : ℕ) (ended : Bool) (id : ℕ) (e : Entry)
    (complete : Bool) : Notifier :=
  (s.endPage id e (e.enumerated || complete || ended || !(now < e.deadline))).releaseLocked id

/-! ## Sender workers -/

def setSender (s : Notifier) (w : ℕ) (st : Sender) : Notifier :=
  { s with senders := Function.update s.senders w st }

/-- `takeTarget`; `none` while there is nothing to take. -/
def takeTarget (s : Notifier) (w : ℕ) : Option Notifier :=
  if s.atEnd then some (s.setSender w .exited)
  else match s.targets with
    | [] => none
    | t :: ts => some ({ s with targets := ts }.setSender w (.sending t))

def uncount (s : Notifier) (t : Target) : Notifier :=
  { s with
    targetCount := s.targetCount - 1
    heap := Function.update s.heap t.entry
      ((s.heap t.entry).map fun e => { e with outstanding := e.outstanding - 1 }) }

/-- The critical section after `deliver`. -/
def sent (s : Notifier) (w : ℕ) (t : Target) : Notifier :=
  ((s.setSender w .ready).uncount t).releaseLocked t.entry

/-! ## Housekeeping -/

/-- The first loop of `expire` at one entry. -/
def expireEntry (now : ℕ) (ended : List ℕ) (s : Notifier) (p : ℤ × ℕ) : Notifier :=
  match s.heap p.2 with
  | none => s
  | some e =>
    if ended.contains p.2 || !(now < e.deadline) then
      { s with
        enumerating := if e.position then s.enumerating.erase p.2 else s.enumerating
        }.setEntry p.2 { e with expired := true, enumerated := true, position := false }
    else s

/-- The second loop of `expire` at one target. -/
def dropTarget (s : Notifier) (t : Target) : Notifier :=
  if (s.heap t.entry).any Entry.expired then
    { s with targets := s.targets.erase t }.uncount t
  else s

/-- The third loop of `expire` at one entry; those already removed from the map are not visited. -/
def releaseEntry (s : Notifier) (p : ℤ × ℕ) : Notifier :=
  if s.entries.contains p then s.releaseLocked p.2 else s

/-- The critical section of `expire`. -/
def sweep (now : ℕ) (ended : List ℕ) (s : Notifier) : Notifier :=
  let s := s.entries.foldl (expireEntry now ended) s
  let s := s.targets.foldl dropTarget s
  s.entries.foldl releaseEntry s

/-- One pass of `expire`. -/
def expire (now : ℕ) (ended : List ℕ) (s : Notifier) : Notifier :=
  let s := s.sweep now ended
  if s.atEnd then { s with housekeeper := .exited } else s

/-! ## Completion -/

def allExited (cfg : Config) (s : Notifier) : Bool :=
  s.reader = .exited && s.housekeeper = .exited &&
    (List.range cfg.concurrency).all fun i => s.senders i = .exited

def finish (s : Notifier) : Notifier :=
  { s with
    entries := [], enumerating := [], targets := [], targetCount := 0
    canceled := true, completed := true }

/-! ## Steps -/

end Notifier

inductive Move where
  | start
  | hint (now : ℕ) (n : Notification)
  | stop
  | cancel
  | takeEnumeration
  /-- The return of a query; `none` for an error or a panic. -/
  | answer (page : Option (List String))
  | offer (now : ℕ) (ended : Bool)
  | finishEnumeration (now : ℕ) (ended : Bool)
  | takeTarget (w : ℕ)
  | sent (w : ℕ)
  | expire (now : ℕ) (ended : List ℕ)
  | finish

namespace Notifier

def step (cfg : Config) (s : Notifier) : Move → Option Notifier
  | .start => s.start cfg
  | .hint now n => some (s.hint cfg now n).2
  | .stop => some s.stop
  | .cancel => if s.stopping then some { s with canceled := true } else none
  | .takeEnumeration =>
    match s.reader with
    | .ready => s.takeEnumeration cfg
    | _ => none
  | .answer page =>
    match s.reader with
    | .querying id =>
      (s.heap id).bind fun e =>
        if page.all (lawful cfg e.cursor) then some (s.answer cfg id page) else none
    | _ => none
  | .offer now ended =>
    match s.reader with
    | .offering id (address :: rest) =>
      (s.heap id).bind fun e => s.offer cfg now ended id e address rest
    | _ => none
  | .finishEnumeration now ended =>
    match s.reader with
    | .finishing id complete =>
      (s.heap id).map fun e => s.finishEnumeration now ended id e complete
    | _ => none
  | .takeTarget w =>
    match s.senders w with
    | .ready => s.takeTarget w
    | _ => none
  | .sent w =>
    match s.senders w with
    | .sending t => some (s.sent w t)
    | _ => none
  | .expire now ended =>
    match s.housekeeper with
    | .running => some (s.expire now ended)
    | _ => none
  | .finish => if s.allExited cfg && !s.completed then some s.finish else none

end Notifier

/-- The notifier of a process, from its construction. -/
def notifier (cfg : Config) : Machine Notifier Move where
  init := .init
  step := Notifier.step cfg

end Dogx.Notify
