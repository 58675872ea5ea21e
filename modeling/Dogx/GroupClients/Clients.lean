import Dogx.GroupCache.Cache

/-!
# Connections of executor groups

`GroupClients` of package `execution`, beside the cache of groups it reads. A call of `Executor` is a
`Phase`: where its code stands. One step is a critical section of `mu` with its one look at the cache,
or one end of a call of something else: of `ByID`, of the factory, or of a connection's `close`.

`removeObsolete`, the observer of `Refresh`, looks at the cache once for each client while it holds
`mu`, and the cache may change in between, so it takes several steps.

A connection is what has a `close`; connections are numbered as the factory returns them. `checked` is
history: the generation of the cache when it was last found to contain the client's group.
-/

namespace Dogx.GroupClients

open GroupCache (Cache Config)

inductive Err where
  | context
  /-- `errGroupClientsClosed`. -/
  | closed
  | cache (e : GroupCache.Err)
  /-- `groupClientError`, which keeps only the operation in its text. -/
  | client (operation : String)
  | message (text : String)
  deriving DecidableEq

/-- `groupConnection`, cached. -/
structure Client where
  conn : ℕ
  group : Config
  checked : ℕ
  deriving DecidableEq

/-! ## Calls -/

/-- What the factory has returned to `construct`. -/
inductive Made where
  | complete (conn : ℕ)
  /-- An error, or something that is no complete connection. -/
  | unusable (conn : Option ℕ) (err : Err)
  deriving DecidableEq

/-- Where a call of `Executor` stands. A flight is named by the call that began it. -/
inductive Phase where
  /-- At the head of the loop. -/
  | looping
  /-- `ByID` runs, as this call of the cache. -/
  | resolving (lookup : ℕ)
  /-- Before `mu`. -/
  | locking (group : Config)
  /-- On `pending.done`. -/
  | waiting (flight : ℕ)
  /-- The flight is begun, before the old connection is closed. -/
  | replacing (group : Config) (old : Option ℕ)
  /-- The factory runs. -/
  | creating (group : Config)
  /-- `construct` after the factory, before `mu`. -/
  | publishing (group : Config) (made : Made)
  /-- Before the connection that was not published is closed. -/
  | discarding (group : Config) (conn : Option ℕ) (err : Err)
  /-- Before the flight is ended. -/
  | landing (group : Config) (result : Except Err ℕ)
  | returned (result : Except Err (Config × ℕ))
  deriving DecidableEq

structure Call where
  id : Int
  canceled : Bool
  phase : Phase
  deriving DecidableEq

/-- Where `removeObsolete` stands. -/
inductive Sweep where
  /-- Before `mu`. -/
  | entering
  /-- It holds `mu`, with the clients it has not looked at and the connections it has removed. -/
  | sweeping (todo : List Client) (removed : List ℕ)
  | closing (removed : List ℕ)
  deriving DecidableEq

inductive Closing where
  | pending
  /-- The pool is marked, before `unsubscribe`. -/
  | unsubscribing (removed : List ℕ)
  | closing (removed : List ℕ)
  deriving DecidableEq

structure Pool where
  cache : Cache
  opened : Bool
  /-- `removeObsolete` is among the observers of the cache. -/
  subscribed : Bool
  closed : Bool
  clients : List Client
  flights : Int → Option ℕ
  /-- The errors of the flights that are done. -/
  results : ℕ → Option (Option Err)
  calls : ℕ → Option Call
  next : ℕ
  /-- The observer that the current refresh has captured. -/
  observer : Option Sweep
  closing : Closing
  closeErr : List ℕ
  /-- The number of connections the factory has returned. -/
  made : ℕ
  /-- The connections whose `close` was called, in order. -/
  gone : List ℕ

/-- What the factory returns: a complete connection, an incomplete one or an error, the last two with
something to close or without. -/
inductive Outcome where
  | complete
  | incomplete (closable : Bool)
  | failed (closable : Bool)
  deriving DecidableEq

inductive Move where
  | cache (m : GroupCache.Move)
  /-- `NewGroupClients`. -/
  | «open»
  | executor (id : Int)
  | cancel (pid : ℕ)
  | run (pid : ℕ)
  /-- A call on `pending.done` finds its context done. -/
  | leave (pid : ℕ)
  /-- A call on `pending.done` finds the pool closed. -/
  | shut (pid : ℕ)
  | created (pid : ℕ) (outcome : Outcome)
  | observe
  /-- `removeObsolete` looks at the client of this group. -/
  | sweep (id : Int)
  /-- `Close` goes on; `failed` if the connection's `close` returns an error. -/
  | close (failed : Bool)

namespace Pool

def init : Pool where
  cache := .init
  opened := false
  subscribed := false
  closed := false
  clients := []
  flights := fun _ => none
  results := fun _ => none
  calls := fun _ => none
  next := 0
  observer := none
  closing := .pending
  closeErr := []
  made := 0
  gone := []

def locked (s : Pool) : Bool :=
  match s.observer with
  | some (.sweeping _ _) => true
  | _ => false

/-- `p.clients[id]`. -/
def client (s : Pool) (id : Int) : Option Client := s.clients.find? fun c => c.group.id = id

/-- `delete(p.clients, id)`. -/
def without (s : Pool) (id : Int) : List Client := s.clients.filter fun c => c.group.id ≠ id

def set (s : Pool) (pid : ℕ) (c : Call) (phase : Phase) : Pool :=
  { s with calls := Function.update s.calls pid (some { c with phase }) }

/-- `available`: the error, if there is one. -/
def available (s : Pool) (canceled : Bool) (group : Config) : Option Err :=
  if s.closed then some .closed
  else if canceled then some .context
  else if !s.cache.contains group then some (.cache .notFound)
  else none

/-! ## Executor -/

/-- `Executor` inside `mu`. -/
def lookup (s : Pool) (pid : ℕ) (c : Call) (group : Config) : Pool :=
  match s.available c.canceled group with
  | some e => s.set pid c (.returned (.error e))
  | none =>
    match (s.client c.id).filter fun existing => existing.group = group with
    | some existing => s.set pid c (.returned (.ok (group, existing.conn)))
    | none =>
      match s.flights c.id with
      | some flight => s.set pid c (.waiting flight)
      | none =>
        { s with
          flights := Function.update s.flights c.id (some pid)
          clients := s.without c.id }.set pid c (.replacing group ((s.client c.id).map Client.conn))

/-- `construct` inside `mu`, with what the factory has returned. -/
def publish (s : Pool) (pid : ℕ) (c : Call) (group : Config) : Made → Pool
  | .unusable conn err => s.set pid c (.discarding group conn err)
  | .complete conn =>
    match s.available c.canceled group with
    | some e => s.set pid c (.discarding group (some conn) e)
    | none =>
      { s with
        clients := s.without group.id ++ [Client.mk conn group s.cache.generation] }.set pid c
          (.landing group (.ok conn))

/-- The end of `construct`, inside `mu`. -/
def land (s : Pool) (pid : ℕ) (c : Call) (group : Config) (result : Except Err ℕ) : Pool :=
  let err := match result with
    | .error e => some e
    | .ok _ => none
  { s with
    flights := Function.update s.flights group.id none
    results := Function.update s.results pid (some err) }.set pid c
      (.returned (result.map fun conn => (group, conn)))

/-- The next step of the call, where it does not wait for the factory. -/
def proceed (s : Pool) (pid : ℕ) (c : Call) : Option Pool :=
  match c.phase with
  | .looping =>
    if c.canceled then some (s.set pid c (.returned (.error .context)))
    else if s.closed then some (s.set pid c (.returned (.error .closed)))
    else (s.cache.step (.call (.byId c.id))).map fun cache =>
      { s with cache }.set pid c (.resolving s.cache.next)
  | .resolving q =>
    match (s.cache.calls q).map GroupCache.Process.phase with
    | some (.returned (.found (.ok group))) => some (s.set pid c (.locking group))
    | some (.returned (.found (.error e))) => some (s.set pid c (.returned (.error (.cache e))))
    | _ => none
  | .locking group => if s.locked then none else some (s.lookup pid c group)
  | .waiting flight =>
    match s.results flight with
    | none => none
    | some (some e) => some (s.set pid c (.returned (.error e)))
    | some none => some (s.set pid c .looping)
  | .replacing group old =>
    some ({ s with gone := s.gone ++ old.toList }.set pid c (.creating group))
  | .publishing group made => if s.locked then none else some (s.publish pid c group made)
  | .discarding group conn err =>
    some ({ s with gone := s.gone ++ conn.toList }.set pid c (.landing group (.error err)))
  | .landing group result => if s.locked then none else some (s.land pid c group result)
  | .creating _ | .returned _ => none

def create (s : Pool) (pid : ℕ) (c : Call) (outcome : Outcome) : Option Pool :=
  match c.phase with
  | .creating group =>
    let conn (closable : Bool) := if closable then some (s.made + 1) else none
    let made := match outcome with
      | .complete => Made.complete (s.made + 1)
      | .incomplete closable =>
        .unusable (conn closable)
          (.message "executor client factory returned an incomplete connection")
      | .failed closable => .unusable (conn closable) (.client "create executor group client")
    let returned := match outcome with
      | .complete => true
      | .incomplete closable | .failed closable => closable
    some ({ s with made := s.made + returned.toNat }.set pid c (.publishing group made))
  | _ => none

/-! ## The cache and its observer -/

/-- A refresh that has replaced the snapshot is about to return. -/
def returning (s : Pool) : GroupCache.Move → Bool
  | .run pid => (s.cache.calls pid).any fun p =>
    match p.phase with
    | .notifying => true
    | _ => false
  | _ => false

/-- A step of the cache. A refresh captures the observer as it replaces the snapshot, and returns after
the observer has. -/
def cacheStep (s : Pool) (m : GroupCache.Move) : Option Pool :=
  if s.returning m && s.observer.isSome then none
  else (s.cache.step m).map fun cache =>
    { s with
      cache
      observer := if s.cache.generation < cache.generation && s.subscribed then some .entering
        else s.observer }

def observe (s : Pool) : Option Pool :=
  match s.observer with
  | some .entering => some { s with observer := some (.sweeping s.clients []) }
  | some (.sweeping [] removed) => some { s with observer := some (.closing removed) }
  | some (.closing (conn :: removed)) =>
    some { s with observer := some (.closing removed), gone := s.gone ++ [conn] }
  | some (.closing []) => some { s with observer := none }
  | _ => none

/-- One round of the loop of `removeObsolete`. -/
def sweep (s : Pool) (id : Int) : Option Pool :=
  match s.observer with
  | some (.sweeping todo removed) =>
    (todo.find? fun c => c.group.id = id).map fun client =>
      let todo := todo.filter fun c => c.group.id ≠ id
      if s.cache.contains client.group then
        { s with
          observer := some (.sweeping todo removed)
          clients := s.clients.map fun c =>
            if c.group.id = id then { c with checked := s.cache.generation } else c }
      else
        { s with
          observer := some (.sweeping todo (removed ++ [client.conn]))
          clients := s.without id }
  | _ => none

/-! ## Closing -/

/-- The first call of `Close`. -/
def close (s : Pool) (failed : Bool) : Option Pool :=
  match s.closing with
  | .pending =>
    if s.locked || !s.opened then none
    else some { s with
      closed := true, clients := [], closing := .unsubscribing (s.clients.map Client.conn) }
  | .unsubscribing removed => some { s with subscribed := false, closing := .closing removed }
  | .closing (conn :: removed) =>
    some { s with
      closing := .closing removed
      gone := s.gone ++ [conn]
      closeErr := if failed then s.closeErr ++ [conn] else s.closeErr }
  | .closing [] => none

def step (s : Pool) : Move → Option Pool
  | .cache m => s.cacheStep m
  | .open =>
    if s.opened || s.cache.generation = 0 then none
    else some { s with opened := true, subscribed := true }
  | .executor id =>
    if s.opened then
      some { s with
        calls := Function.update s.calls s.next (some { id, canceled := false, phase := .looping })
        next := s.next + 1 }
    else none
  | .cancel pid => (s.calls pid).map fun c =>
    { s with calls := Function.update s.calls pid (some { c with canceled := true }) }
  | .run pid => (s.calls pid).bind fun c => s.proceed pid c
  | .leave pid => (s.calls pid).bind fun c =>
    match c.phase with
    | .waiting _ => if c.canceled then some (s.set pid c (.returned (.error .context))) else none
    | _ => none
  | .shut pid => (s.calls pid).bind fun c =>
    match c.phase with
    | .waiting _ => if s.closed then some (s.set pid c (.returned (.error .closed))) else none
    | _ => none
  | .created pid outcome => (s.calls pid).bind fun c => s.create pid c outcome
  | .observe => s.observe
  | .sweep id => s.sweep id
  | .close failed => s.close failed

end Pool

def pool : Machine Pool Move := { init := .init, step := Pool.step }

end Dogx.GroupClients
