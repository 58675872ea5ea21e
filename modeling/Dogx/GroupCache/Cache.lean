import Dogx.Executor.Model
import Dogx.Machine.Run

/-!
# The cache of executor groups

`Cache` of package `groupcache` as one machine over its source. A call is a `Phase`: where its code
stands. One step of a call is a critical section of `mu` together with the code up to the next
point where another call can come between, or one end of a call of the source.

A call of the source reads at some moment while it runs (`sample`) and returns what it has read, or
fails. The source may change, a context be canceled and a deadline pass at any time. The observers of
`OnRefresh` run between the replacement of the snapshot and the return of `Refresh`, and do not change
the cache.
-/

namespace Dogx.GroupCache

open Job.Text (trimSpace containsNul runeCount)
open Function (update)

/-! ## Configurations -/

/-- `repository.ExecutorGroupConfig`. -/
structure Config where
  id : Int
  name : String
  discoveryKey : String
  token : String
  deriving DecidableEq

inductive Err where
  /-- `ctx.Err()`. -/
  | context
  /-- `sourceError`, which keeps only the operation in its text. -/
  | source (operation : String)
  | notFound
  | message (text : String)
  deriving DecidableEq

/-- `lookupKey`; a key with an ID is one of `ByID`. -/
structure LookupKey where
  id : Int
  name : String
  deriving DecidableEq

def LookupKey.names (key : LookupKey) (config : Config) : Bool :=
  if key.id ≠ 0 then key.id = config.id else key.name = config.name

def validate (config : Config) : Except Err Unit :=
  if config.id ≤ 0 then .error (.message "stored executor group ID is invalid")
  else if (Executor.validateCredentials config.name config.token).isSome then
    .error (.message "stored executor group credentials are invalid")
  else if config.discoveryKey = "" ∨ config.discoveryKey ≠ trimSpace config.discoveryKey ∨
      containsNul config.discoveryKey ∨ 255 < runeCount config.discoveryKey then
    .error (.message "stored executor group discovery key is invalid")
  else .ok ()

/-! ## The indexes -/

/-- `byID` and `byName`. -/
structure Maps where
  byId : Int → Option Config
  byName : String → Option Config

namespace Maps

def empty : Maps := { byId := fun _ => none, byName := fun _ => none }

def put (m : Maps) (config : Config) : Maps :=
  { byId := update m.byId config.id (some config)
    byName := update m.byName config.name (some config) }

def cached (m : Maps) (key : LookupKey) : Option Config :=
  if key.id ≠ 0 then m.byId key.id else m.byName key.name

/-- The loop of `Refresh` over the groups that are left, with the discovery keys seen so far. -/
def extend (m : Maps) (keys : List String) : List Config → Except Err Maps
  | [] => .ok m
  | group :: groups =>
    match validate group with
    | .error e => .error e
    | .ok () =>
      if (m.byId group.id).isSome ∨ (m.byName group.name).isSome ∨ group.discoveryKey ∈ keys then
        .error (.message "executor group snapshot contains duplicate identities")
      else (m.put group).extend (group.discoveryKey :: keys) groups

def snapshot (groups : List Config) : Except Err Maps := empty.extend [] groups

end Maps

/-- `query`, of what the source has found. -/
def query (key : LookupKey) : Option Config → Except Err Config
  | none => .error .notFound
  | some config =>
    match validate config with
    | .error e => .error e
    | .ok () =>
      if key.names config then .ok config
      else .error (.message "executor group source returned a different identity")

/-! ## Calls -/

inductive Call where
  | refresh
  | byId (id : Int)
  | byName (name : String)
  deriving DecidableEq

inductive Outcome where
  | refreshed (r : Except Err Unit)
  | found (r : Except Err Config)
  deriving DecidableEq

/-- Where the code of a call stands. A flight is named by the call that began it. -/
inductive Phase where
  /-- `Refresh` before `refreshGate`. -/
  | gate
  /-- `LoadExecutionGroups` runs; with what it has read. -/
  | loading (read : Option (List Config))
  /-- The load is complete and valid, before `mu`. -/
  | replacing (maps : Maps)
  /-- The snapshot is replaced, the observers run. -/
  | notifying
  /-- `lookup` before its first look at the cache. -/
  | seeking (key : LookupKey)
  /-- `lookup` after a miss, before `mu`. -/
  | claiming (key : LookupKey)
  /-- `lookup` on `flight.done`. -/
  | waiting (flight : ℕ)
  /-- `loadMiss` at the head of its loop. -/
  | missing (key : LookupKey)
  /-- `query` runs, since the cache had the generation; with what the source has read. -/
  | querying (key : LookupKey) (generation : ℕ) (read : Option (Option Config))
  /-- `loadMiss` after `query`, before `mu`. -/
  | publishing (key : LookupKey) (generation : ℕ) (loaded : Except Err Config)
  /-- `lookup` after `loadMiss`, before `mu`. -/
  | finishing (key : LookupKey) (result : Except Err Config)
  | returned (outcome : Outcome)

structure Process where
  phase : Phase
  canceled : Bool

structure Cache where
  source : List Config
  /-- The call that is inside `refreshGate`. -/
  gate : Option ℕ
  generation : ℕ
  maps : Maps
  flights : LookupKey → Option ℕ
  /-- The results of the flights that are done. -/
  results : ℕ → Option (Except Err Config)
  calls : ℕ → Option Process
  next : ℕ

inductive Answer where
  | value
  | failure
  /-- The context of the query has ended. -/
  | expired
  deriving DecidableEq

inductive Move where
  | change (content : List Config)
  | call (c : Call)
  | cancel (pid : ℕ)
  /-- The context of a waiting call ends its wait. -/
  | abandon (pid : ℕ)
  | sample (pid : ℕ)
  | answer (pid : ℕ) (a : Answer)
  | run (pid : ℕ)

namespace Cache

def init : Cache where
  source := []
  gate := none
  generation := 0
  maps := .empty
  flights := fun _ => none
  results := fun _ => none
  calls := fun _ => none
  next := 0

def set (s : Cache) (pid : ℕ) (p : Process) (phase : Phase) : Cache :=
  { s with calls := update s.calls pid (some { p with phase }) }

def leave (s : Cache) (pid : ℕ) (p : Process) (r : Except Err Unit) : Cache :=
  { s.set pid p (.returned (.refreshed r)) with gate := none }

def finish (s : Cache) (pid : ℕ) (p : Process) (key : LookupKey) (r : Except Err Config) : Cache :=
  s.set pid p (.finishing key r)

/-- A call up to the first point where another can come between. -/
def start : Call → Phase
  | .refresh => .gate
  | .byId id =>
    if id ≤ 0 then .returned (.found (.error (.message "executor group ID must be positive")))
    else .seeking { id, name := "" }
  | .byName name => .seeking { id := 0, name }

/-- Lookups are made of a cache that `New` has returned, so after a first refresh. -/
def admits (s : Cache) : Call → Bool
  | .refresh => true
  | .byId _ | .byName _ => 0 < s.generation

def contains (s : Cache) (group : Config) : Bool := s.maps.byId group.id = some group

/-- The rest of a call that waits for the gate or for a flight, when its context ends. -/
def abandon (s : Cache) (pid : ℕ) (p : Process) : Option Cache :=
  if p.canceled then
    match p.phase with
    | .gate => some (s.set pid p (.returned (.refreshed (.error .context))))
    | .waiting _ => some (s.set pid p (.returned (.found (.error .context))))
    | _ => none
  else none

def sample (s : Cache) (pid : ℕ) (p : Process) : Option Cache :=
  match p.phase with
  | .loading _ => some (s.set pid p (.loading (some s.source)))
  | .querying key g _ => some (s.set pid p (.querying key g (some (s.source.find? key.names))))
  | _ => none

def answer (s : Cache) (pid : ℕ) (p : Process) (a : Answer) : Option Cache :=
  match p.phase, a with
  | .loading (some groups), .value =>
    match Maps.snapshot groups with
    | .error e => some (s.leave pid p (.error e))
    | .ok maps => some (s.set pid p (.replacing maps))
  | .loading _, .failure => some (s.leave pid p (.error (.source "load executor group snapshot")))
  | .loading _, .expired => some (s.leave pid p (.error .context))
  | .querying key g (some found), .value =>
    match query key found with
    | .ok config => some (s.set pid p (.publishing key g (.ok config)))
    | .error .notFound => some (s.set pid p (.publishing key g (.error .notFound)))
    | .error e => some (s.finish pid p key (.error e))
  | .querying key _ _, .failure => some (s.finish pid p key (.error (.source "load executor group")))
  | .querying key _ _, .expired => some (s.finish pid p key (.error .context))
  | _, _ => none

/-- The next critical section of the call, with the code around it. -/
def proceed (s : Cache) (pid : ℕ) (p : Process) : Option Cache :=
  match p.phase with
  | .gate =>
    if s.gate.isSome then none
    else if p.canceled then some (s.set pid p (.returned (.refreshed (.error .context))))
    else some { s.set pid p (.loading none) with gate := some pid }
  | .replacing maps =>
    if p.canceled then some (s.leave pid p (.error .context))
    else some { s.set pid p .notifying with generation := s.generation + 1, maps }
  | .notifying => some (s.leave pid p (.ok ()))
  | .seeking key =>
    if p.canceled then some (s.set pid p (.returned (.found (.error .context))))
    else match s.maps.cached key with
      | some config => some (s.set pid p (.returned (.found (.ok config))))
      | none => some (s.set pid p (.claiming key))
  | .claiming key =>
    match s.maps.cached key with
    | some config => some (s.set pid p (.returned (.found (.ok config))))
    | none =>
      match s.flights key with
      | some flight => some (s.set pid p (.waiting flight))
      | none =>
        some { s.set pid p (.missing key) with flights := update s.flights key (some pid) }
  | .waiting flight =>
    match s.results flight with
    | some r => some (s.set pid p (.returned (.found r)))
    | none => none
  | .missing key =>
    if p.canceled then some (s.finish pid p key (.error .context))
    else match s.maps.cached key with
      | some config => some (s.finish pid p key (.ok config))
      | none => some (s.set pid p (.querying key s.generation none))
  | .publishing key g loaded =>
    if g ≠ s.generation then some (s.set pid p (.missing key))
    else match loaded with
      | .ok config => some { s.finish pid p key (.ok config) with maps := s.maps.put config }
      | .error e => some (s.finish pid p key (.error e))
  | .finishing key r =>
    some { s.set pid p (.returned (.found r)) with
      flights := update s.flights key none
      results := update s.results pid (some r) }
  | .loading _ | .querying _ _ _ | .returned _ => none

def step (s : Cache) : Move → Option Cache
  | .change content => some { s with source := content }
  | .call c =>
    if s.admits c then
      some { s with
        calls := update s.calls s.next (some { phase := start c, canceled := false })
        next := s.next + 1 }
    else none
  | .cancel pid =>
    (s.calls pid).map fun p =>
      { s with calls := update s.calls pid (some { p with canceled := true }) }
  | .abandon pid => (s.calls pid).bind fun p => s.abandon pid p
  | .sample pid => (s.calls pid).bind fun p => s.sample pid p
  | .answer pid a => (s.calls pid).bind fun p => s.answer pid p a
  | .run pid => (s.calls pid).bind fun p => s.proceed pid p

def machine : Machine Cache Move := { init, step }

end Cache

end Dogx.GroupCache
