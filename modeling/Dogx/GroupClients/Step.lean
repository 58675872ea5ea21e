import Dogx.GroupClients.Clients
import Dogx.GroupCache.Named

/-!
# Steps of the pool

`Change s s'` lists every way a step can change the pool, with what the code has checked before. `Turn`
is the part of it where only the phase of a call changes.
-/

namespace Dogx.GroupClients

open GroupCache (Cache Config)

variable {s s' : Pool} {m : Move} {pid : ℕ} {c : Call}

/-! ## Phases -/

def Made.conn : Made → Option ℕ
  | complete conn => some conn
  | unusable conn _ => conn

namespace Phase

def idle : Phase → Bool
  | looping | resolving _ | locking _ | waiting _ => true
  | _ => false

/-- The group whose flight the call has begun and not ended. -/
def constructs : Phase → Option Config
  | replacing group _ | creating group | publishing group _ | discarding group _ _
  | landing group _ => some group
  | _ => none

def unpublished : Phase → Option Config
  | replacing group _ | creating group | publishing group _ => some group
  | _ => none

def holds : Phase → Option ℕ
  | replacing _ old => old
  | publishing _ made => made.conn
  | discarding _ conn _ => conn
  | _ => none

end Phase

inductive Turn (s : Pool) : Phase → Phase → Prop where
  | ended (phase : Phase) (r : Except Err (Config × ℕ)) (h : phase.idle = true) :
      Turn s phase (.returned r)
  | resolved (q : ℕ) (p : GroupCache.Process) (group : Config) (hq : s.cache.calls q = some p)
      (h : p.phase = .returned (.found (.ok group))) : Turn s (.resolving q) (.locking group)
  | joined (group : Config) (flight : ℕ) : Turn s (.locking group) (.waiting flight)
  | again (flight : ℕ) : Turn s (.waiting flight) .looping
  | refused (group : Config) (made : Made) (err : Err) :
      Turn s (.publishing group made) (.discarding group made.conn err)

inductive Advance (s : Pool) (pid : ℕ) (c : Call) : Pool → Prop where
  | turned (phase : Phase) (h : Turn s c.phase phase) : Advance s pid c (s.set pid c phase)
  | asked (cache : Cache) (hphase : c.phase = .looping)
      (h : s.cache.step (.call (.byId c.id)) = some cache) :
      Advance s pid c ({ s with cache }.set pid c (.resolving s.cache.next))
  | claimed (group : Config) (hphase : c.phase = .locking group) (hfree : s.locked = false)
      (hnew : s.flights c.id = none) :
      Advance s pid c ({ s with
        flights := Function.update s.flights c.id (some pid)
        clients := s.without c.id }.set pid c (.replacing group ((s.client c.id).map Client.conn)))
  | replaced (group : Config) (old : Option ℕ) (hphase : c.phase = .replacing group old) :
      Advance s pid c ({ s with gone := s.gone ++ old.toList }.set pid c (.creating group))
  | created (group : Config) (made : Made) (n : ℕ) (hphase : c.phase = .creating group)
      (h : made.conn.toList = List.range' (s.made + 1) n) :
      Advance s pid c ({ s with made := s.made + n }.set pid c (.publishing group made))
  | published (group : Config) (conn : ℕ) (hphase : c.phase = .publishing group (.complete conn))
      (hfree : s.locked = false) (hopen : s.closed = false)
      (hin : s.cache.contains group = true) :
      Advance s pid c ({ s with
        clients := s.without group.id ++ [Client.mk conn group s.cache.generation] }.set pid c
          (.landing group (.ok conn)))
  | discarded (group : Config) (conn : Option ℕ) (err : Err)
      (hphase : c.phase = .discarding group conn err) :
      Advance s pid c
        ({ s with gone := s.gone ++ conn.toList }.set pid c (.landing group (.error err)))
  | landed (group : Config) (result : Except Err ℕ) (hphase : c.phase = .landing group result) :
      Advance s pid c (s.land pid c group result)

inductive Observes (s : Pool) : Pool → Prop where
  | entered (h : s.observer = some .entering) :
      Observes s { s with observer := some (.sweeping s.clients []) }
  | kept (todo : List Client) (removed : List ℕ) (client : Client)
      (h : s.observer = some (.sweeping todo removed)) (hmem : client ∈ todo)
      (hin : s.cache.contains client.group = true) :
      Observes s { s with
        observer := some (.sweeping (todo.filter fun c => c.group.id ≠ client.group.id) removed)
        clients := s.clients.map fun c =>
          if c.group.id = client.group.id then { c with checked := s.cache.generation } else c }
  | dropped (todo : List Client) (removed : List ℕ) (client : Client)
      (h : s.observer = some (.sweeping todo removed)) (hmem : client ∈ todo) :
      Observes s { s with
        observer := some (.sweeping (todo.filter fun c => c.group.id ≠ client.group.id)
          (removed ++ [client.conn]))
        clients := s.without client.group.id }
  | swept (removed : List ℕ) (h : s.observer = some (.sweeping [] removed)) :
      Observes s { s with observer := some (.closing removed) }
  | cleaned (conn : ℕ) (removed : List ℕ) (h : s.observer = some (.closing (conn :: removed))) :
      Observes s { s with observer := some (.closing removed), gone := s.gone ++ [conn] }
  | observed (h : s.observer = some (.closing [])) : Observes s { s with observer := none }

inductive Closes (s : Pool) : Pool → Prop where
  | marked (h : s.closing = .pending) (hfree : s.locked = false) :
      Closes s { s with
        closed := true, clients := [], closing := .unsubscribing (s.clients.map Client.conn) }
  | unsubscribed (removed : List ℕ) (h : s.closing = .unsubscribing removed) :
      Closes s { s with subscribed := false, closing := .closing removed }
  | ended (conn : ℕ) (removed errs : List ℕ) (h : s.closing = .closing (conn :: removed)) :
      Closes s { s with
        closing := .closing removed, gone := s.gone ++ [conn], closeErr := errs }

inductive Change (s : Pool) : Pool → Prop where
  | cached (m : GroupCache.Move) (cache : Cache) (h : s.cache.step m = some cache)
      (hwait : s.returning m = true → s.observer = none) :
      Change s { s with
        cache
        observer := if s.cache.generation < cache.generation && s.subscribed then some .entering
          else s.observer }
  | opened (h : s.opened = false) : Change s { s with opened := true, subscribed := true }
  | called (id : Int) (h : s.opened = true) : Change s { s with
      calls := Function.update s.calls s.next (some { id, canceled := false, phase := .looping })
      next := s.next + 1 }
  | canceled (pid : ℕ) (c : Call) (hp : s.calls pid = some c) :
      Change s { s with calls := Function.update s.calls pid (some { c with canceled := true }) }
  | advanced (pid : ℕ) (c : Call) (s' : Pool) (hp : s.calls pid = some c) (h : Advance s pid c s') :
      Change s s'
  | observed (s' : Pool) (h : Observes s s') : Change s s'
  | closed (s' : Pool) (h : Closes s s') : Change s s'

/-! ## Every step is a change -/

namespace Pool

theorem contains_of_available {canceled : Bool} {group : Config}
    (h : s.available canceled group = none) :
    s.closed = false ∧ s.cache.contains group = true := by
  unfold available at h
  split at h
  · cases h
  next hopen =>
    split at h
    · cases h
    · split at h
      · cases h
      next hin => exact ⟨eq_false_of_ne_true hopen, by simpa using hin⟩

theorem advance_of_lookup {group : Config} (hphase : c.phase = .locking group)
    (hfree : s.locked = false) : Advance s pid c (s.lookup pid c group) := by
  have hidle : c.phase.idle = true := hphase ▸ rfl
  unfold lookup
  split
  · exact .turned _ (.ended _ _ hidle)
  · split
    · exact .turned _ (.ended _ _ hidle)
    · split
      · exact .turned _ (hphase ▸ .joined _ _)
      next hnew => exact .claimed group hphase hfree hnew

theorem advance_of_publish {group : Config} {made : Made} (hphase : c.phase = .publishing group made)
    (hfree : s.locked = false) : Advance s pid c (s.publish pid c group made) := by
  unfold publish
  split
  · exact .turned _ (hphase ▸ .refused _ _ _)
  · split
    · exact .turned _ (hphase ▸ .refused _ _ _)
    next h =>
      obtain ⟨hopen, hin⟩ := contains_of_available h
      exact .published group _ hphase hfree hopen hin

theorem advance_of_proceed (h : s.proceed pid c = some s') : Advance s pid c s' := by
  unfold proceed at h
  split at h
  next hphase =>
    have hidle : c.phase.idle = true := hphase ▸ rfl
    split at h
    · cases h
      exact .turned _ (.ended _ _ hidle)
    · split at h
      · cases h
        exact .turned _ (.ended _ _ hidle)
      · obtain ⟨cache, hcache, rfl⟩ := Option.map_eq_some_iff.mp h
        exact .asked cache hphase hcache
  next q hphase =>
    split at h
    next group hq =>
      obtain ⟨p, hp, hfound⟩ := Option.map_eq_some_iff.mp hq
      cases h
      exact .turned _ (hphase ▸ .resolved q p group hp hfound)
    · cases h
      exact .turned _ (.ended _ _ (hphase ▸ rfl))
    · cases h
  next hphase =>
    obtain ⟨hfree, h⟩ := Option.ite_none_left_eq_some.mp h
    cases h
    exact advance_of_lookup hphase (eq_false_of_ne_true hfree)
  next hphase =>
    split at h
    · cases h
    · cases h
      exact .turned _ (.ended _ _ (hphase ▸ rfl))
    · cases h
      exact .turned _ (hphase ▸ .again _)
  next hphase =>
    cases h
    exact .replaced _ _ hphase
  next hphase =>
    obtain ⟨hfree, h⟩ := Option.ite_none_left_eq_some.mp h
    cases h
    exact advance_of_publish hphase (eq_false_of_ne_true hfree)
  next hphase =>
    cases h
    exact .discarded _ _ _ hphase
  next hphase =>
    obtain ⟨-, h⟩ := Option.ite_none_left_eq_some.mp h
    cases h
    exact .landed _ _ hphase
  · cases h
  · cases h

theorem advance_of_create {outcome : Outcome} (h : s.create pid c outcome = some s') :
    Advance s pid c s' := by
  unfold create at h
  split at h
  next group hphase =>
    cases h
    cases outcome with
    | complete => exact .created group _ 1 hphase rfl
    | incomplete closable | failed closable =>
      cases closable with
      | false => exact .created group _ 0 hphase rfl
      | true => exact .created group _ 1 hphase rfl
  next => cases h

theorem observes_of_observe (h : s.observe = some s') : Observes s s' := by
  unfold observe at h
  split at h
  next ho => cases h; exact .entered ho
  next ho => cases h; exact .swept _ ho
  next ho => cases h; exact .cleaned _ _ ho
  next ho => cases h; exact .observed ho
  next => cases h

theorem observes_of_sweep {id : Int} (h : s.sweep id = some s') : Observes s s' := by
  unfold sweep at h
  split at h
  next todo removed ho =>
    obtain ⟨client, hfind, rfl⟩ := Option.map_eq_some_iff.mp h
    have hmem := List.mem_of_find?_eq_some hfind
    have hid : client.group.id = id := by simpa using List.find?_some hfind
    subst hid
    split
    next hin => exact .kept todo removed client ho hmem hin
    next => exact .dropped todo removed client ho hmem
  next => cases h

theorem closes_of_close {failed : Bool} (h : s.close failed = some s') : Closes s s' := by
  unfold close at h
  split at h
  next hc =>
    obtain ⟨hguard, h⟩ := Option.ite_none_left_eq_some.mp h
    cases h
    simp only [Bool.or_eq_true, not_or, Bool.not_eq_true] at hguard
    exact .marked hc hguard.1
  next hc => cases h; exact .unsubscribed _ hc
  next hc => cases h; exact .ended _ _ _ hc
  next => cases h

/-- Every step of the pool is one of the changes. -/
theorem change_of_step (h : s.step m = some s') : Change s s' := by
  cases m with
  | cache m =>
    obtain ⟨hguard, h⟩ := Option.ite_none_left_eq_some.mp h
    obtain ⟨cache, hcache, rfl⟩ := Option.map_eq_some_iff.mp h
    refine .cached m cache hcache fun hret => ?_
    rw [hret, Bool.true_and, Bool.not_eq_true, Option.isSome_eq_false_iff] at hguard
    exact Option.isNone_iff_eq_none.mp hguard
  | «open» =>
    obtain ⟨hguard, h⟩ := Option.ite_none_left_eq_some.mp h
    cases h
    simp only [Bool.or_eq_true, not_or, Bool.not_eq_true] at hguard
    exact .opened hguard.1
  | executor id =>
    obtain ⟨hopen, h⟩ := Option.ite_none_right_eq_some.mp h
    cases h
    exact .called id hopen
  | cancel pid =>
    obtain ⟨c, hp, rfl⟩ := Option.map_eq_some_iff.mp h
    exact .canceled pid c hp
  | run pid =>
    obtain ⟨c, hp, h⟩ := Option.bind_eq_some_iff.mp h
    exact .advanced pid c _ hp (advance_of_proceed h)
  | leave pid | shut pid =>
    obtain ⟨c, hp, h⟩ := Option.bind_eq_some_iff.mp h
    split at h
    next hphase =>
      obtain ⟨-, h⟩ := Option.ite_none_right_eq_some.mp h
      cases h
      exact .advanced pid c _ hp (.turned _ (.ended _ _ (hphase ▸ rfl)))
    next => cases h
  | created pid =>
    obtain ⟨c, hp, h⟩ := Option.bind_eq_some_iff.mp h
    exact .advanced pid c _ hp (advance_of_create h)
  | observe => exact .observed _ (observes_of_observe h)
  | sweep => exact .observed _ (observes_of_sweep h)
  | close => exact .closed _ (closes_of_close h)

end Pool

end Dogx.GroupClients
