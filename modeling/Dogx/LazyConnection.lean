import Dogx.Machine.Pool
import Dogx.Machine.Run

/-!
# The lazy connection to the Job service

`lazyConnection` of package `jobrpc` as one machine: callers of `get`, the goroutines of
`initialize` and `Close`, with one step for each critical section of `mu` and for each end of a
call of the factory or of a wait. Initializations are numbered, and the connection that the factory
returns to one of them has its number.
-/

namespace Dogx.LazyConnection

open Function (update update_apply update_self)
open Machine.Pool (update_eq_some)

inductive Err where
  /-- `status.FromContextError(ctx.Err())`. -/
  | context
  /-- "job client is closed" -/
  | closed
  /-- "job service is unavailable" -/
  | unavailable
  deriving DecidableEq

/-- What `get` returns; the connection can be nil. -/
abbrev Outcome := Except Err (Option ℕ)

/-- Whether `c.factory()` has returned a connection, and whether an error. -/
structure Result where
  conn : Bool
  err : Bool
  deriving DecidableEq

inductive Init where
  | calling
  /-- The factory has returned, before `mu`. -/
  | returned (r : Result)
  /-- The client was closed meanwhile: after `mu`, before `conn.Close()`. -/
  | closing (r : Result)
  /-- `pending.done` is closed. -/
  | done (r : Result) (o : Outcome)
  deriving DecidableEq

/-- `pending.conn` and `pending.err`, once `pending.done` is closed. -/
def Init.outcome : Init → Option Outcome
  | done _ o => some o
  | calling | returned _ | closing _ => none

inductive Get where
  | entering
  /-- In `select`, on the initialization. -/
  | waiting (k : ℕ)
  /-- Returned, with the initialization whose end it has waited for. -/
  | returned (via : Option ℕ) (o : Outcome)
  deriving DecidableEq

structure State where
  closed : Bool
  conn : Option ℕ
  pending : Option ℕ
  inits : ℕ → Option Init
  started : ℕ
  /-- How often each connection was closed. -/
  closes : ℕ → ℕ
  gets : ℕ → Option Get
  callers : ℕ

inductive Move where
  /-- `get` is called, with the answer of `ctx.Err()`. -/
  | get (err : Bool)
  | enter (g : ℕ)
  /-- The three cases of `select`. -/
  | expire (g : ℕ)
  | notice (g : ℕ)
  | land (g : ℕ)
  | answer (k : ℕ) (r : Result)
  | settle (k : ℕ)
  /-- A late connection is closed. -/
  | shut (k : ℕ)
  | close

namespace State

def init : State where
  closed := false
  conn := none
  pending := none
  inits := fun _ => none
  started := 0
  closes := fun _ => 0
  gets := fun _ => none
  callers := 0

def put (s : State) (g : ℕ) (p : Get) : State := { s with gets := update s.gets g (some p) }

def set (s : State) (k : ℕ) (i : Init) : State := { s with inits := update s.inits k (some i) }

/-- `conn.Close()`, unless `conn` is nil. -/
def closeConn (s : State) (conn : Option ℕ) (k : ℕ) : ℕ :=
  if conn = some k then s.closes k + 1 else s.closes k

/-- The critical section of `get`. -/
def enter (s : State) (g : ℕ) : State :=
  if s.closed then s.put g (.returned none (.error .closed))
  else match s.conn, s.pending with
    | some conn, _ => s.put g (.returned none (.ok (some conn)))
    | none, some pending => s.put g (.waiting pending)
    | none, none =>
      { (s.set s.started .calling).put g (.waiting s.started) with
        pending := some s.started
        started := s.started + 1 }

/-- The critical section of `initialize`. -/
def settle (s : State) (k : ℕ) (r : Result) : State :=
  if s.closed then s.set k (.closing r)
  else if r.err then { s.set k (.done r (.error .unavailable)) with pending := none }
  else
    let conn := if r.conn then some k else none
    { s.set k (.done r (.ok conn)) with conn, pending := none }

/-- The rest of `initialize` after the client was closed. -/
def shut (s : State) (k : ℕ) (r : Result) : State :=
  { s.set k (.done r (.error .closed)) with
    closes := s.closeConn (if r.conn then some k else none) }

def close (s : State) : State :=
  if s.closed then s else { s with closed := true, closes := s.closeConn s.conn }

def awaited (s : State) (g : ℕ) : Option ℕ :=
  match s.gets g with
  | some (.waiting k) => some k
  | _ => none

def outcome (s : State) (k : ℕ) : Option Outcome := (s.inits k).bind Init.outcome

def step (s : State) : Move → Option State
  | .get err =>
    let p := if err then .returned none (.error .context) else .entering
    some { s.put s.callers p with callers := s.callers + 1 }
  | .enter g => if s.gets g = some .entering then some (s.enter g) else none
  | .expire g => (s.awaited g).map fun _ => s.put g (.returned none (.error .context))
  | .notice g =>
    (s.awaited g).bind fun _ =>
      if s.closed then some (s.put g (.returned none (.error .closed))) else none
  | .land g => (s.awaited g).bind fun k => (s.outcome k).map fun o => s.put g (.returned (some k) o)
  | .answer k r => if s.inits k = some .calling then some (s.set k (.returned r)) else none
  | .settle k =>
    match s.inits k with
    | some (.returned r) => some (s.settle k r)
    | _ => none
  | .shut k =>
    match s.inits k with
    | some (.closing r) => some (s.shut k r)
    | _ => none
  | .close => some s.close

def machine : Machine State Move := { init, step }

end State

open State (machine)

variable {s s' : State} {m : Move} {k g : ℕ} {r : Result}

/-! ## What every step keeps -/

structure Inv (s : State) : Prop where
  fresh : ∀ k, s.started ≤ k → s.inits k = none
  /-- An initialization that has not ended is the pending one. -/
  live : ∀ k i, s.inits k = some i → i.outcome = none → s.pending = some k ∧ s.conn = none
  last : ∀ k, s.pending = some k ∨ s.conn = some k → k + 1 = s.started
  pending : s.closed = false → ∀ k, s.pending = some k → s.outcome k = none
  cached : ∀ k, s.conn = some k → s.outcome k = some (.ok (some k))
  closing : ∀ k r, s.inits k = some (.closing r) → s.closed = true
  once : ∀ k, s.closes k ≤ 1
  closes : ∀ k, s.closes k ≠ 0 → s.closed = true ∧ s.outcome k ≠ none
  owned : ∀ k r o, s.inits k = some (.done r o) → r.conn = true → r.err = false →
    s.conn = some k ∨ s.closes k = 1
  landed : ∀ g k o, s.gets g = some (.returned (some k) o) → s.outcome k = some o

namespace Inv

theorem init : Inv .init := by
  constructor <;> simp [State.init]

section

variable (h : Inv s)
include h

theorem put {n : ℕ} {p : Get} (hp : ∀ k o, p = .returned (some k) o → s.outcome k = some o) :
    Inv { s.put g p with callers := n } where
  __ := h
  landed g' k o hg := by
    rcases update_eq_some hg with ⟨-, heq⟩ | ⟨-, hg⟩
    · exact hp k o heq.symm
    · exact h.landed g' k o hg

theorem enter : Inv (s.enter g) := by
  unfold State.enter
  split
  · exact h.put nofun
  · split
    · exact h.put nofun
    · exact h.put nofun
    · cases h
      constructor <;> simp only [State.put, State.set, State.outcome, update_apply] at * <;>
        grind [Init.outcome]

theorem answer (hk : s.inits k = some .calling) : Inv (s.set k (.returned r)) := by
  cases h
  constructor <;> simp only [State.set, State.outcome, update_apply] at * <;> grind [Init.outcome]

theorem settle (hk : s.inits k = some (.returned r)) : Inv (s.settle k r) := by
  cases h
  unfold State.settle
  split <;> try split
  all_goals
    constructor <;> simp only [State.set, State.outcome, update_apply] at * <;> grind [Init.outcome]

theorem shut (hk : s.inits k = some (.closing r)) : Inv (s.shut k r) := by
  cases h
  constructor <;>
    simp only [State.shut, State.closeConn, State.set, State.outcome, update_apply] at * <;>
    grind [Init.outcome]

theorem close : Inv s.close := by
  unfold State.close
  split
  · exact h
  · cases h
    constructor <;> simp only [State.closeConn, State.outcome] at * <;> grind

end

/-- The lock protects the connection in every run. -/
theorem invariant : machine.Invariant Inv where
  init := init
  step s m s' h hstep := by
    cases m with
    | get err =>
      cases hstep
      exact h.put (by cases err <;> nofun)
    | enter =>
      obtain ⟨-, ⟨⟩⟩ := Option.ite_none_right_eq_some.mp hstep
      exact h.enter
    | expire =>
      obtain ⟨_, -, rfl⟩ := Option.map_eq_some_iff.mp hstep
      exact h.put nofun
    | notice =>
      obtain ⟨_, -, hstep⟩ := Option.bind_eq_some_iff.mp hstep
      obtain ⟨-, ⟨⟩⟩ := Option.ite_none_right_eq_some.mp hstep
      exact h.put nofun
    | land =>
      obtain ⟨k, -, hstep⟩ := Option.bind_eq_some_iff.mp hstep
      obtain ⟨o, ho, rfl⟩ := Option.map_eq_some_iff.mp hstep
      refine h.put ?_
      rintro _ _ ⟨⟩
      exact ho
    | answer =>
      obtain ⟨hk, ⟨⟩⟩ := Option.ite_none_right_eq_some.mp hstep
      exact h.answer hk
    | settle =>
      simp only [machine, State.step] at hstep
      split at hstep
      next hk =>
        cases hstep
        exact h.settle hk
      next => cases hstep
    | shut =>
      simp only [machine, State.step] at hstep
      split at hstep
      next hk =>
        cases hstep
        exact h.shut hk
      next => cases hstep
    | close =>
      cases hstep
      exact h.close

end Inv

/-! ## After `Close` -/

/-- The client is closed with this connection, and the callers `late` have got none. -/
structure Shut (conn : Option ℕ) (late : ℕ → Prop) (s : State) : Prop where
  closed : s.closed = true
  conn_eq : s.conn = conn
  caller : ∀ g, late g → ∀ p, s.gets g = some p →
    p = .entering ∨ ∃ via e, p = .returned via (.error e)

variable {conn : Option ℕ} {late : ℕ → Prop}

theorem Shut.put {n : ℕ} {p : Get} (h : Shut conn late s)
    (hp : late g → p = .entering ∨ ∃ via e, p = .returned via (.error e)) :
    Shut conn late { s.put g p with callers := n } := by
  refine ⟨h.closed, h.conn_eq, fun g' hg q hq => ?_⟩
  rcases update_eq_some hq with ⟨rfl, rfl⟩ | ⟨-, hq⟩
  · exact hp hg
  · exact h.caller g' hg q hq

/-- After `Close` no new connection is cached. -/
theorem Shut.step (h : Shut conn late s) (hstep : s.step m = some s') : Shut conn late s' := by
  have hwait : ∀ {g k}, s.awaited g = some k → ¬late g := by
    intro g k hk hg
    unfold State.awaited at hk
    split at hk
    next hget => rcases h.caller g hg _ hget with heq | ⟨_, _, heq⟩ <;> cases heq
    next => cases hk
  cases m with
  | get err =>
    cases hstep
    refine h.put fun _ => ?_
    cases err
    · exact .inl rfl
    · exact .inr ⟨_, _, rfl⟩
  | enter =>
    obtain ⟨-, ⟨⟩⟩ := Option.ite_none_right_eq_some.mp hstep
    rw [State.enter, if_pos h.closed]
    exact h.put fun _ => .inr ⟨_, _, rfl⟩
  | expire =>
    obtain ⟨_, hk, rfl⟩ := Option.map_eq_some_iff.mp hstep
    exact h.put fun hg => absurd hg (hwait hk)
  | notice =>
    obtain ⟨_, hk, hstep⟩ := Option.bind_eq_some_iff.mp hstep
    obtain ⟨-, ⟨⟩⟩ := Option.ite_none_right_eq_some.mp hstep
    exact h.put fun hg => absurd hg (hwait hk)
  | land =>
    obtain ⟨k, hk, hstep⟩ := Option.bind_eq_some_iff.mp hstep
    obtain ⟨o, ho, rfl⟩ := Option.map_eq_some_iff.mp hstep
    exact h.put fun hg => absurd hg (hwait hk)
  | answer =>
    obtain ⟨-, ⟨⟩⟩ := Option.ite_none_right_eq_some.mp hstep
    exact { h with }
  | settle =>
    simp only [State.step] at hstep
    split at hstep
    · cases hstep
      rw [State.settle, if_pos h.closed]
      exact { h with }
    · cases hstep
  | shut =>
    simp only [State.step] at hstep
    split at hstep <;> cases hstep
    exact { h with }
  | close =>
    cases hstep
    rw [State.close, if_pos h.closed]
    exact h

/-! ## Every interleaving -/

/-- The goroutine of an initialization ends, once the factory has returned. -/
theorem can_end {i : Init} (hk : s.inits k = some i) (hi : i ≠ .calling) :
    machine.Can (fun m => m = .settle k ∨ m = .shut k) (fun t => t.outcome k ≠ none) s := by
  have closing : ∀ {t : State} {r}, t.inits k = some (.closing r) →
      machine.Can (fun m => m = .settle k ∨ m = .shut k) (fun t => t.outcome k ≠ none) t := by
    intro t r ht
    have hstep : machine.step t (.shut k) = some (t.shut k r) := by simp [machine, State.step, ht]
    refine .step hstep (.inr rfl) (.here ?_)
    simp [State.outcome, State.shut, State.set, Init.outcome]
  cases i with
  | calling => exact absurd rfl hi
  | returned r =>
    have hstep : machine.step s (.settle k) = some (s.settle k r) := by
      simp [machine, State.step, hk]
    refine .step hstep (.inl rfl) ?_
    by_cases hc : s.closed
    · exact closing (r := r) (by simp [State.settle, hc, State.set])
    · refine .here ?_
      cases he : r.err <;> simp [State.settle, hc, he, State.outcome, State.set, Init.outcome]
  | closing r => exact closing hk
  | done => exact .here (by simp [State.outcome, hk, Init.outcome])

theorem Inv.retries {e : Err} (h : Inv s) (hopen : s.closed = false) (hlast : k + 1 = s.started)
    (hk : s.outcome k = some (.error e)) : s.conn = none ∧ s.pending = none := by
  constructor
  · refine Option.eq_none_iff_forall_ne_some.mpr fun c hc => ?_
    obtain rfl : c = k := by have := h.last c (.inr hc); omega
    cases hk.symm.trans (h.cached c hc)
  · refine Option.eq_none_iff_forall_ne_some.mpr fun c hc => ?_
    obtain rfl : c = k := by have := h.last c (.inl hc); omega
    cases hk.symm.trans (h.pending hopen c hc)

/-- One call of the factory at a time, whose outcome all who wait for it get; a connection
returned without error is cached or closed, at most once, when its initialization has ended; after
`Close` the cached connection stays what it is, and a later `get` returns none; after a failure
the next `get` begins anew. -/
theorem connection_owned (ms : List Move) (s : State) (h : machine.run ms = some s) :
    (∀ k k', s.inits k = some .calling → s.inits k' = some .calling → k = k')
    ∧ (∀ g k o, s.gets g = some (.returned (some k) o) → s.outcome k = some o)
    ∧ (∀ k r o, s.inits k = some (.done r o) → r.conn = true → r.err = false →
        s.conn = some k ∨ s.closes k = 1)
    ∧ (∀ k i, s.inits k = some i → i ≠ .calling →
        machine.Can (fun m => m = .settle k ∨ m = .shut k) (fun t => t.outcome k ≠ none) s)
    ∧ (∀ k, s.closes k ≤ 1)
    ∧ (s.closed = true → ∀ ms' s', machine.runFrom s ms' = some s' → s'.conn = s.conn ∧
        ∀ g via conn, s.gets g = none → s'.gets g ≠ some (.returned via (.ok conn)))
    ∧ ∀ k e g, s.closed = false → k + 1 = s.started → s.outcome k = some (.error e) →
        s.gets g = some .entering → ∃ s', s.step (.enter g) = some s' ∧
          s'.inits (k + 1) = some .calling ∧ s'.gets g = some (.waiting (k + 1)) := by
  have hs := Inv.invariant.run h
  refine ⟨fun k k' hk hk' => ?_, hs.landed, hs.owned, fun _ _ => can_end, hs.once,
    fun hc ms' s' hr => ?_, fun k e g hopen hlast hk hg => ?_⟩
  · exact Option.some.inj ((hs.live k _ hk rfl).1.symm.trans (hs.live k' _ hk' rfl).1)
  · have hshut : Shut s.conn (s.gets · = none) s' := Inv.invariant.keep (fun _ _ _ _ h => h.step) hs
      ⟨hc, rfl, fun g hg p hp => by cases hg.symm.trans hp⟩ hr
    refine ⟨hshut.conn_eq, fun g via c hg hret => ?_⟩
    rcases hshut.caller g hg _ hret with heq | ⟨_, _, heq⟩ <;> cases heq
  · obtain ⟨hconn, hpending⟩ := hs.retries hopen hlast hk
    refine ⟨_, if_pos hg, ?_⟩
    simp [State.enter, hopen, hconn, hpending, State.put, State.set, hlast]

/-- The first attempt fails, a second one succeeds after the client was closed. -/
def demo : List Move :=
  [.get false, .enter 0, .answer 0 ⟨false, true⟩, .settle 0, .land 0, .get false, .enter 1, .close,
    .answer 1 ⟨true, false⟩, .settle 1, .shut 1]

theorem demo_connection_owned : ∃ s ∈ machine.run demo, s.inits 1 = some (.done ⟨true, false⟩
    (.error .closed)) ∧ s.conn = none ∧ (s.conn = some 1 ∨ s.closes 1 = 1) := by
  obtain ⟨s, hs, hk, hc⟩ : ∃ s ∈ machine.run demo,
      s.inits 1 = some (.done ⟨true, false⟩ (.error .closed)) ∧ s.conn = none := by decide +kernel
  exact ⟨s, hs, hk, hc, (connection_owned demo s hs).2.2.1 1 _ _ hk rfl rfl⟩

/-! ## No connection is left open -/

/-- Once closed, a cached connection has been closed, exactly once. -/
theorem Inv.closed_cached (h : Inv s) (hs : s.closed = true → ∀ k, s.conn = some k → s.closes k = 1)
    (hstep : s.step m = some s') : s'.closed = true → ∀ k, s'.conn = some k → s'.closes k = 1 := by
  cases m with
  | get =>
    cases hstep
    exact hs
  | enter =>
    obtain ⟨-, ⟨⟩⟩ := Option.ite_none_right_eq_some.mp hstep
    unfold State.enter
    repeat' split
    all_goals exact hs
  | expire =>
    obtain ⟨_, -, rfl⟩ := Option.map_eq_some_iff.mp hstep
    exact hs
  | notice =>
    obtain ⟨_, -, hstep⟩ := Option.bind_eq_some_iff.mp hstep
    obtain ⟨-, ⟨⟩⟩ := Option.ite_none_right_eq_some.mp hstep
    exact hs
  | land =>
    obtain ⟨_, -, hstep⟩ := Option.bind_eq_some_iff.mp hstep
    obtain ⟨_, -, rfl⟩ := Option.map_eq_some_iff.mp hstep
    exact hs
  | answer =>
    obtain ⟨-, ⟨⟩⟩ := Option.ite_none_right_eq_some.mp hstep
    exact hs
  | settle =>
    simp only [State.step] at hstep
    split at hstep <;> cases hstep
    unfold State.settle
    split
    · exact hs
    next hopen => split <;> exact fun hc => absurd hc hopen
  | shut j =>
    simp only [State.step] at hstep
    split at hstep <;> cases hstep
    -- an initialization that has not ended leaves nothing cached
    next hj => simp [State.shut, State.set, (h.live j _ hj rfl).2]
  | close =>
    cases hstep
    unfold State.close
    split
    · exact hs
    · next hopen =>
      intro _ k hk
      have hnone : s.closes k = 0 := by
        by_contra hk
        exact hopen (h.closes k hk).1
      simp_all [State.closeConn]

/-- As long as the client is open no connection has been closed. From `Close` on, every connection
that an initialization has ended with is closed, once. -/
theorem connections_closed (ms : List Move) (s : State) (h : machine.run ms = some s) :
    (s.closed = false → ∀ k, s.closes k = 0)
    ∧ (s.closed = true → ∀ k r o, s.inits k = some (.done r o) → r.conn = true → r.err = false →
        s.closes k = 1) := by
  have hs := (Inv.invariant.and (P := fun s => s.closed = true → ∀ k, s.conn = some k →
    s.closes k = 1) nofun fun _ _ _ => Inv.closed_cached).run h
  refine ⟨fun hopen k => ?_, fun hc k r o hk hconn herr => ?_⟩
  · by_contra hk
    cases hopen.symm.trans (hs.1.closes k hk).1
  · exact (hs.1.owned k r o hk hconn herr).elim (hs.2 hc k) id

theorem demo_connections_closed : ∃ s ∈ machine.run demo, s.closed = true ∧ s.closes 1 = 1 := by
  obtain ⟨s, hs, hk, hc⟩ : ∃ s ∈ machine.run demo,
      s.inits 1 = some (.done ⟨true, false⟩ (.error .closed)) ∧ s.closed = true := by decide +kernel
  exact ⟨s, hs, hc, (connections_closed demo s hs).2 hc 1 _ _ hk rfl rfl⟩

end Dogx.LazyConnection
