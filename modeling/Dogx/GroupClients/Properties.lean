import Dogx.GroupClients.Holds

/-!
# The pool in every run

Where each connection is, and when the cache contained the group of a cached client.
-/

namespace Dogx.GroupClients

open GroupCache (Cache Config Notifies)

variable {s s' t : Pool} {m : Move} {ms : List Move} {client : Client} {conn q : ℕ}

/-! ## One place for each connection -/

inductive Place where
  | cached (id : Int)
  | call (pid : ℕ)
  | observer
  | closer
  | closed
  deriving DecidableEq

def Pool.Has (s : Pool) (conn : ℕ) : Place → Prop
  | .cached id => ∃ client ∈ s.clients, client.group.id = id ∧ client.conn = conn
  | .call pid => ∃ c, s.calls pid = some c ∧ c.phase.holds = some conn
  | .observer => conn ∈ s.observed
  | .closer => conn ∈ s.closing.removed
  | .closed => conn ∈ s.gone

def Pool.countAt (s : Pool) (conn : ℕ) : Place → ℕ
  | .cached _ => (s.clients.map Client.conn).count conn
  | .call _ => s.held.count conn
  | .observer => s.observed.count conn
  | .closer => s.closing.removed.count conn
  | .closed => s.gone.count conn

theorem Pool.mem_held (hf : Flown s) :
    conn ∈ s.held ↔ ∃ pid c, s.calls pid = some c ∧ c.phase.holds = some conn := by
  rw [held, Machine.Pool.mem_collect]
  constructor
  · rintro ⟨i, -, hi⟩
    obtain ⟨c, hc, hholds⟩ := Option.bind_eq_some_iff.mp hi
    exact ⟨i, c, hc, hholds⟩
  · rintro ⟨i, c, hc, hholds⟩
    exact ⟨i, hf.lt_next hc, Option.bind_eq_some_iff.mpr ⟨c, hc, hholds⟩⟩

namespace Regular

variable (h : Regular s)
include h

theorem places_le_one (conn : ℕ) : s.places conn ≤ 1 := by
  rw [h.books conn]
  exact List.nodup_iff_count_le_one.mp List.nodup_range' conn

theorem places_eq_one (hpos : 1 ≤ conn) (hle : conn ≤ s.made) : s.places conn = 1 := by
  rw [h.books conn]
  refine List.count_eq_one_of_mem List.nodup_range' (List.mem_range'_1.mpr ?_)
  omega

theorem nodup_of_count_le {conns : List ℕ} (hle : ∀ conn, conns.count conn ≤ s.places conn) :
    conns.Nodup :=
  List.nodup_iff_count_le_one.mpr fun conn => Nat.le_trans (hle conn) (h.places_le_one conn)

theorem closed_once : s.gone.Nodup := by
  refine h.nodup_of_count_le fun conn => ?_
  unfold Pool.places
  omega

/-- Every connection made is somewhere. -/
theorem exists_place (hpos : 1 ≤ conn) (hle : conn ≤ s.made) : ∃ place, s.Has conn place := by
  have hone := h.places_eq_one hpos hle
  by_contra hnone
  have hno : ∀ place, ¬ s.Has conn place := fun place hplace => hnone ⟨place, hplace⟩
  have hcached : (s.clients.map Client.conn).count conn = 0 := by
    refine List.count_eq_zero.mpr fun hmem => ?_
    obtain ⟨client, hclient, hconn⟩ := List.mem_map.mp hmem
    exact hno (.cached client.group.id) ⟨client, hclient, rfl, hconn⟩
  have hheld : s.held.count conn = 0 := by
    refine List.count_eq_zero.mpr fun hmem => ?_
    obtain ⟨pid, hpid⟩ := (Pool.mem_held h.flown).mp hmem
    exact hno (.call pid) hpid
  have hobserved : s.observed.count conn = 0 := List.count_eq_zero.mpr (hno .observer)
  have hcloser : s.closing.removed.count conn = 0 := List.count_eq_zero.mpr (hno .closer)
  have hgone : s.gone.count conn = 0 := List.count_eq_zero.mpr (hno .closed)
  unfold Pool.places at hone
  omega

theorem cached_unique {i j : Int} (hi : s.Has conn (.cached i)) (hj : s.Has conn (.cached j)) :
    i = j := by
  have hnodup : (s.clients.map Client.conn).Nodup := by
    refine h.nodup_of_count_le fun conn => ?_
    unfold Pool.places
    omega
  obtain ⟨a, ha, rfl, hconn⟩ := hi
  obtain ⟨b, hb, rfl, hconn'⟩ := hj
  rw [List.inj_on_of_nodup_map hnodup ha hb (hconn.trans hconn'.symm)]

theorem call_unique {i j : ℕ} (hi : s.Has conn (.call i)) (hj : s.Has conn (.call j)) : i = j := by
  have hnodup : (s.held.map fun conn => conn).Nodup := by
    rw [List.map_id']
    refine h.nodup_of_count_le fun conn => ?_
    unfold Pool.places
    omega
  obtain ⟨a, ha, hconn⟩ := hi
  obtain ⟨b, hb, hconn'⟩ := hj
  exact Machine.Pool.eq_of_key_eq hnodup (h.flown.lt_next ha) (h.flown.lt_next hb)
    (Option.bind_eq_some_iff.mpr ⟨a, ha, hconn⟩) (Option.bind_eq_some_iff.mpr ⟨b, hb, hconn'⟩) rfl

theorem countAt_pos {place : Place} (hplace : s.Has conn place) : 0 < s.countAt conn place := by
  cases place with
  | cached =>
    obtain ⟨client, hclient, -, hconn⟩ := hplace
    exact List.count_pos_iff.mpr (List.mem_map.mpr ⟨client, hclient, hconn⟩)
  | call pid => exact List.count_pos_iff.mpr ((Pool.mem_held h.flown).mpr ⟨pid, hplace⟩)
  | _ => exact List.count_pos_iff.mpr hplace

theorem place_unique {place other : Place} (hplace : s.Has conn place) (hother : s.Has conn other) :
    place = other := by
  have hpos := h.countAt_pos hplace
  have hpos' := h.countAt_pos hother
  have hle := h.places_le_one conn
  unfold Pool.places at hle
  unfold Pool.countAt at hpos hpos'
  -- two different kinds of places would count the connection twice
  cases place <;> cases other <;> try (simp only at hpos hpos'; omega)
  case cached.cached => rw [h.cached_unique hplace hother]
  case call.call => rw [h.call_unique hplace hother]
  all_goals rfl

end Regular

/-! ## When a client was found in the cache -/

theorem Change.cache_step (h : Change s s') : s'.cache = s.cache ∨ ∃ m,
    s.cache.step m = some s'.cache ∧ s'.clients = s.clients ∧
      ((∃ id, m = .call (.byId id)) ∨ (s.returning m = true → s.observer = none)) := by
  cases h with
  | cached m _ hcache hwait => exact .inr ⟨m, hcache, rfl, .inr hwait⟩
  | advanced _ c _ _ ha =>
    cases ha with
    | asked _ _ hcache => exact .inr ⟨_, hcache, rfl, .inl ⟨_, rfl⟩⟩
    | _ => exact .inl rfl
  | observed _ ho => cases ho <;> exact .inl rfl
  | closed _ hc => cases hc <;> exact .inl rfl
  | _ => exact .inl rfl

theorem Change.notifies_back (hf : Flown s) (h : Change s s') :
    s.cache.generation ≤ s'.cache.generation ∧
      (s'.cache.generation = s.cache.generation → Notifies s'.cache q → Notifies s.cache q) := by
  rcases h.cache_step with heq | ⟨m, hcache, -⟩
  · rw [heq]
    exact ⟨Nat.le_refl _, fun _ hq => hq⟩
  · have hchange := GroupCache.Cache.change_of_step hcache
    refine ⟨?_, fun hgen hq => hq.of_step hchange hgen⟩
    rcases GroupCache.generation_of_change hf.cache.tidy hchange with hgen | ⟨hlt, -⟩
    · exact Nat.le_of_eq hgen.symm
    · exact Nat.le_of_lt hlt

theorem notifies_back (hf : Flown s) (h : pool.runFrom s ms = some s') :
    s.cache.generation ≤ s'.cache.generation ∧
      (s'.cache.generation = s.cache.generation → Notifies s'.cache q → Notifies s.cache q) := by
  induction ms generalizing s with
  | nil =>
    cases h
    exact ⟨Nat.le_refl _, fun _ hq => hq⟩
  | cons m _ ih =>
    obtain ⟨t, hm, hrest⟩ := Machine.runFrom_cons.mp h
    obtain ⟨hle, hback⟩ := Change.notifies_back hf (Pool.change_of_step hm)
    obtain ⟨hle', hback'⟩ := ih (Flown.invariant.step hf hm) hrest
    refine ⟨Nat.le_trans hle hle', fun hgen hq => ?_⟩
    exact hback (by omega) (hback' (by omega) hq)

theorem Change.contains (h : Regular s) (hc : Change s s') (hmem : client ∈ s'.clients) :
    client ∈ s.clients ∨
      client.checked = s.cache.generation ∧ s.cache.contains client.group = true := by
  cases hc with
  | advanced _ c _ _ ha =>
    cases ha with
    | turned | asked | replaced | created | discarded | landed => exact .inl hmem
    | claimed => exact .inl (List.mem_filter.mp hmem).1
    | published _ _ _ _ _ hin =>
      rcases List.mem_append.mp hmem with hmem | hmem
      · exact .inl (List.mem_filter.mp hmem).1
      · cases List.mem_singleton.mp hmem
        exact .inr ⟨rfl, hin⟩
  | observed _ ho =>
    cases ho with
    | entered | swept | cleaned | observed => exact .inl hmem
    | dropped => exact .inl (List.mem_filter.mp hmem).1
    | kept todo removed seen hobs hseen hin =>
      obtain ⟨old, hold, rfl⟩ := List.mem_map.mp hmem
      have hseen := h.swept.todo todo removed hobs seen hseen
      split
      next hid =>
        have heq : old = seen := List.inj_on_of_nodup_map h.flown.distinct hold hseen hid
        exact .inr ⟨rfl, by rw [heq]; exact hin⟩
      next => exact .inl hold
  | closed _ hc =>
    cases hc with
    | marked => cases hmem
    | unsubscribed | ended => exact .inl hmem
  | _ => exact .inl hmem

def Contained (ms : List Move) (client : Client) : Prop :=
  ∃ before after t, ms = before ++ after ∧ pool.run before = some t ∧
    t.cache.generation = client.checked ∧ t.cache.contains client.group = true

theorem contained (h : pool.run ms = some s) (hmem : client ∈ s.clients) : Contained ms client := by
  induction ms using List.reverseRecOn generalizing s with
  | nil =>
    cases h
    cases hmem
  | append_singleton ms m ih =>
    obtain ⟨t, ht, hlast⟩ := Machine.run_append.mp h
    obtain ⟨u, hm, hnil⟩ := Machine.runFrom_cons.mp hlast
    cases hnil
    rcases (Pool.change_of_step hm).contains (Regular.invariant.run ht) hmem with hold | ⟨hgen, hin⟩
    · obtain ⟨before, after, u, rfl, hu, hchecked⟩ := ih ht hold
      exact ⟨before, after ++ [m], u, List.append_assoc .., hu, hchecked⟩
    · exact ⟨ms, [m], t, rfl, ht, hgen.symm, hin⟩

/-! ## The return of a refresh -/

theorem Change.idle_of_returns (hf : Flown s) (hc : Change s s')
    (hbefore : s.cache.outcome q ≠ some (.refreshed (.ok ())))
    (hafter : s'.cache.outcome q = some (.refreshed (.ok ()))) :
    Notifies s.cache q ∧ s.observer = none ∧ s'.clients = s.clients := by
  rcases hc.cache_step with heq | ⟨m, hcache, hclients, hm⟩
  · rw [heq] at hafter
    exact absurd hafter hbefore
  · have hq := Notifies.of_returns (GroupCache.Cache.change_of_step hcache) hbefore hafter
    have hrun : m = .run q := by
      by_contra hm
      exact (hq.step hf.cache.tidy hcache hm).not_returned hafter
    subst hrun
    rcases hm with ⟨_, ⟨⟩⟩ | hwait
    refine ⟨hq, hwait ?_, hclients⟩
    obtain ⟨p, hp, hphase⟩ := hq
    simp [Pool.returning, hp, hphase]

/-- A client that outlasts a refresh was contained in its snapshot. -/
theorem contained_after_refresh (h : pool.run ms = some s) (hs : pool.step s m = some s')
    (hbefore : s.cache.outcome q ≠ some (.refreshed (.ok ())))
    (hafter : s'.cache.outcome q = some (.refreshed (.ok ()))) (hmem : client ∈ s'.clients) :
    ∃ before after t, ms = before ++ after ∧ pool.run before = some t ∧ Notifies t.cache q ∧
      t.cache.contains client.group = true := by
  have hreg := Regular.invariant.run h
  obtain ⟨hq, hidle, hclients⟩ := (Pool.change_of_step hs).idle_of_returns hreg.flown hbefore hafter
  rw [hclients] at hmem
  have hchecked : client.checked = s.cache.generation := by
    refine hreg.swept.checked_of_seen hmem fun sweep hsweep => ?_
    cases hidle.symm.trans hsweep
  obtain ⟨before, after, t, rfl, ht, hgen, hin⟩ := contained h hmem
  obtain ⟨_, ht', hrest⟩ := Machine.run_append.mp h
  cases ht.symm.trans ht'
  have hback : Notifies t.cache q :=
    (notifies_back (Flown.invariant.run ht) hrest).2 (hchecked.symm.trans hgen.symm) hq
  exact ⟨before, after, t, rfl, ht, hback, hin⟩

/-! ## Closing -/

theorem closed_keeps : pool.Keeps Gates fun s => s.closed = true := by
  intro s m s' _ hclosed hs
  cases Pool.change_of_step hs with
  | advanced _ c _ _ ha => cases ha <;> exact hclosed
  | observed _ ho => cases ho <;> exact hclosed
  | closed _ hc =>
    cases hc with
    | marked => rfl
    | unsubscribed | ended => exact hclosed
  | _ => exact hclosed

theorem clients_nil_of_closed (h : Regular s) (hclosed : s.closed = true)
    (hr : pool.runFrom s ms = some s') : s'.clients = [] :=
  (Gates.invariant.runFrom h.gates hr).closed (Gates.invariant.keep closed_keeps h.gates hclosed hr)

/-! ## Every run -/

/-- Each connection that the factory has returned is in one place, and none was closed twice; no
group has two clients or two constructions; when a refresh returns, the cache contained the group
of each client since the snapshot was replaced; and no client is cached once the pool is closed.
-/
theorem connections_owned (h : pool.run ms = some s) :
    (∀ conn, 1 ≤ conn → conn ≤ s.made → ∃! place, s.Has conn place) ∧ s.gone.Nodup ∧
    (s.clients.map fun client => client.group.id).Nodup ∧
    (∀ i j a b g g', s.calls i = some a → s.calls j = some b → a.phase.constructs = some g →
      b.phase.constructs = some g' → g.id = g'.id → i = j) ∧
    (∀ m s' q, pool.step s m = some s' → s.cache.outcome q ≠ some (.refreshed (.ok ())) →
      s'.cache.outcome q = some (.refreshed (.ok ())) → ∀ client ∈ s'.clients,
        ∃ before after t, ms = before ++ after ∧ pool.run before = some t ∧
          Notifies t.cache q ∧ t.cache.contains client.group = true) ∧
    (s.closed = true → ∀ ms' s', pool.runFrom s ms' = some s' → s'.clients = []) := by
  have hreg := Regular.invariant.run h
  refine ⟨fun conn hpos hle => ?_, hreg.closed_once, hreg.flown.distinct, ?_, ?_, ?_⟩
  · obtain ⟨place, hplace⟩ := hreg.exists_place hpos hle
    exact ⟨place, hplace, fun other hother => hreg.place_unique hother hplace⟩
  · intro i j a b g g' hi hj ha hb hid
    exact hreg.flown.eq_of_constructs hi hj ha hb hid
  · intro m s' q hs hbefore hafter client hmem
    exact contained_after_refresh h hs hbefore hafter hmem
  · intro hclosed ms' s' hr
    exact clients_nil_of_closed hreg hclosed hr

namespace Demo

open GroupCache (demoGroup)

/-- The cache is loaded and a client of its group is made. A second refresh has kept the client, and its
observer has returned. -/
def kept : List Move :=
  [.cache (.change [demoGroup]), .cache (.call .refresh), .cache (.run 0), .cache (.sample 0),
    .cache (.answer 0 .value), .cache (.run 0), .cache (.run 0), .open, .executor 1, .run 0,
    .cache (.run 1), .run 0, .run 0, .run 0, .created 0 .complete, .run 0, .run 0,
    .cache (.call .refresh), .cache (.run 2), .cache (.sample 2), .cache (.answer 2 .value),
    .cache (.run 2), .observe, .sweep 1, .observe, .observe]

end Demo

theorem demo_owned : ∃ s s', pool.run Demo.kept = some s ∧ s.made = 1 ∧
    (∃! place, s.Has 1 place) ∧ pool.step s (.cache (.run 2)) = some s' ∧
    s'.clients.map Client.group = [GroupCache.demoGroup] ∧ ∀ client ∈ s'.clients,
      ∃ before after t, Demo.kept = before ++ after ∧ pool.run before = some t ∧
        Notifies t.cache 2 ∧ t.cache.contains client.group = true := by
  obtain ⟨s, hs, hmade, hbefore, s', hs', hafter, hclients⟩ : ∃ s ∈ pool.run Demo.kept,
      s.made = 1 ∧ s.cache.outcome 2 = none ∧ ∃ s' ∈ pool.step s (.cache (.run 2)),
        s'.cache.outcome 2 = some (.refreshed (.ok ())) ∧
          s'.clients.map Client.group = [GroupCache.demoGroup] := by decide +kernel
  obtain ⟨hplaces, -, -, -, hrefresh, -⟩ := connections_owned hs
  refine ⟨s, s', hs, hmade, hplaces 1 (Nat.le_refl _) (Nat.le_of_eq hmade.symm), hs', hclients, ?_⟩
  exact hrefresh _ s' 2 hs' (by rw [hbefore]; nofun) hafter

end Dogx.GroupClients
