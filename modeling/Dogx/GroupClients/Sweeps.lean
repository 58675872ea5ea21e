import Dogx.GroupClients.Flights

/-!
# The observer

A refresh that replaces the snapshot captures `removeObsolete`, unless the pool holds no clients. Until the
observer has looked at a client, the client may be one of an older snapshot; all others were contained in
the cache of this generation.
-/

namespace Dogx.GroupClients

open GroupCache (Cache Config Notifies)

variable {s s' : Pool} {m : Move} {pid : ℕ} {c : Call} {client : Client} {cache : Cache}

/-- Who finds the pool unlocked finds no sweep at work. -/
theorem Pool.ne_sweeping (hfree : s.locked = false) (todo : List Client) (removed : List ℕ) :
    s.observer ≠ some (.sweeping todo removed) := by
  intro h
  rw [locked, h] at hfree
  cases hfree

/-! ## Opening and closing -/

structure Gates (s : Pool) : Prop where
  unopened : s.opened = false → s.clients = [] ∧ ∀ i, s.calls i = none
  closed : s.closed = true → s.clients = []
  subscribed : s.opened = true → s.closed = false → s.subscribed = true
  marked : s.closing ≠ .pending → s.closed = true

namespace Gates

theorem opened (h : Gates s) (hp : s.calls pid = some c) : s.opened = true := by
  by_contra hopen
  cases ((h.unopened (eq_false_of_ne_true hopen)).2 pid).symm.trans hp

theorem lessen (h : Gates s) {clients : List Client} (hclients : s.clients = [] → clients = [])
    (observer : Option Sweep) : Gates { s with clients, observer } :=
  { h with
    unopened := fun ho => (h.unopened ho).imp_left hclients
    closed := fun hc => hclients (h.closed hc) }

theorem without_nil {id : Int} (h : s.clients = []) : s.without id = [] := by
  rw [Pool.without, h]
  rfl

theorem advance (h : Gates s) (hp : s.calls pid = some c) (ha : Advance s pid c s') : Gates s' := by
  have hun : ∀ {p : Prop}, s.opened = false → p := fun ho => by cases ho.symm.trans (h.opened hp)
  cases ha with
  | claimed => exact { h with unopened := hun, closed := fun hc => without_nil (h.closed hc) }
  | published _ _ _ _ hopen =>
    exact { h with unopened := hun, closed := fun hc => by cases hopen.symm.trans hc }
  | _ => exact { h with unopened := hun }

theorem observes (h : Gates s) (ho : Observes s s') : Gates s' := by
  cases ho with
  | kept =>
    refine h.lessen (fun hnil => ?_) _
    rw [hnil]
    rfl
  | dropped => exact h.lessen without_nil _
  | _ => exact { h with }

theorem closes (h : Gates s) (hc : Closes s s') : Gates s' := by
  cases hc with
  | marked =>
    exact ⟨fun ho => ⟨rfl, (h.unopened ho).2⟩, fun _ => rfl, nofun, fun _ => rfl⟩
  | unsubscribed _ hclosing =>
    have hclosed : s.closed = true := h.marked (by rw [hclosing]; nofun)
    exact { h with
      subscribed := fun _ hopen => by cases hclosed.symm.trans hopen
      marked := fun _ => hclosed }
  | ended _ _ _ hclosing =>
    have hclosed : s.closed = true := h.marked (by rw [hclosing]; nofun)
    exact { h with marked := fun _ => hclosed }

theorem invariant : pool.Invariant Gates where
  init := ⟨fun _ => ⟨rfl, fun _ => rfl⟩, nofun, nofun, fun h => absurd rfl h⟩
  step s m s' h hs := by
    cases Pool.change_of_step hs with
    | cached => exact { h with }
    | opened => exact { h with unopened := nofun, subscribed := fun _ _ => rfl }
    | called _ hopen => exact { h with unopened := fun ho => by cases hopen.symm.trans ho }
    | canceled _ c hp => exact { h with unopened := fun ho => by cases ho.symm.trans (h.opened hp) }
    | advanced _ c _ hp ha => exact h.advance hp ha
    | observed _ ho => exact h.observes ho
    | closed _ hc => exact h.closes hc

end Gates

/-! ## Clients the observer has yet to look at -/

def Sweep.Awaits (client : Client) : Sweep → Prop
  | entering => True
  | sweeping todo _ => client ∈ todo
  | closing _ => False

structure Swept (s : Pool) : Prop where
  todo : ∀ todo removed, s.observer = some (.sweeping todo removed) → ∀ client ∈ todo,
    client ∈ s.clients
  checked : ∀ client ∈ s.clients, client.checked = s.cache.generation ∨
    ∃ sweep, s.observer = some sweep ∧ sweep.Awaits client
  notifies : s.observer ≠ none → ∃ q, Notifies s.cache q

namespace Swept

theorem checked_of_seen (h : Swept s) (hmem : client ∈ s.clients)
    (hseen : ∀ sweep, s.observer = some sweep → ¬ sweep.Awaits client) :
    client.checked = s.cache.generation := by
  rcases h.checked client hmem with hgen | ⟨sweep, hsweep, hawaits⟩
  · exact hgen
  · exact absurd hawaits (hseen sweep hsweep)

theorem moved (h : Swept s) (hobserver : s'.observer = s.observer)
    (hgen : s'.cache.generation = s.cache.generation)
    (hnotify : ∀ q, Notifies s.cache q → Notifies s'.cache q)
    (hclients : s'.clients = s.clients ∨ s.locked = false ∧
      ∀ client ∈ s'.clients, client ∈ s.clients ∨ client.checked = s.cache.generation) :
    Swept s' where
  todo todo removed ho client hmem := by
    rw [hobserver] at ho
    rcases hclients with heq | ⟨hfree, -⟩
    · exact heq ▸ h.todo todo removed ho client hmem
    · exact absurd ho (Pool.ne_sweeping hfree _ _)
  checked client hmem := by
    rw [hobserver, hgen]
    rcases hclients with heq | ⟨-, hall⟩
    · exact h.checked client (heq ▸ hmem)
    · rcases hall client hmem with hold | hnew
      · exact h.checked client hold
      · exact .inl hnew
  notifies ho := by
    obtain ⟨q, hq⟩ := h.notifies (hobserver ▸ ho)
    exact ⟨q, hnotify q hq⟩

theorem advance (h : Swept s) (hf : Flown s) (ha : Advance s pid c s') : Swept s' := by
  cases ha with
  | asked cache _ hcache =>
    refine h.moved rfl ?_ (fun q hq => hq.step hf.cache.tidy hcache nofun) (.inl rfl)
    obtain ⟨-, ⟨⟩⟩ := Option.ite_none_right_eq_some.mp hcache
    rfl
  | claimed _ _ hfree =>
    refine h.moved rfl rfl (fun _ hq => hq) (.inr ⟨hfree, fun client hmem => .inl ?_⟩)
    exact (List.mem_filter.mp hmem).1
  | published _ _ _ hfree =>
    refine h.moved rfl rfl (fun _ hq => hq) (.inr ⟨hfree, fun client hmem => ?_⟩)
    rcases List.mem_append.mp hmem with hmem | hmem
    · exact .inl (List.mem_filter.mp hmem).1
    · cases List.mem_singleton.mp hmem
      exact .inr rfl
  | _ =>
    exact h.moved rfl rfl (fun _ hq => hq) (.inl rfl)

theorem awaits_filter {todo : List Client} {id : Int} (hmem : client ∈ todo)
    (hne : client.group.id ≠ id) : client ∈ todo.filter fun c => c.group.id ≠ id :=
  List.mem_filter.mpr ⟨hmem, decide_eq_true hne⟩

theorem observes (h : Swept s) (ho : Observes s s') : Swept s' := by
  cases ho with
  | entered hobs =>
    refine ⟨fun todo removed ho client hmem => ?_, fun client hmem => .inr ⟨_, rfl, hmem⟩,
      fun _ => h.notifies (by rw [hobs]; nofun)⟩
    cases ho
    exact hmem
  | kept todo removed _ hobs =>
    refine ⟨fun todo' removed' ho client hmem => ?_, fun client hmem => ?_,
      fun _ => h.notifies (by rw [hobs]; nofun)⟩
    · cases ho
      obtain ⟨hold, hne⟩ := List.mem_filter.mp hmem
      refine List.mem_map.mpr ⟨client, h.todo todo removed hobs client hold, ?_⟩
      rw [if_neg (of_decide_eq_true hne)]
    · obtain ⟨old, hold, rfl⟩ := List.mem_map.mp hmem
      split
      · exact .inl rfl
      next hne =>
        refine (h.checked old hold).imp_right ?_
        rintro ⟨sweep, hsweep, hawaits⟩
        cases hobs.symm.trans hsweep
        exact ⟨_, rfl, awaits_filter hawaits hne⟩
  | dropped todo removed _ hobs =>
    refine ⟨fun todo' removed' ho client hmem => ?_, fun client hmem => ?_,
      fun _ => h.notifies (by rw [hobs]; nofun)⟩
    · cases ho
      obtain ⟨hold, hne⟩ := List.mem_filter.mp hmem
      exact List.mem_filter.mpr ⟨h.todo todo removed hobs client hold, hne⟩
    · obtain ⟨hold, hne⟩ := List.mem_filter.mp hmem
      refine (h.checked client hold).imp_right ?_
      rintro ⟨_, hsweep, hawaits⟩
      cases hobs.symm.trans hsweep
      exact ⟨_, rfl, awaits_filter hawaits (of_decide_eq_true hne)⟩
  | swept _ hobs =>
    refine ⟨nofun, fun client hmem => .inl (h.checked_of_seen hmem ?_),
      fun _ => h.notifies (by rw [hobs]; nofun)⟩
    rw [hobs]
    rintro _ ⟨⟩
    exact List.not_mem_nil
  | cleaned _ _ hobs =>
    refine ⟨nofun, fun client hmem => .inl (h.checked_of_seen hmem ?_),
      fun _ => h.notifies (by rw [hobs]; nofun)⟩
    rw [hobs]
    rintro _ ⟨⟩ ⟨⟩
  | observed hobs =>
    refine ⟨nofun, fun client hmem => .inl (h.checked_of_seen hmem ?_), fun hne => absurd rfl hne⟩
    rw [hobs]
    rintro _ ⟨⟩ ⟨⟩

theorem closes (h : Swept s) (hc : Closes s s') : Swept s' := by
  cases hc with
  | marked _ hfree => exact h.moved rfl rfl (fun _ hq => hq) (.inr ⟨hfree, nofun⟩)
  | unsubscribed | ended => exact h.moved rfl rfl (fun _ hq => hq) (.inl rfl)

theorem still_notifies (h : Swept s) (hf : Flown s) {m : GroupCache.Move}
    (hcache : s.cache.step m = some cache) (hwait : s.returning m = true → s.observer = none)
    (hobs : s.observer ≠ none) : ∃ q, Notifies cache q := by
  obtain ⟨q, hq⟩ := h.notifies hobs
  refine ⟨q, hq.step hf.cache.tidy hcache ?_⟩
  rintro rfl
  obtain ⟨p, hp, hphase⟩ := hq
  refine hobs (hwait ?_)
  simp [Pool.returning, hp, hphase]

theorem idle (h : Swept s) (hf : Flown s) {m : GroupCache.Move}
    (hcache : s.cache.step m = some cache) (hlt : s.cache.generation < cache.generation) :
    s.observer = none := by
  rcases GroupCache.generation_of_change hf.cache.tidy (GroupCache.Cache.change_of_step hcache) with
    heq | ⟨-, -, hnone⟩
  · exact absurd hlt (heq ▸ Nat.lt_irrefl _)
  · by_contra hobs
    obtain ⟨q, hq⟩ := h.notifies hobs
    exact hnone q hq

/-- A new snapshot leaves every client for the observer to look at. -/
theorem cached (h : Swept s) (hf : Flown s) (hg : Gates s) {m : GroupCache.Move}
    (hcache : s.cache.step m = some cache) (hwait : s.returning m = true → s.observer = none) :
    Swept { s with
      cache
      observer := if s.cache.generation < cache.generation && s.subscribed then some .entering
        else s.observer } := by
  have hstill := h.still_notifies hf hcache hwait
  rcases GroupCache.generation_of_change hf.cache.tidy (GroupCache.Cache.change_of_step hcache) with
    heq | ⟨hlt, hnew, -⟩
  · have hobserver : (if s.cache.generation < cache.generation && s.subscribed then some .entering
        else s.observer) = s.observer := by
      simp [heq]
    rw [hobserver]
    refine ⟨h.todo, fun client hmem => ?_, hstill⟩
    exact (h.checked client hmem).imp_left fun hgen => hgen.trans heq.symm
  · have hidle := h.idle hf hcache hlt
    cases hsub : s.subscribed with
    | true =>
      simp only [hlt]
      exact ⟨nofun, fun client _ => .inr ⟨_, rfl, trivial⟩, fun _ => hnew⟩
    | false =>
      have hnil : s.clients = [] := by
        by_cases hopen : s.opened = true
        · refine hg.closed ?_
          by_contra hclosed
          cases (hg.subscribed hopen (eq_false_of_ne_true hclosed)).symm.trans hsub
        · exact (hg.unopened (eq_false_of_ne_true hopen)).1
      simp only [Bool.and_false, hidle]
      refine ⟨nofun, fun client hmem => ?_, fun hne => absurd rfl hne⟩
      rw [hnil] at hmem
      cases hmem

end Swept

end Dogx.GroupClients
