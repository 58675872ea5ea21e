import Dogx.GroupClients.Step

/-!
# Flights

A call that constructs the client of a group has the flight of that group, so there is one such call
at most. Until it publishes, no client of the group is cached.
-/

namespace Dogx.GroupClients

open GroupCache (Cache Config)
open Machine.Pool (update_eq_some)

variable {s s' : Pool} {m : Move} {pid : ℕ} {c c' : Call} {group : Config} {phase : Phase}

/-! ## Calls -/

theorem Phase.constructs_of_idle (h : phase.idle = true) : phase.constructs = none := by
  cases phase with
  | looping | resolving | locking | waiting => rfl
  | _ => cases h

theorem Phase.constructs_of_unpublished (h : phase.unpublished = some group) :
    phase.constructs = some group := by
  cases phase with
  | replacing | creating | publishing => exact h
  | _ => cases h

structure Call.Fits (s : Pool) (pid : ℕ) (c : Call) : Prop where
  lookup : ∀ q, c.phase = .resolving q → GroupCache.Looks s.cache q c.id
  locking : ∀ g, c.phase = .locking g → g.id = c.id
  constructs : ∀ g, c.phase.constructs = some g → g.id = c.id ∧ s.flights g.id = some pid
  unpublished : ∀ g, c.phase.unpublished = some g → ∀ client ∈ s.clients, client.group.id ≠ g.id

namespace Call.Fits

theorem mono (h : c.Fits s pid)
    (hlook : ∀ q id, GroupCache.Looks s.cache q id → GroupCache.Looks s'.cache q id)
    (hflights : ∀ id, s.flights id = some pid → s'.flights id = some pid)
    (hclients : ∀ client ∈ s'.clients, (∃ old ∈ s.clients, old.group.id = client.group.id) ∨
      s.flights client.group.id ≠ some pid) : c.Fits s' pid where
  lookup q hq := hlook q _ (h.lookup q hq)
  locking := h.locking
  constructs g hg := ⟨(h.constructs g hg).1, hflights _ (h.constructs g hg).2⟩
  unpublished g hg client hmem heq := by
    rcases hclients client hmem with ⟨old, hold, hid⟩ | hother
    · exact h.unpublished g hg old hold (hid.trans heq)
    · rw [heq] at hother
      exact hother (h.constructs g (Phase.constructs_of_unpublished hg)).2

theorem turn (h : c.Fits s pid) (hres : ∀ q, phase ≠ .resolving q)
    (hlock : ∀ g, phase = .locking g → g.id = c.id) (hcon : phase.constructs = c.phase.constructs)
    (hun : ∀ g, phase.unpublished = some g → c.phase.unpublished = some g) :
    Call.Fits s pid { c with phase } where
  lookup q hq := absurd hq (hres q)
  locking := hlock
  constructs g hg := h.constructs g (hcon ▸ hg)
  unpublished g hg := h.unpublished g (hun g hg)

end Call.Fits

theorem Turn.fits (hturn : Turn s c.phase phase) (h : c.Fits s pid) :
    Call.Fits s pid { c with phase } := by
  obtain ⟨id, _, _⟩ := c
  cases hturn with
  | ended _ r hidle =>
    exact h.turn nofun nofun (Phase.constructs_of_idle hidle).symm nofun
  | resolved q p group hq hfound =>
    have hid : group.id = id := (h.lookup q rfl).id_eq hq hfound
    refine h.turn nofun (fun g hg => ?_) rfl nofun
    cases hg
    exact hid
  | _ => exact h.turn nofun nofun rfl nofun

/-! ## The pool -/

structure Flown (s : Pool) : Prop where
  cache : GroupCache.Keyed s.cache
  fresh : ∀ i, s.next ≤ i → s.calls i = none
  calls : ∀ i c, s.calls i = some c → c.Fits s i
  distinct : (s.clients.map fun c => c.group.id).Nodup

namespace Flown

theorem lt_next (h : Flown s) (hp : s.calls pid = some c) : pid < s.next := by
  by_contra hlt
  cases (h.fresh pid (Nat.not_lt.mp hlt)).symm.trans hp

theorem moved (h : Flown s) (hp : s.calls pid = some c)
    (hcalls : s'.calls = Function.update s.calls pid (some c')) (hnext : s'.next = s.next)
    (hcache : GroupCache.Keyed s'.cache)
    (hlook : ∀ q id, GroupCache.Looks s.cache q id → GroupCache.Looks s'.cache q id)
    (hflights : ∀ id i, i ≠ pid → s.flights id = some i → s'.flights id = some i)
    (hclients : ∀ client ∈ s'.clients, (∃ old ∈ s.clients, old.group.id = client.group.id) ∨
      s.flights client.group.id = some pid)
    (hdistinct : (s'.clients.map fun c => c.group.id).Nodup) (hfits : c'.Fits s' pid) :
    Flown s' where
  cache := hcache
  fresh i hi := by
    rw [hnext] at hi
    rw [hcalls, Function.update_of_ne (Nat.ne_of_gt (Nat.lt_of_lt_of_le (h.lt_next hp) hi))]
    exact h.fresh i hi
  calls i q hq := by
    rw [hcalls] at hq
    rcases update_eq_some hq with ⟨rfl, rfl⟩ | ⟨hne, hq⟩
    · exact hfits
    · refine (h.calls i q hq).mono hlook (fun id => hflights id i hne) fun client hmem => ?_
      refine (hclients client hmem).imp_right fun hpid hi => hne ?_
      rw [hpid] at hi
      exact (Option.some.inj hi).symm
  distinct := hdistinct

theorem turn (h : Flown s) (hp : s.calls pid = some c) (gone : List ℕ) (made : ℕ)
    (hfits : Call.Fits s pid { c with phase }) : Flown ({ s with gone, made }.set pid c phase) :=
  h.moved hp rfl rfl h.cache (fun _ _ hq => hq) (fun _ _ _ hi => hi)
    (fun client hmem => .inl ⟨client, hmem, rfl⟩) h.distinct { hfits with }

theorem kept (h : Flown s) (hcalls : s'.calls = s.calls) (hnext : s'.next = s.next)
    (hcache : GroupCache.Keyed s'.cache)
    (hlook : ∀ q id, GroupCache.Looks s.cache q id → GroupCache.Looks s'.cache q id)
    (hflights : s'.flights = s.flights)
    (hclients : (s'.clients.map fun c => c.group.id).Sublist (s.clients.map fun c => c.group.id)) :
    Flown s' where
  cache := hcache
  fresh i hi := by
    rw [hcalls]
    exact h.fresh i (hnext ▸ hi)
  calls i c hc := by
    rw [hcalls] at hc
    refine (h.calls i c hc).mono hlook (fun id hi => hflights ▸ hi) fun client hmem => .inl ?_
    exact List.mem_map.mp (hclients.subset (List.mem_map_of_mem hmem))
  distinct := h.distinct.sublist hclients

theorem lessen (h : Flown s) (hcalls : s'.calls = s.calls) (hnext : s'.next = s.next)
    (hcache : s'.cache = s.cache) (hflights : s'.flights = s.flights)
    (hclients : (s'.clients.map fun c => c.group.id).Sublist (s.clients.map fun c => c.group.id)) :
    Flown s' :=
  h.kept hcalls hnext (hcache ▸ h.cache) (fun _ _ hq => hcache ▸ hq) hflights hclients

theorem keyed_step {m : GroupCache.Move} {cache : Cache} (h : GroupCache.Keyed s.cache)
    (hs : s.cache.step m = some cache) : GroupCache.Keyed cache :=
  GroupCache.keyed_invariant.step h hs

theorem map_looked {β : Type*} {f : Client → β} {n : ℕ} (hf : ∀ c, f { c with checked := n } = f c)
    (clients : List Client) (id : Int) :
    (clients.map fun c => if c.group.id = id then { c with checked := n } else c).map f =
      clients.map f := by
  rw [List.map_map]
  refine List.map_congr_left fun c _ => ?_
  rw [Function.comp_apply]
  split
  · exact hf c
  · rfl

theorem without_sublist (s : Pool) (id : Int) :
    ((s.without id).map fun c => c.group.id).Sublist (s.clients.map fun c => c.group.id) :=
  List.filter_sublist.map _

theorem ne_of_mem_without {id : Int} {client : Client} (h : client ∈ s.without id) :
    client.group.id ≠ id := by
  simpa using (List.mem_filter.mp h).2

theorem advance (h : Flown s) (hp : s.calls pid = some c) (ha : Advance s pid c s') : Flown s' := by
  have hfits := h.calls pid c hp
  cases ha with
  | turned _ hturn => exact h.turn hp _ _ (hturn.fits hfits)
  | asked cache _ hcache =>
    have hchange := GroupCache.Cache.change_of_step hcache
    refine h.moved hp rfl rfl (keyed_step h.cache hcache) (fun q id hq => hq.step h.cache hchange)
      (fun _ _ _ hi => hi) (fun client hmem => .inl ⟨client, hmem, rfl⟩) h.distinct ?_
    refine ⟨fun q hq => ?_, nofun, nofun, nofun⟩
    cases hq
    exact .called hcache
  | claimed group hphase _ hnew =>
    have hid : group.id = c.id := hfits.locking group hphase
    refine h.moved hp rfl rfl h.cache (fun _ _ hq => hq) (fun id i _ hi => ?_)
      (fun client hmem => .inl ⟨client, (List.mem_filter.mp hmem).1, rfl⟩)
      (h.distinct.sublist (without_sublist s c.id)) ⟨nofun, nofun, fun g hg => ?_, fun g hg => ?_⟩
    · have hne : id ≠ c.id := by
        rintro rfl
        cases hnew.symm.trans hi
      exact (Function.update_of_ne hne _ _).trans hi
    · cases hg
      exact ⟨hid, by rw [hid]; exact Function.update_self ..⟩
    · cases hg
      intro client hmem
      rw [hid]
      exact ne_of_mem_without hmem
  | replaced _ _ hphase | created _ _ n hphase =>
    exact h.turn hp _ _ (hfits.turn nofun nofun (hphase ▸ rfl) fun g hg => by rw [hphase]; exact hg)
  | published group _ hphase =>
    have hcon : c.phase.constructs = some group := hphase ▸ rfl
    obtain ⟨hid, hflight⟩ := hfits.constructs group hcon
    refine h.moved hp rfl rfl h.cache (fun _ _ hq => hq) (fun _ _ _ hi => hi) (fun client hmem => ?_)
      ?_ ⟨nofun, nofun, fun g hg => ?_, nofun⟩
    · rcases List.mem_append.mp hmem with hmem | hmem
      · exact .inl ⟨client, (List.mem_filter.mp hmem).1, rfl⟩
      · cases List.mem_singleton.mp hmem
        exact .inr hflight
    · simp only [Pool.set, List.map_append]
      refine List.Nodup.append (h.distinct.sublist (without_sublist s group.id))
        (List.nodup_singleton _) ?_
      intro id hmem hone
      obtain ⟨client, hclient, rfl⟩ := List.mem_map.mp hmem
      exact ne_of_mem_without hclient (List.mem_singleton.mp hone)
    · cases hg
      exact ⟨hid, hflight⟩
  | discarded _ _ _ hphase =>
    exact h.turn hp _ _ (hfits.turn nofun nofun (hphase ▸ rfl) nofun)
  | landed group _ hphase =>
    have hcon : c.phase.constructs = some group := hphase ▸ rfl
    obtain ⟨-, hflight⟩ := hfits.constructs group hcon
    refine h.moved hp rfl rfl h.cache (fun _ _ hq => hq) (fun id i hne hi => ?_)
      (fun client hmem => .inl ⟨client, hmem, rfl⟩) h.distinct ⟨nofun, nofun, nofun, nofun⟩
    have hother : id ≠ group.id := by
      rintro rfl
      rw [hflight] at hi
      exact hne (Option.some.inj hi).symm
    exact (Function.update_of_ne hother _ _).trans hi

theorem observes (h : Flown s) (ho : Observes s s') : Flown s' := by
  cases ho with
  | kept =>
    refine h.lessen rfl rfl rfl rfl ?_
    exact map_looked (f := fun c => c.group.id) (fun _ => rfl) s.clients _ ▸ .refl _
  | dropped => exact h.lessen rfl rfl rfl rfl (without_sublist s _)
  | _ => exact h.lessen rfl rfl rfl rfl (.refl _)

theorem closes (h : Flown s) (hc : Closes s s') : Flown s' := by
  cases hc with
  | marked => exact h.lessen rfl rfl rfl rfl (List.nil_sublist _)
  | unsubscribed | ended => exact h.lessen rfl rfl rfl rfl (.refl _)

/-- In every run, the flights are those of the calls that began them. -/
theorem invariant : pool.Invariant Flown where
  init := by
    refine ⟨GroupCache.keyed_invariant.init, fun _ _ => rfl, fun i c hc => ?_, List.nodup_nil⟩
    cases hc
  step s m s' h hs := by
    cases Pool.change_of_step hs with
    | cached m cache hcache =>
      exact h.kept rfl rfl (keyed_step h.cache hcache)
        (fun q id hq => hq.step h.cache (GroupCache.Cache.change_of_step hcache)) rfl (.refl _)
    | opened => exact h.lessen rfl rfl rfl rfl (.refl _)
    | called =>
      refine ⟨h.cache, fun i hi => ?_, fun i c hc => ?_, h.distinct⟩
      · have hne : i ≠ s.next := Nat.ne_of_gt hi
        exact (Function.update_of_ne hne _ _).trans (h.fresh i (Nat.le_of_succ_le hi))
      · rcases update_eq_some hc with ⟨rfl, rfl⟩ | ⟨-, hc⟩
        · exact ⟨nofun, nofun, nofun, nofun⟩
        · have hfits := h.calls i c hc
          exact { hfits with }
    | canceled pid c hp =>
      have hfits := h.calls pid c hp
      exact h.moved hp rfl rfl h.cache (fun _ _ hq => hq) (fun _ _ _ hi => hi)
        (fun client hmem => .inl ⟨client, hmem, rfl⟩) h.distinct { hfits with }
    | advanced _ c _ hp ha => exact h.advance hp ha
    | observed _ ho => exact h.observes ho
    | closed _ hc => exact h.closes hc

theorem eq_of_constructs (h : Flown s) {i j : ℕ} {a b : Call} {g g' : Config}
    (hi : s.calls i = some a) (hj : s.calls j = some b) (ha : a.phase.constructs = some g)
    (hb : b.phase.constructs = some g') (hid : g.id = g'.id) : i = j := by
  have hflight := ((h.calls i a hi).constructs g ha).2
  rw [hid, ((h.calls j b hj).constructs g' hb).2] at hflight
  exact (Option.some.inj hflight).symm

end Flown

end Dogx.GroupClients
