import Dogx.GroupCache.Named

/-!
# The two indexes

When IDs and names determine each other in the source, `byID` and `byName` hold the same
configurations after every step. A refresh that fails has not touched them, and a miss load
publishes only into the snapshot in which its query began.
-/

namespace Dogx.GroupCache

open Cache (machine)
open Function (update update_apply update_self)

variable {s s' : Cache} {m : Move} {c config : Config} {pid : ℕ} {p : Process}
  {phase phase' : Phase} {groups : List Config} {U : Config → Prop} {ms : List Move} {maps : Maps}

/-! ## Pairs -/

/-- IDs and names of the configurations determine each other. -/
def Identifying (U : Config → Prop) : Prop := ∀ c c', U c → U c' → (c.id = c'.id ↔ c.name = c'.name)

structure Maps.Fits (U : Config → Prop) (m : Maps) : Prop where
  same : ∀ c, m.byId c.id = some c ↔ m.byName c.name = some c
  has : ∀ c, m.Has c → U c

namespace Maps.Fits

theorem empty : Maps.empty.Fits U := ⟨by simp [Maps.empty], by simp [Maps.Has, Maps.empty]⟩

theorem put (h : maps.Fits U) (hU : Identifying U) (hc : U config) : (maps.put config).Fits U := by
  refine ⟨fun c => ?_, fun c hhas => ?_⟩
  · have hsame := h.same c
    have hid : maps.byId c.id = some c → (c.id = config.id ↔ c.name = config.name) := fun hi =>
      hU c config (h.has c (.inl ⟨_, hi⟩)) hc
    simp only [Maps.put, update_apply]
    grind
  · rcases Maps.has_put hhas with rfl | hhas
    · exact hc
    · exact h.has c hhas

theorem extend {maps' : Maps} {keys : List String} (hU : Identifying U) (h : maps.Fits U)
    (hm : maps.extend keys groups = .ok maps') (hg : ∀ c ∈ groups, U c) : maps'.Fits U := by
  induction groups generalizing maps keys with
  | nil =>
    cases hm
    exact h
  | cons group _ ih =>
    obtain ⟨hfirst, hrest⟩ := List.forall_mem_cons.mp hg
    unfold Maps.extend at hm
    split at hm
    · cases hm
    · split at hm
      · cases hm
      · exact ih (h.put hU hfirst) hm hrest

end Maps.Fits

/-- The source changes only to configurations of `U`. -/
def Within (U : Config → Prop) (m : Move) : Prop :=
  ∀ content, m = .change content → ∀ c ∈ content, U c

def Phase.Draws (U : Config → Prop) : Phase → Prop
  | loading (some groups) => ∀ c ∈ groups, U c
  | replacing maps => maps.Fits U
  | querying _ _ (some (some config)) | publishing _ _ (.ok config) => U config
  | _ => True

structure Drawn (U : Config → Prop) (s : Cache) : Prop where
  source : ∀ c ∈ s.source, U c
  maps : s.maps.Fits U
  phases : ∀ i q, s.calls i = some q → q.phase.Draws U

namespace Drawn

theorem turn (h : Drawn U s) (hU : Identifying U) (hphase : phase.Draws U)
    (ht : Turn s phase phase') : phase'.Draws U := by
  cases ht with
  | loaded => exact h.source
  | validated _ _ hmaps => exact Maps.Fits.empty.extend hU hmaps hphase
  | read key =>
    cases hfind : s.source.find? key.names with
    | none => trivial
    | some => exact h.source _ (List.mem_of_find?_eq_some hfind)
  | answered => exact hphase
  | _ => trivial

theorem step (h : Drawn U s) (hU : Identifying U) (hm : Within U m) (hc : Change s m s') :
    Drawn U s' := by
  have keep : ∀ {pid : ℕ} {q₀ : Process}, q₀.phase.Draws U → ∀ i q,
      update s.calls pid (some q₀) i = some q → q.phase.Draws U :=
    forall_update (P := fun _ phase => phase.Draws U) h.phases
  cases hc with
  | changed content => exact ⟨hm content rfl, h.maps, h.phases⟩
  | called call =>
    exact ⟨h.source, h.maps, keep (start_elim trivial (fun _ => trivial) (fun _ => trivial) call)⟩
  | canceled pid p hp => exact ⟨h.source, h.maps, keep (h.phases pid p hp)⟩
  | advanced _ pid p _ hp ha =>
    have here := h.phases pid p hp
    cases ha with
    | turned _ hturn => exact ⟨h.source, h.maps, keep (h.turn hU here hturn)⟩
    | replaced _ hphase =>
      rw [hphase] at here
      exact ⟨h.source, here, keep trivial⟩
    | published _ _ hphase =>
      rw [hphase] at here
      exact ⟨h.source, h.maps.put hU here, keep trivial⟩
    | entered | refreshed | opened | finished => exact ⟨h.source, h.maps, keep trivial⟩

theorem run (hU : Identifying U) (h : machine.run ms = some s) (hms : ∀ m ∈ ms, Within U m) :
    Drawn U s := by
  have halong : machine.Along (fun _ m _ => Within U m) .init ms s :=
    .of_runFrom h hms fun _ _ _ hm => hm
  refine halong.keeps (P := Drawn U) Tidy.invariant ?_ Tidy.init ⟨nofun, .empty, nofun⟩
  exact fun s m s' _ hs hstep hm => hs.step hU hm (Cache.change_of_step hstep)

end Drawn

/-! ## Who changes the indexes -/

def Move.caller : Move → Option ℕ
  | .change _ | .call _ => none
  | .cancel pid | .abandon pid | .sample pid | .answer pid _ | .run pid => some pid

theorem advance_of_pid (h : s.step m = some s') (hm : m.caller = some pid)
    (hmaps : s'.maps ≠ s.maps) : ∃ p, s.calls pid = some p ∧ Advance s pid p s' := by
  cases m with
  | change | call => cases hm
  | cancel =>
    obtain ⟨_, _, rfl⟩ := Option.map_eq_some_iff.mp h
    exact absurd rfl hmaps
  | abandon | sample | answer | run =>
    cases hm
    obtain ⟨p, hp, h⟩ := Option.bind_eq_some_iff.mp h
    first
      | exact ⟨p, hp, Cache.advance_of_abandon h⟩
      | exact ⟨p, hp, Cache.advance_of_sample h⟩
      | exact ⟨p, hp, Cache.advance_of_answer h⟩
      | exact ⟨p, hp, Cache.advance_of_proceed h⟩

def Phase.unreplaced : Phase → Bool
  | gate | loading _ | replacing _ | returned (.refreshed (.error _)) => true
  | _ => false

def Replaced (pid : ℕ) (s : Cache) : Prop := ∃ p, s.calls pid = some p ∧ p.phase.unreplaced = false

theorem replaced_of_maps (h : s.step m = some s') (hm : m.caller = some pid)
    (hmaps : s'.maps ≠ s.maps) : Replaced pid s' := by
  obtain ⟨p, -, ha⟩ := advance_of_pid h hm hmaps
  cases ha with
  | replaced | published => exact ⟨_, update_self .., rfl⟩
  | turned | entered | refreshed | opened | finished => exact absurd rfl hmaps

theorem Turn.unreplaced (h : Turn s phase phase') (hp : phase.unreplaced = false) :
    phase'.unreplaced = false := by
  cases h with
  | refused | loaded | validated => cases hp
  | _ => rfl

theorem Replaced.step (h : Replaced pid s) (hs : Tidy s) (hstep : s.step m = some s') :
    Replaced pid s' := by
  obtain ⟨p, hp, hphase⟩ := h
  by_cases hnotify : p.phase = .notifying
  · by_cases hm : m = .run pid
    · obtain rfl : s.leave pid p (.ok ()) = s' := by
        simpa [hm, Cache.step, hp, Cache.proceed, hnotify] using hstep
      exact ⟨_, update_self .., rfl⟩
    · obtain ⟨q, hq, hn⟩ := Notifies.step ⟨p, hp, hnotify⟩ hs hstep hm
      exact ⟨q, hq, hn ▸ rfl⟩
  · rcases hs.fate (Cache.change_of_step hstep) hp with ⟨q, hq, hsame⟩ | ha
    · exact ⟨q, hq, hsame ▸ hphase⟩
    · cases ha with
      | turned _ hturn => exact ⟨_, update_self .., hturn.unreplaced hphase⟩
      | entered h => simp [h, Phase.unreplaced] at hphase
      | refreshed _ h =>
        cases hq : p.phase <;> simp_all [Phase.gated, Phase.unreplaced]
      | replaced | opened | published | finished => exact ⟨_, update_self .., rfl⟩

/-! ## Queries and snapshots -/

/-- The query of the call has begun in the snapshot that the cache still has. -/
def Awaits (pid g : ℕ) (s : Cache) : Prop :=
  s.generation = g ∧ ∃ p, s.calls pid = some p ∧ p.phase.since = some g

structure Asks (pid : ℕ) (s s' : Cache) : Prop where
  before : ∃ p key, s.calls pid = some p ∧ p.phase = .missing key
  after : ∃ q key, s'.calls pid = some q ∧ q.phase = .querying key s.generation none

/-- A query is on its way from the step that asks it. -/
theorem asks_of_awaits {g : ℕ} (hs : Tidy s) (hc : Change s m s') (hbefore : ¬Awaits pid g s)
    (h : Awaits pid g s') : Asks pid s s' := by
  obtain ⟨hgen, q, hq, hsince⟩ := h
  have hle : s.generation ≤ s'.generation := by
    rcases generation_of_change hs hc with heq | ⟨hlt, -⟩
    · exact Nat.le_of_eq heq.symm
    · exact Nat.le_of_lt hlt
  have hnone : ∀ p, s.calls pid = some p → p.phase.since ≠ some g := fun p hp hg =>
    hbefore ⟨Nat.le_antisymm (hgen ▸ hle) (hs.since pid p hp g hg), p, hp, hg⟩
  cases hc.origin hq with
  | began call hphase =>
    rw [hphase] at hsince
    exact absurd hsince
      (start_elim (P := (·.since ≠ some g)) nofun (fun _ => nofun) (fun _ => nofun) call)
  | stood p hp hphase => exact absurd (hphase ▸ hsince) (hnone p hp)
  | moved p hp ha =>
    have hold := hnone p hp
    cases ha with
    | turned phase hturn =>
      cases (update_self ..).symm.trans hq
      generalize hb : p.phase = before at hold hturn
      cases hturn with
      | asked key => exact ⟨⟨p, key, hp, hb⟩, _, key, update_self .., rfl⟩
      | read | answered | absent => exact absurd hsince hold
      | _ => cases hsince
    | entered | replaced | refreshed | opened | published | finished =>
      cases (update_self ..).symm.trans hq
      cases hsince

/-- What is published was asked for in the snapshot that takes it. -/
theorem began_of_published {key : LookupKey} {g : ℕ} {loaded : Except Err Config}
    (h : machine.run ms = some s) (hstep : s.step m = some s') (hm : m.caller = some pid)
    (hp : s.calls pid = some p) (hphase : p.phase = .publishing key g loaded)
    (hmaps : s'.maps ≠ s.maps) :
    ∃ t m' t', machine.Began (Awaits pid s.generation) .init ms s t m' t' ∧ Asks pid t t' := by
  obtain ⟨q, hq, ha⟩ := advance_of_pid hstep hm hmaps
  cases hp.symm.trans hq
  have hnow : Awaits pid s.generation s := by
    cases ha with
    | published _ _ hpub => exact ⟨rfl, p, hp, hpub ▸ rfl⟩
    | replaced _ hrep => cases hphase.symm.trans hrep
    | turned | entered | refreshed | opened | finished => exact absurd rfl hmaps
  obtain ⟨t, m', t', hbegan⟩ := Machine.began h nofun hnow
  obtain ⟨_, _, _, hrun, _⟩ := hbegan.split
  exact ⟨t, m', t', hbegan, asks_of_awaits (Tidy.invariant.run hrun)
    (Cache.change_of_step hbegan.step) hbegan.before hbegan.after⟩

/-! ## The indexes in every run -/

/-- Where the source keeps IDs and names together: both indexes hold the same; a refresh that has
failed has not changed them; and when a miss load publishes, no snapshot was installed since its
query began. -/
theorem indexes_consistent (U : Config → Prop) (hU : Identifying U) (ms : List Move) (s : Cache)
    (h : machine.run ms = some s) (hsource : ∀ m ∈ ms, Within U m) :
    (∀ i c, s.maps.byId i = some c ↔ s.maps.byName c.name = some c ∧ c.id = i)
    ∧ (∀ n c, s.maps.byName n = some c → c.name = n)
    ∧ (∀ pid e, s.outcome pid = some (.refreshed (.error e)) → ∀ t m t',
        machine.StepIn .init ms s t m t' → m.caller = some pid → t'.maps = t.maps)
    ∧ ∀ m s' pid p key g loaded, s.step m = some s' → m.caller = some pid → s.calls pid = some p →
        p.phase = .publishing key g loaded → s'.maps ≠ s.maps →
        ∃ t m' t', machine.Began (Awaits pid s.generation) .init ms s t m' t' ∧ Asks pid t t' := by
  have hkeyed := (keyed_invariant.run h).maps
  refine ⟨fun i c => ?_, hkeyed.name, ?_, fun _ _ _ _ _ _ _ => began_of_published h⟩
  · rw [← (Drawn.run hU h hsource).maps.same]
    refine ⟨fun hi => ?_, fun hi => hi.2 ▸ hi.1⟩
    obtain rfl := hkeyed.id i c hi
    exact ⟨hi, rfl⟩
  · intro pid e hout t m t' hin hm
    by_contra hmaps
    obtain ⟨_, _, -, hbefore, hafter⟩ := hin.split
    have ht' := Tidy.invariant.step (Tidy.invariant.run hbefore) hin.step
    obtain ⟨p, hp, hphase⟩ := Tidy.invariant.keep (fun _ _ _ hs hr => hr.step hs) ht'
      (replaced_of_maps hin.step hm hmaps) hafter
    obtain ⟨q, hq, hret⟩ := outcome_eq_some hout
    cases hp.symm.trans hq
    rw [hret] at hphase
    cases hphase

theorem demo_indexes_consistent : ∃ s ∈ machine.run demoLookup,
    s.maps.byId 1 = some demoGroup ∧ s.maps.byName "group" = some demoGroup := by
  obtain ⟨s, hs, hid⟩ : ∃ s ∈ machine.run demoLookup, s.maps.byId 1 = some demoGroup := by
    decide +kernel
  have hpaired := (indexes_consistent (· = demoGroup) (by rintro _ _ rfl rfl; simp) _ s hs
    (by simp [demoLookup, Within])).1
  exact ⟨s, hs, hid, ((hpaired 1 demoGroup).mp hid).1⟩

/-! ## What lookups return -/

/-- In every interleaving a lookup returns a configuration with the ID or the name that was asked
for, be it from the indexes, from the source or from the flight of another lookup. -/
theorem lookup_keyed (ms ms' : List Move) (s t s' : Cache) (h : machine.run ms = some s) (call : Call)
    (hcall : s.step (.call call) = some t) (h' : machine.runFrom t ms' = some s') (c : Config)
    (hfound : s'.outcome s.next = some (.found (.ok c))) :
    (∀ id, call = .byId id → c.id = id) ∧ ∀ name, call = .byName name → c.name = name := by
  have ht : Keyed t := keyed_invariant.step (m := .call call) (keyed_invariant.run h) hcall
  obtain ⟨p, hp, hphase⟩ := outcome_eq_some hfound
  constructor
  · rintro id rfl
    have hlooks : Looks s' s.next id := keyed_invariant.keep
      (fun _ _ _ hs hl hstep => Looks.step hl hs (Cache.change_of_step hstep)) ht (Looks.called hcall) h'
    exact hlooks.id_eq hp hphase
  · rintro name rfl
    obtain ⟨-, ⟨⟩⟩ := Option.ite_none_right_eq_some.mp hcall
    obtain ⟨q, hq, hf⟩ := keyed_invariant.keep
      (P := fun u => ∃ q, u.calls s.next = some q ∧ q.phase.Finds u ⟨0, name⟩)
      (fun _ _ _ hu ⟨_, hq, hf⟩ hstep => hu.finds (Cache.change_of_step hstep) hq hf) ht
      ⟨_, update_self .., rfl⟩ h'
    cases hp.symm.trans hq
    rw [hphase] at hf
    exact (of_decide_eq_true (hf c rfl)).symm

theorem demo_lookup_keyed : ∃ s ∈ machine.run (demoLookup.take 7), ∃ t ∈ s.step (.call (.byName "group")),
    ∃ s' ∈ machine.runFrom t [.run 1, .run 1, .run 1, .sample 1, .answer 1 .value, .run 1, .run 1],
      s'.outcome s.next = some (.found (.ok demoGroup)) ∧ demoGroup.name = "group" := by
  obtain ⟨s, hs, t, ht, s', hs', hout⟩ : ∃ s ∈ machine.run (demoLookup.take 7),
      ∃ t ∈ s.step (.call (.byName "group")), ∃ s' ∈ machine.runFrom t
        [.run 1, .run 1, .run 1, .sample 1, .answer 1 .value, .run 1, .run 1],
        s'.outcome s.next = some (.found (.ok demoGroup)) := by decide +kernel
  exact ⟨s, hs, t, ht, s', hs', hout, (lookup_keyed _ _ s t s' hs _ ht hs' _ hout).2 _ rfl⟩

end Dogx.GroupCache
