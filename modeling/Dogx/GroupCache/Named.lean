import Dogx.GroupCache.Properties

/-!
# Lookups find what they look for

What a lookup returns has the ID or the name that was asked for, whether it comes from the indexes, from
the source or from the flight of another lookup.
-/

namespace Dogx.GroupCache

open Cache (machine)
open Function (update_of_ne update_self)

variable {s s' : Cache} {m : Move} {key : LookupKey} {c config : Config} {pid i lookup : ℕ}
  {p q : Process} {phase phase' : Phase} {groups : List Config} {o : Outcome} {id : Int}

/-! ## The indexes -/

structure Maps.Keyed (m : Maps) : Prop where
  id : ∀ i c, m.byId i = some c → c.id = i
  name : ∀ n c, m.byName n = some c → c.name = n

namespace Maps.Keyed

theorem put {m : Maps} (h : m.Keyed) (config : Config) : (m.put config).Keyed where
  id i c hc := by
    by_cases hi : i = config.id
    · subst hi
      simp only [Maps.put, update_self, Option.some.injEq] at hc
      rw [hc]
    · simp only [Maps.put, update_of_ne hi] at hc
      exact h.id i c hc
  name n c hc := by
    by_cases hn : n = config.name
    · subst hn
      simp only [Maps.put, update_self, Option.some.injEq] at hc
      rw [hc]
    · simp only [Maps.put, update_of_ne hn] at hc
      exact h.name n c hc

theorem extend {m m' : Maps} {keys : List String} (h : m.Keyed) (hm : m.extend keys groups = .ok m') :
    m'.Keyed := by
  induction groups generalizing m keys with
  | nil =>
    cases hm
    exact h
  | cons group _ ih =>
    unfold Maps.extend at hm
    split at hm
    · cases hm
    · split at hm
      · cases hm
      · exact ih (h.put group) hm

theorem snapshot {m : Maps} (h : Maps.snapshot groups = .ok m) : m.Keyed :=
  extend ⟨fun _ _ hc => (by cases hc), fun _ _ hc => (by cases hc)⟩ h

theorem names {m : Maps} (h : m.Keyed) (hc : m.cached key = some c) : key.names c = true := by
  unfold Maps.cached at hc
  unfold LookupKey.names
  split at hc
  next hid => rw [if_pos hid, h.id _ _ hc]; exact decide_eq_true rfl
  next hid => rw [if_neg hid, h.name _ _ hc]; exact decide_eq_true rfl

end Maps.Keyed

/-! ## Lookups -/

def Names (key : LookupKey) (r : Except Err Config) : Prop := ∀ c, r = .ok c → key.names c = true

def FlightOf (s : Cache) (key : LookupKey) (flight : ℕ) : Prop :=
  (∃ p, s.calls flight = some p ∧ p.phase.flying = some key) ∨
    ∃ r, s.results flight = some r ∧ Names key r

def Phase.Finds (s : Cache) (key : LookupKey) : Phase → Prop
  | .seeking k | .claiming k | .missing k | .querying k _ _ => k = key
  | .publishing k _ r | .finishing k r => k = key ∧ Names key r
  | .waiting flight => FlightOf s key flight
  | .returned (.found r) => Names key r
  | .gate | .loading _ | .replacing _ | .notifying | .returned (.refreshed _) => False

theorem Names.error (key : LookupKey) (e : Err) : Names key (.error e) := nofun

theorem Phase.Finds.key_eq {k : LookupKey} (h : phase.Finds s key) (hfly : phase.flying = some k) :
    k = key := by
  cases phase with
  | missing | querying =>
    cases hfly
    exact h
  | publishing | finishing =>
    cases hfly
    exact h.1
  | _ => cases hfly

structure Keyed (s : Cache) : Prop where
  tidy : Tidy s
  maps : s.maps.Keyed
  replacing : ∀ i p, s.calls i = some p → ∀ maps, p.phase = .replacing maps → maps.Keyed
  flying : ∀ i p, s.calls i = some p → ∀ k, p.phase.flying = some k → p.phase.Finds s k

theorem Turn.finds (hturn : Turn s phase phase') (hs : Keyed s) (h : phase.Finds s key) :
    phase'.Finds s key := by
  cases hturn with
  | gaveUp | left => exact Names.error key _
  | hit _ k _ hphase hcached =>
    rintro c ⟨⟩
    rcases hphase with rfl | rfl
    all_goals
      obtain rfl : k = key := h
      exact hs.maps.names hcached
  | missed | asked | read => exact h
  | joined k flight _ hflight =>
    obtain rfl : k = key := h
    exact .inl (hs.tidy.flights k flight hflight)
  | landed flight r hresult =>
    rcases h with ⟨p, hp, hfly⟩ | ⟨r', hr', hnames⟩
    · -- a flight with a result has returned
      obtain ⟨q, o, hq, hreturned⟩ := hs.tidy.results flight r hresult
      cases hp.symm.trans hq
      rw [hreturned] at hfly
      cases hfly
    · cases hresult.symm.trans hr'
      exact hnames
  | failed _ k e hfly => exact ⟨h.key_eq hfly, Names.error key e⟩
  | refound k _ hcached =>
    obtain rfl : k = key := h
    refine ⟨rfl, ?_⟩
    rintro c ⟨⟩
    exact hs.maps.names hcached
  | answered k g _ hnames =>
    obtain rfl : k = key := h
    refine ⟨rfl, ?_⟩
    rintro c ⟨⟩
    exact hnames
  | absent k g _ e =>
    obtain rfl : k = key := h
    exact ⟨rfl, Names.error _ e⟩
  | outdated => exact h.1
  | _ => cases h

theorem Keyed.flight (hs : Keyed s) (hp : s.calls pid = some p) (ha : Advance s pid p s')
    (hfly : p.phase.flying = some key) : FlightOf s' key pid := by
  cases ha with
  | turned _ hturn => exact .inl ⟨_, update_self .., hturn.flying_eq.trans hfly⟩
  | published k _ hphase =>
    rw [hphase] at hfly
    exact .inl ⟨_, update_self .., hfly⟩
  | finished k r hphase =>
    have hfinds := hs.flying pid p hp key hfly
    rw [hphase] at hfinds
    exact .inr ⟨r, update_self .., hfinds.2⟩
  | entered hphase | replaced maps hphase | opened k hphase =>
    rw [hphase] at hfly
    cases hfly
  | refreshed r hphase =>
    cases hq : p.phase <;> simp [hq, Phase.gated] at hphase <;> simp [hq, Phase.flying] at hfly

theorem Keyed.results (hs : Keyed s) (hchange : Change s m s') {r : Except Err Config}
    (hr : s.results i = some r) : s'.results i = some r := by
  cases hchange with
  | advanced _ pid p _ hp ha =>
    cases ha with
    | finished k _ hphase =>
      have hne : i ≠ pid := by
        rintro rfl
        obtain ⟨q, o, hq, ho⟩ := hs.tidy.results i r hr
        cases hp.symm.trans hq
        cases hphase.symm.trans ho
      exact (update_of_ne hne _ _).trans hr
    | _ => exact hr
  | _ => exact hr

theorem Tidy.fate (hs : Tidy s) (hchange : Change s m s') (hp : s.calls i = some p) :
    (∃ q, s'.calls i = some q ∧ q.phase = p.phase) ∨ Advance s i p s' := by
  cases hchange with
  | changed => exact .inl ⟨p, hp, rfl⟩
  | called =>
    have hne : i ≠ s.next := Nat.ne_of_lt (hs.lt_next hp)
    exact .inl ⟨p, (update_of_ne hne _ _).trans hp, rfl⟩
  | canceled pid q hq =>
    by_cases heq : i = pid
    · subst heq
      cases hp.symm.trans hq
      exact .inl ⟨_, update_self .., rfl⟩
    · exact .inl ⟨p, (update_of_ne heq _ _).trans hp, rfl⟩
  | advanced _ pid q _ hq ha =>
    by_cases heq : i = pid
    · subst heq
      cases hp.symm.trans hq
      exact .inr ha
    · exact .inl ⟨p, (ha.calls_of_ne heq).trans hp, rfl⟩

theorem Keyed.flightOf (hs : Keyed s) (hchange : Change s m s') {flight : ℕ}
    (h : FlightOf s key flight) : FlightOf s' key flight := by
  rcases h with ⟨p, hp, hfly⟩ | ⟨r, hr, hnames⟩
  · rcases hs.tidy.fate hchange hp with ⟨q, hq, hphase⟩ | ha
    · exact .inl ⟨q, hq, by rw [hphase, hfly]⟩
    · exact hs.flight hp ha hfly
  · exact .inr ⟨r, hs.results hchange hr, hnames⟩

theorem Phase.Finds.step (hs : Keyed s) (hchange : Change s m s') (h : phase.Finds s key) :
    phase.Finds s' key := by
  cases phase with
  | waiting => exact hs.flightOf hchange h
  | gate | loading | replacing | notifying => cases h
  | returned o =>
    cases o with
    | refreshed => cases h
    | found => exact h
  | _ => exact h

theorem Advance.finds (hs : Keyed s) (ha : Advance s pid p s') (hchange : Change s m s')
    (h : p.phase.Finds s key) : ∃ q, s'.calls pid = some q ∧ q.phase.Finds s' key := by
  cases ha with
  | turned _ hturn => exact ⟨_, update_self .., (hturn.finds hs h).step hs hchange⟩
  | entered hphase | replaced maps hphase =>
    rw [hphase] at h
    cases h
  | refreshed r hphase =>
    cases hq : p.phase <;> simp [hq, Phase.gated] at hphase <;> simp [hq, Phase.Finds] at h
  | opened k hphase | published k _ hphase =>
    rw [hphase] at h
    exact ⟨_, update_self .., h⟩
  | finished k r hphase =>
    rw [hphase] at h
    exact ⟨_, update_self .., h.2⟩

theorem Keyed.finds (hs : Keyed s) (hchange : Change s m s') (hq : s.calls i = some q)
    (h : q.phase.Finds s key) : ∃ q', s'.calls i = some q' ∧ q'.phase.Finds s' key := by
  rcases hs.tidy.fate hchange hq with ⟨q', hq', hphase⟩ | ha
  · exact ⟨q', hq', hphase ▸ h.step hs hchange⟩
  · exact ha.finds hs hchange h

/-! ## Every step keeps the keys -/

theorem Advance.maps (hs : Keyed s) (hp : s.calls pid = some p) (ha : Advance s pid p s') :
    s'.maps.Keyed := by
  cases ha with
  | replaced maps hphase => exact hs.replacing pid p hp maps hphase
  | published k config => exact hs.maps.put config
  | _ => exact hs.maps

theorem Advance.replacing (ha : Advance s pid p s') (hq : s'.calls pid = some q) {maps : Maps}
    (hphase : q.phase = .replacing maps) : maps.Keyed := by
  cases ha with
  | turned phase hturn =>
    cases (update_self ..).symm.trans hq
    obtain rfl : phase = .replacing maps := hphase
    generalize p.phase = old at hturn
    cases hturn with
    | validated _ _ hsnapshot => exact .snapshot hsnapshot
  | _ =>
    cases (update_self ..).symm.trans hq
    cases hphase

theorem Advance.flying (hs : Keyed s) (hp : s.calls pid = some p) (ha : Advance s pid p s')
    (hchange : Change s m s') (hq : s'.calls pid = some q) (hk : q.phase.flying = some key) :
    q.phase.Finds s' key := by
  cases ha with
  | turned phase hturn =>
    cases (update_self ..).symm.trans hq
    have hfly : p.phase.flying = some key := hturn.flying_eq.symm.trans hk
    exact (hturn.finds hs (hs.flying pid p hp key hfly)).step hs hchange
  | opened =>
    cases (update_self ..).symm.trans hq
    cases hk
    rfl
  | published k _ hphase =>
    cases (update_self ..).symm.trans hq
    cases hk
    have hfinds := hs.flying pid p hp key (hphase ▸ rfl)
    rw [hphase] at hfinds
    exact hfinds
  | _ =>
    cases (update_self ..).symm.trans hq
    cases hk

/-- In every run, what is stored under a key has the key. -/
theorem keyed_invariant : machine.Invariant Keyed where
  init := ⟨Tidy.init, ⟨fun _ _ hc => (by cases hc), fun _ _ hc => (by cases hc)⟩, nofun, nofun⟩
  step s m s' hs hstep := by
    have hchange := Cache.change_of_step hstep
    have htidy := Tidy.invariant.step hs.tidy hstep
    have hmaps : s'.maps.Keyed := by
      cases hchange with
      | advanced _ _ p _ hp ha => exact ha.maps hs hp
      | _ => exact hs.maps
    refine ⟨htidy, hmaps, fun i q hq => ?_, fun i q hq => ?_⟩
    · cases hchange.origin hq with
      | began call hphase =>
        rw [hphase]
        exact start_elim (P := fun phase => ∀ maps, phase = .replacing maps → maps.Keyed) nofun
          (fun _ => nofun) (fun _ => nofun) call
      | stood p hp hphase =>
        rw [hphase]
        exact hs.replacing i p hp
      | moved p _ ha => exact fun _ => ha.replacing hq
    · cases hchange.origin hq with
      | began call hphase =>
        rw [hphase]
        exact start_elim (P := fun phase => ∀ k, phase.flying = some k → phase.Finds s' k) nofun
          (fun _ => nofun) (fun _ => nofun) call
      | stood p hp hphase =>
        rw [hphase]
        exact fun k hk => (hs.flying i p hp k hk).step hs hchange
      | moved p hp ha => exact fun _ => ha.flying hs hp hchange hq

/-! ## Lookups by ID -/

def Looks (s : Cache) (lookup : ℕ) (id : Int) : Prop :=
  ∃ p, s.calls lookup = some p ∧ (0 < id ∧ p.phase.Finds s { id, name := "" } ∨
    ∃ e, p.phase = .returned (.found (.error e)))

theorem Advance.not_returned (ha : Advance s pid p s') : p.phase ≠ .returned o := by
  intro hphase
  cases ha with
  | turned _ hturn => exact hturn.not_returned hphase
  | entered h | replaced _ h | opened _ h | published _ _ h | finished _ _ h =>
    cases hphase.symm.trans h
  | refreshed _ h =>
    rw [hphase] at h
    cases h

/-- A lookup stays one of its ID. -/
theorem Looks.step (h : Looks s lookup id) (hs : Keyed s) (hchange : Change s m s') :
    Looks s' lookup id := by
  obtain ⟨p, hp, ⟨hid, hfinds⟩ | ⟨e, hphase⟩⟩ := h
  · obtain ⟨q, hq, hfinds⟩ := hs.finds hchange hp hfinds
    exact ⟨q, hq, .inl ⟨hid, hfinds⟩⟩
  · rcases hs.tidy.fate hchange hp with ⟨q, hq, hsame⟩ | ha
    · exact ⟨q, hq, .inr ⟨e, hsame.trans hphase⟩⟩
    · exact absurd hphase ha.not_returned

theorem Looks.called (h : s.step (.call (.byId id)) = some s') : Looks s' s.next id := by
  obtain ⟨-, ⟨⟩⟩ := Option.ite_none_right_eq_some.mp h
  refine ⟨_, update_self .., ?_⟩
  simp only [Cache.start]
  split
  next hid => exact .inr ⟨_, rfl⟩
  next hid => exact .inl ⟨Int.not_le.mp hid, rfl⟩

/-- A lookup returns a group with the ID. -/
theorem Looks.id_eq (h : Looks s lookup id) (hp : s.calls lookup = some p)
    (hfound : p.phase = .returned (.found (.ok c))) : c.id = id := by
  obtain ⟨q, hq, ⟨hid, hfinds⟩ | ⟨e, hphase⟩⟩ := h
  · cases hp.symm.trans hq
    rw [hfound] at hfinds
    have hnames := hfinds c rfl
    rw [LookupKey.names, if_pos (Int.ne_of_gt hid)] at hnames
    exact (of_decide_eq_true hnames).symm
  · cases hp.symm.trans hq
    cases hfound.symm.trans hphase

/-! ## Refreshes that have replaced the snapshot -/

/-- The refresh has replaced the snapshot, and calls its observers. -/
def Notifies (s : Cache) (pid : ℕ) : Prop := ∃ p, s.calls pid = some p ∧ p.phase = .notifying

theorem Turn.ne_notifying (h : Turn s phase phase') : phase ≠ .notifying ∧ phase' ≠ .notifying := by
  cases h with
  | hit _ _ _ hphase => rcases hphase with rfl | rfl <;> exact ⟨nofun, nofun⟩
  | failed _ _ e hfly =>
    refine ⟨?_, nofun⟩
    rintro rfl
    cases hfly
  | _ => exact ⟨nofun, nofun⟩

theorem Advance.generation_of_notifies (ha : Advance s pid p s') (h : Notifies s' pid) :
    s'.generation = s.generation + 1 := by
  obtain ⟨q, hq, hphase⟩ := h
  cases ha with
  | replaced => rfl
  | turned _ hturn =>
    cases (update_self ..).symm.trans hq
    exact absurd hphase hturn.ne_notifying.2
  | _ =>
    cases (update_self ..).symm.trans hq
    cases hphase

theorem Notifies.of_step (h : Notifies s' i) (hchange : Change s m s')
    (hgen : s'.generation = s.generation) : Notifies s i := by
  obtain ⟨q, hq, hphase⟩ := h
  cases hchange.origin hq with
  | began call hstart =>
    exact absurd (hstart.symm.trans hphase) (start_elim (P := (· ≠ .notifying)) nofun (fun _ => nofun)
      (fun _ => nofun) call)
  | stood p hp hsame => exact ⟨p, hp, hsame.symm.trans hphase⟩
  | moved p _ ha =>
    have hsucc := ha.generation_of_notifies ⟨q, hq, hphase⟩
    omega

/-- A refresh calls its observers until it takes its own next step. -/
theorem Notifies.step (h : Notifies s i) (hs : Tidy s) (hstep : s.step m = some s')
    (hm : m ≠ .run i) : Notifies s' i := by
  obtain ⟨q, hq, hphase⟩ := h
  have hother : ∀ pid p, Advance s pid p s' → i ≠ pid → Notifies s' i :=
    fun pid p ha hne => ⟨q, (ha.calls_of_ne hne).trans hq, hphase⟩
  cases m with
  | change =>
    cases hstep
    exact ⟨q, hq, hphase⟩
  | call =>
    obtain ⟨-, ⟨⟩⟩ := Option.ite_none_right_eq_some.mp hstep
    have hne : i ≠ s.next := Nat.ne_of_lt (hs.lt_next hq)
    exact ⟨q, (update_of_ne hne _ _).trans hq, hphase⟩
  | cancel pid =>
    obtain ⟨p, hp, rfl⟩ := Option.map_eq_some_iff.mp hstep
    by_cases heq : i = pid
    · subst heq
      cases hq.symm.trans hp
      exact ⟨_, update_self .., hphase⟩
    · exact ⟨q, (update_of_ne heq _ _).trans hq, hphase⟩
  | abandon pid =>
    obtain ⟨p, hp, h⟩ := Option.bind_eq_some_iff.mp hstep
    refine hother pid p (Cache.advance_of_abandon h) ?_
    rintro rfl
    cases hq.symm.trans hp
    simp [Cache.abandon, hphase] at h
  | sample pid =>
    obtain ⟨p, hp, h⟩ := Option.bind_eq_some_iff.mp hstep
    refine hother pid p (Cache.advance_of_sample h) ?_
    rintro rfl
    cases hq.symm.trans hp
    simp [Cache.sample, hphase] at h
  | answer pid =>
    obtain ⟨p, hp, h⟩ := Option.bind_eq_some_iff.mp hstep
    refine hother pid p (Cache.advance_of_answer h) ?_
    rintro rfl
    cases hq.symm.trans hp
    simp [Cache.answer, hphase] at h
  | run pid =>
    obtain ⟨p, _, h⟩ := Option.bind_eq_some_iff.mp hstep
    refine hother pid p (Cache.advance_of_proceed h) ?_
    rintro rfl
    exact hm rfl

theorem outcome_of_returned (hp : s.calls pid = some p) (hphase : p.phase = .returned o) :
    s.outcome pid = some o := by
  obtain ⟨_, _⟩ := p
  cases hphase
  rw [Cache.outcome, hp]

theorem Notifies.not_returned (h : Notifies s i) : s.outcome i ≠ some o := by
  intro hout
  obtain ⟨p, hp, hphase⟩ := h
  obtain ⟨q, hq, hret⟩ := outcome_eq_some hout
  cases hp.symm.trans hq
  cases hphase.symm.trans hret

theorem Notifies.of_returns (hchange : Change s m s')
    (hbefore : s.outcome i ≠ some (.refreshed (.ok ())))
    (hafter : s'.outcome i = some (.refreshed (.ok ()))) : Notifies s i := by
  obtain ⟨q, hq, hphase⟩ := outcome_eq_some hafter
  cases hchange.origin hq with
  | began call hstart =>
    exact absurd (hstart.symm.trans hphase) (start_elim (P := (· ≠ .returned (.refreshed (.ok ()))))
      nofun (fun _ => nofun) (fun _ => nofun) call)
  | stood p hp hsame => exact absurd (outcome_of_returned hp (hsame.symm.trans hphase)) hbefore
  | moved p hp ha =>
    cases ha with
    | refreshed r _ hok =>
      cases (update_self ..).symm.trans hq
      cases hphase
      exact ⟨p, hp, hok rfl⟩
    | turned phase hturn =>
      cases (update_self ..).symm.trans hq
      obtain rfl : phase = .returned (.refreshed (.ok ())) := hphase
      generalize p.phase = old at hturn
      cases hturn
    | _ =>
      cases (update_self ..).symm.trans hq
      cases hphase

/-- Only one refresh at a time replaces the snapshot and notifies. -/
theorem generation_of_change (hs : Tidy s) (hchange : Change s m s') :
    s'.generation = s.generation ∨ s.generation < s'.generation ∧ (∃ i, Notifies s' i) ∧
      ∀ i, ¬ Notifies s i := by
  cases hchange with
  | advanced _ pid p _ hp ha =>
    cases ha with
    | replaced _ hphase =>
      refine .inr ⟨Nat.lt_succ_self _, ⟨pid, _, update_self .., rfl⟩, ?_⟩
      rintro i ⟨q, hq, hnotify⟩
      have hgated : p.phase.gated = true := hphase ▸ rfl
      obtain rfl := hs.eq_of_gated hp hgated hq (hnotify ▸ rfl)
      cases hp.symm.trans hq
      cases hphase.symm.trans hnotify
    | _ => exact .inl rfl
  | _ => exact .inl rfl

end Dogx.GroupCache
