import Dogx.GroupCache.Cache

/-!
# Steps of the cache

`Change s s'` lists every way a step can change the cache, with what the code has checked before.
`Turn` is the part of it where only the phase of a call changes.
-/

namespace Dogx.GroupCache

open Function (update update_of_ne update_self)

variable {s s' : Cache} {m : Move} {c config : Config} {groups : List Config} {key : LookupKey}

/-! ## Indexes -/

namespace Maps

def Has (m : Maps) (c : Config) : Prop := (∃ i, m.byId i = some c) ∨ ∃ n, m.byName n = some c

theorem has_of_cached {m : Maps} (h : m.cached key = some c) : m.Has c := by
  unfold cached at h
  split at h
  · exact .inl ⟨_, h⟩
  · exact .inr ⟨_, h⟩

theorem has_put {m : Maps} (h : (m.put config).Has c) : c = config ∨ m.Has c := by
  rcases h with ⟨i, hi⟩ | ⟨n, hn⟩
  · by_cases hid : i = config.id
    · subst hid
      simp only [put, update_self, Option.some.injEq] at hi
      exact .inl hi.symm
    · simp only [put, update_of_ne hid] at hi
      exact .inr (.inl ⟨i, hi⟩)
  · by_cases hname : n = config.name
    · subst hname
      simp only [put, update_self, Option.some.injEq] at hn
      exact .inl hn.symm
    · simp only [put, update_of_ne hname] at hn
      exact .inr (.inr ⟨n, hn⟩)

theorem has_extend {m m' : Maps} {keys : List String} (h : m.extend keys groups = .ok m')
    (hc : m'.Has c) : c ∈ groups ∨ m.Has c := by
  induction groups generalizing m keys with
  | nil =>
    cases h
    exact .inr hc
  | cons _ _ ih =>
    unfold extend at h
    split at h
    · cases h
    · split at h
      · cases h
      · rcases ih h with hmem | hhas
        · exact .inl (List.mem_cons_of_mem _ hmem)
        · rcases has_put hhas with rfl | hhas
          · exact .inl List.mem_cons_self
          · exact .inr hhas

theorem mem_of_snapshot {m : Maps} (h : snapshot groups = .ok m) (hc : m.Has c) : c ∈ groups := by
  rcases has_extend h hc with hmem | ⟨_, ⟨⟩⟩ | ⟨_, ⟨⟩⟩
  exact hmem

end Maps

theorem query_eq_ok {found : Option Config} (h : query key found = .ok c) :
    found = some c ∧ key.names c = true := by
  unfold query at h
  split at h
  · cases h
  · split at h
    · cases h
    · split at h
      next hnames =>
        cases h
        exact ⟨rfl, hnames⟩
      next => cases h

/-! ## Phases -/

namespace Phase

def gated : Phase → Bool
  | loading _ | replacing _ | notifying => true
  | _ => false

def flying : Phase → Option LookupKey
  | missing key | querying key _ _ | publishing key _ _ | finishing key _ => some key
  | _ => none

def since : Phase → Option ℕ
  | querying _ g _ | publishing _ g _ => some g
  | _ => none

end Phase

inductive Turn (s : Cache) : Phase → Phase → Prop where
  | refused (e : Err) : Turn s .gate (.returned (.refreshed (.error e)))
  | loaded (read : Option (List Config)) : Turn s (.loading read) (.loading (some s.source))
  | validated (groups : List Config) (maps : Maps) (h : Maps.snapshot groups = .ok maps) :
      Turn s (.loading (some groups)) (.replacing maps)
  | gaveUp (key : LookupKey) (e : Err) : Turn s (.seeking key) (.returned (.found (.error e)))
  | hit (phase : Phase) (key : LookupKey) (config : Config)
      (hphase : phase = .seeking key ∨ phase = .claiming key)
      (h : s.maps.cached key = some config) : Turn s phase (.returned (.found (.ok config)))
  | missed (key : LookupKey) : Turn s (.seeking key) (.claiming key)
  | joined (key : LookupKey) (flight : ℕ) (hmiss : s.maps.cached key = none)
      (h : s.flights key = some flight) : Turn s (.claiming key) (.waiting flight)
  | left (flight : ℕ) (e : Err) : Turn s (.waiting flight) (.returned (.found (.error e)))
  | landed (flight : ℕ) (r : Except Err Config) (h : s.results flight = some r) :
      Turn s (.waiting flight) (.returned (.found r))
  | failed (phase : Phase) (key : LookupKey) (e : Err) (h : phase.flying = some key) :
      Turn s phase (.finishing key (.error e))
  | refound (key : LookupKey) (config : Config) (h : s.maps.cached key = some config) :
      Turn s (.missing key) (.finishing key (.ok config))
  | asked (key : LookupKey) : Turn s (.missing key) (.querying key s.generation none)
  | read (key : LookupKey) (g : ℕ) (read : Option (Option Config)) :
      Turn s (.querying key g read) (.querying key g (some (s.source.find? key.names)))
  | answered (key : LookupKey) (g : ℕ) (config : Config) (h : key.names config = true) :
      Turn s (.querying key g (some (some config))) (.publishing key g (.ok config))
  | absent (key : LookupKey) (g : ℕ) (read : Option (Option Config)) (e : Err) :
      Turn s (.querying key g read) (.publishing key g (.error e))
  | outdated (key : LookupKey) (g : ℕ) (loaded : Except Err Config) (h : g ≠ s.generation) :
      Turn s (.publishing key g loaded) (.missing key)

inductive Advance (s : Cache) (pid : ℕ) (p : Process) : Cache → Prop where
  | turned (phase : Phase) (h : Turn s p.phase phase) : Advance s pid p (s.set pid p phase)
  | entered (hphase : p.phase = .gate) (hfree : s.gate = none) :
      Advance s pid p { s.set pid p (.loading none) with gate := some pid }
  | replaced (maps : Maps) (hphase : p.phase = .replacing maps) :
      Advance s pid p { s.set pid p .notifying with generation := s.generation + 1, maps }
  | refreshed (r : Except Err Unit) (hphase : p.phase.gated = true)
      (hok : r = .ok () → p.phase = .notifying) : Advance s pid p (s.leave pid p r)
  | opened (key : LookupKey) (hphase : p.phase = .claiming key) (hnew : s.flights key = none) :
      Advance s pid p { s.set pid p (.missing key) with
        flights := update s.flights key (some pid) }
  | published (key : LookupKey) (config : Config)
      (hphase : p.phase = .publishing key s.generation (.ok config)) :
      Advance s pid p { s.finish pid p key (.ok config) with maps := s.maps.put config }
  | finished (key : LookupKey) (r : Except Err Config) (hphase : p.phase = .finishing key r) :
      Advance s pid p { s.set pid p (.returned (.found r)) with
        flights := update s.flights key none
        results := update s.results pid (some r) }

inductive Change (s : Cache) : Move → Cache → Prop where
  | changed (content : List Config) : Change s (.change content) { s with source := content }
  | called (c : Call) : Change s (.call c)
      { s with
        calls := update s.calls s.next (some { phase := Cache.start c, canceled := false })
        next := s.next + 1 }
  | canceled (pid : ℕ) (p : Process) (hp : s.calls pid = some p) : Change s (.cancel pid)
      { s with calls := update s.calls pid (some { p with canceled := true }) }
  /-- A call can begin to wait only in `run`. -/
  | advanced (m : Move) (pid : ℕ) (p : Process) (s' : Cache) (hp : s.calls pid = some p)
      (h : Advance s pid p s') (hm : (∃ key, p.phase = .claiming key) → m = .run pid) :
      Change s m s'

/-! ## Every step is a change -/

namespace Cache

variable {pid : ℕ} {p : Process}

theorem advance_of_abandon (h : s.abandon pid p = some s') : Advance s pid p s' := by
  unfold abandon at h
  split at h
  · split at h
    · next hphase =>
      cases h
      exact .turned _ (hphase ▸ .refused _)
    · next hphase =>
      cases h
      exact .turned _ (hphase ▸ .left _ _)
    · cases h
  · cases h

theorem advance_of_sample (h : s.sample pid p = some s') : Advance s pid p s' := by
  unfold sample at h
  split at h
  · next hphase =>
    cases h
    exact .turned _ (hphase ▸ .loaded _)
  · next hphase =>
    cases h
    exact .turned _ (hphase ▸ .read _ _ _)
  · cases h

theorem advance_of_answer {a : Answer} (h : s.answer pid p a = some s') : Advance s pid p s' := by
  unfold answer at h
  split at h
  · next groups hphase =>
    split at h
    · cases h
      exact .refreshed _ (hphase ▸ rfl) nofun
    · next hmaps =>
      cases h
      exact .turned _ (hphase ▸ .validated _ _ hmaps)
  · next hphase =>
    cases h
    exact .refreshed _ (hphase ▸ rfl) nofun
  · next hphase =>
    cases h
    exact .refreshed _ (hphase ▸ rfl) nofun
  · next key g found hphase =>
    split at h
    · next hquery =>
      cases h
      obtain ⟨rfl, hnames⟩ := query_eq_ok hquery
      exact .turned _ (hphase ▸ .answered _ _ _ hnames)
    · cases h
      exact .turned _ (hphase ▸ .absent _ _ _ _)
    · cases h
      exact .turned _ (.failed _ _ _ (hphase ▸ rfl))
  · next hphase =>
    cases h
    exact .turned _ (.failed _ _ _ (hphase ▸ rfl))
  · next hphase =>
    cases h
    exact .turned _ (.failed _ _ _ (hphase ▸ rfl))
  · cases h

theorem advance_of_proceed (h : s.proceed pid p = some s') : Advance s pid p s' := by
  unfold proceed at h
  split at h
  · next hphase =>
    split at h
    · cases h
    · next hfree =>
      split at h
      · cases h
        exact .turned _ (hphase ▸ .refused _)
      · cases h
        exact .entered hphase (by simpa using hfree)
  · next hphase =>
    split at h
    · cases h
      exact .refreshed _ (hphase ▸ rfl) nofun
    · cases h
      exact .replaced _ hphase
  · next hphase =>
    cases h
    exact .refreshed _ (hphase ▸ rfl) fun _ => hphase
  · next hphase =>
    split at h
    · cases h
      exact .turned _ (hphase ▸ .gaveUp _ _)
    · split at h
      · next hcached =>
        cases h
        exact .turned _ (.hit _ _ _ (.inl hphase) hcached)
      · cases h
        exact .turned _ (hphase ▸ .missed _)
  · next hphase =>
    split at h
    · next hcached =>
      cases h
      exact .turned _ (.hit _ _ _ (.inr hphase) hcached)
    · next hmiss =>
      split at h
      · next hflight =>
        cases h
        exact .turned _ (hphase ▸ .joined _ _ hmiss hflight)
      · next hnew =>
        cases h
        exact .opened _ hphase hnew
  · next hphase =>
    split at h
    · next hresult =>
      cases h
      exact .turned _ (hphase ▸ .landed _ _ hresult)
    · cases h
  · next hphase =>
    split at h
    · cases h
      exact .turned _ (.failed _ _ _ (hphase ▸ rfl))
    · split at h
      · next hcached =>
        cases h
        exact .turned _ (hphase ▸ .refound _ _ hcached)
      · cases h
        exact .turned _ (hphase ▸ .asked _)
  · next hphase =>
    split at h
    · next hold =>
      cases h
      exact .turned _ (hphase ▸ .outdated _ _ _ hold)
    · next hcur =>
      split at h
      · cases h
        exact .published _ _ (by rw [hphase, Decidable.not_not.mp hcur])
      · cases h
        exact .turned _ (.failed _ _ _ (hphase ▸ rfl))
  · next hphase =>
    cases h
    exact .finished _ _ hphase
  all_goals cases h

/-- Every step of the cache is one of the changes. -/
theorem change_of_step (h : s.step m = some s') : Change s m s' := by
  cases m with
  | change content =>
    cases h
    exact .changed content
  | call c =>
    obtain ⟨-, ⟨⟩⟩ := Option.ite_none_right_eq_some.mp h
    exact .called c
  | cancel pid =>
    obtain ⟨p, hp, rfl⟩ := Option.map_eq_some_iff.mp h
    exact .canceled pid p hp
  | abandon pid =>
    obtain ⟨p, hp, h⟩ := Option.bind_eq_some_iff.mp h
    exact .advanced _ pid p s' hp (advance_of_abandon h) fun ⟨_, hphase⟩ => by
      simp [abandon, hphase] at h
  | sample pid =>
    obtain ⟨p, hp, h⟩ := Option.bind_eq_some_iff.mp h
    exact .advanced _ pid p s' hp (advance_of_sample h) fun ⟨_, hphase⟩ => by
      simp [sample, hphase] at h
  | answer pid =>
    obtain ⟨p, hp, h⟩ := Option.bind_eq_some_iff.mp h
    exact .advanced _ pid p s' hp (advance_of_answer h) fun ⟨_, hphase⟩ => by
      simp [answer, hphase] at h
  | run pid =>
    obtain ⟨p, hp, h⟩ := Option.bind_eq_some_iff.mp h
    exact .advanced _ pid p s' hp (advance_of_proceed h) fun _ => rfl

end Cache

end Dogx.GroupCache
