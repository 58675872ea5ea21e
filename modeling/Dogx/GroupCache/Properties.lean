import Dogx.GroupCache.Step
import Dogx.Machine.Pool

/-!
# What a lookup returns after a refresh

A group that is gone from the source before a refresh loads, and stays gone, is not returned by a
lookup that begins after that refresh, as long as no lookup joins a flight that has its result
already. A refresh can come between the last check of the generation and the end of the flight.
-/

namespace Dogx.GroupCache

open Cache (machine)
open Function (update update_of_ne update_self)
open Machine.Pool (update_eq_some)

variable {s s' : Cache} {m : Move} {c : Config} {pid l i flight : ℕ} {p q₀ q : Process}
  {phase : Phase} {o : Outcome}

/-! ## The calls after a step -/

theorem forall_update {P : ℕ → Phase → Prop} (h : ∀ i q, s.calls i = some q → P i q.phase)
    (hnew : P pid q₀.phase) : ∀ i q, update s.calls pid (some q₀) i = some q → P i q.phase := by
  intro i q hq
  rcases update_eq_some hq with ⟨rfl, rfl⟩ | ⟨-, hq⟩
  · exact hnew
  · exact h i q hq

theorem start_elim {P : Phase → Prop} (hgate : P .gate) (hseeking : ∀ key, P (.seeking key))
    (hrefused : ∀ e, P (.returned (.found (.error e)))) (call : Call) : P (Cache.start call) := by
  cases call with
  | refresh => exact hgate
  | byName => exact hseeking _
  | byId =>
    simp only [Cache.start]
    split
    · exact hrefused _
    · exact hseeking _

inductive Origin (s : Cache) (m : Move) (s' : Cache) (i : ℕ) (q : Process) : Prop where
  | began (call : Call) (hphase : q.phase = Cache.start call)
  | stood (p : Process) (hp : s.calls i = some p) (hphase : q.phase = p.phase)
  | moved (p : Process) (hp : s.calls i = some p) (ha : Advance s i p s')
      (hm : (∃ key, p.phase = .claiming key) → m = .run i)

theorem Advance.calls_of_ne (ha : Advance s pid p s') (hi : i ≠ pid) : s'.calls i = s.calls i := by
  cases ha <;> exact update_of_ne hi _ _

/-- Where each call comes from in a step. -/
theorem Change.origin (hc : Change s m s') (hq : s'.calls i = some q) : Origin s m s' i q := by
  cases hc with
  | changed => exact .stood q hq rfl
  | called call =>
    rcases update_eq_some hq with ⟨-, rfl⟩ | ⟨-, hq⟩
    · exact .began call rfl
    · exact .stood q hq rfl
  | canceled _ p hp =>
    rcases update_eq_some hq with ⟨rfl, rfl⟩ | ⟨-, hq⟩
    · exact .stood p hp rfl
    · exact .stood q hq rfl
  | advanced _ pid p _ hp ha hm =>
    by_cases hi : i = pid
    · subst hi
      exact .moved p hp ha hm
    · exact .stood q ((ha.calls_of_ne hi).symm.trans hq) rfl

namespace Turn

variable {phase' : Phase}

variable (h : Turn s phase phase')
include h

theorem gated_eq : phase'.gated = phase.gated := by
  cases h with
  | hit _ _ _ hphase => rcases hphase with rfl | rfl <;> rfl
  | failed _ _ _ hfly =>
    cases phase with
    | missing | querying | publishing | finishing => rfl
    | _ => cases hfly
  | _ => rfl

theorem flying_eq : phase'.flying = phase.flying := by
  cases h with
  | hit _ _ _ hphase => rcases hphase with rfl | rfl <;> rfl
  | failed _ _ _ hfly => exact hfly.symm
  | _ => rfl

theorem since_eq {g : ℕ} (hg : phase'.since = some g) :
    phase.since = some g ∨ g = s.generation := by
  cases h with
  | asked =>
    cases hg
    exact .inr rfl
  | read | answered | absent => exact .inl hg
  | _ => cases hg

theorem not_returned : phase ≠ .returned o := by
  rintro rfl
  cases h with
  | hit _ _ _ hphase => rcases hphase with hphase | hphase <;> cases hphase
  | failed _ _ _ hfly => cases hfly

end Turn

/-! ## Gate, flights and generations -/

structure Tidy (s : Cache) : Prop where
  fresh : ∀ i, s.next ≤ i → s.calls i = none
  gate : ∀ i q, s.calls i = some q → q.phase.gated = true → s.gate = some i
  flights : ∀ key i, s.flights key = some i →
    ∃ q, s.calls i = some q ∧ q.phase.flying = some key
  results : ∀ i r, s.results i = some r → ∃ q o, s.calls i = some q ∧ q.phase = .returned o
  since : ∀ i q, s.calls i = some q → ∀ g, q.phase.since = some g → g ≤ s.generation

namespace Tidy

theorem lt_next (h : Tidy s) (hp : s.calls pid = some p) : pid < s.next := by
  by_contra hle
  cases (h.fresh pid (Nat.le_of_not_lt hle)).symm.trans hp

theorem fresh_update (h : Tidy s) (hp : s.calls pid = some p) (q : Process) :
    ∀ i, s.next ≤ i → update s.calls pid (some q) i = none := by
  intro i hi
  have hlt := h.lt_next hp
  rw [update_of_ne (by omega)]
  exact h.fresh i hi

theorem eq_of_gated (h : Tidy s) (hp : s.calls pid = some p) (hgate : p.phase.gated = true)
    (hq : s.calls i = some q) (hq' : q.phase.gated = true) : i = pid := by
  have h1 := h.gate pid p hp hgate
  have h2 := h.gate i q hq hq'
  rw [h1] at h2
  exact (Option.some.inj h2).symm

theorem init : Tidy Cache.init where
  fresh _ _ := rfl
  gate := nofun
  flights := nofun
  results := nofun
  since := nofun

theorem moved (h : Tidy s) (hp : s.calls pid = some p)
    (hleft : ∀ o, p.phase = .returned o → q₀.phase = .returned o)
    (hcalls : s'.calls = update s.calls pid (some q₀)) (hnext : s'.next = s.next)
    (hgate : q₀.phase.gated = true → s'.gate = some pid)
    (hgates : ∀ i, i ≠ pid → s.gate = some i → s'.gate = some i)
    (hflights : ∀ key i, s'.flights key = some i →
      s.flights key = some i ∨ i = pid ∧ q₀.phase.flying = some key)
    (hflight : ∀ key, s'.flights key = some pid → q₀.phase.flying = some key)
    (hresults : ∀ i r, s'.results i = some r →
      s.results i = some r ∨ i = pid ∧ ∃ o, q₀.phase = .returned o)
    (hgen : s.generation ≤ s'.generation)
    (hsince : ∀ g, q₀.phase.since = some g → g ≤ s'.generation) : Tidy s' where
  fresh := by
    rw [hcalls, hnext]
    exact h.fresh_update hp q₀
  gate := by
    rw [hcalls]
    intro i q hq hgated
    rcases update_eq_some hq with ⟨rfl, rfl⟩ | ⟨hi, hq⟩
    · exact hgate hgated
    · exact hgates i hi (h.gate i q hq hgated)
  flights := by
    rw [hcalls]
    intro key i hi
    by_cases heq : i = pid
    · subst heq
      exact ⟨q₀, by simp, hflight key hi⟩
    · rcases hflights key i hi with hold | ⟨hpid, -⟩
      · rw [update_of_ne heq]
        exact h.flights key i hold
      · exact absurd hpid heq
  results := by
    rw [hcalls]
    intro i r hr
    rcases hresults i r hr with hold | ⟨rfl, o, ho⟩
    · obtain ⟨q, o, hq, ho⟩ := h.results i r hold
      by_cases heq : i = pid
      · subst heq
        cases hp.symm.trans hq
        exact ⟨q₀, o, update_self .., hleft o ho⟩
      · exact ⟨q, o, (update_of_ne heq _ _).trans hq, ho⟩
    · exact ⟨q₀, o, by simp, ho⟩
  since := by
    rw [hcalls]
    exact forall_update (P := fun _ phase => ∀ g, phase.since = some g → g ≤ s'.generation)
      (fun i q hq g hg => Nat.le_trans (h.since i q hq g hg) hgen) hsince

theorem own (h : Tidy s) (hp : s.calls pid = some p) {key : LookupKey}
    (hkey : s.flights key = some pid) : p.phase.flying = some key := by
  obtain ⟨q, hq, hfly⟩ := h.flights key pid hkey
  cases hp.symm.trans hq
  exact hfly

theorem advance (h : Tidy s) (hp : s.calls pid = some p) (ha : Advance s pid p s') : Tidy s' := by
  have none_of : p.phase.flying = none → ∀ key, s.flights key ≠ some pid := by
    intro hfly key hkey
    cases hfly.symm.trans (h.own hp hkey)
  cases ha with
  | turned _ hturn =>
    refine h.moved hp (fun o ho => absurd ho hturn.not_returned) rfl rfl ?_ (fun _ _ hi => hi)
      (fun _ _ hi => .inl hi) ?_ (fun _ _ hr => .inl hr) (Nat.le_refl _) ?_
    · intro hgated
      exact h.gate pid p hp (hturn.gated_eq.symm ▸ hgated)
    · intro key hkey
      exact hturn.flying_eq.trans (h.own hp hkey)
    · intro g hg
      rcases hturn.since_eq hg with hg | rfl
      · exact h.since pid p hp g hg
      · exact Nat.le_refl _
  | entered hphase hfree =>
    refine h.moved hp (by simp [hphase]) rfl rfl (fun _ => rfl) ?_ (fun _ _ hi => .inl hi) ?_
      (fun _ _ hr => .inl hr) (Nat.le_refl _) nofun
    · intro i _ hi
      cases hfree.symm.trans hi
    · intro key hkey
      exact absurd hkey (none_of (hphase ▸ rfl) key)
  | replaced _ hphase =>
    refine h.moved hp (by simp [hphase]) rfl rfl ?_ (fun _ _ hi => hi) (fun _ _ hi => .inl hi) ?_
      (fun _ _ hr => .inl hr) (Nat.le_succ _) nofun
    · exact fun _ => h.gate pid p hp (hphase ▸ rfl)
    · intro key hkey
      exact absurd hkey (none_of (hphase ▸ rfl) key)
  | refreshed r hphase =>
    refine h.moved hp ?_ rfl rfl nofun ?_ (fun _ _ hi => .inl hi) ?_ (fun _ _ hr => .inl hr)
      (Nat.le_refl _) nofun
    · intro o ho
      simp [ho, Phase.gated] at hphase
    · intro i hi hgate
      rw [h.gate pid p hp hphase] at hgate
      exact absurd (Option.some.inj hgate).symm hi
    · intro key hkey
      refine absurd hkey (none_of ?_ key)
      cases hq : p.phase <;> simp [hq, Phase.gated] at hphase <;> rfl
  | opened key hphase =>
    refine h.moved hp (by simp [hphase]) rfl rfl nofun (fun _ _ hi => hi) ?_ ?_
      (fun _ _ hr => .inl hr) (Nat.le_refl _) nofun
    · intro key' i hi
      by_cases heq : key' = key
      · subst heq
        simp only [update_self, Option.some.injEq] at hi
        exact .inr ⟨hi.symm, rfl⟩
      · simp only [update_of_ne heq] at hi
        exact .inl hi
    · intro key' hkey
      by_cases heq : key' = key
      · rw [heq]
        rfl
      · simp only [update_of_ne heq] at hkey
        exact absurd hkey (none_of (hphase ▸ rfl) key')
  | published _ _ hphase =>
    refine h.moved hp (by simp [hphase]) rfl rfl nofun (fun _ _ hi => hi) (fun _ _ hi => .inl hi) ?_
      (fun _ _ hr => .inl hr) (Nat.le_refl _) nofun
    intro key' hkey
    have hfly := h.own hp hkey
    rw [hphase] at hfly
    exact hfly
  | finished key r hphase =>
    refine h.moved hp (by simp [hphase]) rfl rfl nofun (fun _ _ hi => hi) ?_ ?_ ?_ (Nat.le_refl _) nofun
    · intro key' i hi
      by_cases heq : key' = key
      · subst heq
        simp at hi
      · simp only [update_of_ne heq] at hi
        exact .inl hi
    · intro key' hkey
      by_cases heq : key' = key
      · subst heq
        simp at hkey
      · simp only [update_of_ne heq] at hkey
        have hfly := h.own hp hkey
        rw [hphase] at hfly
        exact absurd (Option.some.inj hfly).symm heq
    · intro i r' hr
      by_cases heq : i = pid
      · exact .inr ⟨heq, _, rfl⟩
      · simp only [update_of_ne heq] at hr
        exact .inl hr

theorem invariant : machine.Invariant Tidy where
  init := init
  step s m s' h hstep := by
    cases Cache.change_of_step hstep with
    | changed => exact { h with }
    | called c =>
      have hnew : ∀ i q, s.calls i = some q → i ≠ s.next := fun i q hq => Nat.ne_of_lt (h.lt_next hq)
      have hstart : (Cache.start c).gated = false ∧ (Cache.start c).since = none :=
        start_elim (P := fun phase => phase.gated = false ∧ phase.since = none) ⟨rfl, rfl⟩
          (fun _ => ⟨rfl, rfl⟩) (fun _ => ⟨rfl, rfl⟩) c
      refine ⟨?_, ?_, ?_, ?_, ?_⟩
      · intro i hi
        simp only at hi ⊢
        rw [update_of_ne (by omega)]
        exact h.fresh i (by omega)
      · refine forall_update (P := fun i phase => phase.gated = true → s.gate = some i) h.gate ?_
        simp [hstart.1]
      · intro key i hi
        obtain ⟨q, hq, hfly⟩ := h.flights key i hi
        exact ⟨q, (update_of_ne (hnew i q hq) _ _).trans hq, hfly⟩
      · intro i r hr
        obtain ⟨q, o, hq, ho⟩ := h.results i r hr
        exact ⟨q, o, (update_of_ne (hnew i q hq) _ _).trans hq, ho⟩
      · refine forall_update (P := fun _ phase => ∀ g, phase.since = some g → g ≤ s.generation)
          h.since ?_
        simp [hstart.2]
    | canceled pid p hp =>
      -- a canceled call stands where it stood
      exact h.moved hp (fun _ ho => by exact ho) rfl rfl (h.gate pid p hp) (fun _ _ hi => hi)
        (fun _ _ hi => .inl hi) (fun _ hkey => h.own hp hkey) (fun _ _ hr => .inl hr) (Nat.le_refl _)
        (h.since pid p hp)
    | advanced _ _ p _ hp ha => exact h.advance hp ha

end Tidy

/-! ## A group that is gone -/

def Phase.Lacks (c : Config) (generation : ℕ) : Phase → Prop
  | loading (some groups) => c ∉ groups
  | replacing maps => ¬ maps.Has c
  | querying _ g (some (some config)) => g = generation → config ≠ c
  | publishing _ g (.ok config) => g = generation → config ≠ c
  | _ => True

theorem Phase.lacks_succ {generation : ℕ} (hsince : ∀ g, phase.since = some g → g ≤ generation)
    (hgated : phase.gated = true → phase.Lacks c generation) : phase.Lacks c (generation + 1) := by
  cases phase with
  | loading read =>
    have hl := hgated rfl
    cases read with
    | none => trivial
    | some => exact hl
  | replacing => exact hgated rfl
  | querying _ g read =>
    have hle := hsince g rfl
    match read with
    | none | some none => trivial
    | some (some config) => exact fun heq => absurd heq (by omega)
  | publishing _ g loaded =>
    have hle := hsince g rfl
    match loaded with
    | .error _ => trivial
    | .ok config => exact fun heq => absurd heq (by omega)
  | _ => trivial

structure Cleared (c : Config) (s : Cache) : Prop where
  maps : ¬ s.maps.Has c
  phases : ∀ i q, s.calls i = some q → q.phase.Lacks c s.generation

namespace Cleared

theorem ne_of_cached {key : LookupKey} {config : Config} (h : Cleared c s)
    (hc : s.maps.cached key = some config) : config ≠ c := by
  rintro rfl
  exact h.maps (Maps.has_of_cached hc)

theorem turn {phase' : Phase} (h : Cleared c s) (hgone : c ∉ s.source)
    (hphase : phase.Lacks c s.generation) (ht : Turn s phase phase') :
    phase'.Lacks c s.generation := by
  cases ht with
  | loaded => exact hgone
  | validated _ _ hmaps => exact fun hhas => hphase (Maps.mem_of_snapshot hmaps hhas)
  | read key =>
    cases hfind : s.source.find? key.names with
    | none => trivial
    | some =>
      rintro - rfl
      exact hgone (List.mem_of_find?_eq_some hfind)
  | answered => exact hphase
  | _ => trivial

/-- A group that is gone from source and cache does not come back. -/
theorem step (ht : Tidy s) (h : Cleared c s) (hgone : c ∉ s.source) (hc : Change s m s') :
    Cleared c s' := by
  -- while the generation stays, only the call that moves is to be looked at
  have keep : ∀ {pid : ℕ} {q₀ : Process}, q₀.phase.Lacks c s.generation → ∀ i q,
      update s.calls pid (some q₀) i = some q → q.phase.Lacks c s.generation :=
    forall_update h.phases
  cases hc with
  | changed => exact ⟨h.maps, h.phases⟩
  | called call =>
    exact ⟨h.maps, keep (start_elim trivial (fun _ => trivial) (fun _ => trivial) call)⟩
  | canceled pid p hp => exact ⟨h.maps, keep (h.phases pid p hp)⟩
  | advanced _ pid p _ hp ha =>
    have here := h.phases pid p hp
    cases ha with
    | turned _ hturn => exact ⟨h.maps, keep (h.turn hgone here hturn)⟩
    | replaced _ hphase =>
      rw [hphase] at here
      exact ⟨here, forall_update
        (fun i q hq => Phase.lacks_succ (ht.since i q hq) fun _ => h.phases i q hq) trivial⟩
    | published _ _ hphase =>
      rw [hphase] at here
      refine ⟨fun hhas => ?_, keep trivial⟩
      rcases Maps.has_put hhas with heq | hhas
      · exact here rfl heq.symm
      · exact h.maps hhas
    | _ => exact ⟨h.maps, keep trivial⟩

end Cleared

/-! ## The refresh -/

def Phase.Clears (c : Config) (s : Cache) : Phase → Prop
  | loading (some groups) => c ∉ groups
  | replacing maps => ¬ maps.Has c
  | notifying | returned (.refreshed (.ok _)) => Cleared c s
  | _ => True

def Clearing (c : Config) (pid : ℕ) (s : Cache) : Prop :=
  ∀ p, s.calls pid = some p → p.phase.Clears c s

/-- One step keeps the refresh on its way to clear the group. -/
theorem Clearing.step {r : ℕ} (ht : Tidy s) (h : Clearing c r s) (hgone : c ∉ s.source)
    (hc : Change s m s') : Clearing c r s' := by
  -- what has been cleared stays so
  have keep : ∀ phase : Phase, phase.Clears c s → phase.Clears c s' := by
    intro phase hphase
    unfold Phase.Clears at hphase ⊢
    split
    · exact hphase
    · exact hphase
    · exact hphase.step ht hgone hc
    · exact hphase.step ht hgone hc
    · trivial
  intro q hq
  cases hc.origin hq with
  | began call hphase =>
    rw [hphase]
    exact start_elim trivial (fun _ => trivial) (fun _ => trivial) call
  | stood p hp hphase =>
    rw [hphase]
    exact keep _ (h p hp)
  | moved p hp ha =>
    have here := h p hp
    cases ha with
    | turned phase hturn =>
      cases (update_self ..).symm.trans hq
      generalize p.phase = before at here hturn
      cases hturn with
      | loaded => exact hgone
      | validated _ _ hmaps => exact fun hhas => here (Maps.mem_of_snapshot hmaps hhas)
      | _ => trivial
    | replaced _ hphase =>
      cases (update_self ..).symm.trans hq
      rw [hphase] at here
      refine ⟨here, fun i q hq => ?_⟩
      rcases update_eq_some hq with ⟨rfl, rfl⟩ | ⟨hi, hq⟩
      · trivial
      · -- no other refresh is under way
        refine Phase.lacks_succ (ht.since i q hq) fun hgated => ?_
        exact absurd (ht.eq_of_gated hp (hphase ▸ rfl) hq hgated) hi
    | refreshed result _ hok =>
      cases (update_self ..).symm.trans hq
      cases result with
      | error => trivial
      | ok =>
        rw [hok rfl] at here
        exact keep .notifying here
    | _ =>
      cases (update_self ..).symm.trans hq
      trivial

/-! ## The lookup -/

/--
The move does not let a lookup join a flight that has found a group already. Such a flight is in
the last step of its call: the lookup would wait for a result that the snapshot does not hold.
-/
def timely (s : Cache) : Move → Bool
  | .run pid =>
    match s.calls pid with
    | some ⟨.claiming key, _⟩ =>
      match s.maps.cached key, s.flights key with
      | none, some flight =>
        match s.calls flight with
        | some ⟨.finishing _ (.ok _), _⟩ => false
        | _ => true
      | _, _ => true
    | _ => true
  | _ => true

structure Lands (c : Config) (flight : ℕ) (s : Cache) : Prop where
  finishing : ∀ q key, s.calls flight = some q → q.phase ≠ .finishing key (.ok c)
  result : s.results flight ≠ some (.ok c)

def Phase.Spares (c : Config) (s : Cache) : Phase → Prop
  | returned (.found r) => r ≠ .ok c
  | finishing _ r => r ≠ .ok c
  | waiting flight => Lands c flight s
  | _ => True

structure Spared (c : Config) (l : ℕ) (s : Cache) : Prop where
  cleared : Cleared c s
  lookup : ∀ p, s.calls l = some p → p.phase.Spares c s

/-- One step keeps the flight from ending with the group. -/
theorem Lands.step (hcl : Cleared c s) (h : Lands c flight s) (hc : Change s m s') :
    Lands c flight s' := by
  refine ⟨fun q key hq => ?_, fun hr => ?_⟩
  · cases hc.origin hq with
    | began call hphase =>
      rw [hphase]
      exact start_elim (P := (· ≠ .finishing key (.ok c))) nofun (fun _ => nofun) (fun _ => nofun) call
    | stood p hp hphase =>
      rw [hphase]
      exact h.finishing p key hp
    | moved p hp ha =>
      cases ha with
      | turned phase hturn =>
        cases (update_self ..).symm.trans hq
        generalize p.phase = before at hturn
        cases hturn with
        | refound _ _ hcached =>
          rintro ⟨⟩
          exact hcl.ne_of_cached hcached rfl
        | _ => nofun
      | published _ _ hphase =>
        cases (update_self ..).symm.trans hq
        have here := hcl.phases _ p hp
        rw [hphase] at here
        rintro ⟨⟩
        exact here rfl rfl
      | _ =>
        cases (update_self ..).symm.trans hq
        nofun
  · cases hc with
    | advanced _ pid p _ hp ha =>
      cases ha with
      | turned | entered | replaced | refreshed | opened | published => exact h.result hr
      | finished key r hphase =>
        by_cases heq : flight = pid
        · subst heq
          simp only [update_self, Option.some.injEq] at hr
          rw [hr] at hphase
          exact h.finishing p key hp hphase
        · simp only [update_of_ne heq] at hr
          exact h.result hr
    | _ => exact h.result hr

theorem lands_of_joined {key : LookupKey} (ht : Tidy s) (hp : s.calls pid = some p)
    (hphase : p.phase = .claiming key) (hmiss : s.maps.cached key = none)
    (hflight : s.flights key = some flight) (htimely : timely s (.run pid) = true) :
    Lands c flight s := by
  obtain ⟨q, hq, hfly⟩ := ht.flights key flight hflight
  refine ⟨fun q' key' hq' hfin => ?_, fun hr => ?_⟩
  · obtain ⟨_, _⟩ := p
    obtain ⟨_, _⟩ := q'
    subst hphase hfin
    simp [timely, hp, hmiss, hflight, hq'] at htimely
  · obtain ⟨_, o, hq', ho⟩ := ht.results flight _ hr
    cases hq.symm.trans hq'
    rw [ho] at hfly
    cases hfly

/-- One timely step keeps the lookup from the group. -/
theorem Spared.step (ht : Tidy s) (h : Spared c l s) (hgone : c ∉ s.source)
    (htimely : timely s m = true) (hc : Change s m s') : Spared c l s' := by
  have hcl := h.cleared
  refine ⟨hcl.step ht hgone hc, fun q hq => ?_⟩
  have keep : ∀ phase : Phase, phase.Spares c s → phase.Spares c s' := by
    intro phase hphase
    unfold Phase.Spares at hphase ⊢
    split
    · exact hphase
    · exact hphase
    · exact hphase.step hcl hc
    · trivial
  cases hc.origin hq with
  | began call hphase =>
    rw [hphase]
    exact start_elim trivial (fun _ => trivial) (fun _ => nofun) call
  | stood p hp hphase =>
    rw [hphase]
    exact keep _ (h.lookup p hp)
  | moved p hp ha hm =>
    have here := h.lookup p hp
    cases ha with
    | turned phase hturn =>
      cases (update_self ..).symm.trans hq
      generalize hb : p.phase = before at here hturn
      cases hturn with
      | hit _ _ _ _ hcached | refound _ _ hcached =>
        rintro ⟨⟩
        exact hcl.ne_of_cached hcached rfl
      | joined key _ hmiss hflight =>
        rw [hm ⟨key, hb⟩] at htimely
        exact (lands_of_joined ht hp hb hmiss hflight htimely).step hcl hc
      | landed _ r hr =>
        rintro rfl
        exact here.result hr
      | gaveUp | left | failed => nofun
      | _ => trivial
    | published _ _ hphase =>
      cases (update_self ..).symm.trans hq
      have here := hcl.phases _ p hp
      rw [hphase] at here
      rintro ⟨⟩
      exact here rfl rfl
    | finished _ r hphase =>
      cases (update_self ..).symm.trans hq
      rw [hphase] at here
      exact here
    | _ =>
      cases (update_self ..).symm.trans hq
      trivial

/-! ## A lookup after a refresh -/

def Cache.outcome (s : Cache) (pid : ℕ) : Option Outcome :=
  match s.calls pid with
  | some ⟨.returned o, _⟩ => some o
  | _ => none

def Cache.beforeLoad (s : Cache) (pid : ℕ) : Bool :=
  match s.calls pid with
  | none | some ⟨.gate, _⟩ => true
  | _ => false

theorem outcome_eq_some (h : s.outcome pid = some o) :
    ∃ p, s.calls pid = some p ∧ p.phase = .returned o := by
  unfold Cache.outcome at h
  split at h
  · next hp =>
    cases h
    exact ⟨_, hp, rfl⟩
  · cases h

theorem clearing_of_beforeLoad (h : s.beforeLoad pid = true) : Clearing c pid s := by
  intro p hp
  unfold Cache.beforeLoad at h
  rw [hp] at h
  split at h
  · next heq => cases heq
  · next heq =>
    cases heq
    trivial
  · cases h

/-- `c` is not in the source, neither before nor after the step. -/
def Gone (c : Config) (s : Cache) (_ : Move) (s' : Cache) : Prop := c ∉ s.source ∧ c ∉ s'.source

/--
**A lookup that begins after a successful refresh does not return a group that is gone.** `s₀` is
before the refresh `r` loads, in `s₁` it has returned and the lookup `l` has not begun. The group
`c` is not in the source from `s₀` to `s₂`, and no lookup joins a flight that has its result.
-/
theorem lookup_after_refresh {ms₀ ms₁ ms₂ : List Move} {s₀ s₁ s₂ : Cache} {r : ℕ}
    (h₀ : machine.run ms₀ = some s₀) (hload : s₀.beforeLoad r = true)
    (h₁ : machine.Along (Gone c) s₀ ms₁ s₁)
    (hret : s₁.outcome r = some (.refreshed (.ok ()))) (hnew : s₁.calls l = none)
    (h₂ : machine.Along (fun s m s' => Gone c s m s' ∧ timely s m = true) s₁ ms₂ s₂) :
    s₂.outcome l ≠ some (.found (.ok c)) := by
  have ht₀ : Tidy s₀ := Tidy.invariant.run h₀
  have ht₁ : Tidy s₁ := Tidy.invariant.runFrom ht₀ h₁.runFrom
  have hclear : Clearing c r s₁ := by
    refine h₁.keeps Tidy.invariant ?_ ht₀ (clearing_of_beforeLoad hload)
    exact fun s m s' ht h hstep hgone => h.step ht hgone.1 (Cache.change_of_step hstep)
  have hspared₁ : Spared c l s₁ := by
    obtain ⟨p, hp, hphase⟩ := outcome_eq_some hret
    have hcl := hclear p hp
    rw [hphase] at hcl
    refine ⟨hcl, fun q hq => ?_⟩
    cases hnew.symm.trans hq
  have hspared₂ : Spared c l s₂ := by
    refine h₂.keeps Tidy.invariant ?_ ht₁ hspared₁
    exact fun s m s' ht h hstep hok => h.step ht hok.1.1 hok.2 (Cache.change_of_step hstep)
  intro hout
  obtain ⟨q, hq, hphase⟩ := outcome_eq_some hout
  have hspares := hspared₂.lookup q hq
  rw [hphase] at hspares
  exact hspares rfl

/-! ### Runs -/

def demoGroup : Config :=
  { id := 1, name := "group", discoveryKey := "key", token := "00000000000040008000000000000000" }

/-- The cache is loaded without the group, which then appears and is looked up. The lookup has
published it, and not yet ended its flight, when the group is deleted and a refresh begins. -/
def demoLookup : List Move :=
  [.call .refresh, .run 0, .sample 0, .answer 0 .value, .run 0, .run 0, .change [demoGroup],
    .call (.byId 1), .run 1, .run 1, .run 1, .sample 1, .answer 1 .value, .run 1, .change [],
    .call .refresh]

def demoRefresh : List Move := [.run 2, .sample 2, .answer 2 .value, .run 2, .run 2]

instance : Decidable (Gone c s m s') := inferInstanceAs (Decidable (_ ∧ _))

def shows (c : Config) (test : Cache → Move → Bool) (ms₀ ms₁ ms₂ : List Move) (o : Outcome) : Bool :=
  (machine.run ms₀).any fun s₀ => s₀.beforeLoad 2 &&
    (Machine.Along.check machine (fun s m s' => decide (Gone c s m s')) s₀ ms₁).any fun s₁ =>
    decide (s₁.outcome 2 = some (.refreshed (.ok ()))) && (s₁.calls 3).isNone &&
    (Machine.Along.check machine (fun s m s' => decide (Gone c s m s') && test s m) s₁ ms₂).any
      fun s₂ => decide (s₂.outcome 3 = some o)

theorem of_shows {test : Cache → Move → Bool} {ms0 ms1 ms2 : List Move}
    (h : shows c test ms0 ms1 ms2 o = true) : ∃ s0 s1 s2,
    machine.run ms0 = some s0 ∧ s0.beforeLoad 2 = true ∧ machine.Along (Gone c) s0 ms1 s1 ∧
    s1.outcome 2 = some (.refreshed (.ok ())) ∧ s1.calls 3 = none ∧
    machine.Along (fun s m s' => Gone c s m s' ∧ test s m = true) s1 ms2 s2 ∧
    s2.outcome 3 = some o := by
  simp only [shows, Option.any_eq_true, Bool.and_eq_true, decide_eq_true_eq,
    Option.isNone_iff_eq_none] at h
  obtain ⟨s0, h0, hload, s1, h1, ⟨hret, hnew⟩, s2, h2, hout⟩ := h
  refine ⟨s0, s1, s2, h0, hload, .of_check h1 fun _ _ _ => of_decide_eq_true, hret, hnew,
    .of_check h2 fun s m s' htest => ?_, hout⟩
  obtain ⟨hgone, htest⟩ := Bool.and_eq_true_iff.mp htest
  exact ⟨of_decide_eq_true hgone, htest⟩

/-- The flight has ended when the new lookup begins, which asks the source itself. -/
theorem demo_lookup_after_refresh : ∃ s₂ : Cache,
    s₂.outcome 3 = some (.found (.error .notFound)) ∧
    s₂.outcome 3 ≠ some (.found (.ok demoGroup)) := by
  have h : shows demoGroup timely demoLookup (.run 1 :: demoRefresh)
      [.call (.byId 1), .run 3, .run 3, .run 3, .sample 3, .answer 3 .value, .run 3, .run 3]
      (.found (.error .notFound)) = true := by decide +kernel
  obtain ⟨_, _, s₂, h₀, hload, h₁, hret, hnew, h₂, hout⟩ := of_shows h
  exact ⟨s₂, hout, lookup_after_refresh h₀ hload h₁ hret hnew h₂⟩

/-- The new lookup finds the flight open and is handed the deleted group. -/
theorem stale_flight : ∃ ms₀ ms₁ ms₂ s₀ s₁ s₂,
    machine.run ms₀ = some s₀ ∧ s₀.beforeLoad 2 = true ∧
    machine.Along (Gone demoGroup) s₀ ms₁ s₁ ∧
    s₁.outcome 2 = some (.refreshed (.ok ())) ∧ s₁.calls 3 = none ∧
    machine.Along (Gone demoGroup) s₁ ms₂ s₂ ∧
    s₂.outcome 3 = some (.found (.ok demoGroup)) := by
  have h : shows demoGroup (fun _ _ => true) demoLookup demoRefresh
      [.call (.byId 1), .run 3, .run 3, .run 1, .run 3] (.found (.ok demoGroup)) = true := by
    decide +kernel
  obtain ⟨s₀, s₁, s₂, h₀, hload, h₁, hret, hnew, h₂, hout⟩ := of_shows h
  exact ⟨_, _, _, s₀, s₁, s₂, h₀, hload, h₁, hret, hnew, h₂.mono fun _ _ _ hok => hok.1, hout⟩

end Dogx.GroupCache
