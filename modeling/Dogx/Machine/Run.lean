import Mathlib

/-!
# State machines

A `Machine` is a shared object with an initial state and a partial step: `step s m` is the state
after the move `m`, or `none` where the move is not possible. When several parties share the
object, each move is one uninterrupted action of one of them, so a run, a list of moves, is one
interleaving.
-/

universe u v w

structure Machine (σ : Type u) (μ : Type v) where
  init : σ
  step : σ → μ → Option σ

namespace Machine

variable {σ : Type u} {μ : Type v} {M : Machine σ μ} {I P Q : σ → Prop} {ok : μ → Prop}
  {s s' : σ} {m : μ} {ms ms' : List μ}

/-! ## Runs -/

def runFrom (M : Machine σ μ) (s : σ) : List μ → Option σ
  | [] => some s
  | m :: ms => (M.step s m).bind fun s' => M.runFrom s' ms

def run (M : Machine σ μ) (ms : List μ) : Option σ := M.runFrom M.init ms

theorem runFrom_cons :
    M.runFrom s (m :: ms) = some s' ↔ ∃ t, M.step s m = some t ∧ M.runFrom t ms = some s' :=
  Option.bind_eq_some_iff

theorem runFrom_append :
    M.runFrom s (ms ++ ms') = some s' ↔ ∃ t, M.runFrom s ms = some t ∧ M.runFrom t ms' = some s' := by
  induction ms generalizing s with
  | nil => simp [runFrom]
  | cons m _ ih =>
    simp only [List.cons_append, runFrom_cons, ih]
    constructor
    · rintro ⟨t, hm, t', hr, hr'⟩
      exact ⟨t', ⟨t, hm, hr⟩, hr'⟩
    · rintro ⟨t', ⟨t, hm, hr⟩, hr'⟩
      exact ⟨t, hm, t', hr, hr'⟩

theorem run_append :
    M.run (ms ++ ms') = some s' ↔ ∃ t, M.run ms = some t ∧ M.runFrom t ms' = some s' :=
  runFrom_append

/-! ## Invariants -/

structure Invariant (M : Machine σ μ) (I : σ → Prop) : Prop where
  init : I M.init
  step : ∀ ⦃s m s'⦄, I s → M.step s m = some s' → I s'

def Keeps (M : Machine σ μ) (I P : σ → Prop) : Prop :=
  ∀ ⦃s m s'⦄, I s → P s → M.step s m = some s' → P s'

namespace Invariant

theorem runFrom (h : M.Invariant I) (hs : I s) (hr : M.runFrom s ms = some s') : I s' := by
  induction ms generalizing s with
  | nil => cases hr; exact hs
  | cons m _ ih =>
    obtain ⟨t, hm, hr⟩ := runFrom_cons.mp hr
    exact ih (h.step hs hm) hr

/-- An invariant holds at the end of every run. -/
theorem run (h : M.Invariant I) (hr : M.run ms = some s) : I s := h.runFrom h.init hr

theorem and (h : M.Invariant I) (hinit : P M.init) (hP : M.Keeps I P) :
    M.Invariant fun s => I s ∧ P s :=
  ⟨⟨h.init, hinit⟩, fun _ _ _ hs hm => ⟨h.step hs.1 hm, hP hs.1 hs.2 hm⟩⟩

/-- What every step keeps, under an invariant, a run keeps. -/
theorem keep (h : M.Invariant I) (hP : M.Keeps I P) (hs : I s) (hp : P s)
    (hr : M.runFrom s ms = some s') : P s' := by
  induction ms generalizing s with
  | nil => cases hr; exact hp
  | cons m _ ih =>
    obtain ⟨t, hm, hr⟩ := runFrom_cons.mp hr
    exact ih (h.step hs hm) (hP hs hp hm) hr

end Invariant

/-! ## Runs of a kind -/

/-- A run of the moves, from a state to a state, in which every step is `ok`. -/
inductive Along (M : Machine σ μ) (ok : σ → μ → σ → Prop) : σ → List μ → σ → Prop where
  | nil (s : σ) : Along M ok s [] s
  | cons {s t s' : σ} {m : μ} {ms : List μ} (hm : M.step s m = some t) (hok : ok s m t)
      (h : Along M ok t ms s') : Along M ok s (m :: ms) s'

namespace Along

variable {kind kind' : σ → μ → σ → Prop}

theorem runFrom (h : M.Along kind s ms s') : M.runFrom s ms = some s' := by
  induction h with
  | nil => rfl
  | cons hm _ _ ih => exact runFrom_cons.mpr ⟨_, hm, ih⟩

theorem mono (h : M.Along kind s ms s') (hkind : ∀ s m s', kind s m s' → kind' s m s') :
    M.Along kind' s ms s' := by
  induction h with
  | nil s => exact .nil s
  | cons hm hok _ ih => exact .cons hm (hkind _ _ _ hok) ih

theorem of_runFrom (h : M.runFrom s ms = some s') (hok : ∀ m ∈ ms, ok m)
    (hkind : ∀ s m s', ok m → kind s m s') : M.Along kind s ms s' := by
  induction ms generalizing s with
  | nil =>
    cases h
    exact .nil _
  | cons m _ ih =>
    obtain ⟨t, hm, h⟩ := runFrom_cons.mp h
    obtain ⟨hfirst, hrest⟩ := List.forall_mem_cons.mp hok
    exact .cons hm (hkind _ m t hfirst) (ih h hrest)

theorem of_any (h : M.runFrom s ms = some s') : M.Along (fun _ _ _ => True) s ms s' :=
  of_runFrom h (fun _ _ => trivial) fun _ _ _ h => h

def check (M : Machine σ μ) (test : σ → μ → σ → Bool) (s : σ) : List μ → Option σ
  | [] => some s
  | m :: ms => (M.step s m).bind fun t => if test s m t then check M test t ms else none

theorem of_check {test : σ → μ → σ → Bool} (h : check M test s ms = some s')
    (hkind : ∀ s m t, test s m t = true → kind s m t) : M.Along kind s ms s' := by
  induction ms generalizing s with
  | nil =>
    cases h
    exact .nil _
  | cons m _ ih =>
    obtain ⟨t, hm, h⟩ := Option.bind_eq_some_iff.mp h
    obtain ⟨htest, h⟩ := Option.ite_none_right_eq_some.mp h
    exact .cons hm (hkind _ _ _ htest) (ih h)

/-- What every such step keeps, where `I` holds, the run keeps. -/
theorem keeps (h : M.Along kind s ms s') (hI : M.Invariant I)
    (hP : ∀ ⦃s m s'⦄, I s → P s → M.step s m = some s' → kind s m s' → P s') (hs : I s) (hp : P s) :
    P s' := by
  induction h with
  | nil => exact hp
  | cons hm hok _ ih => exact ih (hI.step hs hm) (hP hs hp hm hok)

end Along

/-- A step of the run, with the parts before and after it. -/
structure StepIn (M : Machine σ μ) (s : σ) (ms : List μ) (s' : σ) (t : σ) (m : μ) (t' : σ) : Prop where
  split : ∃ before after, ms = before ++ m :: after ∧ M.runFrom s before = some t ∧
    M.runFrom t' after = some s'
  step : M.step t m = some t'

theorem StepIn.cons {t u u' : σ} {m' : μ} (hm : M.step s m = some t) (h : M.StepIn t ms s' u m' u') :
    M.StepIn s (m :: ms) s' u m' u' := by
  obtain ⟨⟨before, after, rfl, hb, ha⟩, hstep⟩ := h
  exact ⟨⟨m :: before, after, rfl, runFrom_cons.mpr ⟨t, hm, hb⟩, ha⟩, hstep⟩

/-- The step of the run in which `P` came up, to hold since. -/
structure Began (M : Machine σ μ) (P : σ → Prop) (s : σ) (ms : List μ) (s' t : σ) (m : μ) (t' : σ) :
    Prop where
  split : ∃ before after, ms = before ++ m :: after ∧ M.runFrom s before = some t ∧
    M.Along (fun _ _ u => P u) t' after s'
  step : M.step t m = some t'
  before : ¬P t
  after : P t'

/-- What comes up in a run comes up in one of its steps, and stays. -/
theorem began (h : M.runFrom s ms = some s') (hs : ¬P s) (hs' : P s') :
    ∃ t m t', M.Began P s ms s' t m t' := by
  suffices (P s ∧ M.Along (fun _ _ u => P u) s ms s') ∨ ∃ t m t', M.Began P s ms s' t m t' from
    this.resolve_left fun hp => hs hp.1
  clear hs
  induction ms generalizing s with
  | nil =>
    cases h
    exact .inl ⟨hs', .nil _⟩
  | cons m ms ih =>
    obtain ⟨t, hm, h⟩ := runFrom_cons.mp h
    rcases ih h with ⟨ht, halong⟩ | ⟨u, m', u', ⟨before, after, rfl, hb, ha⟩, hstep, hnot, hp⟩
    · by_cases hs : P s
      · exact .inl ⟨hs, .cons hm ht halong⟩
      · exact .inr ⟨s, m, t, ⟨[], ms, rfl, rfl, halong⟩, hm, hs, ht⟩
    · exact .inr ⟨u, m', u', ⟨m :: before, after, rfl, runFrom_cons.mpr ⟨t, hm, hb⟩, ha⟩, hstep,
        hnot, hp⟩

/-- What every such step keeps, unless it is a step with `D`, the run keeps, or it has such a step. -/
theorem Along.keeps_or {kind D : σ → μ → σ → Prop} (h : M.Along kind s ms s') (hI : M.Invariant I)
    (hP : ∀ ⦃s m s'⦄, I s → P s → M.step s m = some s' → kind s m s' → P s' ∨ D s m s')
    (hs : I s) (hp : P s) : P s' ∨ ∃ t m t', M.StepIn s ms s' t m t' ∧ D t m t' := by
  induction h with
  | nil => exact .inl hp
  | @cons s t s' m ms hm hok hrest ih =>
    rcases hP hs hp hm hok with hp | hd
    · rcases ih (hI.step hs hm) hp with hp | ⟨u, m', u', hin, hd⟩
      · exact .inl hp
      · exact .inr ⟨u, m', u', hin.cons hm, hd⟩
    · exact .inr ⟨s, m, t, ⟨⟨[], ms, rfl, rfl, hrest.runFrom⟩, hm⟩, hd⟩

/-! ## Simulation -/

/-- What one step can follow, a run can. -/
theorem simulates {τ : Type w} {N : Machine τ μ} {t : τ} {R : σ → τ → Prop}
    (hstep : ∀ s t m s', R s t → M.step s m = some s' → ∃ t', N.step t m = some t' ∧ R s' t')
    (hR : R s t) (h : M.runFrom s ms = some s') : ∃ t', N.runFrom t ms = some t' ∧ R s' t' := by
  induction ms generalizing s t with
  | nil =>
    cases h
    exact ⟨t, rfl, hR⟩
  | cons m _ ih =>
    obtain ⟨u, hm, h⟩ := runFrom_cons.mp h
    obtain ⟨t', ht', hR⟩ := hstep s t m u hR hm
    obtain ⟨t'', hrun, hR⟩ := ih hR h
    exact ⟨t'', runFrom_cons.mpr ⟨t', ht', hrun⟩, hR⟩

/-! ## Possible continuations -/

/-- Some run from `s`, of moves with `ok` only, leads to a state with `Q`. -/
def Can (M : Machine σ μ) (ok : μ → Prop) (Q : σ → Prop) (s : σ) : Prop :=
  ∃ ms s', (∀ m ∈ ms, ok m) ∧ M.runFrom s ms = some s' ∧ Q s'

namespace Can

theorem here (h : Q s) : M.Can ok Q s := ⟨[], s, by simp, rfl, h⟩

theorem step (hm : M.step s m = some s') (hok : ok m) (h : M.Can ok Q s') : M.Can ok Q s := by
  obtain ⟨ms, t, hms, hr, hq⟩ := h
  exact ⟨m :: ms, t, by simpa using ⟨hok, hms⟩, runFrom_cons.mpr ⟨s', hm, hr⟩, hq⟩

theorem trans (h : M.Can ok P s) (h' : ∀ t, P t → M.Can ok Q t) : M.Can ok Q s := by
  obtain ⟨ms, t, hms, hr, hp⟩ := h
  obtain ⟨ms', u, hms', hr', hq⟩ := h' t hp
  refine ⟨ms ++ ms', u, fun m hm => ?_, runFrom_append.mpr ⟨t, hr, hr'⟩, hq⟩
  exact (List.mem_append.mp hm).elim (hms m) (hms' m)

end Can

end Machine
