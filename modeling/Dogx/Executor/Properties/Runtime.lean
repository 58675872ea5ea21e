import Dogx.Executor.Sound

/-!
# Consistency of the runtime

In every interleaving the active map is what is queued or executing, the queue is bounded and never
sent to after its close, every admission is executed at most once, a cancellation is final, and the
result of every call of a processor goes exactly one way.
-/

namespace Dogx.Executor

namespace Runtime

variable {cfg : Config} {s s' : Runtime} {a : ℕ} {act act' : Activity}

/-! ## Cancellation -/

def Marked (a : ℕ) (s : Runtime) : Prop :=
  ∃ act, s.heap a = some act ∧ act.cancelled = true ∧ act.Unstarted

def Signalled (a : ℕ) (s : Runtime) : Prop := ∃ act, s.heap a = some act ∧ act.ctx = some true

theorem marked_kept (a : ℕ) : (runtime cfg).Keeps (Sound cfg) (Marked a) := by
  rintro s m _ h ⟨_, hact, hc, hun⟩ hm
  obtain ⟨act', hact', hev⟩ := evolves_step h.places (step_change hm) hact
  exact ⟨act', hact', hev.marked hc hun⟩

theorem signalled_kept (a : ℕ) : (runtime cfg).Keeps (Sound cfg) (Signalled a) := by
  rintro s m _ h ⟨_, hact, hctx⟩ hm
  obtain ⟨act', hact', hev⟩ := evolves_step h.places (step_change hm) hact
  exact ⟨act', hact', hev.signalled hctx⟩

/-- `Cancel` reaches all active work of the round: what has not started, and the contexts there are. -/
theorem cancel_reaches (hp : Places s) {instanceId : Int}
    (hactive : s.active act.invocation.key = some a) (hact : s.heap a = some act)
    (hinst : act.invocation.instanceId = instanceId) :
    (act.started = false → Marked a (s.cancel instanceId)) ∧
      (act.started = true → Signalled a (s.cancel instanceId)) := by
  have hheap : (s.cancel instanceId).heap a = some act.cancel := by
    simp [cancel, hact, cancelIn, hactive, hinst]
  constructor
  · intro hs
    refine ⟨_, hheap, rfl, ?_⟩
    have hbusy : s.Busy a := by
      obtain ⟨_, _, _, hbusy⟩ := hp.active _ a hactive
      exact hbusy
    have hun : act.Unstarted := by
      rcases hbusy with hq | ⟨w, hw⟩
      · obtain ⟨act0, hact0, hun⟩ := hp.queued a hq
        cases hact.symm.trans hact0
        exact hun
      · have hfit := hp.fits rfl (Worker.activity_of_executing hw) hact
        revert hfit hw
        cases s.workers w <;> simp_all [Worker.executing, Worker.Fits]
    exact ⟨by simpa [Activity.started, Activity.cancel] using hun.started, hun.invoked, hun.returned,
      hun.handed, hun.discarded⟩
  · intro hs
    obtain ⟨b, hb⟩ := Option.isSome_iff_exists.mp hs
    exact ⟨_, hheap, by simp [Activity.cancel, hb]⟩

/-! ## What is handed over -/

def Hands (cfg : Config) (s : Runtime) (a : ℕ) (s' : Runtime) : Prop :=
  ∃ w report now, s.workers w = .handing a report ∧
    s.reporter.submit cfg s.ctxDone now report = .accepted s'.reporter

theorem handed_set {b : ℕ} {act0 act1 : Activity} (hact : s.heap a = some act)
    (hb : s.heap b = some act0) (hact' : Function.update s.heap b (some act1) a = some act')
    (hsame : act1.handed = act0.handed) : act'.handed = act.handed := by
  by_cases hab : a = b
  · subst hab
    cases hact.symm.trans hb
    rw [Function.update_self] at hact'
    exact Option.some.inj hact' ▸ hsame
  · rw [Function.update_of_ne hab, hact] at hact'
    exact Option.some.inj hact' ▸ rfl

/-- Only a submission that the reporter accepts moves the count of an activity. -/
theorem hands_step (hp : Places s) (hc : Change cfg s s') (hact : s.heap a = some act)
    (hact' : s'.heap a = some act') : act'.handed = act.handed ∨ Hands cfg s a s' := by
  have hsame : s.heap a = some act' → act'.handed = act.handed := fun h =>
    Option.some.inj (h.symm.trans hact) ▸ rfl
  cases hc with
  | handed w b act0 report now reporter hw hb hr =>
    by_cases hab : a = b
    · subst hab
      exact .inr ⟨w, report, now, hw, hr⟩
    · exact .inl (hsame ((Function.update_of_ne hab ..).symm.trans hact'))
  | begun w b _ _ _ hb | called w b _ _ hb | left w b _ _ _ hb | discarded w b _ _ _ hb =>
    exact .inl (handed_set hact hb hact' rfl)
  | cancelled instanceId =>
    simp only [cancel, hact, Option.map_some] at hact'
    exact .inl (Option.some.inj hact' ▸ alike_cancelIn.handed)
  | sent =>
    have hne : a ≠ s.next := Nat.ne_of_lt (hp.fresh a act hact)
    unfold send at hact'
    split at hact'
    · exact .inl (hsame hact')
    · exact .inl (hsame (by simpa [hne] using hact'))
  | stopped => exact .inl (hsame (sameWork_stop.heap ▸ hact'))
  | reporterDone =>
    rw [sameWork_closeDone.heap] at hact'
    exact .inl (hsame hact')
  | _ => exact .inl (hsame hact')

/-! ## Consistency -/

/--
* `active` — while no `Accept` is between its send and its insertion, the map holds exactly the work
  that is queued or executing, under its key
* `unique` — at most one of them for a key, at any time
* `handed` — what is counted as handed over, the reporter has accepted
* `delivered` — a result goes one way: none or one before its worker is through with it, one after,
  and the executor's own goroutines can get it there
-/
structure Consistent (cfg : Config) (s : Runtime) : Prop where
  active : s.admitting = none → ∀ key a, s.active key = some a ↔
    ∃ act, s.heap a = some act ∧ act.invocation.key = key ∧ s.Busy a
  unique : ∀ a b act act', s.heap a = some act → s.heap b = some act' → s.Busy a → s.Busy b →
    act.invocation.key = act'.invocation.key → a = b
  bounded : s.queue.Nodup ∧ s.queue.length ≤ cfg.limits.queueCapacity
  invoked : ∀ a act, s.heap a = some act → act.invoked ≤ 1
  calm : s.panicked = false
  handed : ∀ m s' a act act', s.step cfg m = some s' → s.heap a = some act →
    s'.heap a = some act' → act'.handed ≠ act.handed → Hands cfg s a s'
  delivered : ∀ a act, s.heap a = some act → act.returned = 1 →
    act.handed + act.discarded ≤ 1 ∧
    ((∀ w, (s.workers w).activity ≠ some a) → act.handed + act.discarded = 1) ∧
    (runtime cfg).Can Move.own (Delivered a) s

theorem Sound.unique (h : Sound cfg s) {b : ℕ} (ha : s.heap a = some act)
    (hb : s.heap b = some act') (hba : s.Busy a) (hbb : s.Busy b)
    (hkey : act.invocation.key = act'.invocation.key) : a = b := by
  -- an activity that is being admitted has no other one under its key
  have hadm : ∀ {x y : ℕ} {actx acty : Activity} {caller : Caller}, s.heap x = some actx →
      s.heap y = some acty → s.Busy y → actx.invocation.key = acty.invocation.key →
      s.admitting = some (caller, x) → x = y := by
    intro x y actx acty caller hx hy hby hk hmu
    obtain ⟨act0, hx0, hnone, -⟩ := h.places.admitting caller x hmu
    cases hx.symm.trans hx0
    rcases h.places.busy y acty hy hby with hay | ⟨c, hc⟩
    · rw [← hk, hnone] at hay
      cases hay
    · exact congrArg Prod.snd (Option.some.inj (hmu.symm.trans hc))
  rcases h.places.busy a act ha hba with haa | ⟨c, hc⟩
  · rcases h.places.busy b act' hb hbb with hab | ⟨c, hc⟩
    · rw [hkey, hab] at haa
      exact (Option.some.inj haa).symm
    · exact (hadm hb ha hba hkey.symm hc).symm
  · exact hadm ha hb hbb hkey hc

/-- Each activity is invoked, and its result disposed of, at most once. -/
theorem Sound.history (h : Sound cfg s) (ha : s.heap a = some act) :
    act.invoked ≤ 1 ∧ act.handed + act.discarded ≤ 1 := by
  by_cases hq : a ∈ s.queue
  · obtain ⟨act0, ha0, hun⟩ := h.places.queued a hq
    cases ha.symm.trans ha0
    rw [hun.invoked, hun.handed, hun.discarded]
    exact ⟨Nat.zero_le 1, Nat.zero_le 1⟩
  by_cases hno : ∀ v, (s.workers v).activity ≠ some a
  · rcases h.places.gone a act ha hq hno with hun | ⟨hi, -, hone⟩
    · rw [hun.invoked, hun.handed, hun.discarded]
      exact ⟨Nat.zero_le 1, Nat.zero_le 1⟩
    · exact ⟨Nat.le_of_eq hi, Nat.le_of_eq hone⟩
  · obtain ⟨v, hv⟩ := not_forall_not.mp hno
    have hfit := h.places.fits rfl hv ha
    cases hw : s.workers v with
    | absent | idle | exited => rw [hw] at hv; cases hv
    | taken =>
      rw [hw] at hfit
      have hun : act.Unstarted := hfit
      rw [hun.invoked, hun.handed, hun.discarded]
      exact ⟨Nat.zero_le 1, Nat.zero_le 1⟩
    | _ =>
      rw [hw] at hfit
      obtain ⟨-, _, -, _, _⟩ := hfit
      omega

theorem Sound.consistent (h : Sound cfg s) : Consistent cfg s where
  active hmu key a := by
    constructor
    · exact h.places.active key a
    · rintro ⟨act, ha, rfl, hbusy⟩
      exact (h.places.busy a act ha hbusy).resolve_right fun ⟨c, hc⟩ =>
        absurd (hmu.symm.trans hc) (by simp)
  unique _ _ _ _ ha hb hba hbb hkey := h.unique ha hb hba hbb hkey
  bounded := ⟨h.places.nodup, h.lifecycle.room⟩
  invoked _ _ ha := (h.history ha).1
  calm := h.lifecycle.calm
  handed _ _ _ _ _ hm hact hact' hne :=
    (hands_step h.places (step_change hm) hact hact').resolve_left hne
  delivered a act ha hret := by
    refine ⟨(h.history ha).2, fun hno => ?_, can_deliver h.lifecycle h.places h.handing ha hret⟩
    have hq : a ∉ s.queue := fun hq => by
      obtain ⟨act0, ha0, hun⟩ := h.places.queued a hq
      cases ha.symm.trans ha0
      exact absurd (hun.returned.symm.trans hret) (by simp)
    rcases h.places.gone a act ha hq hno with hun | ⟨-, -, hone⟩
    · exact absurd (hun.returned.symm.trans hret) (by simp)
    · exact hone

/-- The last part: what `Cancel` has reached, in every state after its return. -/
theorem run_consistent {ms : List Move} (hrun : (runtime cfg).run ms = some s) :
    Consistent cfg s ∧
    ∀ (ms₁ ms₂ : List Move) (ctxErr : Option CtxErr) (instanceId : Int)
      (reason : CancelReason) (s₁ : Runtime) (a : ℕ) (act : Activity),
      ms = ms₁ ++ .cancel ctxErr instanceId reason :: ms₂ →
      cancelError ctxErr instanceId reason = none →
      (runtime cfg).run ms₁ = some s₁ → s₁.active act.invocation.key = some a →
      s₁.heap a = some act → act.invocation.instanceId = instanceId →
      ∃ act', s.heap a = some act' ∧
        (act.started = false → act'.started = false ∧ act'.invoked = 0) ∧
        (act.started = true → act'.ctx = some true) := by
  refine ⟨(sound_invariant.run hrun).consistent, ?_⟩
  rintro _ _ _ instanceId _ s₁ a act rfl hok hrun₁ hactive hact hinst
  obtain ⟨t, ht, hrest⟩ := Machine.run_append.mp hrun
  cases hrun₁.symm.trans ht
  obtain ⟨s₂, hcancel, hrest⟩ := Machine.runFrom_cons.mp hrest
  have hs₁ := sound_invariant.run hrun₁
  have hs₂ := sound_invariant.step hs₁ hcancel
  obtain rfl : s₁.cancel instanceId = s₂ := by
    simp only [runtime, step, Runtime.act, hok] at hcancel
    split at hcancel
    · cases hcancel
    · exact Option.some.inj hcancel
  obtain ⟨hmark, hsignal⟩ := cancel_reaches hs₁.places hactive hact hinst
  cases hstarted : act.started with
  | false =>
    obtain ⟨act', hact', -, hun⟩ := sound_invariant.keep (marked_kept a) hs₂ (hmark hstarted) hrest
    exact ⟨act', hact', fun _ => ⟨hun.started, hun.invoked⟩, by simp⟩
  | true =>
    obtain ⟨act', hact', hctx⟩ := sound_invariant.keep (signalled_kept a) hs₂ (hsignal hstarted) hrest
    exact ⟨act', hact', by simp, fun _ => hctx⟩

/-- Two attempts of one round: the first runs when the round is cancelled, the second waits. -/
def demoBefore : List Move :=
  [.start, .accept none 0 (Demo.invocation 1), .insert, .accept none 0 (Demo.invocation 2), .insert,
    .receive 0, .begin 0 1, .call 0]

def demoAfter : List Move :=
  [.leave 0 (.returned none none .empty none), .release 0, .submit 0 2, .receive 0, .begin 0 3]

/-- The first one's context is cancelled and its result handed over; the second never starts. -/
theorem demo_cancelled_round :
    ∃ s, (runtime Demo.config).run
        (demoBefore ++ .cancel none 7 .manualStop :: demoAfter) = some s ∧
      Consistent Demo.config s ∧
      (∃ act, s.heap 0 = some act ∧ act.ctx = some true) ∧
      ∃ act, s.heap 1 = some act ∧ act.started = false ∧ act.invoked = 0 := by
  obtain ⟨s, hrun, -⟩ : ∃ s ∈ (runtime Demo.config).run
      (demoBefore ++ .cancel none 7 .manualStop :: demoAfter), True := by decide +kernel
  obtain ⟨s₁, hrun₁, ha₀, ha₁, ⟨act₀, hact₀, hinv₀, hs₀⟩, act₁, hact₁, hinv₁, hs₁⟩ :
      ∃ s ∈ (runtime Demo.config).run demoBefore,
        s.active (Demo.invocation 1).key = some 0 ∧ s.active (Demo.invocation 2).key = some 1 ∧
        (∃ act ∈ s.heap 0, act.invocation = Demo.invocation 1 ∧ act.started = true) ∧
        ∃ act ∈ s.heap 1, act.invocation = Demo.invocation 2 ∧ act.started = false := by
    decide +kernel
  obtain ⟨hcons, hcancel⟩ := run_consistent hrun
  obtain ⟨act₀', h₀', -, hctx⟩ := hcancel _ _ none 7 .manualStop s₁ 0 act₀ rfl rfl hrun₁
    (hinv₀ ▸ ha₀) hact₀ (hinv₀ ▸ rfl)
  obtain ⟨act₁', h₁', hnever, -⟩ := hcancel _ _ none 7 .manualStop s₁ 1 act₁ rfl rfl hrun₁
    (hinv₁ ▸ ha₁) hact₁ (hinv₁ ▸ rfl)
  exact ⟨s, hrun, hcons, ⟨act₀', h₀', hctx hs₀⟩, act₁', h₁', hnever hs₁⟩

end Runtime

end Dogx.Executor
