import Dogx.Executor.Handover

/-!
# Reachable states

The three invariants together, and what a step does to a single activity.
-/

namespace Dogx.Executor

namespace Activity

structure Evolves (act act' : Activity) : Prop where
  call : act'.call = act.call
  invocation : act'.invocation = act.invocation
  marked : act.cancelled = true → act.Unstarted → act'.cancelled = true ∧ act'.Unstarted
  signalled : act.ctx = some true → act'.ctx = some true

theorem Evolves.refl (act : Activity) : act.Evolves act := ⟨rfl, rfl, fun hc hun => ⟨hc, hun⟩, id⟩

end Activity

namespace Runtime

variable {cfg : Config} {s s' : Runtime} {a : ℕ} {act : Activity}

structure Sound (cfg : Config) (s : Runtime) : Prop where
  lifecycle : Lifecycle cfg s
  places : Places s
  handing : Handing cfg s

/-- All invariants hold in every run of the executor. -/
theorem sound_invariant : (runtime cfg).Invariant (Sound cfg) where
  init := ⟨lifecycle_init, places_init, handing_init⟩
  step _ _ _ h hm :=
    have hc := step_change hm
    ⟨lifecycle_step h.lifecycle hc, places_step h.lifecycle h.places hc,
      handing_step h.lifecycle h.handing hc⟩

theorem evolves_set (hact : s.heap a = some act) {b : ℕ} {act0 act1 : Activity}
    (hb : s.heap b = some act0) (hev : act0.Evolves act1) :
    ∃ act', Function.update s.heap b (some act1) a = some act' ∧ act.Evolves act' := by
  by_cases hab : a = b
  · subst hab
    cases hact.symm.trans hb
    exact ⟨act1, by simp, hev⟩
  · exact ⟨act, by simpa [hab] using hact, .refl act⟩

/-- No step takes back what has happened to an activity. -/
theorem evolves_step (hp : Places s) (hc : Change cfg s s') (hact : s.heap a = some act) :
    ∃ act', s'.heap a = some act' ∧ act.Evolves act' := by
  -- a started activity is not one that a cancellation can still hold back
  have hstarted : ∀ {act0 act1 : Activity}, act0.started = true → act1.call = act0.call →
      act1.invocation = act0.invocation → (act0.ctx = some true → act1.ctx = some true) →
      act0.Evolves act1 := fun hs hcall hinv hsig =>
    ⟨hcall, hinv, fun _ hun => absurd (hs.symm.trans hun.started) (by simp), hsig⟩
  cases hc with
  | same | refused | answered | started | inserted | drained | expired | received | exited | skipped | released
  | blocked | woken | reported | workersDone => exact ⟨act, hact, .refl act⟩
  | reporterDone =>
    exact ⟨act, by rw [sameWork_closeDone.heap]; exact hact, .refl act⟩
  | stopped => exact ⟨act, by rw [sameWork_stop.heap]; exact hact, .refl act⟩
  | sent =>
    refine ⟨act, ?_, .refl act⟩
    unfold send
    split
    · exact hact
    · have hne : a ≠ s.next := Nat.ne_of_lt (hp.fresh a act hact)
      simpa [hne] using hact
  | cancelled instanceId =>
    refine ⟨s.cancelIn instanceId a act, by simp [cancel, hact], ?_, alike_cancelIn.invocation,
      fun hc hun => ?_, fun hctx => ?_⟩
    · unfold cancelIn
      split <;> rfl
    · refine ⟨?_, alike_cancelIn.unstarted hun⟩
      unfold cancelIn
      split
      · rfl
      · exact hc
    · unfold cancelIn
      split
      · simp [Activity.cancel, hctx]
      · exact hctx
  | begun w b act0 _ hw hb hlive =>
    have hun : act0.Unstarted := hp.fits hw rfl hb
    refine evolves_set hact hb ⟨rfl, rfl,
      fun hc => absurd (hlive.symm.trans hc) (by simp), fun hctx => ?_⟩
    have := hun.started
    simp [Activity.started, hctx] at this
  | called w b _ hw hb | handed w b _ _ _ _ hw hb =>
    exact evolves_set hact hb (hstarted (hp.fits hw rfl hb).1 rfl rfl id)
  | left w b _ _ hw hb =>
    exact evolves_set hact hb (hstarted (hp.fits hw rfl hb).1 rfl rfl fun _ => rfl)
  | discarded w b act0 _ hw hb =>
    have hs : act0.started = true := by
      rcases hw with hw | ⟨_, hw⟩
      · exact (hp.fits hw rfl hb).1
      · exact (hp.fits hw rfl hb).1
    exact evolves_set hact hb (hstarted hs rfl rfl id)

end Runtime

end Dogx.Executor
