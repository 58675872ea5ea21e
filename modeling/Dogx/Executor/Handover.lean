import Dogx.Executor.Places
import Dogx.Executor.Retention

/-!
# Handing results over

Business workers and the reporter together: a worker whose processor has returned can always get rid
of its result, whether the reporter has room, is full or takes nothing more.
-/

namespace Dogx.Executor

/-! ## Business workers and the reporter -/

namespace Runtime

variable {cfg : Config} {s s' : Runtime} {w a now changed : ℕ} {report : ExecutionResult}
  {reporter : Reporter}

structure Handing (cfg : Config) (s : Runtime) : Prop where
  kept : s.reporter.Kept cfg s.ctxDone
  started : s.reporter.started = s.started
  stopped : s.reporter.stopping = true → ∀ v, s.workers v = .exited ∨ s.workers v = .absent
  pool : ∀ v, cfg.limits.concurrency ≤ v → s.workers v = .absent
  waiting : ∀ v a report changed, s.workers v = .waiting a report changed →
    changed ≤ s.reporter.changed ∧ (changed = s.reporter.changed → s.ctxDone = false →
      cfg.limits.reportCapacity ≤ s.reporter.retained)

theorem handing_init : Handing cfg .init :=
  ⟨Reporter.kept_init, rfl, nofun, fun _ _ => rfl, nofun⟩

namespace Handing

theorem expire (h : Handing cfg s) : Handing cfg { s with ctxDone := true } :=
  { h with
    kept := h.kept.done
    waiting := fun v a report changed hv => ⟨(h.waiting v a report changed hv).1, nofun⟩ }

theorem running (h : Handing cfg s) (hw : s.workers w ≠ .absent) (hw' : s.workers w ≠ .exited) :
    w < cfg.limits.concurrency ∧ s.reporter.stopping = false := by
  constructor
  · by_contra hlt
    exact hw (h.pool w (Nat.le_of_not_lt hlt))
  · by_contra hstop
    rcases h.stopped (by simpa using hstop) w with he | he
    · exact hw' he
    · exact hw he

theorem set (h : Handing cfg s) {st : Worker} (hw : s.workers w ≠ .absent)
    (hw' : s.workers w ≠ .exited) (hworkers : s'.workers = Function.update s.workers w st)
    (hstarted : s'.started = s.started) (hctx : s'.ctxDone = s.ctxDone)
    (hkept : s'.reporter.Kept cfg s.ctxDone) (hrep : s'.reporter.started = s.reporter.started)
    (hstop : s'.reporter.stopping = s.reporter.stopping)
    (hchanged : s.reporter.changed ≤ s'.reporter.changed)
    (hsame : s'.reporter.changed = s.reporter.changed → s'.reporter.retained = s.reporter.retained)
    (hst : ∀ a report changed, st = .waiting a report changed →
      changed = s'.reporter.changed ∧ cfg.limits.reportCapacity ≤ s'.reporter.retained) :
    Handing cfg s' := by
  obtain ⟨_, hrun⟩ := h.running hw hw'
  refine ⟨hctx ▸ hkept, by rw [hrep, hstarted, h.started], ?_, ?_, ?_⟩
  · rw [hstop, hrun]; nofun
  · intro v hv
    rw [hworkers, Function.update_of_ne (by omega)]
    exact h.pool v hv
  · intro v a report changed hv
    rw [hworkers] at hv
    by_cases hvw : v = w
    · rw [hvw, Function.update_self] at hv
      obtain ⟨heq, hfull⟩ := hst a report changed hv
      exact ⟨Nat.le_of_eq heq, fun _ _ => hfull⟩
    · rw [Function.update_of_ne hvw] at hv
      obtain ⟨hle, hfull⟩ := h.waiting v a report changed hv
      refine ⟨Nat.le_trans hle hchanged, fun heq hlive => ?_⟩
      have hch : s'.reporter.changed = s.reporter.changed := by omega
      rw [hsame hch]
      exact hfull (by omega) (hctx ▸ hlive)

end Handing

theorem submit_full (hr : s.reporter.submit cfg s.ctxDone now report = .full changed) :
    changed = s.reporter.changed ∧ cfg.limits.reportCapacity ≤ s.reporter.retained := by
  unfold Reporter.submit at hr
  repeat' split at hr
  all_goals cases hr
  next hroom => exact ⟨rfl, Nat.le_of_not_lt hroom⟩

theorem submit_frame (hr : s.reporter.submit cfg s.ctxDone now report = .accepted reporter) :
    reporter.started = s.reporter.started ∧ reporter.stopping = s.reporter.stopping := by
  unfold Reporter.submit at hr
  repeat' split at hr
  all_goals cases hr
  exact ⟨rfl, rfl⟩

/-- One step keeps the handover in order. -/
theorem handing_step (hl : Lifecycle cfg s) (h : Handing cfg s) (hc : Change cfg s s') :
    Handing cfg s' := by
  cases hc with
  | sent =>
    unfold send
    split <;> exact { h with }
  | expired => exact h.expire
  | stopped =>
    unfold stop closeQueue closeDone
    dsimp only
    repeat' split
    all_goals first | exact h | exact { h with } | exact { h.expire with }
  | started reporter hr =>
    have hrep : reporter.started = true ∧ reporter.stopping = false := by
      unfold Reporter.start at hr
      repeat' split at hr
      all_goals cases hr
      next hnew _ => exact ⟨rfl, by simpa using (by simpa using hnew : _ ∧ _).2⟩
    refine ⟨h.kept.start hr, hrep.1, ?_, fun v hv => by simp [Nat.not_lt.mpr hv], ?_⟩
    · rw [hrep.2]; nofun
    · intro v a report changed hv
      dsimp only at hv
      split at hv <;> cases hv
  | received w a _ hw
  | exited w hw | skipped w a act hmu hw | begun w a act hmu hw | called w a act hw | left w a act report hw | released w a act report hmu hw | woken w a report changed hw =>
    exact h.set (by simp [hw]) (by simp [hw]) rfl rfl rfl h.kept rfl rfl (Nat.le_refl _)
      (fun _ => rfl) fun _ _ _ heq => by cases heq
  | discarded w a _ _ hw =>
    have hat : s.workers w ≠ .absent ∧ s.workers w ≠ .exited := by
      rcases hw with hw | ⟨_, hw⟩ <;> simp [hw]
    exact h.set hat.1 hat.2 rfl rfl rfl h.kept rfl rfl (Nat.le_refl _) (fun _ => rfl) fun _ _ _ heq => by cases heq
  | handed w a _ _ _ _ hw _ hr =>
    obtain ⟨hkept, hlt⟩ := h.kept.submit hr
    obtain ⟨hrs, hrp⟩ := submit_frame hr
    exact h.set (by simp [hw]) (by simp [hw]) rfl rfl rfl hkept hrs hrp (Nat.le_of_lt hlt)
      (fun heq => absurd heq (Nat.ne_of_gt hlt)) fun _ _ _ heq => by cases heq
  | blocked w a _ _ _ hw hr =>
    refine h.set (by simp [hw]) (by simp [hw]) rfl rfl rfl h.kept rfl rfl (Nat.le_refl _)
      (fun _ => rfl) fun b report' changed' heq => ?_
    cases heq
    exact submit_full hr
  | reported m _ hr =>
    obtain ⟨hstarted, hstop, hle, hsame⟩ := Reporter.step_frame hr
    refine ⟨h.kept.step hr, by rw [hstarted, h.started], by rw [hstop]; exact h.stopped, h.pool, ?_⟩
    intro v a report changed hv
    dsimp only at hv
    obtain ⟨hle', hfull⟩ := h.waiting v a report changed hv
    refine ⟨Nat.le_trans hle' hle, fun heq hlive => ?_⟩
    dsimp only at heq hlive ⊢
    rcases hsame (by omega) with hret | hall
    · rw [hret]
      exact hfull (by omega) hlive
    · -- the report workers do not exit while a business worker waits
      have hrun := (h.running (w := v) (by simp [hv]) (by simp [hv])).2
      have hstart : s.started = true := by
        by_contra hs
        cases (hl.spawned (by simpa using hs) v).symm.trans hv
      have hpos := cfg.limits.reportConcurrency_pos
      exact absurd (hall 0 hpos) (h.kept.alive hlive (h.started.trans hstart) hrun 0 hpos).1
  | workersDone _ hdone =>
    have hexit : ∀ v, s.workers v = .exited ∨ s.workers v = .absent := fun v => by
      by_cases hv : v < cfg.limits.concurrency
      · exact .inl (hdone v hv)
      · exact .inr (h.pool v (Nat.le_of_not_lt hv))
    refine ⟨h.kept.stop, ?_, fun _ => hexit, h.pool, ?_⟩
    · rw [← h.started]
      unfold Reporter.stop
      dsimp only
      split <;> rfl
    · intro v a report changed hv
      rcases hexit v with he | he <;> simp only [he] at hv <;> cases hv
  | reporterDone =>
    unfold closeDone
    split <;> exact { h.expire with }
  | _ => exact { h with }

/-! ## Getting rid of a result -/

def Move.own : Move → Prop
  | .insert | .receive _ | .begin .. | .call _ | .release _ | .submit .. | .wake _ | .abort _
  | .report _ | .awaitWorkers | .awaitReporter => True
  | .start | .accept .. | .dispatch .. | .cancel .. | .stop | .drain | .expire | .leave .. => False

def Delivered (a : ℕ) (s : Runtime) : Prop :=
  ∃ act, s.heap a = some act ∧ act.handed + act.discarded = 1

theorem can_report {Q : Runtime → Prop} (hlive : s.ctxDone = false) {ms : List Reporter.Move}
    (hr : (Reporter.calm cfg).runFrom s.reporter ms = some reporter)
    (h : (runtime cfg).Can Move.own Q { s with reporter }) : (runtime cfg).Can Move.own Q s := by
  induction ms generalizing s with
  | nil => cases hr; exact h
  | cons m _ ih =>
    obtain ⟨r, hm, hr⟩ := Machine.runFrom_cons.mp hr
    have hstep : (runtime cfg).step s (.report m) = some { s with reporter := r } := by
      have hm : s.reporter.step cfg false m = some r := hm
      simp [runtime, step, Move.locks, act, hlive, hm]
    exact .step hstep trivial (ih hlive hr h)

section

variable {act : Activity} {report : ExecutionResult}

theorem discard_delivers (hact : s.heap a = some act) (hnone : act.handed + act.discarded = 0) :
    ∃ s', s.discard w a = some s' ∧ Delivered a s' := by
  refine ⟨_, by rw [discard, hact]; rfl, { act with discarded := act.discarded + 1 }, ?_, ?_⟩
  · simp [setActivity, setWorker]
  · dsimp only
    omega

theorem can_submit (hw : s.workers w = .handing a report) (hact : s.heap a = some act)
    (hnone : act.handed + act.discarded = 0)
    (hroom : ∀ changed, s.reporter.submit cfg s.ctxDone 0 report ≠ .full changed) :
    (runtime cfg).Can Move.own (Delivered a) s := by
  have hstep : (runtime cfg).step s (.submit w 0) = s.submit cfg w a report 0 := by
    simp [runtime, step, Move.locks, Runtime.act, hw]
  unfold submit at hstep
  cases hsub : s.reporter.submit cfg s.ctxDone 0 report with
  | refused =>
    obtain ⟨_, hs', hdone⟩ := discard_delivers hact hnone
    rw [hsub] at hstep
    exact .step (hstep.trans hs') trivial (.here hdone)
  | accepted =>
    simp only [hsub, hact] at hstep
    refine .step hstep trivial (.here ⟨{ act with handed := act.handed + 1 }, ?_, ?_⟩)
    · simp [setActivity, setWorker]
    · dsimp only
      omega
  | full changed => exact absurd hsub (hroom changed)

theorem submit_not_full (hlive : s.ctxDone = false) (hfree : s.reporter.retained < cfg.limits.reportCapacity)
    (changed : ℕ) : s.reporter.submit cfg s.ctxDone 0 report ≠ .full changed := by
  unfold Reporter.submit
  repeat' split
  all_goals simp_all

/-- A worker that waits for room can get its result delivered. -/
theorem can_wake (h : Handing cfg s) (hstart : s.started = true)
    (hw : s.workers w = .waiting a report changed) (hact : s.heap a = some act)
    (hnone : act.handed + act.discarded = 0) : (runtime cfg).Can Move.own (Delivered a) s := by
  cases hctx : s.ctxDone with
  | true =>
    obtain ⟨s', hs', hdone⟩ := discard_delivers hact hnone
    have hstep : (runtime cfg).step s (.abort w) = some s' := by
      simpa [runtime, step, Move.locks, Runtime.act, hw, hctx] using hs'
    exact .step hstep trivial (.here hdone)
  | false =>
    obtain ⟨_, hfull⟩ := h.waiting w a report changed hw
    -- once the reporter has changed and has room, the worker wakes and submits
    have hwake : ∀ reporter : Reporter, changed ≠ reporter.changed →
        reporter.retained < cfg.limits.reportCapacity →
        (runtime cfg).Can Move.own (Delivered a) { s with reporter } := by
      intro reporter hne hfree
      have hstep : (runtime cfg).step { s with reporter } (.wake w) =
          some ({ s with reporter }.setWorker w (.handing a report)) := by
        simp [runtime, step, Move.locks, Runtime.act, hw, hne.symm]
      have hw' : ({ s with reporter }.setWorker w (.handing a report)).workers w =
          .handing a report := by
        simp [setWorker]
      exact .step hstep trivial (can_submit hw' hact hnone (submit_not_full hctx hfree))
    by_cases hfree : s.reporter.retained < cfg.limits.reportCapacity
    · refine hwake s.reporter (fun heq => ?_) hfree
      exact absurd (hfull heq hctx) (Nat.not_le_of_lt hfree)
    · have hpos := cfg.limits.reportCapacity_pos
      have hrun := (h.running (w := w) (by simp [hw]) (by simp [hw])).2
      have hkept : s.reporter.Kept cfg false := hctx ▸ h.kept
      obtain ⟨_, reporter, -, hr, hfreed⟩ := Reporter.makes_room (n := s.reporter.retained - 1)
        ⟨by omega, Nat.le_refl _, h.started.trans hstart, hrun⟩ hkept
      have hcap := h.kept.room
      have hlt := hfreed.changed
      exact can_report hctx hr (hwake reporter (by omega) (by rw [hfreed.retained]; omega))

theorem can_hand (h : Handing cfg s) (hstart : s.started = true)
    (hw : s.workers w = .handing a report) (hact : s.heap a = some act)
    (hnone : act.handed + act.discarded = 0) : (runtime cfg).Can Move.own (Delivered a) s := by
  cases hsub : s.reporter.submit cfg s.ctxDone 0 report with
  | refused | accepted => exact can_submit hw hact hnone (by simp [hsub])
  | full changed =>
    have hstep : (runtime cfg).step s (.submit w 0) =
        some (s.setWorker w (.waiting a report changed)) := by
      simp [runtime, step, Move.locks, Runtime.act, hw, submit, hsub]
    have hwait := submit_full hsub
    have hw' : (s.setWorker w (.waiting a report changed)).workers w = .waiting a report changed := by
      simp [setWorker]
    refine .step hstep trivial (can_wake ?_ hstart hw' hact hnone)
    refine h.set (by simp [hw]) (by simp [hw]) rfl rfl rfl h.kept rfl rfl (Nat.le_refl _)
      (fun _ => rfl) fun b report' changed' heq => ?_
    cases heq
    exact hwait

/-- A worker whose processor has returned can get its result delivered. -/
theorem can_release (h : Handing cfg s) (hp : Places s) (hstart : s.started = true)
    (hw : s.workers w = .returned a report) (hact : s.heap a = some act)
    (hnone : act.handed + act.discarded = 0) : (runtime cfg).Can Move.own (Delivered a) s := by
  have hrelease : ∀ t : Runtime, Handing cfg t → t.started = true → t.admitting = none →
      t.workers w = .returned a report → t.heap a = some act →
      (runtime cfg).Can Move.own (Delivered a) t := by
    intro t ht hstart hmu hw hact
    have hstep : (runtime cfg).step t (.release w) =
        some ((t.forget act.invocation.key).setWorker w (.handing a report)) := by
      simp [runtime, step, Runtime.act, hmu, hw, release, hact]
    have hw' : ((t.forget act.invocation.key).setWorker w (.handing a report)).workers w =
        .handing a report := by
      simp [setWorker]
    refine .step hstep trivial (can_hand ?_ hstart hw' hact hnone)
    exact ht.set (by simp [hw]) (by simp [hw]) rfl rfl rfl ht.kept rfl rfl (Nat.le_refl _)
      (fun _ => rfl) fun _ _ _ heq => by cases heq
  cases hmu : s.admitting with
  | none => exact hrelease s h hstart hmu hw hact
  | some p =>
    obtain ⟨caller, b⟩ := p
    obtain ⟨act', hact', -, -⟩ := hp.admitting caller b hmu
    have hstep : (runtime cfg).step s .insert = some { s with
        active := Function.update s.active act'.invocation.key (some b), admitting := none
        replies := s.replies ++ [reply cfg true none caller] } := by
      simp [runtime, step, Move.locks, Runtime.act, insert, hmu, hact']
    exact .step hstep trivial (hrelease _ { h with } hstart rfl hw hact)

/-- Whatever others do not do, a processor's result can be delivered once it has returned. -/
theorem can_deliver (hl : Lifecycle cfg s) (hp : Places s) (h : Handing cfg s)
    (hact : s.heap a = some act) (hret : act.returned = 1) :
    (runtime cfg).Can Move.own (Delivered a) s := by
  have hstart : ∀ v, s.workers v ≠ .absent → s.started = true := by
    intro v hv
    by_contra hs
    exact hv (hl.spawned (by simpa using hs) v)
  by_cases hq : a ∈ s.queue
  · obtain ⟨act0, hact0, hun⟩ := hp.queued a hq
    cases hact.symm.trans hact0
    cases hun.returned.symm.trans hret
  by_cases hno : ∀ v, (s.workers v).activity ≠ some a
  · rcases hp.gone a act hact hq hno with hun | ⟨-, -, hone⟩
    · cases hun.returned.symm.trans hret
    · exact .here ⟨act, hact, hone⟩
  · obtain ⟨v, hv⟩ := not_forall_not.mp hno
    have hst := hp.fits rfl hv hact
    cases hw : s.workers v with
    | taken =>
      rw [hw] at hst
      cases (Activity.Unstarted.returned hst).symm.trans hret
    | begun b | running b =>
      rw [hw] at hst
      cases hst.2.2.1.symm.trans hret
    | returned =>
      rw [hw] at hv hst
      cases hv
      exact can_release h hp (hstart v (by simp [hw])) hw hact (by rw [hst.2.2.2.1, hst.2.2.2.2])
    | handing =>
      rw [hw] at hv hst
      cases hv
      exact can_hand h (hstart v (by simp [hw])) hw hact (by rw [hst.2.2.2.1, hst.2.2.2.2])
    | waiting =>
      rw [hw] at hv hst
      cases hv
      exact can_wake h (hstart v (by simp [hw])) hw hact (by rw [hst.2.2.2.1, hst.2.2.2.2])
    | _ => rw [hw] at hv; cases hv

end

end Runtime

end Dogx.Executor
