import Dogx.Executor.Reporter
import Dogx.Machine.Pool
import Dogx.Machine.Run

/-!
# What the reporter retains

The reporter retains at most its capacity, and what it retains is waiting or in the hands of a
report worker. So a full reporter can always make room.
-/

namespace Dogx.Executor

open Machine (Pool.count)

/-! ## Counting -/

namespace ReportWorker

@[simp] def entry : ReportWorker → Option RetainedReport
  | took e | calling e | settling e _ _ => some e
  | absent | taking | exited => none

@[simp] def holds (w : ReportWorker) : Bool := w.entry.isSome

end ReportWorker

namespace Reporter

variable {cfg : Config} {ctxDone : Bool} {r r' : Reporter} {w : ℕ} {st : ReportWorker} {m : Move}

/-! ## What a step does -/

inductive Change (cfg : Config) (ctxDone : Bool) (r : Reporter) : Move → Reporter → Prop where
  | exits {w now : ℕ} (hw : r.workers w = .taking)
      (why : ctxDone = true ∨ r.stopping = true ∧ r.retained = 0) :
      Change cfg ctxDone r (.take w now) (r.setWorker w .exited)
  | takes {w now : ℕ} {e : RetainedReport} {es : List RetainedReport} (hw : r.workers w = .taking)
      (first : r.pending = e :: es) :
      Change cfg ctxDone r (.take w now) ({ r with pending := es }.setWorker w (.took e))
  | skips {w : ℕ} {e : RetainedReport} {discard : Option Discard} (hw : r.workers w = .took e) :
      Change cfg ctxDone r (.call w) (r.setWorker w (.settling e false discard))
  | calls {w : ℕ} {e : RetainedReport} (hw : r.workers w = .took e) :
      Change cfg ctxDone r (.call w) (r.setWorker w (.calling { e with attempts := e.attempts + 1 }))
  | answers {w : ℕ} {e : RetainedReport} {reply : ReportReply} {acknowledged : Bool}
      {discard : Option Discard} (hw : r.workers w = .calling e)
      (last : e.attempts = reportAttemptLimit → acknowledged = true ∨ discard ≠ none) :
      Change cfg ctxDone r (.answer w reply) (r.setWorker w (.settling e acknowledged discard))
  | acknowledges {w finishedAt delay : ℕ} {e : RetainedReport} {discard : Option Discard}
      (hw : r.workers w = .settling e true discard) :
      Change cfg ctxDone r (.settle w finishedAt delay)
        ({ r with retained := r.retained - 1, acknowledged := r.acknowledged ++ [e.sequence]
          }.setWorker w .taking).notifyLocked
  | discards {w finishedAt delay : ℕ} {e : RetainedReport} {d : Discard}
      (hw : r.workers w = .settling e false (some d)) :
      Change cfg ctxDone r (.settle w finishedAt delay)
        ({ r with retained := r.retained - 1, discarded := r.discarded ++ [(e.sequence, d)]
          }.setWorker w .taking).notifyLocked
  | abandons {w finishedAt delay : ℕ} {e : RetainedReport} (hw : r.workers w = .settling e false none)
      (done : ctxDone = true) :
      Change cfg ctxDone r (.settle w finishedAt delay) (r.setWorker w .taking).notifyLocked
  | retries {w finishedAt delay : ℕ} {e : RetainedReport}
      (hw : r.workers w = .settling e false none) :
      Change cfg ctxDone r (.settle w finishedAt delay)
        ({ r with pending := push { e with due := finishedAt + delay } r.pending
          }.setWorker w .taking).notifyLocked
  | finishes (started : r.started = true) (completed : r.completed = false)
      (all : ∀ i < cfg.limits.reportConcurrency, r.workers i = .exited) :
      Change cfg ctxDone r .finish
        { r with pending := [], retained := 0, unsent := r.retained, completed := true }

namespace Change

theorem of_take {now : ℕ} (hw : r.workers w = .taking) (hs : r.take ctxDone w now = some r') :
    Change cfg ctxDone r (.take w now) r' := by
  unfold take at hs
  split at hs
  next hend =>
    cases hs
    exact .exits hw (by simpa using hend)
  next =>
    split at hs
    · cases hs
    next first =>
      obtain ⟨-, ⟨⟩⟩ := Option.ite_none_right_eq_some.mp hs
      exact .takes hw first

theorem of_call {e : RetainedReport} (hw : r.workers w = .took e) :
    Change cfg ctxDone r (.call w) (r.call cfg ctxDone w e) := by
  unfold call
  split
  · exact .skips hw
  · split
    · exact .skips hw
    · exact .calls hw

theorem of_answer {e : RetainedReport} (reply : ReportReply) (hw : r.workers w = .calling e) :
    Change cfg ctxDone r (.answer w reply) (r.answer w e reply) := by
  unfold answer
  split
  · exact .answers hw fun _ => .inl rfl
  · refine .answers hw fun hlast => .inr ?_
    rw [if_pos hlast]
    cases permanentReportFailure reply <;> simp

theorem of_settle {e : RetainedReport} {acknowledged : Bool} {discard : Option Discard}
    (finishedAt delay : ℕ) (hw : r.workers w = .settling e acknowledged discard) :
    Change cfg ctxDone r (.settle w finishedAt delay)
      (r.settle ctxDone w e acknowledged discard finishedAt delay) := by
  unfold settle
  split
  next hack => exact .acknowledges (by rw [hw, hack])
  next hack =>
    rw [Bool.not_eq_true] at hack
    subst hack
    split
    next d => exact .discards hw
    next =>
      split
      next hdone => exact .abandons hw hdone
      next => exact .retries hw

end Change

/-- Every step of the reporter is one of the changes. -/
theorem change_of_step (hs : r.step cfg ctxDone m = some r') : Change cfg ctxDone r m r' := by
  cases m with
  | take =>
    simp only [Reporter.step] at hs
    split at hs
    next hw => exact .of_take hw hs
    · cases hs
  | call =>
    simp only [Reporter.step] at hs
    split at hs
    next hw => cases hs; exact .of_call hw
    · cases hs
  | answer w reply =>
    simp only [Reporter.step] at hs
    split at hs
    next hw => cases hs; exact .of_answer reply hw
    · cases hs
  | settle w finishedAt delay =>
    simp only [Reporter.step] at hs
    split at hs
    next hw =>
      obtain ⟨-, ⟨⟩⟩ := Option.ite_none_right_eq_some.mp hs
      exact .of_settle finishedAt delay hw
    · cases hs
  | finish =>
    obtain ⟨hall, ⟨⟩⟩ := Option.ite_none_right_eq_some.mp hs
    simp only [Bool.and_eq_true, Bool.not_eq_true', List.all_eq_true, List.mem_range,
      decide_eq_true_eq] at hall
    exact .finishes hall.1.1 hall.1.2 hall.2

/-! ## What is retained -/

def inFlight (cfg : Config) (r : Reporter) : ℕ :=
  Pool.count cfg.limits.reportConcurrency r.workers ReportWorker.holds

structure Kept (cfg : Config) (ctxDone : Bool) (r : Reporter) : Prop where
  pool : ∀ i, cfg.limits.reportConcurrency ≤ i → r.workers i = .absent
  idle : r.started = false → ∀ i, r.workers i = .absent
  le : r.pending.length + r.inFlight cfg ≤ r.retained
  eq : ctxDone = false → r.retained = r.pending.length + r.inFlight cfg
  room : r.retained ≤ cfg.limits.reportCapacity
  alive : ctxDone = false → r.started = true → r.stopping = false →
    ∀ i < cfg.limits.reportConcurrency, r.workers i ≠ .exited ∧ r.workers i ≠ .absent

theorem kept_init : Kept cfg false .init := by
  have hcount : Reporter.init.inFlight cfg = 0 := by
    refine Nat.eq_zero_of_not_pos fun hpos => ?_
    obtain ⟨i, -, hi⟩ := Machine.Pool.count_pos.mp hpos
    cases hi
  exact ⟨fun _ _ => rfl, fun _ _ => rfl, by rw [hcount]; exact Nat.le_refl 0,
    fun _ => hcount ▸ rfl, Nat.zero_le _, nofun⟩

theorem length_push (e : RetainedReport) (l : List RetainedReport) :
    (push e l).length = l.length + 1 := by
  induction l with
  | nil => rfl
  | cons f _ ih =>
    unfold push
    split <;> simp [ih]

namespace Kept

variable (h : Kept cfg ctxDone r)
include h

theorem done : Kept cfg true r := { h with eq := nofun, alive := nofun }

theorem lt_of_holds (hw : r.workers w ≠ .absent) : w < cfg.limits.reportConcurrency := by
  by_contra hlt
  exact hw (h.pool w (Nat.le_of_not_lt hlt))

theorem set (hw : r.workers w ≠ .absent) (hworkers : r'.workers = Function.update r.workers w st)
    (hstarted : r'.started = r.started) (hstopping : r'.stopping = r.stopping)
    (hroom : r'.retained ≤ r.retained) (hle : r'.pending.length + st.holds.toNat + r.retained ≤
      r.pending.length + (r.workers w).holds.toNat + r'.retained)
    (heq : ctxDone = false → r'.pending.length + st.holds.toNat + r.retained =
      r.pending.length + (r.workers w).holds.toNat + r'.retained)
    (halive : ctxDone = false → r.started = true → r.stopping = false → st ≠ .exited ∧ st ≠ .absent) :
    Kept cfg ctxDone r' := by
  have hflight : r'.inFlight cfg + (r.workers w).holds.toNat = r.inFlight cfg + st.holds.toNat := by
    unfold inFlight
    rw [hworkers]
    exact Machine.Pool.count_update (h.lt_of_holds hw) st
  have hlt := h.lt_of_holds hw
  refine ⟨fun i hi => ?_, fun hs => ?_, ?_, fun hc => ?_, Nat.le_trans hroom h.room,
    fun hc hs hstop i hi => ?_⟩
  · rw [hworkers, Function.update_of_ne (by omega)]
    exact h.pool i hi
  · exact absurd (h.idle (hstarted ▸ hs) w) hw
  · have := h.le
    omega
  · have := h.eq hc
    have := heq hc
    omega
  · rw [hstarted] at hs
    rw [hstopping] at hstop
    rw [hworkers]
    by_cases hiw : i = w
    · rw [hiw, Function.update_self]
      exact halive hc hs hstop
    · rw [Function.update_of_ne hiw]
      exact h.alive hc hs hstop i hi

theorem start (hs : r.start cfg ctxDone = some r') : Kept cfg ctxDone r' := by
  simp only [Reporter.start] at hs
  split at hs
  · cases hs
  next hnew =>
    split at hs
    · cases hs
    · cases hs
      have hnew : r.started = false ∧ r.stopping = false := by simpa using hnew
      have hidle := h.idle hnew.1
      have hflight : ({ r with
          started := true
          workers := fun i => if i < cfg.limits.reportConcurrency then .taking else .absent } :
          Reporter).inFlight cfg = r.inFlight cfg := by
        refine Machine.Pool.count_congr fun i hi => ?_
        simp [hi, hidle i]
      refine ⟨fun i hi => by simp [Nat.not_lt.mpr hi], nofun, ?_, fun hc => ?_, h.room,
        fun _ _ _ i hi => by simp [hi]⟩
      · rw [hflight]; exact h.le
      · rw [hflight]; exact h.eq hc

theorem stop : Kept cfg ctxDone r.stop := by
  unfold Reporter.stop notifyLocked
  dsimp only
  split <;> exact { h with alive := nofun }

theorem submit {now : ℕ} {result : ExecutionResult}
    (hs : r.submit cfg ctxDone now result = .accepted r') :
    Kept cfg ctxDone r' ∧ r.changed < r'.changed := by
  unfold Reporter.submit at hs
  repeat' split at hs
  all_goals cases hs
  next hroom =>
    refine ⟨{ h with le := ?_, eq := fun hc => ?_, room := Nat.succ_le_of_lt hroom }, Nat.lt_succ_self _⟩
    · have := h.le
      simp only [notifyLocked, length_push]
      simp only [inFlight] at this ⊢
      omega
    · have := h.eq hc
      simp only [notifyLocked, length_push]
      simp only [inFlight] at this ⊢
      omega

theorem retained_pos (hw : (r.workers w).holds = true) : 0 < r.retained := by
  have habsent : r.workers w ≠ .absent := fun heq => by rw [heq] at hw; cases hw
  have hpos : 0 < r.inFlight cfg := Machine.Pool.count_pos.mpr ⟨w, h.lt_of_holds habsent, hw⟩
  have hle := h.le
  omega

/-- One step of the reporter keeps the retained results. -/
theorem step (hs : r.step cfg ctxDone m = some r') : Kept cfg ctxDone r' := by
  cases change_of_step hs with
  | exits hw why =>
    refine h.set (by simp [hw]) rfl rfl rfl (Nat.le_refl _) ?_ ?_ ?_
    · simp [setWorker]
    · simp [hw, setWorker]
    · intro hc hstart hstop
      simp [hc, hstop] at why
  | takes hw first =>
    refine h.set (by simp [hw]) rfl rfl rfl (Nat.le_refl _) ?_ ?_ (by simp)
    · simp [first, setWorker]
    · simp [hw, first, setWorker]
  | skips hw | calls hw | answers hw =>
    refine h.set (by simp [hw]) rfl rfl rfl (Nat.le_refl _) ?_ ?_ (by simp)
    · simp [hw, setWorker]
    · simp [hw, setWorker]
  | acknowledges hw | discards hw =>
    have hpos := h.retained_pos (by rw [hw]; rfl)
    refine h.set (by simp [hw]) rfl rfl rfl (Nat.sub_le _ _) ?_ ?_ (by simp)
    · simp [hw, notifyLocked, setWorker]; omega
    · simp [hw, notifyLocked, setWorker]; omega
  | abandons hw done =>
    refine h.set (by simp [hw]) rfl rfl rfl (Nat.le_refl _) ?_ (by simp [done]) (by simp)
    simp [notifyLocked, setWorker]
  | retries hw =>
    refine h.set (by simp [hw]) rfl rfl rfl (Nat.le_refl _) ?_ ?_ (by simp)
    · simp [hw, notifyLocked, setWorker, length_push]
    · simp [hw, notifyLocked, setWorker, length_push]
  | finishes _ _ all =>
    have hflight : r.inFlight cfg = 0 := by
      refine Nat.eq_zero_of_not_pos fun hpos => ?_
      obtain ⟨i, hi, hh⟩ := Machine.Pool.count_pos.mp hpos
      rw [all i hi] at hh
      cases hh
    refine { h with le := ?_, eq := fun _ => ?_, room := Nat.zero_le _ }
    · exact Nat.le_of_eq (by simpa [inFlight] using hflight)
    · exact (by simpa [inFlight] using hflight.symm)

end Kept

theorem step_frame (hs : r.step cfg ctxDone m = some r') :
    r'.started = r.started ∧ r'.stopping = r.stopping ∧ r.changed ≤ r'.changed ∧
      (r'.changed = r.changed → r'.retained = r.retained ∨
        ∀ i < cfg.limits.reportConcurrency, r.workers i = .exited) := by
  cases change_of_step hs with
  | exits | takes | skips | calls | answers => exact ⟨rfl, rfl, Nat.le_refl _, fun _ => .inl rfl⟩
  | finishes _ _ all => exact ⟨rfl, rfl, Nat.le_refl _, fun _ => .inr all⟩
  | _ =>
    exact ⟨rfl, rfl, Nat.le_succ _, fun heq => absurd heq (Nat.succ_ne_self _)⟩

/-! ## Making room -/

def calm (cfg : Config) : Machine Reporter Move where
  init := .init
  step r m := r.step cfg false m

structure Freed (n c : ℕ) (r : Reporter) : Prop where
  retained : r.retained = n
  changed : c < r.changed
  started : r.started = true
  stopping : r.stopping = false

structure Full (n c : ℕ) (r : Reporter) : Prop where
  retained : r.retained = n + 1
  changed : c ≤ r.changed
  started : r.started = true
  stopping : r.stopping = false

section

variable {n c : ℕ} {e : RetainedReport} {acknowledged : Bool} {d : Option Discard}

theorem isRetryDelay_step (attempts : ℕ) : isRetryDelay attempts (retryStep attempts) = true := by
  simp only [isRetryDelay, Bool.and_eq_true, decide_eq_true_eq]
  omega

theorem calm_settle (hw : r.workers w = .settling e acknowledged d) :
    (calm cfg).step r (.settle w 0 (retryStep e.attempts)) =
      some (r.settle false w e acknowledged d 0 (retryStep e.attempts)) := by
  simp [calm, Reporter.step, hw, isRetryDelay_step]

variable (h : Full n c r)
include h

theorem can_settle (hw : r.workers w = .settling e acknowledged d)
    (hd : acknowledged = true ∨ d.isSome) : (calm cfg).Can (fun _ => True) (Freed n c) r := by
  refine .step (calm_settle hw) trivial (.here ?_)
  have hn : r.retained - 1 = n := h.retained ▸ rfl
  cases acknowledged with
  | true => exact ⟨hn, Nat.lt_succ_of_le h.changed, h.started, h.stopping⟩
  | false =>
    obtain ⟨d, rfl⟩ := Option.isSome_iff_exists.mp (hd.resolve_left (by simp))
    exact ⟨hn, Nat.lt_succ_of_le h.changed, h.started, h.stopping⟩

theorem can_answer (hw : r.workers w = .calling e) :
    (calm cfg).Can (fun _ => True) (Freed n c) r := by
  have hm : (calm cfg).step r (.answer w (.ok true)) =
      some (r.setWorker w (.settling e true none)) := by
    simp [calm, Reporter.step, hw, answer, ReportReply.acknowledged]
  exact .step hm trivial (can_settle (w := w) (e := e)
    { h with } (by simp [setWorker]; rfl) (.inl rfl))

theorem can_call (hw : r.workers w = .took e) : (calm cfg).Can (fun _ => True) (Freed n c) r := by
  have hm : (calm cfg).step r (.call w) = some (r.call cfg false w e) := by
    simp [calm, Reporter.step, hw]
  refine .step hm trivial ?_
  unfold call
  split
  next d _ =>
    have hw' : (r.setWorker w (.settling e false (some d))).workers w = .settling e false (some d) := by
      simp [setWorker]
    exact can_settle { h with } hw' (.inr rfl)
  next =>
    exact can_answer (w := w) (e := { e with attempts := e.attempts + 1 })
      { h with } (by simp [setWorker])

theorem can_take (hw : r.workers w = .taking) (hp : r.pending ≠ []) :
    (calm cfg).Can (fun _ => True) (Freed n c) r := by
  obtain ⟨e, es, hes⟩ := List.exists_cons_of_ne_nil hp
  have hm : (calm cfg).step r (.take w e.due) =
      some ({ r with pending := es }.setWorker w (.took e)) := by
    simp [calm, Reporter.step, hw, take, hes, h.stopping]
  exact .step hm trivial (can_call (w := w) (e := e)
    { h with } (by simp [setWorker]))

theorem can_retry (hw : r.workers w = .settling e false none) :
    (calm cfg).Can (fun _ => True) (Freed n c) r := by
  refine .step (calm_settle hw) trivial (can_take (w := w) ?_ ?_ ?_)
  · exact ⟨h.retained, Nat.le_succ_of_le h.changed, h.started, h.stopping⟩
  · simp [settle, setWorker, notifyLocked]
  · refine List.ne_nil_of_length_pos ?_
    simp [settle, notifyLocked, length_push]

/-- A full reporter can make room by its own steps. -/
theorem makes_room (hkept : Kept cfg false r) : (calm cfg).Can (fun _ => True) (Freed n c) r := by
  have halive := hkept.alive rfl h.started h.stopping
  have heq := hkept.eq rfl
  rw [h.retained] at heq
  by_cases hflight : r.inFlight cfg = 0
  · -- nothing is in flight, so the first worker is free and something waits
    have h0 := halive 0 cfg.limits.reportConcurrency_pos
    have hfree : (r.workers 0).holds = false := by
      by_contra hh
      have := Machine.Pool.count_pos.mpr ⟨0, cfg.limits.reportConcurrency_pos, eq_true_of_ne_false hh⟩
      exact absurd hflight (Nat.ne_of_gt this)
    refine can_take (w := 0) h ?_ (List.ne_nil_of_length_pos (by omega))
    cases hw : r.workers 0 with
    | taking => rfl
    | absent => exact absurd hw h0.2
    | exited => exact absurd hw h0.1
    | _ => simp [hw] at hfree
  · obtain ⟨i, _, hh⟩ := Machine.Pool.count_pos.mp (Nat.pos_of_ne_zero hflight)
    cases hw : r.workers i with
    | took => exact can_call h hw
    | calling => exact can_answer h hw
    | settling e acknowledged d =>
      cases acknowledged with
      | true => exact can_settle h hw (.inl rfl)
      | false =>
        cases d with
        | some => exact can_settle h hw (.inr rfl)
        | none => exact can_retry h hw
    | _ => simp [hw] at hh

end

end Reporter

end Dogx.Executor
