import Dogx.Executor.Retention
import Dogx.Executor.Runtime
import Dogx.Queue.Ledger

/-!
# What became of every accepted result

A reporter on its own, with the callers of `submit`, `start` and `stop` and the end of its lifecycle
context. `accepted` counts the submissions that returned nil and `sent` lists the calls of
`ReportTaskResult`, by the sequence number of the submission.
-/

namespace Dogx.Executor

open Reporter (reportAttemptLimit)
open Function (update update_of_ne update_self forall_update_iff)

/-! ## Model -/

structure Reporting where
  reporter : Reporter
  ctxDone : Bool
  accepted : ℕ
  sent : List ℕ

inductive ReportingMove where
  | start
  | submit (expired : Bool) (now : ℕ) (result : ExecutionResult)
  | stop
  | cancel
  | worker (m : Reporter.Move)

namespace Reporting

def init : Reporting := { reporter := .init, ctxDone := false, accepted := 0, sent := [] }

def sentBy (r : Reporter) : Reporter.Move → List ℕ
  | .call w =>
    match r.workers w with
    | .calling e => [e.sequence]
    | _ => []
  | _ => []

def step (cfg : Config) (s : Reporting) : ReportingMove → Option Reporting
  | .start => (s.reporter.start cfg s.ctxDone).map fun r => { s with reporter := r }
  | .submit expired now result =>
    match s.reporter.submit cfg (s.ctxDone || expired) now result with
    | .accepted r => some { s with reporter := r, accepted := s.accepted + 1 }
    | .refused _ => some s
    -- the caller waits and tries again
    | .full _ => none
  | .stop => some { s with reporter := s.reporter.stop }
  | .cancel => some { s with ctxDone := true }
  | .worker m => (s.reporter.step cfg s.ctxDone m).map fun r =>
      { s with reporter := r, sent := s.sent ++ sentBy r m }

end Reporting

def reporting (cfg : Config) : Machine Reporting ReportingMove where
  init := .init
  step s m := s.step cfg m

/-! ## Where the entries are -/

namespace ReportWorker

def sequence (w : ReportWorker) : Option ℕ := w.entry.map RetainedReport.sequence

def unspent : ReportWorker → Option RetainedReport
  | took e | settling e false none => some e
  | _ => none

end ReportWorker

theorem Reporter.perm_push (e : RetainedReport) (l : List RetainedReport) :
    (Reporter.push e l).Perm (e :: l) := by
  induction l with
  | nil => exact .refl _
  | cons f fs ih =>
    unfold Reporter.push
    split
    · exact (ih.cons f).trans (.swap e f fs)
    · exact .refl _

def Reporter.enroll (r : Reporter) (now : ℕ) (result : ExecutionResult) : Reporter :=
  { r with
    sequence := r.sequence + 1
    pending := Reporter.push { result, due := now, sequence := r.sequence + 1, attempts := 0 } r.pending
    retained := r.retained + 1 }.notifyLocked

theorem Reporter.admit_of_submit {cfg : Config} {ctxDone : Bool} {r r' : Reporter} {now : ℕ}
    {result : ExecutionResult} (h : r.submit cfg ctxDone now result = .accepted r') :
    r' = r.enroll now result ∧ ctxDone = false ∧ r.started = true ∧ r.stopping = false := by
  unfold Reporter.submit at h
  repeat' split at h
  all_goals cases h
  next hctx hstarted hstopping _ =>
    exact ⟨rfl, by simpa using hctx, by simpa using hstarted, by simpa using hstopping⟩

namespace Reporting

variable {cfg : Config} {s s' : Reporting} {r r' : Reporter} {w : ℕ} {st : ReportWorker}
  {e e' : RetainedReport} {lost items : List ℕ} {m : Reporter.Move}

structure Booked (cfg : Config) (r : Reporter) (lost items : List ℕ) : Prop where
  ledger : Queue.Ledger cfg.limits.reportConcurrency r.workers ReportWorker.sequence
    (r.pending.map RetainedReport.sequence) lost (r.acknowledged ++ r.discarded.map Prod.fst) items
    r.sequence
  total : items.length = r.retained + r.unsent

structure Gates (s : Reporting) : Prop where
  accepted : s.accepted = s.reporter.sequence
  idle : s.reporter.started = false → s.reporter.retained = 0
  uncounted : s.reporter.completed = false → s.reporter.unsent = 0
  shut : s.reporter.completed = true →
    (s.ctxDone = true ∨ s.reporter.stopping = true) ∧ s.reporter.retained = 0

structure Sends (s : Reporting) : Prop where
  known : ∀ n ∈ s.sent, n ≤ s.reporter.sequence
  bound : ∀ n, s.sent.count n ≤ reportAttemptLimit
  waiting : ∀ e ∈ s.reporter.pending,
    s.sent.count e.sequence = e.attempts ∧ e.attempts < reportAttemptLimit
  held : ∀ w e, (s.reporter.workers w).entry = some e → s.sent.count e.sequence = e.attempts
  spare : ∀ w e, (s.reporter.workers w).unspent = some e → e.attempts < reportAttemptLimit

structure Sound (cfg : Config) (s : Reporting) : Prop where
  kept : s.reporter.Kept cfg s.ctxDone
  booked : ∃ lost items, Booked cfg s.reporter lost items
  gates : s.Gates
  sends : s.Sends

/-! ## One step of a worker -/

namespace Booked

theorem init : Booked cfg .init [] [] where
  ledger := .empty fun _ => rfl
  total := rfl

variable (h : Booked cfg r lost items)
include h

theorem retry (hw : (r.workers w).sequence = some e.sequence) (due : ℕ) :
    Booked cfg ({ r with pending := Reporter.push { e with due } r.pending }.setWorker w
      .taking).notifyLocked lost items :=
  { h with ledger := h.ledger.requeue hw rfl ((Reporter.perm_push _ _).map RetainedReport.sequence) }

theorem settle (hw : (r.workers w).sequence = some e.sequence) (hretained : 0 < r.retained)
    {acknowledged : List ℕ} {discarded : List (ℕ × Discard)}
    (hclosed : (acknowledged ++ discarded.map Prod.fst).Perm
      (e.sequence :: (r.acknowledged ++ r.discarded.map Prod.fst))) :
    ∃ items', Booked cfg ({ r with retained := r.retained - 1, acknowledged, discarded
      }.setWorker w .taking).notifyLocked lost items' := by
  obtain ⟨items', hledger, _⟩ := h.ledger.close (w := .taking) hw rfl hclosed
  refine ⟨items', hledger, ?_⟩
  have htotal := h.total
  simp only [Reporter.setWorker, Reporter.notifyLocked]
  omega

theorem finish (hunsent : r.unsent = 0) :
    Booked cfg { r with pending := [], retained := 0, unsent := r.retained, completed := true }
      (r.pending.map RetainedReport.sequence ++ lost) items where
  ledger := h.ledger.clear
  total := by
    have htotal := h.total
    dsimp only
    omega

theorem step {ctxDone : Bool} (hkept : r.Kept cfg ctxDone)
    (huncounted : r.completed = false → r.unsent = 0) (hc : Reporter.Change cfg ctxDone r m r') :
    ∃ lost' items', Booked cfg r' lost' items' := by
  cases hc with
  | takes hw first =>
    refine ⟨lost, items, h.ledger.take (hkept.lt_of_holds (by simp [hw])) (hw ▸ rfl) rfl ?_,
      h.total⟩
    rw [first]
    rfl
  | exits hw | skips hw | calls hw | answers hw =>
    exact ⟨lost, items, h.ledger.stay (hw ▸ rfl), h.total⟩
  | acknowledges hw =>
    refine ⟨lost, h.settle (by rw [hw]; rfl) (hkept.retained_pos (by rw [hw]; rfl)) ?_⟩
    rw [List.append_assoc]
    exact List.perm_middle
  | discards hw =>
    refine ⟨lost, h.settle (by rw [hw]; rfl) (hkept.retained_pos (by rw [hw]; rfl)) ?_⟩
    rw [List.map_append, ← List.append_assoc]
    exact List.perm_append_comm
  | @abandons w _ _ e hw =>
    exact ⟨e.sequence :: lost, items, h.ledger.abandon (hw ▸ rfl) rfl, h.total⟩
  | retries hw => exact ⟨lost, items, h.retry (hw ▸ rfl) _⟩
  | finishes _ completed => exact ⟨_, items, h.finish (huncounted completed)⟩

/-! ## Handing a result over, and the lifecycle -/

theorem submit (now : ℕ) (result : ExecutionResult) :
    Booked cfg (r.enroll now result) lost (items ++ [r.sequence + 1]) where
  ledger := h.ledger.issue ((Reporter.perm_push _ _).map RetainedReport.sequence)
  total := by
    have htotal := h.total
    simp only [Reporter.enroll, Reporter.notifyLocked, List.length_append, List.length_singleton]
    omega

theorem start (hidle : ∀ i, r.workers i = .absent) :
    Booked cfg { r with
      started := true
      workers := fun i => if i < cfg.limits.reportConcurrency then .taking else .absent }
      lost items := by
  refine { h with ledger := h.ledger.launch (fun i => by rw [hidle i]; rfl) fun i => ?_ }
  dsimp only
  split <;> rfl

theorem stop : Booked cfg r.stop lost items := by
  unfold Reporter.stop Reporter.notifyLocked
  dsimp only
  split <;> exact { h with }

end Booked

/-! ## The calls made -/

namespace Sends

theorem init : Sends .init where
  known := nofun
  bound _ := Nat.zero_le _
  waiting := nofun
  held _ _ h := nomatch h
  spare _ _ h := nomatch h

theorem set (h : Sends s) {calls : List ℕ} (hcalls : calls = [])
    (hworkers : r'.workers = update s.reporter.workers w st)
    (hseq : r'.sequence = s.reporter.sequence)
    (hwaiting : ∀ e ∈ r'.pending, e ∈ s.reporter.pending ∨
      s.sent.count e.sequence = e.attempts ∧ e.attempts < reportAttemptLimit)
    (hheld : ∀ e, st.entry = some e → s.sent.count e.sequence = e.attempts)
    (hspare : ∀ e, st.unspent = some e → e.attempts < reportAttemptLimit) :
    Sends { s with reporter := r', sent := s.sent ++ calls } := by
  subst hcalls
  rw [List.append_nil]
  refine ⟨fun n hn => hseq ▸ h.known n hn, h.bound, fun e he => (hwaiting e he).elim (h.waiting e) id,
    ?_, ?_⟩ <;> dsimp only <;> rw [hworkers]
  · exact (forall_update_iff s.reporter.workers fun _ st => ∀ e, st.entry = some e →
      s.sent.count e.sequence = e.attempts).mpr ⟨hheld, fun i _ => h.held i⟩
  · exact (forall_update_iff s.reporter.workers fun _ st => ∀ e, st.unspent = some e →
      e.attempts < reportAttemptLimit).mpr ⟨hspare, fun i _ => h.spare i⟩

theorem call (h : Sends s) (hw : s.reporter.workers w = .took e)
    (hbooked : Booked cfg s.reporter lost items) :
    Sends { s with
      reporter := s.reporter.setWorker w (.calling { e with attempts := e.attempts + 1 })
      sent := s.sent ++ [e.sequence] } := by
  have hb : (s.reporter.workers w).sequence = some e.sequence := hw ▸ rfl
  have hcount : ∀ n, (s.sent ++ [e.sequence]).count n =
      s.sent.count n + if e.sequence = n then 1 else 0 := by
    intro n
    rw [List.count_append, List.count_singleton]
    simp
  have hown := h.held w e (hw ▸ rfl)
  have hspare := h.spare w e (hw ▸ rfl)
  refine ⟨fun n hn => ?_, fun n => ?_, fun f hf => ?_, fun i f hf => ?_, fun i f hf => ?_⟩
  · rcases List.mem_append.mp hn with hn | hn
    · exact h.known n hn
    · rw [List.mem_singleton.mp hn]
      exact hbooked.ledger.mem_le (hbooked.ledger.slots.mem_held hb)
  · dsimp only
    rw [hcount]
    split
    next heq => rw [← heq, hown]; exact hspare
    next => exact h.bound n
  · dsimp only
    rw [hcount, if_neg ?_]
    · exact h.waiting f hf
    · intro heq
      refine hbooked.ledger.slots.notMem_waiting hb (List.mem_append_left _ ?_)
      exact List.mem_map.mpr ⟨f, hf, heq.symm⟩
  · dsimp only [Reporter.setWorker] at hf ⊢
    rw [hcount]
    by_cases hi : i = w
    · rw [hi, update_self] at hf
      cases hf
      simp [hown]
    · rw [update_of_ne hi] at hf
      rw [if_neg ?_]
      · exact h.held i f hf
      · intro heq
        refine hi (hbooked.ledger.slots.holder_unique ?_ hb)
        rw [ReportWorker.sequence, hf, heq]
        rfl
  · dsimp only [Reporter.setWorker] at hf
    by_cases hi : i = w
    · rw [hi, update_self] at hf
      cases hf
    · rw [update_of_ne hi] at hf
      exact h.spare i f hf

end Sends

/-! ## Runs -/

namespace Sound

theorem init : Sound cfg .init where
  kept := Reporter.kept_init
  booked := ⟨[], [], .init⟩
  gates := ⟨rfl, fun _ => rfl, fun _ => rfl, nofun⟩
  sends := .init

theorem start (h : Sound cfg s) (hr : s.reporter.start cfg s.ctxDone = some r') :
    Sound cfg { s with reporter := r' } := by
  have hkept := h.kept.start hr
  unfold Reporter.start at hr
  split at hr
  · cases hr
  next hnew =>
    obtain ⟨hctx, ⟨⟩⟩ := Option.ite_none_left_eq_some.mp hr
    simp only [Bool.or_eq_true, not_or, Bool.not_eq_true] at hnew hctx
    obtain ⟨lost, items, hbooked⟩ := h.booked
    refine ⟨hkept, ⟨lost, items, hbooked.start (h.kept.idle hnew.1)⟩, ?_, ?_⟩
    · refine { h.gates with idle := nofun, shut := fun hdone => ?_ }
      -- a reporter that is completed has been stopped or its context has ended
      simpa [hctx, hnew.2] using (h.gates.shut hdone).1
    · refine { h.sends with held := fun i e he => ?_, spare := fun i e he => ?_ }
      all_goals
        dsimp only at he
        split at he <;> cases he

theorem submit (h : Sound cfg s) {expired : Bool} {now : ℕ} {result : ExecutionResult}
    (hr : s.reporter.submit cfg (s.ctxDone || expired) now result = .accepted r') :
    Sound cfg { s with reporter := r', accepted := s.accepted + 1 } := by
  obtain ⟨rfl, hctx, hstarted, hstopping⟩ := Reporter.admit_of_submit hr
  rw [Bool.or_eq_false_iff] at hctx
  rw [hctx.1, hctx.2] at hr
  have hkept : (s.reporter.enroll now result).Kept cfg s.ctxDone := by
    have hkept := h.kept
    rw [hctx.1] at hkept ⊢
    exact (hkept.submit hr).1
  obtain ⟨lost, _, hbooked⟩ := h.booked
  refine ⟨hkept, ⟨lost, _, hbooked.submit now result⟩, ?_, ?_⟩
  · refine { h.gates with
      accepted := congrArg (· + 1) h.gates.accepted
      idle := fun hs => absurd (hs.symm.trans hstarted) (by simp)
      shut := fun hdone => ?_ }
    simpa [hctx.1, hstopping] using (h.gates.shut hdone).1
  · refine { h.sends with
      known := fun n hn => Nat.le_succ_of_le (h.sends.known n hn), waiting := fun e he => ?_ }
    rcases List.mem_cons.mp ((Reporter.perm_push _ _).mem_iff.mp he) with rfl | he
    · refine ⟨List.count_eq_zero.mpr fun hmem => ?_, Nat.zero_lt_succ 6⟩
      exact absurd (h.sends.known _ hmem) (Nat.not_succ_le_self _)
    · exact h.sends.waiting e he

theorem stop (h : Sound cfg s) : Sound cfg { s with reporter := s.reporter.stop } := by
  obtain ⟨lost, items, hbooked⟩ := h.booked
  refine ⟨h.kept.stop, ⟨lost, items, hbooked.stop⟩, ?_, ?_⟩
  all_goals
    unfold Reporter.stop Reporter.notifyLocked
    dsimp only
    split
  next hnew =>
    have hidle : s.reporter.started = false := by simpa using (Bool.and_eq_true_iff.mp hnew).1
    exact { h.gates with uncounted := nofun, shut := fun _ => ⟨.inr rfl, h.gates.idle hidle⟩ }
  next => exact { h.gates with shut := fun hdone => ⟨.inr rfl, (h.gates.shut hdone).2⟩ }
  all_goals exact { h.sends with }

theorem cancel (h : Sound cfg s) : Sound cfg { s with ctxDone := true } where
  kept := h.kept.done
  booked := h.booked
  gates := { h.gates with shut := fun hdone => ⟨.inl rfl, (h.gates.shut hdone).2⟩ }
  sends := { h.sends with }

end Sound

theorem Gates.worker (h : s.Gates) (hkept : s.reporter.Kept cfg s.ctxDone)
    (hc : Reporter.Change cfg s.ctxDone s.reporter m r') :
    Gates { s with reporter := r', sent := s.sent ++ sentBy r' m } := by
  cases hc with
  | acknowledges | discards =>
    refine ⟨h.accepted, fun hs => ?_, h.uncounted, fun hdone => ⟨(h.shut hdone).1, ?_⟩⟩
    · exact Nat.sub_eq_zero_of_le (Nat.le_succ_of_le (Nat.le_of_eq (h.idle hs)))
    · exact Nat.sub_eq_zero_of_le (Nat.le_succ_of_le (Nat.le_of_eq (h.shut hdone).2))
  | finishes started _ all =>
    refine { h with idle := fun _ => rfl, uncounted := nofun, shut := fun _ => ⟨?_, rfl⟩ }
    -- the first worker exits for one of two reasons, and both last
    by_contra hopen
    simp only [not_or, Bool.not_eq_true] at hopen
    exact (hkept.alive hopen.1 started hopen.2 0 cfg.limits.reportConcurrency_pos).1
      (all 0 cfg.limits.reportConcurrency_pos)
  | _ => exact { h with }

/-- A step of a report worker keeps attempts and calls equal. -/
theorem Sends.worker (h : s.Sends) (hbooked : Booked cfg s.reporter lost items)
    (hc : Reporter.Change cfg s.ctxDone s.reporter m r') :
    Sends { s with reporter := r', sent := s.sent ++ sentBy r' m } := by
  cases hc with
  | takes _ first =>
    have hfirst := h.waiting _ (first ▸ List.mem_cons_self)
    refine h.set rfl rfl rfl (fun e he => .inl ?_) ?_ ?_
    · rw [first]; exact List.mem_cons_of_mem _ he
    · rintro e ⟨⟩; exact hfirst.1
    · rintro e ⟨⟩; exact hfirst.2
  | @skips w e discard hw =>
    refine h.set (by simp [sentBy, Reporter.setWorker]) rfl rfl (fun _ => .inl) ?_ ?_
    · rintro f ⟨⟩; exact h.held w e (hw ▸ rfl)
    · intro f hf
      cases discard with
      | none => cases hf; exact h.spare w e (hw ▸ rfl)
      | some => cases hf
  | calls hw =>
    have hcall := h.call hw hbooked
    simpa [sentBy, Reporter.setWorker] using hcall
  | @answers w e reply acknowledged discard hw last =>
    have hown := h.held w e (hw ▸ rfl)
    refine h.set rfl rfl rfl (fun _ => .inl) ?_ ?_
    · rintro f ⟨⟩; exact hown
    · intro f hf
      cases acknowledged with
      | true => cases hf
      | false =>
        cases discard with
        | some => cases hf
        | none =>
          cases hf
          refine Nat.lt_of_le_of_ne (hown ▸ h.bound e.sequence) fun hlast => ?_
          simpa using last hlast
  | @retries w finishedAt delay e hw =>
    refine h.set rfl rfl rfl (fun f hf => ?_) (by simp)
      (by simp [ReportWorker.unspent])
    rcases List.mem_cons.mp ((Reporter.perm_push _ _).mem_iff.mp hf) with rfl | hf
    · exact .inr ⟨h.held w e (hw ▸ rfl), h.spare w e (hw ▸ rfl)⟩
    · exact .inl hf
  | finishes =>
    simp only [sentBy, List.append_nil]
    exact { h with waiting := by simp }
  | _ =>
    exact h.set rfl rfl rfl (fun _ => .inl) (by simp)
      (by simp [ReportWorker.unspent])

/-- The accounts of the reporter are right in every run. -/
theorem sound (cfg : Config) : (reporting cfg).Invariant (Sound cfg) where
  init := .init
  step s m s' h hs := by
    cases m with
    | start =>
      obtain ⟨r', hr, rfl⟩ := Option.map_eq_some_iff.mp hs
      exact h.start hr
    | submit =>
      simp only [reporting, step] at hs
      split at hs
      next hr => cases hs; exact h.submit hr
      next => cases hs; exact h
      next => cases hs
    | stop => cases hs; exact h.stop
    | cancel => cases hs; exact h.cancel
    | worker =>
      obtain ⟨_, hr, rfl⟩ := Option.map_eq_some_iff.mp hs
      have hc := Reporter.change_of_step hr
      obtain ⟨_, _, hbooked⟩ := h.booked
      exact ⟨h.kept.step hr, hbooked.step h.kept h.gates.uncounted hc, h.gates.worker h.kept hc,
        h.sends.worker hbooked hc⟩

theorem Booked.calling_unique {w' : ℕ} (h : Booked cfg r lost items) (hw : r.workers w = .calling e)
    (hw' : r.workers w' = .calling e') (heq : e.sequence = e'.sequence) : w = w' := by
  refine h.ledger.slots.holder_unique (b := e.sequence) ?_ ?_
  · rw [hw]; rfl
  · rw [hw', heq]; rfl

theorem Booked.closed (h : Booked cfg r lost items) (hretained : r.retained = 0) :
    items.length = r.unsent ∧
      r.sequence = r.acknowledged.length + r.discarded.length + r.unsent := by
  have htotal := h.total
  have hlength := h.ledger.perm.length_eq
  simp only [List.length_range', List.length_append, List.length_map] at hlength
  omega

end Reporting

/-! ## The reporter over whole runs -/

/--
At most `reportCapacity` results are retained, no result is in two calls at once and none is sent
too often. Once the reporter has finished, each accepted result was acknowledged, discarded or
counted at shutdown, once.
-/
theorem reporter_accounts {cfg : Config} {ms : List ReportingMove} {s : Reporting}
    (h : (reporting cfg).run ms = some s) :
    s.reporter.retained ≤ cfg.limits.reportCapacity ∧
      (∀ w w' e e', s.reporter.workers w = .calling e → s.reporter.workers w' = .calling e' →
        e.sequence = e'.sequence → w = w') ∧
      (∀ n, s.sent.count n ≤ reportAttemptLimit) ∧
      (s.reporter.completed = true →
        s.accepted = s.reporter.acknowledged.length + s.reporter.discarded.length +
          s.reporter.unsent ∧
        ∃ lost : List ℕ, lost.length = s.reporter.unsent ∧
          (List.range' 1 s.accepted).Perm
            (s.reporter.acknowledged ++ s.reporter.discarded.map Prod.fst ++ lost)) := by
  have hsound := (Reporting.sound cfg).run h
  obtain ⟨_, items, hbooked⟩ := hsound.booked
  refine ⟨hsound.kept.room, fun w w' e e' => hbooked.calling_unique, hsound.sends.bound,
    fun hdone => ?_⟩
  obtain ⟨hlength, hcount⟩ := hbooked.closed (hsound.gates.shut hdone).2
  rw [hsound.gates.accepted]
  exact ⟨hcount, items, hlength, hbooked.ledger.perm⟩

def demoResult : ExecutionResult :=
  { jobId := 1, instanceId := 7, taskId := 1, attemptNo := 1, success := false, summary := .empty
    data := none, prepared := false, preparedItems := none }

/-- A result is sent twice and acknowledged; the context ends before the next one is sent. -/
def demoReports : List ReportingMove :=
  [.start, .submit false 0 demoResult,
    .worker (.take 0 0), .worker (.call 0), .worker (.answer 0 (.ok false)),
    .worker (.settle 0 0 Job.second),
    .worker (.take 0 Job.second), .worker (.call 0), .worker (.answer 0 (.ok true)),
    .worker (.settle 0 Job.second (2 * Job.second)),
    .submit false Job.second demoResult, .cancel, .worker (.take 0 Job.second), .worker .finish]

theorem demo_reports :
    ∃ s, (reporting Demo.config).run demoReports = some s ∧ s.reporter.completed = true ∧
      s.sent = [1, 1] ∧ s.reporter.acknowledged = [1] ∧ s.reporter.unsent = 1 ∧
      s.accepted = s.reporter.acknowledged.length + s.reporter.discarded.length +
        s.reporter.unsent := by
  obtain ⟨s, hrun, hdone, hsent, hack, hunsent⟩ : ∃ s ∈ (reporting Demo.config).run demoReports,
      s.reporter.completed = true ∧ s.sent = [1, 1] ∧ s.reporter.acknowledged = [1] ∧
      s.reporter.unsent = 1 := by decide +kernel
  exact ⟨s, hrun, hdone, hsent, hack, hunsent, ((reporter_accounts hrun).2.2.2 hdone).1⟩

end Dogx.Executor
