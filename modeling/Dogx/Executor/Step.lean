import Dogx.Executor.Runtime

/-!
# What a step of the runtime does

`Change cfg s s'` lists every way a move can change the runtime, with what the code has checked
before. Every invariant is proved from it, one case for each.
-/

namespace Dogx.Executor

namespace Runtime

variable {cfg : Config} {s s' : Runtime} {now : ℕ}

def Asks (cfg : Config) (req : Option DispatchTaskRequest) (inv : Invocation) : Prop :=
  ∀ r, req = some r → RPCAdapter.screen cfg r = .ok inv

inductive Change (cfg : Config) (s : Runtime) : Runtime → Prop where
  | same : Change cfg s s
  | refused (req : DispatchTaskRequest) (e : Rpc.HandlerError)
      (hreq : RPCAdapter.screen cfg req = .error e) :
      Change cfg s (s.tell (.dispatch s.calls req (Rpc.unaryServerInterceptor (.error e))))
  | answered (req : Option DispatchTaskRequest) (ctxErr : Option CtxErr) (now : ℕ) (inv : Invocation)
      (accepted : Bool) (err : Option AdmissionError) (hreq : Asks cfg req inv)
      (hacc : s.accept cfg ctxErr now inv = .returns accepted err) :
      Change cfg s (s.tell (reply cfg accepted err ⟨s.calls, req⟩))
  | started (reporter : Reporter) (hr : s.reporter.start cfg s.ctxDone = some reporter)
      (hstop : s.stopping = false) (hstart : s.started = false) :
      Change cfg s { s with
        reporter, started := true
        workers := fun i => if i < cfg.limits.concurrency then .idle else .absent
        watch := .workers }
  | sent (req : Option DispatchTaskRequest) (inv : Invocation) (hreq : Asks cfg req inv)
      (hmu : s.admitting = none) (hnew : s.active inv.key = none) (hstop : s.stopping = false) (hstart : s.started = true)
      (hroom : s.closed = true ∨ s.queue.length < cfg.limits.queueCapacity) :
      Change cfg s (s.send ⟨s.calls, req⟩ inv)
  | inserted (caller : Caller) (a : ℕ) (act : Activity) (hmu : s.admitting = some (caller, a))
      (hact : s.heap a = some act) :
      Change cfg s { s with
        active := Function.update s.active act.invocation.key (some a), admitting := none
        replies := s.replies ++ [reply cfg true none caller] }
  | cancelled (instanceId : Int) (hmu : s.admitting = none) : Change cfg s (s.cancel instanceId)
  | stopped (hmu : s.admitting = none) : Change cfg s s.stop
  | drained (hstop : s.stopping = true) : Change cfg s { s with draining := true }
  | expired (hdrain : s.draining = true) : Change cfg s { s with ctxDone := true }
  | received (w a : ℕ) (queue : List ℕ) (hw : s.workers w = .idle) (hq : s.queue = a :: queue) :
      Change cfg s ({ s with queue }.setWorker w (.taken a))
  | exited (w : ℕ) (hw : s.workers w = .idle) (hclosed : s.closed = true) :
      Change cfg s (s.setWorker w .exited)
  | skipped (w a : ℕ) (act : Activity) (hmu : s.admitting = none) (hw : s.workers w = .taken a)
      (hact : s.heap a = some act) :
      Change cfg s ((s.forget act.invocation.key).setWorker w .idle)
  | begun (w a : ℕ) (act : Activity) (hmu : s.admitting = none) (hw : s.workers w = .taken a)
      (hact : s.heap a = some act) (hlive : act.cancelled = false) :
      Change cfg s ((s.setActivity a { act with ctx := some false }).setWorker w (.begun a))
  | called (w a : ℕ) (act : Activity) (hw : s.workers w = .begun a) (hact : s.heap a = some act) :
      Change cfg s
        ((s.setActivity a { act with invoked := act.invoked + 1 }).setWorker w (.running a))
  | left (w a : ℕ) (act : Activity) (report : ExecutionResult) (hw : s.workers w = .running a)
      (hact : s.heap a = some act) :
      Change cfg s ((s.setActivity a { act with
        ctx := some true, returned := act.returned + 1 }).setWorker w (.returned a report))
  | released (w a : ℕ) (act : Activity) (report : ExecutionResult) (hmu : s.admitting = none)
      (hw : s.workers w = .returned a report) (hact : s.heap a = some act) :
      Change cfg s ((s.forget act.invocation.key).setWorker w (.handing a report))
  | handed (w a : ℕ) (act : Activity) (report : ExecutionResult) (now : ℕ) (reporter : Reporter)
      (hw : s.workers w = .handing a report) (hact : s.heap a = some act)
      (hr : s.reporter.submit cfg s.ctxDone now report = .accepted reporter) :
      Change cfg s (({ s with reporter }.setActivity a
        { act with handed := act.handed + 1 }).setWorker w .idle)
  | discarded (w a : ℕ) (act : Activity) (report : ExecutionResult)
      (hw : s.workers w = .handing a report ∨ ∃ changed, s.workers w = .waiting a report changed)
      (hact : s.heap a = some act) :
      Change cfg s
        ((s.setActivity a { act with discarded := act.discarded + 1 }).setWorker w .idle)
  | blocked (w a : ℕ) (report : ExecutionResult) (now changed : ℕ)
      (hw : s.workers w = .handing a report)
      (hr : s.reporter.submit cfg s.ctxDone now report = .full changed) :
      Change cfg s (s.setWorker w (.waiting a report changed))
  | woken (w a : ℕ) (report : ExecutionResult) (changed : ℕ)
      (hw : s.workers w = .waiting a report changed) :
      Change cfg s (s.setWorker w (.handing a report))
  | reported (m : Reporter.Move) (reporter : Reporter)
      (hr : s.reporter.step cfg s.ctxDone m = some reporter) : Change cfg s { s with reporter }
  | workersDone (hwatch : s.watch = .workers)
      (hdone : ∀ i < cfg.limits.concurrency, s.workers i = .exited) :
      Change cfg s { s with reporter := s.reporter.stop, watch := .reporter }
  | reporterDone (hmu : s.admitting = none) (hwatch : s.watch = .reporter) :
      Change cfg s { s with ctxDone := true, watch := .finished }.closeDone

theorem change_enter {req : Option DispatchTaskRequest} {ctxErr : Option CtxErr} {inv : Invocation}
    (hreq : Asks cfg req inv) (hmu : s.admitting = none) :
    Change cfg s (s.enter cfg req ctxErr now inv) := by
  unfold enter
  split
  next accepted err hacc => exact .answered req ctxErr now inv accepted err hreq hacc
  next h =>
    unfold accept at h
    split at h
    · cases h
    next hnew =>
    split at h
    · cases h
    next hstop =>
    split at h
    · cases h
    next hstart =>
    split at h
    · cases h
    split at h
    · cases h
    split at h
    · cases h
    split at h
    next hroom =>
      exact .sent req inv hreq hmu (by simpa using hnew) (by simpa using hstop)
        (by simpa using hstart) (by simpa using hroom)
    · cases h

theorem change_discard {w a : ℕ} {report : ExecutionResult}
    (hw : s.workers w = .handing a report ∨ ∃ changed, s.workers w = .waiting a report changed)
    (h : s.discard w a = some s') : Change cfg s s' := by
  obtain ⟨act, hact, rfl⟩ := Option.map_eq_some_iff.mp h
  exact .discarded w a act report hw hact

theorem change_submit {w a : ℕ} {report : ExecutionResult} (hw : s.workers w = .handing a report)
    (h : s.submit cfg w a report now = some s') : Change cfg s s' := by
  unfold submit at h
  split at h
  · exact change_discard (.inl hw) h
  next reporter hr =>
    obtain ⟨act, hact, rfl⟩ := Option.map_eq_some_iff.mp h
    exact .handed w a act report now reporter hw hact hr
  next changed hr =>
    cases h
    exact .blocked w a report now changed hw hr

theorem change_receive {w : ℕ} (hw : s.workers w = .idle) (h : s.receive w = some s') :
    Change cfg s s' := by
  unfold receive at h
  split at h
  next a queue hq =>
    cases h
    exact .received w a queue hw hq
  next =>
    split at h
    next hclosed =>
      cases h
      exact .exited w hw hclosed
    · cases h

theorem change_begin {w a : ℕ} (hmu : s.admitting = none) (hw : s.workers w = .taken a)
    (h : s.begin w a now = some s') : Change cfg s s' := by
  obtain ⟨act, hact, rfl⟩ := Option.map_eq_some_iff.mp h
  split
  · exact .skipped w a act hmu hw hact
  next hlive =>
    simp only [Bool.or_eq_true, not_or, Bool.not_eq_true] at hlive
    exact .begun w a act hmu hw hact hlive.1.1

theorem change_act {m : Move} (hmu : m.locks cfg = true → s.admitting = none)
    (h : s.act cfg m = some s') : Change cfg s s' := by
  cases m with
  | start =>
    cases h
    unfold start
    split
    · exact .same
    next hs =>
      simp only [Bool.or_eq_true, not_or, Bool.not_eq_true] at hs
      split
      · exact .same
      next reporter hr => exact .started reporter hr hs.1 hs.2
  | accept =>
    cases h
    exact change_enter (fun _ hnone => absurd hnone (Option.some_ne_none _).symm) (hmu rfl)
  | dispatch _ _ req =>
    cases h
    unfold dispatch
    cases hreq : RPCAdapter.screen cfg req with
    | error e => exact .refused req e hreq
    | ok =>
      refine change_enter ?_ (hmu (by simp [Move.locks, hreq, Except.toBool]))
      rintro r ⟨⟩
      exact hreq
  | insert =>
    simp only [act, insert] at h
    split at h
    · cases h
    next caller a ha =>
      obtain ⟨act, hact, rfl⟩ := Option.map_eq_some_iff.mp h
      exact .inserted caller a act ha hact
  | cancel _ instanceId =>
    simp only [act] at h
    split at h
    · cases h
      exact .same
    · cases h
      exact .cancelled instanceId (hmu rfl)
  | stop =>
    cases h
    exact .stopped (hmu rfl)
  | drain =>
    obtain ⟨hs, ⟨⟩⟩ := Option.ite_none_right_eq_some.mp h
    exact .drained hs
  | expire =>
    obtain ⟨hs, ⟨⟩⟩ := Option.ite_none_right_eq_some.mp h
    exact .expired hs
  | receive =>
    simp only [act] at h
    split at h
    next hw => exact change_receive hw h
    · cases h
  | begin =>
    simp only [act] at h
    split at h
    next a hw => exact change_begin (hmu rfl) hw h
    · cases h
  | call w =>
    simp only [act] at h
    split at h
    next a hw =>
      obtain ⟨act, hact, rfl⟩ := Option.map_eq_some_iff.mp h
      exact .called w a act hw hact
    · cases h
  | leave w =>
    simp only [act] at h
    split at h
    next a hw =>
      obtain ⟨act, hact, rfl⟩ := Option.map_eq_some_iff.mp h
      exact .left w a act _ hw hact
    · cases h
  | release w =>
    simp only [act] at h
    split at h
    next a report hw =>
      obtain ⟨act, hact, rfl⟩ := Option.map_eq_some_iff.mp h
      exact .released w a act report (hmu rfl) hw hact
    · cases h
  | submit =>
    simp only [act] at h
    split at h
    next a report hw => exact change_submit hw h
    · cases h
  | wake w =>
    simp only [act] at h
    split at h
    next a report changed hw =>
      obtain ⟨-, ⟨⟩⟩ := Option.ite_none_right_eq_some.mp h
      exact .woken w a report changed hw
    · cases h
  | abort =>
    simp only [act] at h
    split at h
    next a report changed hw =>
      obtain ⟨-, h⟩ := Option.ite_none_right_eq_some.mp h
      exact change_discard (.inr ⟨changed, hw⟩) h
    · cases h
  | report m =>
    obtain ⟨reporter, hr, rfl⟩ := Option.map_eq_some_iff.mp h
    exact .reported m reporter hr
  | awaitWorkers =>
    obtain ⟨⟨hwatch, hdone⟩, ⟨⟩⟩ := Option.ite_none_right_eq_some.mp h
    refine .workersDone hwatch fun i hi => ?_
    simpa using List.all_eq_true.mp hdone i (List.mem_range.mpr hi)
  | awaitReporter =>
    obtain ⟨⟨hwatch, -⟩, ⟨⟩⟩ := Option.ite_none_right_eq_some.mp h
    exact .reporterDone (hmu rfl) hwatch

/-- Every step of the executor is one of the changes. -/
theorem step_change {m : Move} (h : s.step cfg m = some s') : Change cfg s s' := by
  unfold step at h
  split at h
  · cases h
  next hmu =>
    refine change_act (fun hl => ?_) h
    simpa [hl] using hmu

/-! ## Shutdown -/

structure SameWork (s s' : Runtime) : Prop where
  heap : s'.heap = s.heap
  next : s'.next = s.next
  queue : s'.queue = s.queue
  active : s'.active = s.active
  admitting : s'.admitting = s.admitting
  workers : s'.workers = s.workers
  calls : s'.calls = s.calls
  replies : s'.replies = s.replies

theorem sameWork_closeDone : SameWork s s.closeDone := by
  unfold closeDone
  split <;> constructor <;> rfl

theorem sameWork_stop : SameWork s s.stop := by
  unfold stop closeQueue closeDone
  dsimp only
  repeat' split
  all_goals constructor <;> rfl

end Runtime

end Dogx.Executor
