import Dogx.Executor.Sound
import Dogx.Job.Sender

/-!
# What the scheduler concludes from an answer

The outcome that `Sender` reads off an answer of `DispatchTask` is true of the executor that gave it,
in whatever state the call found the executor: busy and rejected calls have left nothing behind,
accepted ones have their attempt admitted or found it active.
-/

namespace Dogx.Executor

open Job (Sender.classify Sender.dispatch Sender.unknown)

/-! ## Reading an answer -/

inductive Refusal (st : Rpc.Status) : Prop where
  | unauthenticated (h : st.code = .unauthenticated)
  | permissionDenied (h : st.code = .permissionDenied)
  | invalid (h : st.code = Rpc.defaultCode) (hsub : Rpc.subcodeFromStatus st = some Rpc.invalidRequest)
  | rejected (h : st.code = Rpc.defaultCode) (hsub : Rpc.subcodeFromStatus st = some dispatchRejected)

inductive Says : Except Rpc.Status (Option DispatchTaskResponse) → Job.DispatchOutcome → Prop where
  | busy (ack : DispatchTaskResponse) (h : ack.status = .busy) : Says (.ok (some ack)) .busy
  | accepted (ack : DispatchTaskResponse) (h : ack.status = .accepted) :
      Says (.ok (some ack)) .accepted
  | refused (st : Rpc.Status) (h : Refusal st) : Says (.error st) .rejected

/--
A status by which a client learns that a call failed on its way: one of gRPC's own codes, but not
one of the two that say the callee has refused the caller.
-/
structure TransportStatus where
  status : Rpc.Status
  standard : status.code ≤ 16
  permitted : status.code ≠ .permissionDenied
  authenticated : status.code ≠ .unauthenticated

/-- A failed transport says nothing about the attempt. -/
theorem TransportStatus.says_nothing (st : TransportStatus) (out : Job.DispatchOutcome) :
    ¬ Says (.error st.status) out := by
  have hstd : st.status.code ≠ Rpc.defaultCode := by
    intro heq
    have := st.standard
    rw [heq] at this
    exact absurd this (by decide)
  intro h
  cases h with
  | refused _ h =>
    cases h with
    | unauthenticated h => exact st.authenticated h
    | permissionDenied h => exact st.permitted h
    | invalid h => exact hstd h
    | rejected h => exact hstd h

theorem refusal_of_summary {st : Rpc.Status} {summary : String}
    (h : Job.Sender.dispatchRejectionSummary st = some summary) : Refusal st := by
  unfold Job.Sender.dispatchRejectionSummary at h
  split at h
  next hcode => exact .unauthenticated hcode
  split at h
  next hcode => exact .permissionDenied hcode
  split at h
  next hcode =>
    cases hsub : Rpc.subcodeFromStatus st with
    | none => rw [hsub] at h; cases h
    | some =>
      simp only [hsub] at h
      split at h
      next hreason => exact .invalid hcode (by rw [hsub, hreason])
      split at h
      next hreason => exact .rejected hcode (by rw [hsub, hreason])
      · cases h
  · cases h

/-- The sender concludes nothing that the reply does not say. -/
theorem classify_says (result : Job.Sender.CallResult) :
    (Sender.classify result).1.outcome = .unknown ∨
      Says result.1 (Sender.classify result).1.outcome := by
  obtain ⟨res, _⟩ := result
  cases res with
  | error st =>
    cases hsum : Job.Sender.dispatchRejectionSummary st with
    | none => exact .inl (by simp [Sender.classify, hsum, Sender.unknown])
    | some =>
      right
      simp only [Sender.classify, hsum]
      exact .refused st (refusal_of_summary hsum)
  | ok ack =>
    cases ack with
    | none => exact .inl rfl
    | some ack =>
      cases hack : ack.status with
      | unspecified | other => exact .inl (by simp [Sender.classify, hack, Sender.unknown])
      | busy =>
        right
        simp only [Sender.classify, hack]
        exact .busy ack hack
      | accepted =>
        simp only [Sender.classify, hack]
        split
        · exact .inl rfl
        split
        · exact .inl rfl
        split
        · exact .inl rfl
        · exact .inr (.accepted ack hack)

theorem dispatch_means (ctx : Option Job.Sender.Context) (attempt : Job.RegisteredAttempt)
    (target : Except String Job.ExecutorTarget) (result : Job.Sender.CallResult) :
    (Sender.dispatch ctx attempt target fun _ => result).1.outcome = .unknown ∨
      Says result.1 (Sender.dispatch ctx attempt target fun _ => result).1.outcome := by
  unfold Sender.dispatch
  split
  · exact .inl rfl
  · exact classify_says result

/-! ## Where an activity comes from -/

namespace RPCAdapter

variable {cfg : Config} {req : DispatchTaskRequest} {inv inv' : Invocation}

theorem selectStage_key (h : selectStage cfg req inv = .ok inv') : inv'.key = inv.key := by
  unfold selectStage at h
  repeat' split at h
  all_goals cases h
  all_goals rfl

theorem checkProcessor_eq (h : checkProcessor cfg req inv = .ok inv') : inv' = inv := by
  unfold checkProcessor at h
  repeat' split at h
  all_goals cases h
  all_goals rfl

theorem admit_key (h : screen cfg req = .ok inv) : inv.key = ⟨req.taskId, req.attemptNo⟩ := by
  unfold screen at h
  cases hauth : authenticate cfg req.auth with
  | error => simp [hauth, bind, Except.bind] at h
  | ok =>
    simp only [hauth, bind, Except.bind, invocation] at h
    split at h
    · cases h
    split at h
    · cases h
    split at h
    · cases h
    split at h
    · cases h
    split at h
    · cases h
    next hstage =>
      rw [checkProcessor_eq h, selectStage_key hstage]
      rfl

theorem answer_accepted {accepted : Bool} {err : Option AdmissionError} {ack : DispatchTaskResponse}
    (h : RPCAdapter.answer cfg accepted err = .ok ack) (hst : ack.status = .accepted) :
    accepted = true ∧ err = none := by
  unfold RPCAdapter.answer at h
  repeat' split at h
  all_goals cases h
  · cases hst
  next hacc => exact ⟨by simpa using hacc, rfl⟩

end RPCAdapter

namespace Runtime

variable {cfg : Config} {s s' : Runtime} {a : ℕ} {act : Activity}

structure Origin (cfg : Config) (s : Runtime) : Prop where
  call : ∀ a act, s.heap a = some act → act.call < s.calls
  admitting : ∀ caller a, s.admitting = some (caller, a) →
    ∃ act, s.heap a = some act ∧ act.call = caller.call ∧ Asks cfg caller.req act.invocation

theorem origin_init : Origin cfg .init := by
  constructor <;> simp [init]

/-- A new activity comes from a call that is now inserting it. -/
theorem heap_new (hc : Change cfg s s') (hnone : s.heap a = none) (hact : s'.heap a = some act) :
    ∃ req inv, Asks cfg req inv ∧ act = .new s.calls inv ∧ s'.calls = s.calls + 1 ∧
      s'.admitting = some (⟨s.calls, req⟩, a) := by
  -- an update of an activity that is there does not concern `a`
  have hset : ∀ {b : ℕ} {act0 act1 : Activity}, s.heap b = some act0 →
      Function.update s.heap b (some act1) a ≠ some act := by
    intro b act0 act1 hb heq
    have hab : a ≠ b := by
      rintro rfl
      cases hnone.symm.trans hb
    rw [Function.update_of_ne hab, hnone] at heq
    cases heq
  cases hc with
  | sent req inv hreq =>
    unfold send at hact ⊢
    split at hact
    · rw [hnone] at hact; cases hact
    next hopen =>
      rw [if_neg hopen]
      by_cases ha : a = s.next
      · subst ha
        refine ⟨req, inv, hreq, ?_, rfl, rfl⟩
        simpa using hact.symm
      · simp [ha, hnone] at hact
  | begun w b _ _ _ hb | called w b _ _ hb | left w b _ _ _ hb | handed w b _ _ _ _ _ hb
  | discarded w b _ _ _ hb =>
    exact absurd hact (hset hb)
  | cancelled => simp [cancel, hnone] at hact
  | stopped =>
    rw [sameWork_stop.heap] at hact
    exact absurd (hnone.symm.trans hact) (by simp)
  | reporterDone =>
    rw [sameWork_closeDone.heap] at hact
    exact absurd (hnone.symm.trans hact) (by simp)
  | _ => exact absurd (hnone.symm.trans (show s.heap a = some act from hact)) (by simp)

theorem calls_le (hc : Change cfg s s') : s.calls ≤ s'.calls := by
  cases hc with
  | refused | answered => exact Nat.le_succ _
  | sent =>
    unfold send
    split
    · exact Nat.le_refl _
    · exact Nat.le_succ _
  | stopped => exact Nat.le_of_eq sameWork_stop.calls.symm
  | reporterDone => simp only [sameWork_closeDone.calls, Nat.le_refl]
  | _ => exact Nat.le_refl _

theorem admitting_cases (hc : Change cfg s s') {caller : Caller}
    (hmu : s'.admitting = some (caller, a)) :
    s.admitting = some (caller, a) ∨
      ∃ inv, Asks cfg caller.req inv ∧ s'.heap a = some (.new caller.call inv) := by
  cases hc with
  | sent _ inv hreq =>
    unfold send at hmu ⊢
    split at hmu
    · exact .inl hmu
    next hopen =>
      rw [if_neg hopen]
      cases hmu
      exact .inr ⟨inv, hreq, by simp⟩
  | inserted => cases hmu
  | stopped => exact .inl (sameWork_stop.admitting ▸ hmu)
  | reporterDone =>
    rw [sameWork_closeDone.admitting] at hmu
    exact .inl hmu
  | _ => exact .inl hmu

theorem origin_step (hp : Places s) (h : Origin cfg s) (hc : Change cfg s s') : Origin cfg s' := by
  constructor
  · intro a act' hact'
    cases hact : s.heap a with
    | none =>
      obtain ⟨_, inv, -, rfl, hcalls, -⟩ := heap_new hc hact hact'
      rw [hcalls]
      exact Nat.lt_succ_self _
    | some act =>
      obtain ⟨act1, hact1, hev⟩ := evolves_step hp hc hact
      cases hact'.symm.trans hact1
      rw [hev.call]
      exact Nat.lt_of_lt_of_le (h.call a act hact) (calls_le hc)
  · intro caller a hmu
    rcases admitting_cases hc hmu with hmu | ⟨inv, hasks, hact⟩
    · obtain ⟨_, hact, hcall, hasks⟩ := h.admitting caller a hmu
      obtain ⟨act', hact', hev⟩ := evolves_step hp hc hact
      exact ⟨act', hact', by rw [hev.call, hcall], by rw [hev.invocation]; exact hasks⟩
    · exact ⟨_, hact, rfl, hasks⟩

theorem origin_invariant : (runtime cfg).Invariant fun s => Sound cfg s ∧ Origin cfg s :=
  ⟨⟨sound_invariant.init, origin_init⟩, fun _ _ _ h hm =>
    ⟨sound_invariant.step h.1 hm, origin_step h.1.places h.2 (step_change hm)⟩⟩

/-! ## Answers -/

theorem accept_true {ctxErr : Option CtxErr} {now : ℕ} {inv : Invocation}
    {err : Option AdmissionError} (h : s.accept cfg ctxErr now inv = .returns true err) :
    (s.active inv.key).isSome := by
  unfold accept at h
  split at h
  · assumption
  repeat' split at h
  all_goals cases h

/-- An answer is given at once, or when the work is inserted. -/
theorem answer_cases (hc : Change cfg s s') {call : ℕ} {req : DispatchTaskRequest}
    {answer : Except Rpc.Status DispatchTaskResponse}
    (hans : s'.replies = s.replies ++ [.dispatch call req answer]) :
    (call = s.calls ∧ s'.queue = s.queue ∧ s'.active = s.active ∧ s'.heap = s.heap ∧
      ∀ ack, answer = .ok ack → ack.status = .accepted → (s.active ⟨req.taskId, req.attemptNo⟩).isSome) ∨
    (∃ a act, s.admitting = some (⟨call, some req⟩, a) ∧ s.heap a = some act ∧ s'.heap = s.heap ∧
      s'.active = Function.update s.active act.invocation.key (some a) ∧
      answer = .ok { status := .accepted, executorInstanceId := cfg.executorInstanceId }) := by
  have hno : ¬ s.replies = s.replies ++ [.dispatch call req answer] := by simp
  have hlast : ∀ r, s.replies ++ [r] = s.replies ++ [.dispatch call req answer] →
      r = .dispatch call req answer := fun r hr => by simpa using hr
  cases hc with
  | refused =>
    obtain ⟨rfl, rfl, rfl⟩ := Reply.dispatch.inj (hlast _ hans)
    refine .inl ⟨rfl, rfl, rfl, rfl, fun ack hack => ?_⟩
    cases Rpc.unaryServerInterceptor_ok.mp hack
  | answered req' _ _ _ _ _ hreq hacc =>
    have hr := hlast _ hans
    cases req' with
    | none => cases hr
    | some req' =>
      obtain ⟨rfl, rfl, rfl⟩ := Reply.dispatch.inj hr
      refine .inl ⟨rfl, rfl, rfl, rfl, fun ack hack hst => ?_⟩
      obtain ⟨rfl, rfl⟩ := RPCAdapter.answer_accepted (Rpc.unaryServerInterceptor_ok.mp hack) hst
      rw [← RPCAdapter.admit_key (hreq req' rfl)]
      exact accept_true hacc
  | inserted caller a act hmu hact =>
    have hr := hlast _ hans
    obtain ⟨_, req'⟩ := caller
    cases req' with
    | none => cases hr
    | some =>
      obtain ⟨rfl, rfl, rfl⟩ := Reply.dispatch.inj hr
      exact .inr ⟨a, act, hmu, hact, rfl, rfl, rfl⟩
  | sent =>
    unfold send at hans
    split at hans <;> exact absurd hans hno
  | stopped => exact absurd (sameWork_stop.replies ▸ hans) hno
  | reporterDone =>
    rw [sameWork_closeDone.replies] at hans
    exact absurd hans hno
  | _ => exact absurd hans hno

/--
The call that this step answers, and a `Sender` with any context, attempt, target and peer. The last
two parts are about whatever else comes back to a `Sender`.
-/
theorem dispatch_outcome_sound {ms : List Move} {m : Move} {call : ℕ} {req : DispatchTaskRequest}
    {answer : Except Rpc.Status DispatchTaskResponse} (hrun : (runtime cfg).run ms = some s)
    (hstep : (runtime cfg).step s m = some s')
    (hans : s'.replies = s.replies ++ [.dispatch call req answer])
    (ctx : Option Job.Sender.Context) (attempt : Job.RegisteredAttempt)
    (target : Except String Job.ExecutorTarget) (peer : Option Job.TcpAddr)
    (out : Job.DispatchOutcome)
    (hout : (Sender.dispatch ctx attempt target fun _ => (answer.map some, peer)).1.outcome = out) :
    (out = .busy ∨ out = .rejected →
      s'.queue = s.queue ∧ s'.active = s.active ∧ ∀ a act, s'.heap a = some act → act.call ≠ call) ∧
    (out = .accepted →
      (s.active ⟨req.taskId, req.attemptNo⟩).isSome ∨
      ∃ a act, s'.active ⟨req.taskId, req.attemptNo⟩ = some a ∧ s'.heap a = some act ∧
        act.call = call) ∧
    (∀ result : Job.Sender.CallResult, (∀ out, ¬ Says result.1 out) →
      (Sender.dispatch ctx attempt target fun _ => result).1.outcome = .unknown) ∧
    ∀ (st : TransportStatus) (out : Job.DispatchOutcome), ¬ Says (.error st.status) out := by
  obtain ⟨-, horigin⟩ := origin_invariant.run hrun
  have hsays := dispatch_means ctx attempt target (answer.map some, peer)
  rw [hout] at hsays
  refine ⟨fun h => ?_, fun h => ?_, fun result hnone => ?_, TransportStatus.says_nothing⟩
  · rcases answer_cases (step_change hstep) hans with
      ⟨rfl, hqueue, hactive, hheap, -⟩ | ⟨a, act, -, -, -, -, rfl⟩
    · refine ⟨hqueue, hactive, fun a act hact => ?_⟩
      exact Nat.ne_of_lt (horigin.call a act (hheap ▸ hact))
    · -- an inserted attempt is acknowledged as accepted
      rcases h with rfl | rfl <;> rcases hsays with hsays | ⟨_, _, _⟩ <;> contradiction
  · subst h
    rcases answer_cases (step_change hstep) hans with
      ⟨-, -, -, -, hok⟩ | ⟨a, act, hmu, hact, hheap, hactive, -⟩
    · left
      cases answer with
      | error => rcases hsays with hsays | hsays <;> cases hsays
      | ok ack =>
        rcases hsays with hsays | hsays
        · cases hsays
        · cases hsays with
          | accepted _ hst => exact hok ack rfl hst
    · right
      obtain ⟨act', hact', hcall, hasks⟩ := horigin.admitting _ a hmu
      cases hact.symm.trans hact'
      refine ⟨a, act, ?_, by rw [hheap]; exact hact, hcall⟩
      rw [hactive, RPCAdapter.admit_key (hasks req rfl), Function.update_self]
  · exact (dispatch_means ctx attempt target result).resolve_right (hnone _)

def demoAttempt : Job.RegisteredAttempt :=
  { jobId := 1, instanceId := 7, executorGroupId := 3, taskId := 1, attemptNo := 1
    executionConfig :=
      { schemaVersion := 1, processorName := "report", executionMode := .normal
        postEnabled := false, params := "", maxRetries := 0, retryIntervalSeconds := 0
        timeoutSeconds := 0 }
    registeredAt := 1, deadlineAt := 100 }

def demoRequest : DispatchTaskRequest :=
  { auth := some ⟨"jobs", "00000000000040008000000000000000"⟩, jobId := 1, instanceId := 7
    taskId := 1, attemptNo := 1, processorName := "report", params := ""
    deadlineAt := some (.new 100), requiredPost := false, input := some (.ordinary (some ())) }

/-- The sender's own request is admitted, and its answer read as an acceptance. -/
theorem demo_dispatch_accepted :
    ∃ s s' answer, (runtime Demo.config).run [.start, .dispatch none 0 demoRequest] = some s ∧
      (runtime Demo.config).step s .insert = some s' ∧
      s'.replies = s.replies ++ [.dispatch 0 demoRequest answer] ∧
      (Sender.dispatch (some ⟨none, none⟩) demoAttempt
        (.ok ⟨3, "jobs", "00000000000040008000000000000000", true⟩)
        fun req => if req = demoRequest then
          (answer.map some, some ⟨[127, 0, 0, 1], 9000, "127.0.0.1:9000"⟩)
        else (.error ⟨.canceled, "", []⟩, none)).1.outcome = .accepted ∧
      ((s.active ⟨1, 1⟩).isSome ∨
        ∃ a act, s'.active ⟨1, 1⟩ = some a ∧ s'.heap a = some act ∧ act.call = 0) := by
  obtain ⟨s, hrun, s', hstep, hans⟩ :
      ∃ s ∈ (runtime Demo.config).run [.start, .dispatch none 0 demoRequest],
      ∃ s' ∈ (runtime Demo.config).step s .insert, s'.replies = s.replies ++
        [.dispatch 0 demoRequest (.ok ⟨.accepted, Demo.config.executorInstanceId⟩)] := by
    decide +kernel
  refine ⟨s, s', _, hrun, hstep, hans, ?_, ?_⟩
  · decide +kernel
  · exact (dispatch_outcome_sound hrun hstep hans (some ⟨none, none⟩)
      demoAttempt (.ok ⟨3, "jobs", "00000000000040008000000000000000", true⟩)
      (some ⟨[127, 0, 0, 1], 9000, "127.0.0.1:9000"⟩) .accepted (by decide +kernel)).2.1 rfl

end Runtime

end Dogx.Executor
