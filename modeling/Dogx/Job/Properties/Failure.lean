import Dogx.Txn.Alone
import Dogx.Executor.Runtime
import Dogx.Job.Receiver
import Dogx.Job.Properties.Round

/-!
# The way of a failure to its task

A failed call of a processor has a text, which is any bytes. Three checks stand between it and the
row of the task: the reporter's, before it is sent, the receiver's and the saver's. What passes them
closes the attempt, what does not is discarded.
-/

namespace Dogx.Executor

/-- The text of a failed call; `none` of a successful one. -/
def ProcessorOutcome.failure : ProcessorOutcome → Option Bytes
  | .panicked => some "processor panicked".toUTF8
  | .returned _ _ _ err => err

def failureRequest (cfg : Config) (inv : Invocation) (text : Bytes) : ReportTaskResultRequest :=
  { auth := { groupName := cfg.auth.groupName, token := cfg.auth.token }
    jobId := inv.jobId, instanceId := inv.instanceId, taskId := inv.taskId
    attemptNo := inv.attemptNo, executorInstanceId := cfg.executorInstanceId
    outcome := .failure, summary := text, output := none }

variable {cfg : Config} {inv : Invocation} {outcome : ProcessorOutcome} {text : Bytes}

theorem invoke_failure (h : outcome.failure = some text) (inv : Invocation) :
    ∃ prepared, Runtime.invoke inv outcome =
      { jobId := inv.jobId, instanceId := inv.instanceId, taskId := inv.taskId
        attemptNo := inv.attemptNo, success := false, summary := text, data := none, prepared
        preparedItems := none } := by
  cases outcome with
  | panicked =>
    cases h
    exact ⟨false, rfl⟩
  | returned =>
    cases h
    unfold Runtime.invoke
    dsimp only
    split
    · exact ⟨true, rfl⟩
    · exact ⟨false, rfl⟩

/-- The request that a failed call leads to, or why there is none. -/
theorem request_failure (h : outcome.failure = some text) :
    Reporter.request cfg (Runtime.invoke inv outcome) =
      if !text.validateUTF8 then .error .invalidEncoding
      else if Reporter.reportMessageLimit < (failureRequest cfg inv text).size then
        .error .messageTooLarge
      else .ok (failureRequest cfg inv text) := by
  obtain ⟨_, hinvoke⟩ := invoke_failure h inv
  rw [hinvoke]
  simp only [Reporter.request, Reporter.reportMessageProblem, Bool.not_false, if_true]
  rw [← failureRequest]
  by_cases hutf8 : text.validateUTF8
  · by_cases hsize : Reporter.reportMessageLimit < (failureRequest cfg inv text).size <;>
      simp [hutf8, hsize]
  · simp [hutf8]

/-! ## Sizes -/

theorem utf8ByteSize_ofList_le : ∀ l : List Char, (String.ofList l).utf8ByteSize ≤ 4 * l.length
  | [] => by simp
  | c :: l => by
    have hc := c.utf8Size_le_four
    have hl := utf8ByteSize_ofList_le l
    rw [String.ofList_cons, String.utf8ByteSize_append, String.utf8ByteSize_singleton,
      List.length_cons]
    omega

theorem utf8ByteSize_le (s : String) : s.utf8ByteSize ≤ 4 * s.toList.length := by
  simpa using utf8ByteSize_ofList_le s.toList

namespace Proto

theorem sizeVarint_le {n : ℕ} (h : n < 0x10000000000000000) : sizeVarint n ≤ 10 := by
  unfold sizeVarint
  split
  · decide
  next hn =>
    have hlog : Nat.log2 n < 64 := (Nat.log2_lt hn).mpr h
    omega

theorem sizeString_le {n : ℕ} (h : n < 0x10000000000000000) : sizeString n ≤ n + 11 := by
  have hv := sizeVarint_le h
  unfold sizeString sizeBytes
  split <;> omega

theorem sizeInt_le (i : Int) : sizeInt i ≤ 11 := by
  have hlt : (i % 0x10000000000000000).toNat < 0x10000000000000000 := by omega
  have hv := sizeVarint_le hlt
  unfold sizeInt
  split <;> omega

end Proto

variable (cfg : Config)

theorem Config.groupName_valid : validExecutionName cfg.auth.groupName = true := by
  have hvalid := cfg.auth.valid
  unfold validateCredentials at hvalid
  split at hvalid
  · cases hvalid
  next hname => simpa using hname

theorem Config.groupName_size : cfg.auth.groupName.utf8ByteSize ≤ 512 := by
  have hlen : cfg.auth.groupName.toList.length ≤ 128 :=
    of_decide_eq_true (Bool.and_eq_true_iff.mp cfg.groupName_valid).2
  have := utf8ByteSize_le cfg.auth.groupName
  omega

theorem Config.groupName_ne : cfg.auth.groupName ≠ "" := by
  have hvalid := cfg.groupName_valid
  simp only [validExecutionName, Bool.and_eq_true] at hvalid
  exact of_decide_eq_true hvalid.1.1.1

theorem Config.token_size : cfg.auth.token.utf8ByteSize = 32 := by
  have hvalid := cfg.auth.valid
  unfold validateCredentials at hvalid
  split at hvalid
  · cases hvalid
  split at hvalid
  · cases hvalid
  next hsize => simpa using hsize

theorem Config.token_ne : cfg.auth.token ≠ "" := by
  intro hempty
  have hsize := cfg.token_size
  rw [hempty] at hsize
  cases hsize

theorem Config.identity_size : cfg.executorInstanceId.utf8ByteSize ≤ 144 := by
  have hid := cfg.identity
  unfold validExecutorInstanceID Job.Uuid.parse at hid
  dsimp only at hid
  split at hid
  next hlen =>
    have := utf8ByteSize_le cfg.executorInstanceId
    omega
  · cases hid

/-- What the other fields add to the size of the text. -/
theorem failureRequest_size (inv : Invocation) (hsize : text.size < 0x10000000000000000) :
    (failureRequest cfg inv text).size ≤ text.size + 1024 := by
  have hname := cfg.groupName_size
  have htoken := cfg.token_size
  have hname' := Proto.sizeString_le (n := cfg.auth.groupName.utf8ByteSize) (by omega)
  have htoken' := Proto.sizeString_le (n := cfg.auth.token.utf8ByteSize) (by omega)
  have hid := cfg.identity_size
  have hid' := Proto.sizeString_le (n := cfg.executorInstanceId.utf8ByteSize) (by omega)
  have hauth := Proto.sizeVarint_le (n := Proto.sizeString cfg.auth.groupName.utf8ByteSize +
    Proto.sizeString cfg.auth.token.utf8ByteSize) (by omega)
  have htext := Proto.sizeString_le hsize
  have hjob := Proto.sizeInt_le inv.jobId
  have hinst := Proto.sizeInt_le inv.instanceId
  have htask := Proto.sizeInt_le inv.taskId
  have hattempt := Proto.sizeInt_le inv.attemptNo
  simp only [ReportTaskResultRequest.size, failureRequest, ReportTaskResultRequest.outputSize,
    Proto.sizeBytes, reduceCtorEq, if_false]
  omega

end Dogx.Executor

namespace Dogx.Job

open Txn (Store)
open Executor
open JobTaskRepository

variable {env : Env} {w : World} {cfg : Config} {inv : Invocation} {text : Bytes}

/-! ## Receiving -/

def failureReport (cfg : Config) (inv : Invocation) (groupId : ℕ) (summary : String) : Report :=
  { groupId, jobId := inv.jobId.toNat, instanceId := inv.instanceId.toNat
    taskId := inv.taskId.toNat, attemptNo := inv.attemptNo
    executorInstanceId := cfg.executorInstanceId, outcome := .failure, summary, data := none
    preparedItems := none }

section

variable (h : Runtime.validateInvocation cfg.registry inv = none)
include h

theorem positive_of_valid :
    0 < inv.jobId ∧ 0 < inv.instanceId ∧ 0 < inv.taskId ∧ 0 < inv.attemptNo := by
  unfold Runtime.validateInvocation at h
  split at h
  · cases h
  · omega

/-- The receiver reads back the failure that was reported. -/
theorem parseResult_failure (jsonValid : Bytes → Bool) (summary : String) (groupId : ℕ) :
    ∃ received, Receiver.parseResult jsonValid (failureRequest cfg inv text) summary groupId =
        .ok received ∧
      received.report = some (failureReport cfg inv groupId summary) := by
  obtain ⟨_, _, _, _⟩ := positive_of_valid h
  have hids : ¬ ((failureRequest cfg inv text).jobId ≤ 0 ∨
      (failureRequest cfg inv text).instanceId ≤ 0 ∨ (failureRequest cfg inv text).taskId ≤ 0 ∨
      (failureRequest cfg inv text).attemptNo ≤ 0) := by
    simp only [failureRequest]
    omega
  have hidentity : validExecutorInstanceID (failureRequest cfg inv text).executorInstanceId = true :=
    cfg.identity
  unfold validExecutorInstanceID at hidentity
  refine ⟨{ groupId, jobId := inv.jobId.toNat, instanceId := inv.instanceId.toNat
            taskId := inv.taskId.toNat, attemptNo := inv.attemptNo
            executorInstanceId := cfg.executorInstanceId, outcome := .failure, summary
            data := none, preparedItems := none }, ?_, rfl⟩
  unfold Receiver.parseResult
  rw [if_neg hids, if_neg (by rw [hidentity]; decide)]
  rfl

theorem reportTaskResult_failure {authenticate : String → String → Except Receiver.AuthError Int}
    {groupId : ℕ} (hgroup : groupId ≠ 0)
    (hauth : authenticate cfg.auth.groupName cfg.auth.token = .ok (groupId : Int))
    (jsonValid : Bytes → Bool) (accept : Received → Except Receiver.AcceptError Bool)
    (summary : String) :
    ∃ received, Receiver.reportTaskResult authenticate jsonValid accept
        (failureRequest cfg inv text) summary = Receiver.acknowledge (accept received) ∧
      received.report = some (failureReport cfg inv groupId summary) := by
  obtain ⟨received, hparse, hreport⟩ := parseResult_failure h jsonValid summary groupId
  refine ⟨received, ?_, hreport⟩
  have hcredentials : ¬ ((failureRequest cfg inv text).auth.groupName = "" ∨
      (failureRequest cfg inv text).auth.token = "") :=
    not_or.mpr ⟨cfg.groupName_ne, cfg.token_ne⟩
  have hauth' : authenticate (failureRequest cfg inv text).auth.groupName
      (failureRequest cfg inv text).auth.token = .ok (groupId : Int) := hauth
  rw [Receiver.reportTaskResult, if_neg hcredentials, hauth']
  dsimp only
  rw [if_neg (by omega), Int.toNat_natCast, hparse]

end

/-! ## Saving -/

theorem Reached.config (h : Reached env w) {id : ℕ} {t : JobTask} (ht : w.db .task id = some t) :
    ∃ i, w.db .instance t.instanceId = some i ∧ i.executionConfig.Ordinary := by
  revert t
  refine h.rows (P := fun db => ∀ {t}, db .task id = some t →
    ∃ i, db .instance t.instanceId = some i ∧ i.executionConfig.Ordinary) (by simp) ?_
  intro w op writes _ he ih t' ht'
  -- the round of an old row keeps its settings
  have hold : ∀ {t : JobTask}, w.db .task id = some t →
      ∃ i, w.db.apply writes .instance t.instanceId = some i ∧ i.executionConfig.Ordinary := by
    intro t ht
    obtain ⟨i, hi, hconfig⟩ := ih ht
    obtain ⟨i', hi', hf⟩ := he.follows.round _ i hi
    exact ⟨i', hi', by rw [hf.executionConfig]; exact hconfig⟩
  rcases Store.apply_eq_some ht' with hw | ⟨_, ht'⟩
  · cases he.task_write hw with
    | new hop hs ht =>
      subst hop ht
      obtain ⟨i', hi', hf⟩ := he.follows.round _ _ hs.row
      exact ⟨i', hi', by rw [hf.executionConfig]; exact hs.config⟩
    | old row hu => rw [hu.follows.instanceId]; exact hold row
  · exact hold ht'

/-- The report names the running attempt of a task, from the executor it is bound to if there is one. -/
structure CurrentAttempt (db : Db) (report : Report) (t : JobTask) (i : JobInstance) : Prop where
  task : db .task report.taskId = some t
  round : db .instance report.instanceId = some i
  instanceId : t.instanceId = report.instanceId
  jobId : i.jobId = report.jobId
  groupId : i.executorGroupId = report.groupId
  attemptNo : t.attemptNo = report.attemptNo
  running : t.status = .running
  executor : t.executorInstanceId = none ∨
    t.executorInstanceId = Uuid.parse report.executorInstanceId

/-- What `FindResultTarget` reads for such a report. -/
def targetOf (t : JobTask) (i : JobInstance) : TaskResultTarget :=
  { taskId := t.id, instanceId := t.instanceId, jobId := i.jobId
    executorGroupId := i.executorGroupId, attemptNo := t.attemptNo, taskType := t.taskType
    status := t.status, usedAttempts := t.usedAttempts
    executorInstanceId := t.executorInstanceId, executionConfig := i.executionConfig }

section Current

variable {report : Report} {t : JobTask} {i : JobInstance} {identity : Uuid}
  {write : TaskResultWrite} {closed : TaskStatus}

theorem CurrentAttempt.target (h : CurrentAttempt w.db report t i) :
    findResultTarget report.taskId w.view = some (targetOf t i) := by
  have ht : w.view.rows .task report.taskId = some t := h.task
  have hi : w.view.rows .instance t.instanceId = some i := by
    rw [h.instanceId]; exact h.round
  unfold findResultTarget
  rw [ht, Option.bind_eq_bind, Option.bind_some, hi]
  rfl

theorem CurrentAttempt.checks (hw : Reached env w) (h : CurrentAttempt w.db report t i)
    (hid : Uuid.parse report.executorInstanceId = some identity) :
    ¬ ((targetOf t i).taskId ≠ report.taskId ∨ (targetOf t i).instanceId ≠ report.instanceId ∨
      (targetOf t i).jobId ≠ report.jobId ∨ (targetOf t i).executorGroupId ≠ report.groupId) ∧
    ¬ (targetOf t i).attemptNo ≠ report.attemptNo ∧ ¬ (targetOf t i).status ≠ .running ∧
    ¬ ((targetOf t i).executorInstanceId.isSome ∧
      (targetOf t i).executorInstanceId ≠ some identity) ∧
    ¬ (targetOf t i).taskType ≠ .ordinary := by
  refine ⟨?_, by simp [targetOf, h.attemptNo], by simp [targetOf, h.running], ?_,
    by simp [targetOf, hw.ordinary h.task]⟩
  · simp [targetOf, hw.inv.taskId _ t h.task, h.instanceId, h.jobId, h.groupId]
  · rintro ⟨hsome, hne⟩
    rcases h.executor with hnone | heq
    · simp [targetOf, hnone] at hsome
    · exact hne (heq.trans hid)

/-- A report with an invalid output is discarded. -/
theorem CurrentAttempt.discarded (hw : Reached env w) (h : CurrentAttempt w.db report t i)
    (hid : Uuid.parse report.executorInstanceId = some identity)
    (hbad : Saver.validOutput env report = false) :
    Saver.saveTarget env report identity (targetOf t i) =
      pure (.ok (Saver.discardResult "invalid_output")) := by
  obtain ⟨howner, hattempt, hstatus, hbound, htype⟩ := h.checks hw hid
  rw [Saver.saveTarget, if_neg howner, if_neg hattempt, if_neg hstatus, if_neg hbound, if_neg htype,
    if_pos (by simp [hbad])]

theorem CurrentAttempt.decided (hw : Reached env w) (h : CurrentAttempt w.db report t i)
    (hid : Uuid.parse report.executorInstanceId = some identity)
    (hok : Saver.validOutput env report = true)
    (hwrite : Saver.resultWrite (targetOf t i) report identity = .ok write) :
    Saver.saveTarget env report identity (targetOf t i) =
      Saver.saveDecided env (targetOf t i) report write := by
  obtain ⟨howner, hattempt, hstatus, hbound, htype⟩ := h.checks hw hid
  rw [Saver.saveTarget, if_neg howner, if_neg hattempt, if_neg hstatus, if_neg hbound, if_neg htype,
    if_neg (by simp [hok]), hwrite]

structure FailureWrite (report : Report) (identity : Uuid) (closed : TaskStatus)
    (write : TaskResultWrite) : Prop where
  taskId : write.taskId = report.taskId
  instanceId : write.instanceId = report.instanceId
  attemptNo : write.attemptNo = report.attemptNo
  executor : write.executorInstanceId = identity
  status : write.status = closed
  summary : write.summary = report.summary
  closing : closed = .retryWaiting ∧ 0 < write.retryIntervalSeconds ∨ closed = .failed

/-- Another opportunity is left, or the task has failed. -/
def closedStatus (t : JobTask) (i : JobInstance) : TaskStatus :=
  if t.usedAttempts < i.executionConfig.maxRetries + 1 then .retryWaiting else .failed

/-- The write for a failure, with or without another opportunity. -/
theorem CurrentAttempt.written (hw : Reached env w) (h : CurrentAttempt w.db report t i)
    (hfail : report.outcome = .failure) (identity : Uuid) :
    ∃ write, Saver.resultWrite (targetOf t i) report identity = .ok write ∧
      FailureWrite report identity (closedStatus t i) write := by
  have hround : w.db .instance t.instanceId = some i := by rw [h.instanceId]; exact h.round
  obtain ⟨i', hi', hconfig⟩ := hw.config h.task
  cases hround.symm.trans hi'
  obtain ⟨hversion, _, hinterval, -⟩ := hconfig.bounds
  have hused : 1 ≤ t.usedAttempts := by
    have hacc := hw.accounted report.taskId
    simp only [Accounted, h.task] at hacc
    obtain ⟨_, _, hbudget⟩ := hacc
    exact hbudget.running h.running
  have hbad : ¬ (i.executionConfig.maxRetries < 0 ∨ i.executionConfig.retryIntervalSeconds ≤ 0) := by
    omega
  have hsome : ¬ t.usedAttempts ≤ 0 := by omega
  by_cases hleft : t.usedAttempts < i.executionConfig.maxRetries + 1
  · have hclosed : closedStatus t i = .retryWaiting := if_pos hleft
    refine ⟨{ taskId := report.taskId, instanceId := report.instanceId
              attemptNo := report.attemptNo, executorInstanceId := identity, status := .retryWaiting
              data := none, summary := report.summary
              retryIntervalSeconds := i.executionConfig.retryIntervalSeconds }, ?_,
      rfl, rfl, rfl, rfl, hclosed.symm, rfl, .inl ⟨hclosed, hinterval⟩⟩
    simp [Saver.resultWrite, targetOf, hversion, hconfig.2, hfail, hbad, hsome, hleft]
  · have hclosed : closedStatus t i = .failed := if_neg hleft
    refine ⟨{ taskId := report.taskId, instanceId := report.instanceId
              attemptNo := report.attemptNo, executorInstanceId := identity, status := .failed
              data := none, summary := report.summary, retryIntervalSeconds := 0 }, ?_,
      rfl, rfl, rfl, rfl, hclosed.symm, rfl, .inr hclosed⟩
    simp [Saver.resultWrite, targetOf, hversion, hconfig.2, hfail, hbad, hsome, hleft]

theorem FailureWrite.saveResult (h : FailureWrite report identity closed write)
    (hvalid : Saver.validReport report identity = true) :
    saveResult env write =
      writeTask (.saveResult write) write.taskId (resultUpdate env write) := by
  simp only [Saver.validReport, Bool.and_eq_true, decide_eq_true_eq] at hvalid
  obtain ⟨⟨⟨⟨⟨⟨⟨-, -⟩, hinst⟩, htask⟩, hattempt⟩, hv4⟩, -⟩, -⟩ := hvalid
  have hok : ¬ (write.taskId = 0 ∨ write.instanceId = 0 ∨ write.attemptNo ≤ 0 ∨
      (!write.executorInstanceId.isV4) = true ∨
      (write.status ≠ .succeeded ∧ write.status ≠ .retryWaiting ∧ write.status ≠ .failed) ∨
      (write.status = .retryWaiting ∧ write.retryIntervalSeconds ≤ 0)) := by
    rw [h.taskId, h.instanceId, h.attemptNo, h.executor, h.status]
    rcases h.closing with ⟨rfl, hpos⟩ | rfl
    · simp [hinst, htask, hattempt, hv4, hpos]
    · simp [hinst, htask, hattempt, hv4]
  rw [JobTaskRepository.saveResult, if_neg hok]

theorem FailureWrite.update (hw : FailureWrite report identity closed write) {db : Db}
    (h : CurrentAttempt db report t i) (hid : Uuid.parse report.executorInstanceId = some identity)
    (v : View) : resultUpdate env write v t = .set (resultSet write v.now t) := by
  have hwhere : resultWhere write t = true := by
    refine resultWhere_iff.mpr ⟨?_, ?_, h.running, ?_⟩
    · rw [hw.instanceId]; exact h.instanceId
    · rw [hw.attemptNo]; exact h.attemptNo
    · rw [hw.executor, ← hid]; exact h.executor
  have hfail : write.status ≠ .succeeded := by
    rw [hw.status]
    rcases hw.closing with ⟨rfl, -⟩ | rfl <;> simp
  simp [resultUpdate, hwhere, hfail]

def Saver.atTarget (env : Env) (report : Report) (identity : Uuid) :
    Except Err (Option TaskResultTarget) → Proc (Except Err SaveResult)
  | .error e => pure (.error e)
  | .ok none => pure (.ok (Saver.discardResult "missing_target"))
  | .ok (some target) => Saver.saveTarget env report identity target

theorem Saver.code_save (hid : Uuid.parse report.executorInstanceId = some identity)
    (hvalid : Saver.validReport report identity = true) :
    Call.code env .listed (.save report) = .act .expired fun late =>
      if late then .ret ()
      else .read (findResultTarget report.taskId) fun found =>
        ignore (Saver.atTarget env report identity found) := by
  simp only [Call.code, Saver.save, hid, hvalid]
  refine congrArg (Txn.Proc.act (S := sig) Act.expired) (funext fun late => ?_)
  cases late with
  | true => rfl
  | false =>
    refine congrArg (Txn.Proc.read (findResultTarget report.taskId)) (funext fun found => ?_)
    cases found with
    | error => rfl
    | ok found => cases found <;> rfl

/-- A saved failure: the call that `s` makes next has closed the attempt. -/
def ClosedBy (s : Sys) (report : Report) (status : TaskStatus) (s' : Sys) : Prop :=
  ∃ t' write writes, s'.world.db .task report.taskId = some t' ∧ t'.attemptNo = report.attemptNo ∧
    t'.status = status ∧ t'.resultSummary = some report.summary ∧
    .commit s.next (.saveResult write true) s.world.db writes ∈ s'.world.log

/-- A save of the failure can run to its end. -/
theorem CurrentAttempt.can_save {ms : List Move} {s : Sys} (hr : run env ms = some s)
    (h : CurrentAttempt s.world.db report t i)
    (hid : Uuid.parse report.executorInstanceId = some identity)
    (hvalid : Saver.validReport report identity = true) (hfail : report.outcome = .failure)
    (hok : Saver.validOutput env report = true) (hlock : s.locks (taskRow report.taskId) = none) :
    Txn.Sys.Can (service env) (ClosedBy s report (closedStatus t i)) s := by
  have hw := run_reached hr
  have hsound := run_sound hr
  have hpend : s.pend s.next = Store.empty :=
    (hsound.quiet s.next (by simp [hsound.fresh s.next (Nat.le_refl _)])).1
  obtain ⟨write, hwrite, hfw⟩ := h.written hw hfail identity
  refine .spawn (c := Call.save report) rfl fun s1 h1 hl1 => ?_
  have hcode : Call.code env .listed (.save report) = _ := Saver.code_save hid hvalid
  simp only [hcode] at h1
  refine .reply false h1 fun s2 h2 hl2 => ?_
  refine .read h2 fun s3 h3 hl3 => ?_
  rw [show findResultTarget report.taskId (s.world.record (.act s.next .expired false)).view =
    some (targetOf t i) from h.target, Saver.atTarget, h.decided hw hid hok hwrite,
    Saver.saveDecided, hfw.saveResult hvalid, hfw.taskId, hpend] at h3
  refine .begin h3 fun s4 h4 hl4 => ?_
  have hrow : s.world.db.apply Store.empty .task report.taskId = some t := by simpa using h.task
  refine .update h4 hrow (by rw [hl4, hl3, hl2, hl1]; exact hlock) (hfw.update h hid _)
    fun s5 h5 => ?_
  refine .commit h5 fun s6 h6 => ?_
  refine .reply () h6 fun s7 h7 _ => .here
    ⟨resultSet write s.world.now t, write,
      noWrites.set .task report.taskId (resultSet write s.world.now t), ?_, ?_, ?_, ?_, ?_⟩
  · rw [h7.world]
    exact Store.apply_of_some (by simp)
  · exact h.attemptNo
  · exact hfw.status
  · exact congrArg some hfw.summary
  · rw [h7.world]
    exact List.mem_cons_of_mem _ List.mem_cons_self

end Current

/-! ## From end to end -/

section Failure

variable {outcome : ProcessorOutcome} {groupId : ℕ} {summary : String}

theorem decodeSummary_eq (h : Receiver.decodeSummary (failureRequest cfg inv text) = some summary) :
    summary.toUTF8 = text := by
  unfold Receiver.decodeSummary String.fromUTF8? at h
  split at h
  · cases h
    rfl
  · cases h

theorem decodeSummary_toUTF8 :
    Receiver.decodeSummary (failureRequest cfg inv summary.toUTF8) = some summary :=
  dif_pos summary.isValidUTF8

theorem request_ok_iff (hfail : outcome.failure = some text) {req : ReportTaskResultRequest} :
    Reporter.request cfg (Runtime.invoke inv outcome) = .ok req ↔
      text.validateUTF8 = true ∧
        (failureRequest cfg inv text).size ≤ Reporter.reportMessageLimit ∧
        req = failureRequest cfg inv text := by
  rw [request_failure hfail]
  by_cases hutf8 : text.validateUTF8 = true
  · by_cases hsize : Reporter.reportMessageLimit < (failureRequest cfg inv text).size
    · simp [hutf8, hsize]
    · simp [hutf8, hsize, Nat.le_of_not_lt hsize, eq_comm]
  · simp [hutf8]

theorem validReport_failure (h : Runtime.validateInvocation cfg.registry inv = none)
    (hgroup : groupId ≠ 0) (summary : String) :
    ∃ identity, Uuid.parse cfg.executorInstanceId = some identity ∧
      Saver.validReport (failureReport cfg inv groupId summary) identity = true := by
  obtain ⟨_, _, _, hattempt⟩ := positive_of_valid h
  obtain ⟨identity, hid, hv4⟩ := (Option.any_eq_true _ _).mp cfg.identity
  simp only [Bool.and_eq_true, decide_eq_true_eq] at hv4
  refine ⟨identity, hid, ?_⟩
  have h1 : inv.jobId.toNat ≠ 0 := by omega
  have h2 : inv.instanceId.toNat ≠ 0 := by omega
  have h3 : inv.taskId.toNat ≠ 0 := by omega
  simp [Saver.validReport, failureReport, hgroup, h1, h2, h3, hattempt, hv4.1, ← hv4.2]

theorem validOutput_failure : Saver.validOutput env (failureReport cfg inv groupId summary) =
    !Text.containsNul summary := by
  simp [Saver.validOutput, failureReport]

/--
**The way of a failure to its task.** The reporter sends every failure whose text is UTF-8 and
whose message is within the limit, and a receiver of a recognised group buffers it. While the
attempt is current its save can close it, if the text has no NUL; if it has one, the saver
discards the report.
-/
theorem failure_reaches_task (cfg : Config) (inv : Invocation) (outcome : ProcessorOutcome)
    (groupId : ℕ) {text : Bytes} (hinv : Runtime.validateInvocation cfg.registry inv = none)
    (hfail : outcome.failure = some text) (hgroup : groupId ≠ 0) :
    ((∃ req, Reporter.request cfg (Runtime.invoke inv outcome) = .ok req) ↔
      text.validateUTF8 = true ∧
        (failureRequest cfg inv text).size ≤ Reporter.reportMessageLimit) ∧
    (text.validateUTF8 = true → text.size + 1024 ≤ Reporter.reportMessageLimit →
      ∃ req, Reporter.request cfg (Runtime.invoke inv outcome) = .ok req) ∧
    (∃ req, Reporter.request cfg (Runtime.invoke inv .panicked) = .ok req ∧
      Receiver.decodeSummary req = some "processor panicked") ∧
    ∀ req, Reporter.request cfg (Runtime.invoke inv outcome) = .ok req →
      ∃ summary, Receiver.decodeSummary req = some summary ∧ summary.toUTF8 = text ∧
        (∀ authenticate jsonValid accept,
          authenticate cfg.auth.groupName cfg.auth.token = .ok (groupId : Int) →
          ∃ received, Receiver.reportTaskResult authenticate jsonValid accept req summary =
              Receiver.acknowledge (accept received) ∧
            received.report = some (failureReport cfg inv groupId summary)) ∧
        ∀ env ms s t i, run env ms = some s →
          CurrentAttempt s.world.db (failureReport cfg inv groupId summary) t i →
          (Text.containsNul summary = false → s.locks (taskRow inv.taskId.toNat) = none →
            Txn.Sys.Can (service env)
              (ClosedBy s (failureReport cfg inv groupId summary) (closedStatus t i)) s) ∧
          (Text.containsNul summary = true → ∀ identity,
            Uuid.parse cfg.executorInstanceId = some identity →
            Saver.saveTarget env (failureReport cfg inv groupId summary) identity (targetOf t i) =
              pure (.ok (Saver.discardResult "invalid_output"))) := by
  have hsize : ∀ text : Bytes, text.size + 1024 ≤ Reporter.reportMessageLimit →
      (failureRequest cfg inv text).size ≤ Reporter.reportMessageLimit := by
    intro text hle
    have hlt : text.size < 0x10000000000000000 := by
      simp only [Reporter.reportMessageLimit] at hle
      omega
    have := failureRequest_size cfg inv hlt
    omega
  refine ⟨?_, fun hutf8 hle => ⟨_, (request_ok_iff hfail).mpr ⟨hutf8, hsize _ hle, rfl⟩⟩, ?_, ?_⟩
  · constructor
    · rintro ⟨req, hreq⟩
      obtain ⟨hutf8, hle, -⟩ := (request_ok_iff hfail).mp hreq
      exact ⟨hutf8, hle⟩
    · rintro ⟨hutf8, hle⟩
      exact ⟨_, (request_ok_iff hfail).mpr ⟨hutf8, hle, rfl⟩⟩
  · refine ⟨_, (request_ok_iff rfl).mpr ⟨?_, hsize _ (by decide), rfl⟩, decodeSummary_toUTF8⟩
    exact ByteArray.validateUTF8_eq_true_iff.mpr "processor panicked".isValidUTF8
  · intro req hreq
    obtain ⟨hutf8, -, rfl⟩ := (request_ok_iff hfail).mp hreq
    have hread : ∃ summary, Receiver.decodeSummary (failureRequest cfg inv text) = some summary :=
      ⟨_, dif_pos (ByteArray.validateUTF8_eq_true_iff.mp hutf8)⟩
    obtain ⟨summary, hsummary⟩ := hread
    refine ⟨summary, hsummary, decodeSummary_eq hsummary, fun authenticate jsonValid accept hauth =>
      reportTaskResult_failure hinv hgroup hauth jsonValid accept summary, ?_⟩
    intro env ms s t i hr hcurrent
    refine ⟨fun hnul hlock => ?_, fun hnul identity hid => ?_⟩
    · obtain ⟨_, hid, hvalid⟩ := validReport_failure hinv hgroup summary
      exact hcurrent.can_save hr hid hvalid rfl (by simp [validOutput_failure, hnul]) hlock
    · exact hcurrent.discarded (run_reached hr) hid (by simp [validOutput_failure, hnul])

end Failure

/-- An attempt of the round of `Demo.bound`, executed by the process that it is bound to. -/
def Demo.invocation : Invocation := { Executor.Demo.invocation 1 with instanceId := 1 }

/-- A processor that returns an error with this text. -/
def Demo.fails (text : Bytes) : ProcessorOutcome := .returned none none .empty (some text)

theorem demo_current (summary : String) : ∃ s t i, run Demo.library Demo.bound = some s ∧
    s.locks (taskRow 1) = none ∧ closedStatus t i = .retryWaiting ∧
    CurrentAttempt s.world.db (failureReport Executor.Demo.config Demo.invocation 1 summary) t i := by
  obtain ⟨s, hs, hlock, t, ht, i, hi, hclosed, hinst, hjob, hgroup, hattempt, hrunning, hbound⟩ :
      ∃ s ∈ run Demo.library Demo.bound, s.locks (taskRow 1) = none ∧
        ∃ t ∈ s.world.db .task 1, ∃ i ∈ s.world.db .instance 1, closedStatus t i = .retryWaiting ∧
          t.instanceId = 1 ∧ i.jobId = 1 ∧ i.executorGroupId = 1 ∧ t.attemptNo = 1 ∧
          t.status = .running ∧
          t.executorInstanceId = Uuid.parse Executor.Demo.config.executorInstanceId := by
    decide +kernel
  exact ⟨s, t, i, hs, hlock, hclosed, ht, hi, hinst, hjob, hgroup, hattempt, hrunning, .inr hbound⟩

theorem demo_failure_saved : ∃ s, run Demo.library Demo.bound = some s ∧
    Txn.Sys.Can (service Demo.library) (ClosedBy s
      (failureReport Executor.Demo.config Demo.invocation 1 "boom") .retryWaiting) s := by
  obtain ⟨-, hsend, -, hrest⟩ := failure_reaches_task Executor.Demo.config Demo.invocation
    (Demo.fails "boom".toUTF8) 1 (by decide +kernel) rfl (by decide)
  obtain ⟨req, hreq⟩ := hsend
    (ByteArray.validateUTF8_eq_true_iff.mpr "boom".isValidUTF8) (by decide)
  obtain ⟨summary, hsummary, -, -, hsave⟩ := hrest req hreq
  obtain ⟨-, -, rfl⟩ := (request_ok_iff rfl).mp hreq
  cases decodeSummary_toUTF8.symm.trans hsummary
  obtain ⟨s, t, i, hs, hlock, hclosed, hcurrent⟩ := demo_current "boom"
  exact ⟨s, hs, hclosed ▸ (hsave _ _ s t i hs hcurrent).1 (by decide) hlock⟩

/--
A failure whose text is the byte `0xff` is not sent, and one whose text is a NUL is sent, received
and then discarded, in a state in which its attempt is the current one.
-/
theorem failure_text_discarded :
    Reporter.request Executor.Demo.config
      (Runtime.invoke Demo.invocation (Demo.fails ⟨#[0xff]⟩)) = .error .invalidEncoding ∧
    Reporter.request Executor.Demo.config
      (Runtime.invoke Demo.invocation (Demo.fails "\x00".toUTF8)) =
        .ok (failureRequest Executor.Demo.config Demo.invocation "\x00".toUTF8) ∧
    ∃ s t i, run Demo.library Demo.bound = some s ∧
      CurrentAttempt s.world.db
        (failureReport Executor.Demo.config Demo.invocation 1 "\x00") t i ∧
      Saver.saveTarget Demo.library (failureReport Executor.Demo.config Demo.invocation 1 "\x00")
        Demo.executor (targetOf t i) = pure (.ok (Saver.discardResult "invalid_output")) := by
  refine ⟨?_, ?_, ?_⟩
  · rw [request_failure rfl]
    exact if_pos (by decide +kernel)
  · exact (request_ok_iff rfl).mpr ⟨by decide +kernel, by decide +kernel, rfl⟩
  · obtain ⟨s, t, i, hs, -, -, hcurrent⟩ := demo_current "\x00"
    exact ⟨s, t, i, hs, hcurrent, hcurrent.discarded (run_reached hs) (by decide +kernel)
      (by decide +kernel)⟩

end Dogx.Job
