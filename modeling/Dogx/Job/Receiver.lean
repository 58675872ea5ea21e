import Dogx.Executor.Reporter
import Dogx.Job.Model

/-!
# Receiving a result

`Receiver` of package `execution`: a report of an executor is authenticated, parsed and handed to
the local buffer. Authentication and the buffer are parameters; what the buffer accepts, `Saver`
works on later.
-/

namespace Dogx.Job

open Executor (Bytes ReportTaskResultRequest)
open Rpc (HandlerError)

/-- `taskresult.Report` as it is received, with output of any bytes. -/
structure Received where
  groupId : ℕ
  jobId : ℕ
  instanceId : ℕ
  taskId : ℕ
  attemptNo : Int
  executorInstanceId : String
  outcome : ReportOutcome
  summary : String
  data : Option Bytes
  preparedItems : Option (List Bytes)

/-- The report with its output as text; the saver discards output that is not UTF-8. -/
def Received.report (r : Received) : Option Report := do
  let data ← match r.data with
    | none => pure none
    | some data => (String.fromUTF8? data).map some
  let preparedItems ← match r.preparedItems with
    | none => pure none
    | some items => (items.mapM String.fromUTF8?).map some
  pure { groupId := r.groupId, jobId := r.jobId, instanceId := r.instanceId, taskId := r.taskId
         attemptNo := r.attemptNo, executorInstanceId := r.executorInstanceId, outcome := r.outcome
         summary := r.summary, data, preparedItems }

namespace Receiver

/-- The summary as the generated code reads it: a string field with other bytes is refused. -/
def decodeSummary (req : ReportTaskResultRequest) : Option String := String.fromUTF8? req.summary

def invalid (message : String) : HandlerError := .business (.new Rpc.invalidRequest message)

/-- `parseResult`, of a request whose summary has been read. -/
def parseResult (jsonValid : Bytes → Bool) (req : ReportTaskResultRequest) (summary : String)
    (groupId : ℕ) : Except HandlerError Received :=
  if req.jobId ≤ 0 ∨ req.instanceId ≤ 0 ∨ req.taskId ≤ 0 ∨ req.attemptNo ≤ 0 then
    .error (invalid "result IDs and attempt number must be positive")
  else if !(Uuid.parse req.executorInstanceId).any fun u => u.isV4 && req.executorInstanceId = u.text then
    .error (invalid "executor process identity is invalid")
  else
    let report : Received :=
      { groupId, jobId := req.jobId.toNat, instanceId := req.instanceId.toNat
        taskId := req.taskId.toNat, attemptNo := req.attemptNo
        executorInstanceId := req.executorInstanceId, outcome := .failure, summary, data := none
        preparedItems := none }
    match req.outcome with
    | .failure => .ok report
    | .success =>
      let report := { report with outcome := .success }
      match req.output with
      | none => .ok report
      | some (.dataJson data) =>
        if jsonValid data then .ok { report with data := some data }
        else .error (invalid "result data must contain valid JSON")
      | some (.preparedItems items) =>
        if items.all jsonValid then .ok { report with preparedItems := some items }
        else .error (invalid "prepared result item must contain valid JSON")
    | .unspecified | .other => .error (invalid "result outcome is invalid")

inductive AuthError where
  | invalidCredentials | groupDenied | other

inductive AcceptError where
  | notReady | canceled | deadlineExceeded | other

/-- What the buffer says about a report, as an answer. -/
def acknowledge : Except AcceptError Bool → Except HandlerError Unit
  | .error .notReady => .error (.status ⟨.unavailable, "result receiver is not ready", []⟩)
  | .error .canceled => .error (.status ⟨.canceled, "result admission was cancelled", []⟩)
  | .error .deadlineExceeded =>
    .error (.status ⟨.deadlineExceeded, "result admission deadline was exceeded", []⟩)
  | .error .other => .error (.status ⟨.internal, "result admission failed", []⟩)
  | .ok false => .error (.status ⟨.resourceExhausted, "result buffer is full", []⟩)
  | .ok true => .ok ()

def reportTaskResult (authenticate : String → String → Except AuthError Int)
    (jsonValid : Bytes → Bool) (accept : Received → Except AcceptError Bool)
    (req : ReportTaskResultRequest) (summary : String) : Except HandlerError Unit :=
  if req.auth.groupName = "" ∨ req.auth.token = "" then
    .error (.status ⟨.unauthenticated, "result reporter credentials are required", []⟩)
  else match authenticate req.auth.groupName req.auth.token with
    | .error .invalidCredentials =>
      .error (.status ⟨.unauthenticated, "result reporter credentials are invalid", []⟩)
    | .error .groupDenied =>
      .error (.status ⟨.permissionDenied, "result reporter group is not permitted", []⟩)
    | .error .other =>
      .error (.status ⟨.unavailable, "result reporter authentication is unavailable", []⟩)
    | .ok groupId =>
      if groupId ≤ 0 then
        .error (.status ⟨.unavailable, "result reporter authentication is unavailable", []⟩)
      else match parseResult jsonValid req summary groupId.toNat with
        | .error e => .error e
        | .ok report => acknowledge (accept report)

end Receiver

end Dogx.Job
