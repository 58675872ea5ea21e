import Dogx.Executor.Adapter
import Dogx.Job.Model

/-!
# Sending an attempt

`Sender` of package `execution`: one committed attempt becomes one `DispatchTask` call, and its
answer one of the outcomes the scheduler acts on. What the call gives back is a parameter.
-/

namespace Dogx.Job

open Executor (CtxErr DispatchTaskRequest DispatchTaskResponse Timestamp)

/-! ## Peers -/

/-- A TCP address of package `net`, with the text it prints. -/
structure TcpAddr where
  ip : List UInt8
  port : Int
  text : String

namespace TcpAddr

/-- `IP.To4`. -/
def to4 (ip : List UInt8) : Option (List UInt8) :=
  if ip.length = 4 then some ip
  else if ip.length = 16 ∧ ip.take 12 = List.replicate 10 0 ++ [0xff, 0xff] then some (ip.drop 12)
  else none

def isUnspecified (ip : List UInt8) : Bool :=
  to4 ip = some [0, 0, 0, 0] || ip = List.replicate 16 0

def isMulticast (ip : List UInt8) : Bool :=
  match to4 ip with
  | some v4 => v4.head?.any fun b => b &&& 0xf0 = 0xe0
  | none => ip.length = 16 && ip.head? = some 0xff

end TcpAddr

/-- `dispatchPeerAddress`; `none` is an address of another kind, or none at all. -/
def dispatchPeerAddress : Option TcpAddr → Option String
  | none => none
  | some tcp =>
    if (tcp.ip.length ≠ 4 ∧ tcp.ip.length ≠ 16) ∨ TcpAddr.isUnspecified tcp.ip ∨
        TcpAddr.isMulticast tcp.ip ∨ tcp.port ≤ 0 ∨ 65535 < tcp.port then none
    else some tcp.text

/-! ## Requests -/

structure ExecutorTarget where
  groupId : ℕ
  groupName : String
  token : String
  client : Bool

def ordinaryDispatchRequest (attempt : RegisteredAttempt) : Except String DispatchTaskRequest :=
  let config := attempt.executionConfig
  if attempt.jobId = 0 ∨ attempt.instanceId = 0 ∨ attempt.executorGroupId = 0 ∨ attempt.taskId = 0 ∨
      attempt.attemptNo ≤ 0 ∨ config.schemaVersion ≠ 1 ∨ config.executionMode ≠ .normal ∨
      config.postEnabled ∨ config.processorName = "" ∨
      config.processorName ≠ Text.trimSpace config.processorName ∨
      Text.containsNul config.processorName ∨ 128 < Text.runeCount config.processorName ∨
      Text.containsNul config.params then
    .error "registered ordinary dispatch input is invalid"
  else
    let deadline := Timestamp.new attempt.deadlineAt
    if attempt.deadlineAt = 0 ∨ !deadline.valid then .error "registered dispatch deadline is invalid"
    else .ok
      { auth := none, jobId := attempt.jobId, instanceId := attempt.instanceId
        taskId := attempt.taskId, attemptNo := attempt.attemptNo
        processorName := config.processorName, params := config.params
        deadlineAt := some deadline, requiredPost := false, input := some (.ordinary (some ())) }

namespace Sender

inductive Error where
  | message (text : String)
  | context (e : CtxErr)
  | resolve (text : String)
  | rpc (st : Rpc.Status)

def unknown : Response :=
  { outcome := .unknown, executorInstanceId := 0#128, executorAddress := ""
    summary := "executor dispatch outcome is unknown" }

def dispatchRejectionSummary (st : Rpc.Status) : Option String :=
  if st.code = .unauthenticated then some "executor authentication rejected"
  else if st.code = .permissionDenied then some "executor group access denied"
  else if st.code = Rpc.defaultCode then
    match Rpc.subcodeFromStatus st with
    | none => none
    | some reason =>
      if reason = Rpc.invalidRequest then some "executor rejected invalid dispatch input"
      else if reason = Executor.dispatchRejected then
        some "executor rejected dispatch before admission"
      else none
  else none

/-- What a call of `DispatchTask` gives back: an answer or a status, and the peer. -/
abbrev CallResult := Except Rpc.Status (Option DispatchTaskResponse) × Option TcpAddr

/-- `Dispatch` after its call. -/
def classify : CallResult → Response × Option Error
  | (.error st, _) =>
    match dispatchRejectionSummary st with
    | some summary => ({ unknown with outcome := .rejected, summary }, none)
    | none => (unknown, some (.rpc st))
  | (.ok none, _) => (unknown, some (.message "executor returned no dispatch acknowledgement"))
  | (.ok (some ack), peer) =>
    match ack.status with
    | .busy => ({ unknown with outcome := .busy, summary := "executor is busy" }, none)
    | .accepted =>
      match Uuid.parse ack.executorInstanceId with
      | none => (unknown, some (.message "executor acknowledgement has an invalid process identity"))
      | some identity =>
        if !identity.isV4 || identity.text ≠ ack.executorInstanceId then
          (unknown, some (.message "executor acknowledgement has an invalid process identity"))
        else match dispatchPeerAddress peer with
          | none => (unknown, some (.message "executor acknowledgement has no valid TCP peer address"))
          | some address =>
            ({ outcome := .accepted, executorInstanceId := identity, executorAddress := address
               summary := "executor accepted dispatch" }, none)
    | .unspecified | .other =>
      (unknown, some (.message "executor returned an unknown dispatch acknowledgement status"))

/-- The context of a call of `Dispatch`: its error when it is first and when it is last looked at. -/
structure Context where
  first : Option CtxErr
  last : Option CtxErr

/-- `Dispatch` before its call: the request, with the credentials of the target. -/
def prepare (ctx : Option Context) (attempt : RegisteredAttempt)
    (target : Except String ExecutorTarget) : Except Error DispatchTaskRequest :=
  match ctx with
  | none => .error (.message "executor dispatch context must not be nil")
  | some ctx =>
    match ctx.first with
    | some e => .error (.context e)
    | none =>
      match ordinaryDispatchRequest attempt with
      | .error e => .error (.message e)
      | .ok request =>
        match target with
        | .error e => .error (.resolve e)
        | .ok target =>
          if target.groupId ≠ attempt.executorGroupId ∨ !target.client then
            .error (.message "executor target does not match the registered group")
          else match Executor.validateCredentials target.groupName target.token with
            | some e => .error (.message e)
            | none =>
              match ctx.last with
              | some e => .error (.context e)
              | none => .ok { request with auth := some ⟨target.groupName, target.token⟩ }

/-- `Sender.Dispatch`; `call` is the one `DispatchTask` call it makes. -/
def dispatch (ctx : Option Context) (attempt : RegisteredAttempt)
    (target : Except String ExecutorTarget) (call : DispatchTaskRequest → CallResult) :
    Response × Option Error :=
  match prepare ctx attempt target with
  | .error e => (unknown, some e)
  | .ok request => classify (call request)

end Sender

end Dogx.Job
