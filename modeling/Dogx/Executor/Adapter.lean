import Dogx.Executor.Reporter

/-!
# The RPC adapter

`RPCAdapter.DispatchTask` is what stands before and after the runtime's `Accept`: `screen`
authenticates the request and translates it, `answer` turns what `Accept` returned into the
handler's answer.
-/

namespace Dogx.Executor

open Rpc

namespace RPCAdapter

def rejectedDispatch (message : String) : HandlerError := .business (.new dispatchRejected message)

def invalidExecutionRequest (message : String) : HandlerError :=
  .business (.new Rpc.invalidRequest message)

/-- The errors of `Accept` that are no refusal before admission. -/
def executorTechnicalError (err : AdmissionError) (message : String) : HandlerError :=
  match err with
  | .context .canceled => .status { code := .canceled, message := "executor request was cancelled" }
  | .context .deadlineExceeded =>
    .status { code := .deadlineExceeded, message := "executor request deadline was exceeded" }
  | _ => .status { code := .internal, message }

def authenticate (cfg : Config) (auth : Option GroupAuth) : Except HandlerError Unit :=
  let refusal := match auth with
    | none => cfg.auth.authenticate "" ""
    | some a => cfg.auth.authenticate a.groupName a.token
  match refusal with
  | some st => .error (.status st)
  | none => .ok ()

/-- The branch of the request's input that selects the stage. -/
def selectStage (cfg : Config) (req : DispatchTaskRequest) (inv : Invocation) :
    Except HandlerError Invocation :=
  match req.input with
  | some (.ordinary input) =>
    if input.isNone || req.requiredPost then .error (invalidExecutionRequest "ordinary input is invalid")
    else .ok { inv with stage := .ordinary }
  | some (.prepare input) =>
    if input.isNone then .error (invalidExecutionRequest "prepare input is required")
    else .ok { inv with stage := .prepare }
  | some (.shard none) => .error (invalidExecutionRequest "shard input is required")
  | some (.shard (some items)) =>
    if items.all cfg.jsonValid then .ok { inv with stage := .shard, items := some items }
    else .error (invalidExecutionRequest "shard item must contain valid JSON")
  | some (.post none) => .error (invalidExecutionRequest "post input is required")
  | some (.post (some post)) =>
    if !req.requiredPost then .error (invalidExecutionRequest "post execution must be enabled")
    else if post.total < 0 ∨ post.succeeded < 0 ∨ post.failed < 0 ∨ post.total < post.succeeded ∨
        post.failed ≠ post.total - post.succeeded then
      .error (invalidExecutionRequest "post counts are invalid")
    else .ok { inv with
      stage := .post, total := post.total, succeeded := post.succeeded, failed := post.failed }
  | none => .error (invalidExecutionRequest "execution input is required")

/-- The processor of the request is registered for its stage. -/
def checkProcessor (cfg : Config) (req : DispatchTaskRequest) (inv : Invocation) :
    Except HandlerError Invocation :=
  if inv.stage = .ordinary then
    if cfg.registry.lookup req.processorName then .ok inv
    else .error (rejectedDispatch "ordinary processor is unavailable")
  else match cfg.registry.lookupSharding req.processorName with
    | none => .error (rejectedDispatch "sharding processor is unavailable")
    | some post =>
      if (req.requiredPost || inv.stage = .post) && !post then
        .error (rejectedDispatch "post processor is unavailable")
      else .ok inv

def invocation (cfg : Config) (req : DispatchTaskRequest) : Except HandlerError Invocation :=
  if req.jobId ≤ 0 ∨ req.instanceId ≤ 0 ∨ req.taskId ≤ 0 ∨ req.attemptNo ≤ 0 then
    .error (invalidExecutionRequest "execution IDs and attempt number must be positive")
  else if !validExecutionName req.processorName then
    .error (invalidExecutionRequest "processor name is invalid")
  else match req.deadlineAt with
    | none => .error (invalidExecutionRequest "execution deadline is invalid")
    | some deadline =>
      if !deadline.valid then .error (invalidExecutionRequest "execution deadline is invalid")
      else do
        let inv ← selectStage cfg req
          { jobId := req.jobId, instanceId := req.instanceId, taskId := req.taskId
            params := req.params, attemptNo := req.attemptNo, processorName := req.processorName
            deadlineAt := deadline.asTime, requiredPost := req.requiredPost, stage := .other
            items := none, total := 0, succeeded := 0, failed := 0 }
        checkProcessor cfg req inv

def screen (cfg : Config) (req : DispatchTaskRequest) : Except HandlerError Invocation := do
  authenticate cfg req.auth
  invocation cfg req

def answer (cfg : Config) (accepted : Bool) (err : Option AdmissionError) :
    Except HandlerError DispatchTaskResponse :=
  match err with
  | some e =>
    if accepted then .error (executorTechnicalError e "executor admission failed")
    else match e with
      | .notReady => .error (rejectedDispatch "executor is not ready")
      | .stopping => .error (rejectedDispatch "executor is stopping")
      | .expired => .error (rejectedDispatch "executor deadline has expired")
      | _ => .error (executorTechnicalError e "executor admission failed")
  | none =>
    if !accepted then .ok { status := .busy, executorInstanceId := "" }
    else .ok { status := .accepted, executorInstanceId := cfg.executorInstanceId }

end RPCAdapter

end Dogx.Executor
