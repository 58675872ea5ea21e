import Dogx.Job.Text
import Dogx.Rpc.Status

/-!
# Values of the executor

What package `jobexecutor` exchanges with the scheduler, with processors and between its own parts.
Go strings that processors produce are byte sequences (`Bytes`); a text that came through protobuf
is valid UTF-8 and a `String`. Instants are counted as in the scheduler, in nanoseconds from Go's
zero time.
-/

namespace Dogx.Executor

abbrev Bytes := ByteArray

/-! ## Wire messages -/

structure GroupAuth where
  groupName : String
  token : String
  deriving DecidableEq

/-- `timestamppb.Timestamp`: seconds of the Unix epoch and nanoseconds. -/
structure Timestamp where
  seconds : Int
  nanos : Int
  deriving DecidableEq

namespace Timestamp

/-- The seconds between Go's zero time and the Unix epoch. -/
def epoch : Int := 62135596800

def new (t : ℕ) : Timestamp :=
  { seconds := (t / Job.second : ℕ) - epoch, nanos := (t % Job.second : ℕ) }

/-- `CheckValid`: from the year 1 to the year 9999. -/
def valid (ts : Timestamp) : Bool :=
  -epoch ≤ ts.seconds && ts.seconds ≤ 253402300799 && 0 ≤ ts.nanos && ts.nanos < 1000000000

/-- `AsTime` of a valid timestamp. -/
def asTime (ts : Timestamp) : ℕ := ((ts.seconds + epoch) * 1000000000 + ts.nanos).toNat

end Timestamp

structure PostCounts where
  total : Int
  succeeded : Int
  failed : Int
  deriving DecidableEq

/-- The branches of `DispatchTaskRequest.input`; a branch can be selected without a message. -/
inductive DispatchInput where
  | ordinary (input : Option Unit)
  | prepare (input : Option Unit)
  | shard (items : Option (List Bytes))
  | post (counts : Option PostCounts)
  deriving DecidableEq

structure DispatchTaskRequest where
  auth : Option GroupAuth
  jobId : Int
  instanceId : Int
  taskId : Int
  attemptNo : Int
  processorName : String
  params : String
  deadlineAt : Option Timestamp
  requiredPost : Bool
  input : Option DispatchInput
  deriving DecidableEq

inductive DispatchStatus where
  | unspecified | accepted | busy | other
  deriving DecidableEq, Repr

structure DispatchTaskResponse where
  status : DispatchStatus
  executorInstanceId : String
  deriving DecidableEq

/-- `protocol.DispatchRejected`. -/
def dispatchRejected : String := "job.executor.dispatch_rejected"

/-! ## Attempts -/

/-- `other` is a number without a name. -/
inductive Stage where
  | ordinary | prepare | shard | post | other
  deriving DecidableEq, Repr

inductive CancelReason where
  | manualStop | instanceTimeout | other
  deriving DecidableEq, Repr

structure Invocation where
  jobId : Int
  instanceId : Int
  taskId : Int
  params : String
  attemptNo : Int
  processorName : String
  deadlineAt : ℕ
  requiredPost : Bool
  stage : Stage
  items : Option (List Bytes)
  total : Int
  succeeded : Int
  failed : Int
  deriving DecidableEq

structure AttemptKey where
  taskId : Int
  attemptNo : Int
  deriving DecidableEq

def Invocation.key (inv : Invocation) : AttemptKey := ⟨inv.taskId, inv.attemptNo⟩

/-- The error of a context. -/
inductive CtxErr where
  | canceled | deadlineExceeded
  deriving DecidableEq, Repr

inductive AdmissionError where
  | notReady | stopping | expired
  | context (e : CtxErr)
  | message (text : String)
  deriving DecidableEq

/-! ## Processors -/

/-- The frozen registry: ordinary names, and sharding names with whether they implement `Post`. -/
structure Registry where
  ordinary : List String
  sharding : List (String × Bool)

namespace Registry

def lookup (r : Registry) (name : String) : Bool := r.ordinary.contains name

def lookupSharding (r : Registry) (name : String) : Option Bool := r.sharding.lookup name

end Registry

/--
How a call of a processor ended. `returned` holds what any of the methods can give back: the items of
`PreProcess`, the data of the others, the summary and the text of the error.
-/
inductive ProcessorOutcome where
  | returned (items : Option (List Bytes)) (data : Option Bytes) (summary : Bytes)
      (err : Option Bytes)
  | panicked

/-- A completed processor outcome without transport credentials. -/
structure ExecutionResult where
  jobId : Int
  instanceId : Int
  taskId : Int
  attemptNo : Int
  success : Bool
  summary : Bytes
  data : Option Bytes
  prepared : Bool
  preparedItems : Option (List Bytes)
  deriving DecidableEq

/-! ## Credentials -/

def validExecutionName (name : String) : Bool :=
  name ≠ "" && !Job.Text.containsNul name && name = Job.Text.trimSpace name &&
    Job.Text.runeCount name ≤ 128

def validExecutorInstanceID (value : String) : Bool :=
  (Job.Uuid.parse value).any fun u => u.isV4 && value = u.text

/-- `uuid.Parse` of 32 hexadecimal digits. -/
def parseToken (token : String) : Option Job.Uuid :=
  (token.toList.mapM Job.Uuid.hexValue).map fun ds =>
    BitVec.ofNat 128 (ds.foldl (fun n d => 16 * n + d) 0)

/-- `ValidateCredentials`, with the text of its error. -/
def validateCredentials (groupName token : String) : Option String :=
  if !validExecutionName groupName then some "executor group name is invalid"
  else if token.utf8ByteSize ≠ 32 then some "executor group token is invalid"
  else if token.toList.any fun c => (c < '0' || '9' < c) && (c < 'a' || 'f' < c) then
    some "executor group token is invalid"
  else if !(parseToken token).any Job.Uuid.isV4 then some "executor group token is invalid"
  else none

structure Authenticator where
  groupName : String
  token : String
  valid : validateCredentials groupName token = none

/-- `Authenticator.Authenticate`, with the status it refuses with. -/
def Authenticator.authenticate (a : Authenticator) (groupName token : String) : Option Rpc.Status :=
  if groupName = "" ∨ token = "" then
    some { code := .unauthenticated, message := "executor credentials are required" }
  else if groupName ≠ a.groupName then
    some { code := .permissionDenied, message := "executor group is not permitted" }
  else if token ≠ a.token then
    some { code := .unauthenticated, message := "executor credentials are invalid" }
  else none

end Dogx.Executor
