import Dogx.Job.Properties.Request
import Dogx.Job.Properties.Progress
import Dogx.Job.Properties.Shape
import Dogx.Job.Properties.Failure
import Dogx.Job.Properties.Waiting
import Dogx.Job.Properties.Converge
import Dogx.Executor.Properties.Runtime
import Dogx.Executor.Accounts
import Dogx.Executor.Properties.Admission
import Dogx.Authn.Properties.Index
import Dogx.Authn.Properties.Refresh
import Dogx.GroupClients.Properties
import Dogx.Dispatch.Pauses
import Dogx.Dispatch.Coverage
import Dogx.Discovery
import Dogx.InstanceCheck.Holds
import Dogx.InstanceStop.Turns
import Dogx.TaskResult.Accounts
import Dogx.Notify.Properties
import Dogx.Job.CancelTargets
import Dogx.Scheduler.Apply
import Dogx.Scheduler.Reload
import Dogx.TaskRecovery.Coverage
import Dogx.Job.Properties.Timeout
import Dogx.LoginProtection.Runtime
import Dogx.ClientIp
import Dogx.Search
import Dogx.Scheduler.Hints
import Dogx.GroupCache.Indexes
import Dogx.LazyConnection
import Dogx.Job.Properties.Serial
