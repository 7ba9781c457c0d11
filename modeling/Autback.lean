import Autback.Access.Visibility
import Autback.Auth.DeviceLogin
import Autback.Auth.Limiter
import Autback.Auth.Login
import Autback.Capacity.Caches
import Autback.Capacity.Protection
import Autback.Client.Heartbeat
import Autback.Console.Collector
import Autback.Console.Summaries
import Autback.Console.Tail
import Autback.Console.Updates
import Autback.Job.Persistence
import Autback.Logs.Bounded
import Autback.Logs.Delivery
import Autback.Protocol.Cancellation
import Autback.Protocol.Capacity
import Autback.Protocol.Creation
import Autback.Protocol.Finished
import Autback.Protocol.Loss
import Autback.Protocol.Ownership
import Autback.Protocol.Reconciliation
import Autback.Protocol.Retries
import Autback.Protocol.Sessions
import Autback.Protocol.Teardown
import Autback.Protocol.Wakeup
import Autback.Protocol.Workers
import Autback.Secrets.Handover
import Autback.Secrets.Teardown
import Autback.Server.Group
import Autback.Store.Endings
import Autback.Store.Pages
