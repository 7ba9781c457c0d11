import Autback.Conc.Prog
import Autback.Store.Tx
import Autback.Capacity.Policy
import Autback.Runtime.Resources
import Autback.Runtime.Swarm

/-!
# The calls of the server's programs

The server's goroutines are programs over the calls of this file: transactions of the store, requests to the Docker Engine, the
file system and the clock, and the critical sections of the dispatcher and the cleanup coordinator. Between two calls of a
goroutine any other may run. Authentication, credentials, the resolution of secrets, the measurement of the file system and the
reclaim of space are answered as the environment chooses.
-/

namespace Autback

/-! ## Requests -/

/-- `PrepareJobRequest` with the client's version headers. -/
structure PrepareJobRequest where
  (project image : String)
  command : Option (List String)
  workingDirectory : String
  environment : Option (List (String × String))
  timeout : Option Duration
  idempotencyKey : String
  caches : Option (List CacheMount)
  secrets : Option (List SecretBinding)
  capabilities : List String
  clientVersion : String
  deriving DecidableEq

inductive Request
  | prepareJob (message : PrepareJobRequest)
  | startJob (id rootDigest : String)
  | getJob (id : String)
  | listJobs (project : String) (pageSize limit : Int) (cursor : Option JobCursor)
  | cancelJob (id : String)
  | streamJobLogs (id : String) (offset : Int)
  | prepareBuild (project idempotencyKey : String) (capabilities : List String) (clientVersion : String)
  | getBuild (id : String)
  | cancelBuild (id : String)
  | finishBuild (id : String) (exitCode : Int) (cancelled : Bool)
  deriving DecidableEq

inductive Code
  | canceled
  | invalidArgument
  | notFound
  | alreadyExists
  | unauthenticated
  | permissionDenied
  | failedPrecondition
  | unavailable
  | internal
  deriving DecidableEq

structure ApiError where
  code : Code
  text : String
  deriving DecidableEq

/-- What a handler answers. A job that is the zero value of Go is `none`; `connection` says whether data-plane credentials
go with the answer. -/
inductive Reply
  | job (job : Option Job) (connection : Bool)
  | jobs (jobs : List Job)
  | build (build : Build) (connection : Bool)
  deriving DecidableEq

/-- `control.Project`, as far as admission reads it. -/
structure Project where
  (id activeImage : String)
  allowImageOverrides : Bool
  deriving DecidableEq

/-! ## Goroutines -/

inductive Label
  /-- The start of the server process. -/
  | main
  | request (r : Request)
  /-- `followJob`, waiting for the job to become active. -/
  | awaitActive (offset : Int) (job : Job)
  /-- `followJob`, polling; `following` while the log stream is open. -/
  | poll (offset : Int) (job : Job) (following : Bool)
  /-- `Dispatcher.advance`. -/
  | dispatcher
  /-- `Coordinator.advance`. -/
  | coordinator
  | reconcilerWait
  | reconcilerRun
  | capacityWait
  | capacityRun (trigger : Trigger)
  /-- The `maintain` command, a process of its own. -/
  | maintain (dryRun : Bool)
  | shutdown
  deriving DecidableEq

inductive Scope
  | request
  | process
  | background
  deriving DecidableEq

/-- How `select` in the polling loop of `followJob` wakes up. -/
inductive Wakeup
  | done
  | logs (err : Option Err)
  | tick
  deriving DecidableEq

/-! ## Calls -/

inductive Call
  /-- A transaction of the store. -/
  | tx (x : Tx)
  /-- `Scheduler.Create`. -/
  | create (job : Job)
  | status (id : String)
  | cancel (id : String)
  | remove (id : String)
  | managedJobs
  | logs (id : String)
  /-- One list of `Inventory`. -/
  | list (kind : ResourceKind)
  /-- A removal in the teardown of operation `owner`. -/
  | removeResource (owner : Op) (kind : ResourceKind) (id : String)
  | resolveSecret (projectID name : String)
  | writeSecret (jobID name : String)
  | publishSecrets (jobID : String)
  | removeSecrets (jobID : String)
  | authenticate
  | authorizeProject (principal : Principal) (selector : String)
  | issue (op : Op)
  | respond (r : Request) (answer : Except ApiError Reply)
  /-- The lock of the capacity controller: its mutex and the lock file. -/
  | lock
  | unlock
  | snapshot
  | reclaim (request : ReclaimRequest)
  /-- Read `lastPressure`. -/
  | lastPressure
  | setLastPressure (t : Time)
  | now
  | ctxErr (scope : Scope)
  /-- A delay that the end of the process context cuts short; false if it did. -/
  | wait (scope : Scope)
  /-- The delay after a failed admission, cut short by a wake-up. -/
  | retryDelay
  | nextTrigger
  | wakeup
  /-- `draining.Load`. -/
  | draining
  /-- The critical section of `Dispatcher.Advance`, which may start the worker. -/
  | dispatcherAdvance
  /-- The section at the top of the worker's loop. -/
  | dispatcherBegin
  /-- The section at its end: true if the worker goes on. -/
  | dispatcherEnd
  | dispatcherFinish
  | coordinatorAdvance
  | coordinatorBegin
  | coordinatorEnd
  | coordinatorFinish
  /-- The process is new: true, and it is not any more. -/
  | boot
  | go (l : Label)
  | serve
  | drainDispatcher
  | drainCoordinator
  | stopProcess

/-- An entry of `ManagedJobs`. -/
structure RuntimeJob where
  id : String
  job : Except Err RemoteJob

@[reducible]
def Call.Ret : Call → Type
  | tx x => Except Err x.Val
  | create _ => Except Err Unit
  | status _ => Except Err RemoteJob
  | cancel _ => Except Err Unit
  | remove _ => Except Err Unit
  | managedJobs => Except Err (List RuntimeJob)
  | logs _ => Except Err Unit
  | list _ => Except Err (List String)
  | removeResource _ _ _ => Except Err Unit
  | resolveSecret _ _ => Except Err Unit
  | writeSecret _ _ => Except Err Unit
  | publishSecrets _ => Except Err Unit
  | removeSecrets _ => Except Err Unit
  | authenticate => Except ApiError Principal
  | authorizeProject _ _ => Except Err Project
  | issue _ => Except Err Unit
  | lock => Except Err Unit
  | snapshot => Except Err Snapshot
  | reclaim _ => Except Err Unit
  | lastPressure => Time
  | now => Time
  | ctxErr _ => Bool
  | wait _ => Bool
  | retryDelay => Bool
  | nextTrigger => Option Trigger
  | wakeup => Wakeup
  | draining => Bool
  | dispatcherEnd => Bool
  | coordinatorEnd => Bool
  | boot => Bool
  | _ => Unit

/-- What resolves a call: it goes through, with a fresh id or a value of the environment where it needs one, or it
fails. -/
inductive Choice
  | go
  | fresh (id : String)
  | fail (e : Err)
  | deny (e : ApiError)
  | principal (p : Principal)
  | project (p : Project)
  | snapshot (s : Snapshot)
  | managed (broken : List String)
  | trigger (t : Trigger)
  | wakeup (w : Wakeup)
  | done

abbrev Srv := Conc.Prog Call Call.Ret

abbrev Go (ε α : Type) := Conc.Fallible Call Call.Ret ε α

def perform (c : Call) : Srv c.Ret := Conc.Prog.lift c

end Autback
