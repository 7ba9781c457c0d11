import Autback.Control.Model
import Autback.Text.Codec

/-!
# Jobs as Swarm services

A job runs as a replicated-job service of the Docker Engine. Here stand the service that `Client.Create` asks for, what
`Client.Cancel` does to it, and the mapping from a service and its tasks to a snapshot of the job (`status`), as
`internal/adapter/docker/swarm.go` has it.

Of the service specification only what the status mapping reads is kept: the labels. The command, image and timeout that a
snapshot repeats from them are not read by its users and are left out.
-/

namespace Autback

inductive TaskState
  | new
  | allocated
  | pending
  | assigned
  | accepted
  | preparing
  | ready
  | starting
  | running
  | complete
  | failed
  | rejected
  | orphaned
  | shutdown
  | remove
  | other (name : String)
  deriving DecidableEq

def TaskState.text : TaskState → String
  | new => "new"
  | allocated => "allocated"
  | pending => "pending"
  | assigned => "assigned"
  | accepted => "accepted"
  | preparing => "preparing"
  | ready => "ready"
  | starting => "starting"
  | running => "running"
  | complete => "complete"
  | failed => "failed"
  | rejected => "rejected"
  | orphaned => "orphaned"
  | shutdown => "shutdown"
  | remove => "remove"
  | other name => name

/-- A task; `containerExit` is the exit code of its container status, if it has one. -/
structure Task where
  (createdAt updatedAt : Time)
  nodeID : String
  state : TaskState
  timestamp : Time
  err : String
  containerExit : Option Int
  deriving DecidableEq

structure Service where
  (id name : String)
  labels : List (String × String)
  (createdAt updatedAt : Time)
  tasks : List Task
  deriving DecidableEq

def managedLabel : String := "autback.managed"

def cancelledLabel : String := "autback.cancelled"

def Service.label (s : Service) (key : String) : String := (s.labels.lookup key).getD ""

def encodeLabel (value : String) : String :=
  String.ofList ((Text.base64 value.toUTF8.data.toList).map fun b => Char.ofNat b.toNat)

def serviceLabels (job : Job) : List (String × String) :=
  [(managedLabel, "true"), ("autback.project", job.projectID), ("autback.job", job.id), ("autback.image", encodeLabel job.image),
    ("autback.timeout_seconds", toString (job.timeout.tdiv second)), ("autback.root_digest", job.rootDigest)]

/-- The service that `Client.Create` makes of a job. -/
def newService (job : Job) (serviceID : String) (now : Time) : Service :=
  ⟨serviceID, job.id, serviceLabels job, now, now, []⟩

def Service.cancel (s : Service) (now : Time) : Service :=
  { s with
    labels := (cancelledLabel, "true") :: s.labels.filter fun e => e.1 ≠ cancelledLabel
    updatedAt := now }

def runtimeTaskStatus (state : TaskState) (exitCode : Int) (cancelled : Bool) : Status :=
  if cancelled then .cancelled
  else match state with
    | .new | .allocated | .pending | .assigned | .accepted | .preparing | .ready | .starting => .queued
    | .running => .running
    | .complete => if exitCode = 0 then .succeeded else .failed
    | .failed | .rejected => if exitCode = 124 then .timedOut else .failed
    | .orphaned | .shutdown | .remove => .lost
    | .other _ => .lost

def containsText (s part : String) : Bool :=
  (List.range (s.toList.length + 1)).any fun i => part.toList.isPrefixOf (s.toList.drop i)

def resourceFailureMessage (exitCode : Int) (runtimeError : String) : String :=
  let lower := runtimeError.map Char.toLower
  let diagnose (diagnosis : String) : String :=
    if runtimeError = "" then diagnosis else diagnosis ++ ": " ++ runtimeError
  if exitCode = 137 || containsText lower "oom" || containsText lower "out of memory" then
    diagnose "workload exceeded the memory/resource envelope or was OOM-killed; inspect cgroup memory.events and PSI telemetry"
  else if containsText lower "pids limit" || containsText lower "resource temporarily unavailable" ||
      containsText lower "cannot fork" then
    diagnose "workload exceeded its process/PID limit; inspect cgroup pids.current and pids.max"
  else if containsText lower "no space left" && containsText lower "inode" then
    diagnose "worker inode capacity was exhausted; inspect disk inode telemetry and capacity status"
  else if containsText lower "no space left" then
    diagnose "worker disk capacity was exhausted; inspect disk telemetry and capacity status"
  else runtimeError

def poisonedService (id detail : String) : Err := .new ("inspect Swarm job " ++ id ++ ": " ++ detail ++ ": data loss")

def requiredLabels : List String :=
  [managedLabel, "autback.project", "autback.job", "autback.image", "autback.timeout_seconds", "autback.root_digest"]

def taskExitCode (task : Task) (cancelled : Bool) : Int :=
  match task.containerExit with
  | some code => code
  | none =>
    if cancelled then 130
    else if (runtimeTaskStatus task.state 1 false).terminal then 1
    else 0

/-- The message that `status` gives a job that has ended. -/
def taskMessage (task : Task) (status : Status) (exitCode : Int) : String :=
  let message := resourceFailureMessage exitCode task.err
  if message = "" && status ≠ .cancelled then
    if task.containerExit.isNone then
      "Swarm task entered terminal state \"" ++ task.state.text ++ "\" without container status"
    else if status = .lost then "Swarm task entered non-success state \"" ++ task.state.text ++ "\""
    else message
  else message

/-- The part of `status` that reads the newest task. -/
def taskStatus (job : RemoteJob) (task : Task) : RemoteJob :=
  let exitCode := taskExitCode task job.cancelRequested
  let status := runtimeTaskStatus task.state exitCode job.cancelRequested
  let job := { job with
    status := status, workerID := task.nodeID,
    startedAt := if task.createdAt = zeroTime then none else some task.createdAt }
  if status.terminal then
    { job with
      finishedAt := some (if task.timestamp = zeroTime then task.updatedAt else task.timestamp)
      exitCode := some exitCode
      errorMessage := taskMessage task status exitCode }
  else job

/-- The digits of a number below `2 ^ 63`. -/
def validDigits (digits : List Char) : Bool :=
  !digits.isEmpty && digits.all Char.isDigit && decide (digits.foldl (fun n c => 10 * n + (c.toNat - 48)) 0 < 2 ^ 63)

/-- `strconv.Atoi` succeeds with a value that is not negative. -/
def validTimeout (text : String) : Bool :=
  match text.toList with
  | '+' :: digits => validDigits digits
  | '-' :: digits => !digits.isEmpty && digits.all (· == '0')
  | digits => validDigits digits

def newestTask (tasks : List Task) : Option Task :=
  tasks.foldl (fun newest task => match newest with
    | none => some task
    | some other => if other.createdAt < task.createdAt then some task else some other) none

/-- `Client.status`: the snapshot of a job whose service has these labels and tasks. -/
def Service.status (s : Service) (fallbackID : String) : Except Err RemoteJob :=
  let id := if s.name = "" then fallbackID else s.name
  if s.id = "" then .error (poisonedService id "missing service ID")
  else match requiredLabels.find? fun key => s.label key = "" with
  | some key => .error (poisonedService id ("missing " ++ key ++ " label"))
  | none =>
    if s.label managedLabel ≠ "true" then .error (poisonedService id ("invalid " ++ managedLabel ++ " label"))
    else if s.label "autback.job" ≠ id then
      .error (poisonedService id "autback.job label does not match service name")
    else if !validTimeout (s.label "autback.timeout_seconds") then
      .error (poisonedService id "invalid autback.timeout_seconds label")
    else
      let cancelled : Bool := s.label cancelledLabel == "true"
      let job : RemoteJob := {
        id := id, status := if cancelled then .cancelled else .queued, workerID := "", createdAt := s.createdAt,
        startedAt := none, finishedAt := if cancelled then some s.updatedAt else none,
        cancelRequested := cancelled, exitCode := none, errorMessage := "" }
      match newestTask s.tasks with
      | none => .ok job
      | some task => .ok (taskStatus job task)

end Autback
