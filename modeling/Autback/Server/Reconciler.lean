import Autback.Server.Dispatcher

/-!
# The reconciler

`RunOnce` of `internal/control/reconciler/reconciler.go`: it ends preparations and builds whose lease has expired, brings
the stored jobs in line with their services, and removes the services of jobs that ended long ago. Its errors are only
reported; here they are dropped, and a step that fails is skipped as the code skips it.
-/

namespace Autback

open Conc (Fallible)

namespace Reconciler

/-- A duration of the configuration, or its default if it is not positive (`New`). -/
def orDefault (d default : Duration) : Duration := if d ≤ 0 then default else d

variable (cfg : Config)

def serviceRetention : Duration := orDefault cfg.serviceRetention (60 * minute)

def admissionGrace : Duration := orDefault cfg.admissionGrace (15 * second)

def buildLeaseTimeout : Duration := orDefault cfg.buildLeaseTimeout (2 * minute)

def jobPreparationLeaseTimeout : Duration := orDefault cfg.jobPreparationLeaseTimeout (2 * minute)

/-- Run `f` on each element in turn. -/
def forEach {α : Type} (f : α → Srv Unit) : List α → Srv Unit
  | [] => return ()
  | a :: as => do
    f a
    forEach f as

def reported (p : Go Err Unit) : Srv Unit := do
  let _ ← p
  return ()

def listed {α : Type} (p : Go Err (List α)) : Srv (List α) := do
  match ← p with
  | .ok as => return as
  | .error _ => return []

def expirePreparation (job : Job) : Srv Unit := do
  match ← Store.requestJobCancellation job.id with
  | .error _ => return ()
  | .ok _ => reported (Dispatcher.release (jobOp job.id))

def expireBuild (build : Build) : Srv Unit := do
  match ← Store.finishBuild build.id .cancelled 130 with
  | .error _ => return ()
  | .ok _ => reported (Dispatcher.release (buildOp build.id))

def lostJob (id : String) (now : Time) : RemoteJob where
  id := id
  status := .lost
  workerID := ""
  createdAt := zeroTime
  startedAt := none
  finishedAt := some now
  cancelRequested := false
  exitCode := some 1
  errorMessage := "managed Swarm service is missing"

def syncAndRelease (id : String) (remote : RemoteJob) : Srv Unit := do
  match ← Store.syncJob id remote with
  | .error _ => return ()
  | .ok stored => if stored.status.terminal then reported (Dispatcher.release (jobOp id)) else return ()

def syncMissing (now : Time) (id : String) : Srv Unit := do
  match ← Store.operation (jobOp id) with
  | .error e => if e.is .notFound then syncAndRelease id (lostJob id now) else return ()
  | .ok operation =>
    if operation.leasedAt.any fun t => decide (t > now - admissionGrace cfg) then return ()
    else syncAndRelease id (lostJob id now)

/-- A scheduled job with a service: activate it if the dispatcher has not, and store the snapshot. -/
def syncPresent (id : String) (remote : RemoteJob) : Srv Unit := do
  match ← Store.operation (jobOp id) with
  | .error e => if e.is .notFound then syncAndRelease id remote else return ()
  | .ok operation =>
    if operation.state = .admitting then
      match ← Store.activateOperation (jobOp id) with
      | .error _ => return ()
      | .ok _ => syncAndRelease id remote
    else syncAndRelease id remote

/-- The snapshot of `id` in a listing; a later entry replaces an earlier one. -/
def remoteByID (managed : List RuntimeJob) (id : String) : Option RemoteJob :=
  managed.reverse.findSome? fun r => match r.job with
    | .ok job => if job.id = id then some job else none
    | .error _ => none

/-- The listing has an entry for `id` that could not be inspected. -/
def poisoned (managed : List RuntimeJob) (id : String) : Bool :=
  managed.any fun r => r.id == id && match r.job with
    | .ok _ => false
    | .error _ => true

/-- The round of the loop over scheduled jobs; `managed` is none if the listing failed. -/
def syncScheduled (now : Time) (managed : Option (List RuntimeJob)) (job : Job) : Srv Unit :=
  match managed with
  | none => return ()
  | some managed =>
    if poisoned managed job.id then return ()
    else match remoteByID managed job.id with
      | none => syncMissing cfg now job.id
      | some remote => syncPresent job.id remote

def removeAfter (remote : RemoteJob) : Option Job → Time
  | some stored => match stored.finishedAt with
    | some t => t
    | none => remote.finishedAt.getD remote.createdAt
  | none => remote.finishedAt.getD remote.createdAt

def retire (now : Time) (remote : RemoteJob) (stored : Option Job) : Srv Unit :=
  let after := removeAfter remote stored
  if after = zeroTime || decide (after > now - serviceRetention cfg) then return ()
  else reported (perform (.remove remote.id))

def retireManaged (now : Time) (r : RuntimeJob) : Srv Unit :=
  match r.job with
  | .error _ => return ()
  | .ok remote => do
    match ← Store.job remote.id with
    | .ok stored => if stored.status.terminal then retire cfg now remote (some stored) else return ()
    | .error e => if e.is .notFound then retire cfg now remote none else return ()

def listManaged : Srv (Option (List RuntimeJob)) := do
  let managed : Except Err (List RuntimeJob) ← perform .managedJobs
  match managed with
  | .ok managed => return some managed
  | .error _ => return none

/-- The part of `RunOnce` that ends operations whose lease has expired. -/
def expireLeases (now : Time) : Srv Unit := do
  let stalePreparations ← listed (Store.stalePreparingJobs (now - jobPreparationLeaseTimeout cfg))
  forEach expirePreparation stalePreparations
  let staleBuilds ← listed (Store.staleBuilds (now - buildLeaseTimeout cfg))
  forEach expireBuild staleBuilds

def syncServices (now : Time) (scheduled : List Job) (managed : Option (List RuntimeJob)) : Srv Unit := do
  forEach (syncScheduled cfg now managed) scheduled
  forEach (retireManaged cfg now) (managed.getD [])

def runOnce : Srv Unit := do
  let now : Time ← perform .now
  expireLeases cfg now
  let scheduled ← listed Store.scheduledJobs
  let managed ← listManaged
  syncServices cfg now scheduled managed

end Reconciler

end Autback
