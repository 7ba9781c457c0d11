import Autback.Server.Call

/-!
# The store as the server's code calls it

A method of the store is a transaction or, where it reads a row after its commit, two. The reads fail on their own: a
method can have committed and still return an error.
-/

namespace Autback

open Conc (Fallible)

def store (x : Tx) : Go Err x.Val := perform (.tx x)

def fail {ε α : Type} (e : ε) : Go ε α := Fallible.throw e

def wrapping {α : Type} (context : String) (p : Go Err α) : Go Err α := Fallible.mapError (Err.wrap context) p

def always {ε α : Type} (p : Srv α) : Go ε α := Fallible.ofProg p

namespace Store

def createPreparedJob (input : PrepareJob) (idempotency : Idempotency) : Go Err (Job × Bool) :=
  store (.createPreparedJob input idempotency)

def createBuild (projectID : String) (idempotency : Idempotency) : Go Err (Build × Bool) :=
  store (.createBuild projectID idempotency)

def job (id : String) : Go Err Job := store (.job id)

def build (id : String) : Go Err Build := store (.build id)

def operationState (op : Op) : Go Err OperationState := store (.operationState op)

def operation (op : Op) : Go Err Operation := store (.operation op)

def workerBusy : Go Err Bool := store .workerBusy

def scheduledJobs : Go Err (List Job) := store .scheduledJobs

def stalePreparingJobs (before : Time) : Go Err (List Job) := store (.stalePreparingJobs before)

def staleBuilds (before : Time) : Go Err (List Build) := store (.staleBuilds before)

def listJobs (projectID : String) (limit : Nat) (cursor : Option JobCursor) : Go Err (List Job) :=
  store (.listJobs projectID limit cursor)

def resourceBaseline (op : Op) : Go Err ResourceSet := store (.resourceBaseline op)

def saveResourceBaseline (op : Op) (resources : ResourceSet) : Go Err Unit := store (.saveResourceBaseline op resources)

def audit (principal : Principal) (projectID action targetID : String) (metadata : Option (List (String × String))) :
    Go Err Unit :=
  store (.audit principal projectID action targetID metadata)

def acquireNextOperation : Go Err (Option Operation) := store .acquireNextOperation

def requeueAdmittingOperation (op : Op) : Go Err Unit := store (.requeueAdmittingOperation op)

def activateOperation (op : Op) : Go Err Unit := store (.activateOperation op)

def renewOperationLease (op : Op) : Go Err Unit := store (.renewOperationLease op)

def claimOperationCleanup : Go Err (Option Operation) := store .claimOperationCleanup

def recordOperationCleanupFailure (op : Op) (message : String) : Go Err Unit :=
  store (.recordOperationCleanupFailure op message)

def emergencyStopActiveOperation (message : String) : Go Err (Option Operation) :=
  store (.emergencyStopActiveOperation message)

def queueJob (id rootDigest : String) : Go Err Job := do
  let _ ← store (.queueJob id rootDigest)
  job id

def syncJob (id : String) (remote : RemoteJob) : Go Err Job := do
  let _ ← store (.syncJob id remote)
  job id

def requestJobCancellation (id : String) : Go Err Job := do
  let _ ← store (.requestJobCancellation id)
  job id

def failJob (id message : String) : Go Err Job := do
  let _ ← store (.failJob id message)
  job id

def finishBuild (id : String) (status : BuildStatus) (exitCode : Int) : Go Err Build := do
  let _ ← store (.finishBuild id status exitCode)
  build id

def refused (op : Op) (what : String) (state : OperationState) : Err :=
  .new ("operation " ++ op.kind.text ++ " " ++ op.id ++ " cannot " ++ what ++ " cleanup from state " ++ state.text)

def beginOperationCleanup (op : Op) : Go Err Unit := do
  let done : Bool ← store (.beginOperationCleanup op)
  if done then pure ()
  else do
    let state ← operationState op
    if state.tearing || state == .released then pure () else fail (refused op "begin" state)

def completeOperationCleanup (op : Op) : Go Err Unit := do
  let done : Bool ← store (.completeOperationCleanup op)
  if done then pure ()
  else do
    let state ← operationState op
    if state == .released then pure () else fail (refused op "complete" state)

end Store

end Autback
