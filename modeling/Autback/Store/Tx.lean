import Autback.Store.Methods

/-!
# Transactions as data

`Tx` names the transactions that programs ask the store to run, `Tx.Val` the value of each, and `Tx.run` runs one. A run
that fails leaves the tables as they are (`Tx.commit`).
-/

namespace Autback

structure JobCursor where
  createdAt : Time
  id : String
  deriving DecidableEq

/-- The query of `ListJobs`, newest first. -/
def DB.listJobs (db : DB) (projectID : String) (limit : Nat) (cursor : Option JobCursor) : List Job :=
  let after (e : String × JobRow) : Bool := match cursor with
    | none => true
    | some c => decide (e.2.createdAt < c.createdAt ∨ (e.2.createdAt = c.createdAt ∧ e.1 < c.id))
  let found := (Table.rows db.jobs).filter fun e => e.2.projectID == projectID && after e
  let sorted := found.insertionSort fun a b =>
    a.2.createdAt > b.2.createdAt ∨ (a.2.createdAt = b.2.createdAt ∧ b.1 ≤ a.1)
  (sorted.take limit).map fun e => scanJob e.1 e.2

inductive Tx
  | createPreparedJob (input : PrepareJob) (idempotency : Idempotency)
  | createBuild (projectID : String) (idempotency : Idempotency)
  | queueJob (id rootDigest : String)
  | syncJob (id : String) (remote : RemoteJob)
  | requestJobCancellation (id : String)
  | failJob (id message : String)
  | finishBuild (id : String) (status : BuildStatus) (exitCode : Int)
  | acquireNextOperation
  | requeueAdmittingOperation (op : Op)
  | activateOperation (op : Op)
  | renewOperationLease (op : Op)
  | cancelQueuedOperation (op : Op)
  | beginOperationCleanup (op : Op)
  | claimOperationCleanup
  | recordOperationCleanupFailure (op : Op) (message : String)
  | completeOperationCleanup (op : Op)
  | emergencyStopActiveOperation (message : String)
  | job (id : String)
  | build (id : String)
  | operationState (op : Op)
  | operation (op : Op)
  | workerBusy
  | scheduledJobs
  | stalePreparingJobs (before : Time)
  | staleBuilds (before : Time)
  | listJobs (projectID : String) (limit : Nat) (cursor : Option JobCursor)
  | resourceBaseline (op : Op)
  | saveResourceBaseline (op : Op) (resources : ResourceSet)
  | audit (principal : Principal) (projectID action targetID : String) (metadata : Option (List (String × String)))

namespace Tx

@[reducible]
def Val : Tx → Type
  | createPreparedJob _ _ => Job × Bool
  | createBuild _ _ => Build × Bool
  | acquireNextOperation => Option Operation
  | claimOperationCleanup => Option Operation
  | emergencyStopActiveOperation _ => Option Operation
  | cancelQueuedOperation _ => Bool
  | beginOperationCleanup _ => Bool
  | completeOperationCleanup _ => Bool
  | job _ => Job
  | build _ => Build
  | operationState _ => OperationState
  | operation _ => Operation
  | workerBusy => Bool
  | scheduledJobs => List Job
  | stalePreparingJobs _ => List Job
  | staleBuilds _ => List Build
  | listJobs _ _ _ => List Job
  | resourceBaseline _ => ResourceSet
  | _ => Unit

/-- Run a transaction at time `now`; `fresh` is the random part of a new id. -/
def run (now : Time) (fresh : String) (db : DB) : (x : Tx) → Except Err (x.Val × DB)
  | createPreparedJob input idempotency => db.createPreparedJob now fresh input idempotency
  | createBuild projectID idempotency => db.createBuild now fresh projectID idempotency
  | queueJob id rootDigest => db.queueJob id rootDigest
  | syncJob id remote => db.syncJob now id remote
  | requestJobCancellation id => db.requestJobCancellation now id
  | failJob id message => db.failJob now id message
  | finishBuild id status exitCode => db.finishBuild now id status exitCode
  | acquireNextOperation => db.acquireNextOperation now
  | requeueAdmittingOperation op => db.requeueAdmittingOperation op
  | activateOperation op => db.activateOperation op
  | renewOperationLease op => db.renewOperationLease now op
  | cancelQueuedOperation op => db.cancelQueuedOperation now op
  | beginOperationCleanup op => db.beginOperationCleanup now op
  | claimOperationCleanup => db.claimOperationCleanup now
  | recordOperationCleanupFailure op message => db.recordOperationCleanupFailure now op message
  | completeOperationCleanup op => db.completeOperationCleanup now op
  | emergencyStopActiveOperation message => db.emergencyStopActiveOperation now message
  | job id => do return (← db.job id, db)
  | build id => do return (← db.build id, db)
  | operationState op => do return (← db.operationState op, db)
  | operation op => do return (← db.operation op, db)
  | workerBusy => .ok (db.workerBusy, db)
  | scheduledJobs => .ok (db.scheduledJobs, db)
  | stalePreparingJobs before => .ok (db.stalePreparingJobs before, db)
  | staleBuilds before => .ok (db.staleBuilds before, db)
  | listJobs projectID limit cursor => .ok (db.listJobs projectID limit cursor, db)
  | resourceBaseline op => do return (← db.resourceBaseline op, db)
  | saveResourceBaseline op resources => .ok ((), db.saveResourceBaseline op resources)
  | audit principal projectID action targetID metadata =>
    .ok ((), db.recordAudit now principal projectID action targetID metadata)

def commit (now : Time) (fresh : String) (db : DB) (x : Tx) : DB :=
  match x.run now fresh db with
  | .ok (_, db') => db'
  | .error _ => db

end Tx

end Autback
