import Autback.Store.Schema

/-!
# The transactions of the store

The methods of `internal/control/sqlite/store.go` on jobs, builds and the queue. Each is one transaction: a function of the tables
that returns a value and the new tables, or an error, and then it is rolled back. `now` is the time that the method reads, `fresh`
the random part of a new id. Where a method reads a row after it has committed, the read is a transaction of its own.
-/

namespace Autback

namespace DB

def updateRow (db : DB) (op : Op) (p : OperationState → Bool) (f : QueueCols → QueueCols) : Except Err (Nat × DB) := do
  let (count, queue) ← db.queue.update op p f
  return (count, { db with queue := queue })

def updateJob (db : DB) (id : String) (p : JobRow → Bool) (f : JobRow → JobRow) : Nat × DB :=
  let (count, jobs) := Table.update db.jobs id p f
  (count, { db with jobs := jobs })

def updateBuild (db : DB) (id : String) (p : BuildRow → Bool) (f : BuildRow → BuildRow) : Nat × DB :=
  let (count, builds) := Table.update db.builds id p f
  (count, { db with builds := builds })

def rowState (db : DB) (op : Op) : Option OperationState := (db.queue.table.lookup op).map fun r => r.state

/-! ## Accepting operations -/

/-- `append([]T(nil), xs...)`: an empty slice becomes nil. -/
def cloneSlice {α : Type} : Option (List α) → Option (List α)
  | some (x :: xs) => some (x :: xs)
  | _ => none

def cloneMap (m : Option (List (String × String))) : Option (List (String × String)) := some (m.getD [])

def preparedRow (now : Time) (input : PrepareJob) (idempotency : Idempotency) : JobRow where
  projectID := input.projectID
  image := input.image
  command := input.command
  workingDirectory := input.workingDirectory
  environment := input.environment
  secrets := input.secrets
  caches := input.caches
  rootDigest := ""
  status := .preparing
  timeoutMillis := input.timeout.tdiv 1000000
  createdAt := now
  startedAt := none
  finishedAt := none
  exitCode := none
  errorMessage := ""
  cancelRequested := false
  workerID := ""
  idempotencyKey := idempotency.key
  requestHash := idempotency.requestHash

/-- The job that `CreatePreparedJob` returns for a new row. -/
def preparedJob (id : String) (now : Time) (input : PrepareJob) : Job where
  id := id
  projectID := input.projectID
  image := input.image
  command := cloneSlice input.command
  workingDirectory := input.workingDirectory
  environment := cloneMap input.environment
  rootDigest := ""
  status := .preparing
  timeout := input.timeout
  createdAt := now
  startedAt := none
  finishedAt := none
  exitCode := none
  errorMessage := ""
  cancelRequested := false
  workerID := ""
  caches := cloneSlice input.caches
  secrets := cloneSlice input.secrets

def createPreparedJob (db : DB) (now : Time) (fresh : String) (input : PrepareJob) (idempotency : Idempotency) :
    Except Err ((Job × Bool) × DB) :=
  match (Table.rows db.jobs).find? fun e =>
      e.2.projectID == input.projectID && e.2.idempotencyKey == idempotency.key with
  | some (id, r) =>
    if r.requestHash ≠ idempotency.requestHash then .error .idempotencyConflict else .ok ((scanJob id r, true), db)
  | none => do
    let id := "job" ++ fresh
    if (db.jobs.lookup id).isSome then throw (.new "UNIQUE constraint failed: control_jobs.id")
    let queue ← db.queue.insert ⟨.job, id⟩ now (some now)
    return ((preparedJob id now input, false),
      { db with jobs := db.jobs.insert id (preparedRow now input idempotency), queue := queue })

def createBuild (db : DB) (now : Time) (fresh : String) (projectID : String) (idempotency : Idempotency) :
    Except Err ((Build × Bool) × DB) :=
  match (Table.rows db.builds).find? fun e => e.2.projectID == projectID && e.2.idempotencyKey == idempotency.key with
  | some (id, r) =>
    if r.requestHash ≠ idempotency.requestHash then .error .idempotencyConflict else .ok ((scanBuild id r, true), db)
  | none => do
    let id := "bld" ++ fresh
    if (db.builds.lookup id).isSome then throw (.new "UNIQUE constraint failed: control_builds.id")
    let queue ← db.queue.insert ⟨.build, id⟩ now none
    let row : BuildRow := ⟨projectID, .queued, now, none, none, idempotency.key, idempotency.requestHash⟩
    return ((scanBuild id row, false), { db with builds := db.builds.insert id row, queue := queue })

def queueJob (db : DB) (id rootDigest : String) : Except Err (Unit × DB) := do
  let (count, db) := db.updateJob id (fun r => r.status == .preparing)
    fun r => { r with rootDigest := rootDigest, status := .queued }
  if count ≠ 1 then throw .notFound
  let (count, db) ← db.updateRow ⟨.job, id⟩ (fun s => s == .queued || s == .admitting)
    fun r => { r with state := .queued, leasedAt := none }
  if count ≠ 1 then throw .notFound
  return ((), db)

/-! ## Ending operations -/

def syncJob (db : DB) (now : Time) (id : String) (remote : RemoteJob) : Except Err (Unit × DB) := do
  let (_, db) := db.updateJob id (fun r => !r.status.terminal) fun r =>
    { r with
      status := remote.status, startedAt := remote.startedAt, finishedAt := remote.finishedAt,
      exitCode := remote.exitCode, errorMessage := remote.errorMessage, cancelRequested := remote.cancelRequested,
      workerID := remote.workerID }
  if remote.status.terminal then
    let (_, db) ← db.updateRow ⟨.job, id⟩ OperationState.executing
      fun r => { r with state := .terminalizing, cleanupUpdatedAt := now }
    return ((), db)
  else return ((), db)

/-- `RequestJobCancellation` ends the job at once: it is preparing, or queued and not admitted. -/
def cancelsNow (db : DB) (id : String) (status : Status) : Bool :=
  status == .preparing ||
    (status == .queued && !((db.rowState ⟨.job, id⟩).any OperationState.executing))

def requestJobCancellation (db : DB) (now : Time) (id : String) : Except Err (Unit × DB) := do
  let (count, db) := db.updateJob id (fun r => !r.status.terminal) fun r =>
    { r with
      cancelRequested := true
      status := if db.cancelsNow id r.status then .cancelled else r.status
      finishedAt := if db.cancelsNow id r.status then some now else r.finishedAt }
  if count ≠ 1 then throw .notFound
  let (_, db) ← db.updateRow ⟨.job, id⟩ (· == .queued) fun r => { r with state := .released, cleanupUpdatedAt := now }
  return ((), db)

def failJob (db : DB) (now : Time) (id message : String) : Except Err (Unit × DB) := do
  let (count, db) := db.updateJob id (fun r => r.status == .preparing || r.status == .queued) fun r =>
    { r with status := .failed, finishedAt := some now, exitCode := some 1, errorMessage := message }
  if count ≠ 1 then throw .notFound
  let (_, db) ← db.updateRow ⟨.job, id⟩ OperationState.live
    fun r => { r with state := .terminalizing, cleanupUpdatedAt := now }
  return ((), db)

def finishBuild (db : DB) (now : Time) (id : String) (status : BuildStatus) (exitCode : Int) :
    Except Err (Unit × DB) := do
  if !status.terminal then throw (.new "build status is not terminal")
  let (count, db) := db.updateBuild id (fun r => r.status == .queued || r.status == .running) fun r =>
    { r with status := status, finishedAt := some now, exitCode := some exitCode }
  if count ≠ 1 then throw .notFound
  let (_, db) ← db.updateRow ⟨.build, id⟩ OperationState.live fun r =>
    { r with state := if r.state = .queued then .released else .terminalizing, cleanupUpdatedAt := now }
  return ((), db)

/-! ## Admission -/

def acquireNextOperation (db : DB) (now : Time) : Except Err (Option Operation × DB) :=
  if db.queue.busy then .ok (none, db)
  else
    match db.queue.oldest (· == .queued) with
    | none => .ok (none, db)
    | some (op, r) => do
      let (count, db) ← db.updateRow op (· == .queued) fun r => { r with state := .admitting, leasedAt := some now }
      if count ≠ 1 then throw (.new "operation was concurrently admitted")
      return (some ⟨op, .admitting, r.acceptedAt, some now, 0, "", none⟩, db)

def requeueAdmittingOperation (db : DB) (op : Op) : Except Err (Unit × DB) := do
  let (count, db) ← db.updateRow op (· == .admitting) fun r => { r with state := .queued, leasedAt := none }
  if count ≠ 1 then throw .notFound
  return ((), db)

def activateOperation (db : DB) (op : Op) : Except Err (Unit × DB) := do
  let (count, db) ← db.updateRow op (· == .admitting) fun r => { r with state := .active }
  if count ≠ 1 then throw .notFound
  if op.kind = .build then
    let (count, db) := db.updateBuild op.id (fun r => r.status == .queued) fun r => { r with status := .running }
    if count ≠ 1 then throw (.new "queued build is missing")
    return ((), db)
  else return ((), db)

def renewOperationLease (db : DB) (now : Time) (op : Op) : Except Err (Unit × DB) := do
  let (count, db) ← db.updateRow op OperationState.live fun r => { r with leasedAt := some now }
  if count ≠ 1 then throw .notFound
  return ((), db)

def cancelQueuedOperation (db : DB) (now : Time) (op : Op) : Except Err (Bool × DB) := do
  let (count, db) ← db.updateRow op (· == .queued) fun r => { r with state := .released, cleanupUpdatedAt := now }
  return (count == 1, db)

/-! ## Teardown -/

/-- The update of `BeginOperationCleanup`: whether it changed a row. -/
def beginOperationCleanup (db : DB) (now : Time) (op : Op) : Except Err (Bool × DB) := do
  let (count, db) ← db.updateRow op OperationState.live
    fun r => { r with state := .terminalizing, cleanupUpdatedAt := now }
  return (count == 1, db)

def claimOperationCleanup (db : DB) (now : Time) : Except Err (Option Operation × DB) :=
  match db.queue.oldest OperationState.tearing with
  | none => .ok (none, db)
  | some (op, r) => do
    let (count, db) ← db.updateRow op OperationState.tearing fun r =>
      { r with
        state := .cleaning, cleanupAttempts := r.cleanupAttempts + 1, cleanupError := "", cleanupUpdatedAt := now }
    if count ≠ 1 then throw (.new "operation cleanup was concurrently claimed")
    return (some { scanOperation op r with
      state := .cleaning, cleanupAttempts := r.cleanupAttempts + 1, cleanupError := "",
      cleanupUpdatedAt := some now }, db)

def recordOperationCleanupFailure (db : DB) (now : Time) (op : Op) (message : String) : Except Err (Unit × DB) := do
  let (count, db) ← db.updateRow op (· == .cleaning)
    fun r => { r with cleanupError := message, cleanupUpdatedAt := now }
  if count ≠ 1 then throw .notFound
  return ((), db)

/-- The update of `CompleteOperationCleanup`: whether it changed a row. -/
def completeOperationCleanup (db : DB) (now : Time) (op : Op) : Except Err (Bool × DB) := do
  let (count, db) ← db.updateRow op OperationState.tearing
    fun r => { r with state := .released, cleanupError := "", cleanupUpdatedAt := now }
  return (count == 1, db)

/-- The update of the record in `EmergencyStopActiveOperation`. -/
def emergencyStop (db : DB) (now : Time) (message : String) : Op → Nat × DB
  | ⟨.job, id⟩ =>
    db.updateJob id (fun r => !r.status.terminal) fun r =>
      { r with
        status := .failed, finishedAt := some now, exitCode := some 137, errorMessage := message,
        cancelRequested := true }
  | ⟨.build, id⟩ =>
    db.updateBuild id (fun r => r.status == .queued || r.status == .running) fun r =>
      { r with status := .cancelled, finishedAt := some now, exitCode := some 130 }

def emergencyStopActiveOperation (db : DB) (now : Time) (message : String) :
    Except Err (Option Operation × DB) :=
  match db.queue.oldest OperationState.executing with
  | none => .ok (none, db)
  | some (op, r) => do
    let (count, db) := db.emergencyStop now message op
    if count ≠ 1 then throw (.new ("active emergency " ++ op.kind.text ++ " is missing"))
    let (_, db) ← db.updateRow op (fun _ => true) fun r =>
      { r with state := .terminalizing, cleanupUpdatedAt := now }
    return (some ⟨op, r.state, r.acceptedAt, r.leasedAt, 0, "", none⟩, db)

/-! ## Reads -/

def job (db : DB) (id : String) : Except Err Job :=
  match db.jobs.lookup id with
  | some r => .ok (scanJob id r)
  | none => .error .notFound

def build (db : DB) (id : String) : Except Err Build :=
  match db.builds.lookup id with
  | some r => .ok (scanBuild id r)
  | none => .error .notFound

def operationState (db : DB) (op : Op) : Except Err OperationState :=
  match db.rowState op with
  | some s => .ok s
  | none => .error .notFound

def operation (db : DB) (op : Op) : Except Err Operation :=
  match db.queue.table.lookup op with
  | some r => .ok (scanOperation op r)
  | none => .error .notFound

def workerBusy (db : DB) : Bool := db.queue.busy

structure Scheduled where
  id : String
  job : JobRow
  row : QueueRow

def jobsWhere (db : DB) (p : JobRow → QueueRow → Bool) (le : Scheduled → Scheduled → Bool) : List Job :=
  let joined := (Table.rows db.jobs).filterMap fun e =>
    match db.queue.table.lookup ⟨.job, e.1⟩ with
    | some q => if p e.2 q then some (⟨e.1, e.2, q⟩ : Scheduled) else none
    | none => none
  (joined.insertionSort fun a b => le a b = true).map fun e => scanJob e.id e.job

/-- `ScheduledJobs`, ordered by creation time and id. -/
def scheduledJobs (db : DB) : List Job :=
  db.jobsWhere (fun r q => (r.status == .queued || r.status == .running) && q.state.executing) fun a b =>
    decide (a.job.createdAt < b.job.createdAt ∨ (a.job.createdAt = b.job.createdAt ∧ a.id ≤ b.id))

def stalePreparingJobs (db : DB) (before : Time) : List Job :=
  db.jobsWhere
    (fun r q => r.status == .preparing && (q.state == .queued || q.state == .admitting) && decide (q.lease < before))
    fun a b => decide (a.row.lease < b.row.lease ∨ (a.row.lease = b.row.lease ∧ a.row.sequence ≤ b.row.sequence))

def staleBuilds (db : DB) (before : Time) : List Build :=
  let joined := (Table.rows db.builds).filterMap fun e =>
    match db.queue.table.lookup ⟨.build, e.1⟩ with
    | some q =>
      if (e.2.status == .queued || e.2.status == .running) && q.state.live && decide (q.lease < before) then
        some (e.1, e.2, q)
      else none
    | none => none
  (joined.insertionSort fun a b => a.2.2.lease ≤ b.2.2.lease).map fun e => scanBuild e.1 e.2.1

def terminalJobIDsBefore (db : DB) (before : Time) : List String :=
  let ended := (Table.rows db.jobs).filterMap fun e =>
    match e.2.finishedAt with
    | some t => if t < before && e.2.status.terminal then some (t, e.1) else none
    | none => none
  (ended.insertionSort fun a b => a.1 < b.1 ∨ (a.1 = b.1 ∧ a.2 ≤ b.2)).map Prod.snd

def resourceBaseline (db : DB) (op : Op) : Except Err ResourceSet :=
  match db.baselines.lookup op with
  | some r => .ok r
  | none => .error .notFound

def operationActive (db : DB) : OperationKind → String → Bool
  | .job, id => (db.jobs.lookup id).any fun j => j.status == .preparing
  | .build, id => (db.builds.lookup id).any fun b => b.status == .running

/-! ## Baselines and audit -/

def saveResourceBaseline (db : DB) (op : Op) (resources : ResourceSet) : DB :=
  match db.baselines.lookup op with
  | some _ => db
  | none => { db with baselines := db.baselines.insert op resources }

def actorID (principal : Principal) : String :=
  if principal.userID ≠ "" then principal.userID else principal.subject

def recordAudit (db : DB) (now : Time) (principal : Principal) (projectID action targetID : String)
    (metadata : Option (List (String × String))) : DB :=
  { db with audit := db.audit ++ [{
      actorKind := principal.kind, actorID := actorID principal,
      projectID := if projectID = "" then none else some projectID,
      action := action, targetID := targetID, createdAt := now, metadata := metadata }] }

end DB

end Autback
