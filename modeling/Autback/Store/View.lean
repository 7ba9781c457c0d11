import Autback.Store.Tx

/-!
# What the queue is about

The view of a database is what the protocol between queue, jobs and builds depends on: the status and cancellation flag
of a job, the status of a build, the state and sequence of a row. `Tx.Effect` says in these terms what each transaction
requires and does when it commits, and `run_effect` that the transactions of the store do just that. Everything that is
proved about queue, jobs and builds is proved from the effects.
-/

namespace Autback

structure JobView where
  status : Status
  cancel : Bool
  deriving DecidableEq

structure RowView where
  state : OperationState
  seq : Nat
  deriving DecidableEq

@[ext]
structure View where
  job : String → Option JobView
  build : String → Option BuildStatus
  row : Op → Option RowView
  last : Nat

def JobRow.view (r : JobRow) : JobView := ⟨r.status, r.cancelRequested⟩

def QueueRow.view (r : QueueRow) : RowView := ⟨r.state, r.sequence⟩

def DB.view (db : DB) : View where
  job id := (db.jobs.lookup id).map JobRow.view
  build id := (db.builds.lookup id).map BuildRow.status
  row op := (db.queue.table.lookup op).map QueueRow.view
  last := db.queue.last

namespace View

variable (v : View)

def mapRow (op : Op) (f : OperationState → OperationState) : View :=
  { v with row := fun op' => if op' = op then (v.row op).map fun r => { r with state := f r.state } else v.row op' }

def setRow (op : Op) (s : OperationState) : View := v.mapRow op fun _ => s

def mapJob (id : String) (f : JobView → JobView) : View :=
  { v with job := fun id' => if id' = id then (v.job id).map f else v.job id' }

def setJob (id : String) (j : JobView) : View := v.mapJob id fun _ => j

def mapBuild (id : String) (f : BuildStatus → BuildStatus) : View :=
  { v with build := fun id' => if id' = id then (v.build id).map f else v.build id' }

def setBuild (id : String) (b : BuildStatus) : View := v.mapBuild id fun _ => b

def addRow (op : Op) : View :=
  { v with
    row := fun op' => if op' = op then some ⟨.queued, v.last + 1⟩ else v.row op'
    last := v.last + 1 }

def addJob (id : String) : View :=
  { v.addRow (jobOp id) with job := fun id' => if id' = id then some ⟨.preparing, false⟩ else v.job id' }

def addBuild (id : String) : View :=
  { v.addRow (buildOp id) with build := fun id' => if id' = id then some .queued else v.build id' }

def RowIs (op : Op) (p : OperationState → Bool) : Prop := ∃ r, v.row op = some r ∧ p r.state = true

def NoRow (p : OperationState → Bool) : Prop := ∀ op r, v.row op = some r → p r.state = false

/-- The row of `op` is the one of smallest sequence in a state that satisfies `p`. -/
def Oldest (op : Op) (p : OperationState → Bool) : Prop :=
  ∃ r, v.row op = some r ∧ p r.state = true ∧ ∀ op' r', v.row op' = some r' → p r'.state = true → r.seq ≤ r'.seq

variable {v} in
theorem Oldest.rowIs {op : Op} {p : OperationState → Bool} (h : v.Oldest op p) : v.RowIs op p := by
  obtain ⟨r, hr, hp, -⟩ := h
  exact ⟨r, hr, hp⟩

/-- `RequestJobCancellation` ends the job at once. -/
def CancelsNow (id : String) (s : Status) : Prop :=
  s = .preparing ∨ (s = .queued ∧ ¬ v.RowIs (jobOp id) OperationState.executing)

/-! ### Reading a changed view -/

variable (id : String) (op : Op) (id' : String) (f : OperationState → OperationState) (s : OperationState) (j : JobView)
  (b : BuildStatus)

@[simp] theorem mapRow_row (op' : Op) (f : OperationState → OperationState) : (v.mapRow op f).row op' =
      if op' = op then (v.row op).map fun r => { r with state := f r.state } else v.row op' := rfl

@[simp] theorem mapRow_job : (v.mapRow op f).job = v.job := rfl

@[simp] theorem mapRow_build : (v.mapRow op f).build = v.build := rfl

@[simp] theorem setRow_row (op' : Op) (s : OperationState) :
    (v.setRow op s).row op' = if op' = op then (v.row op).map fun r => { r with state := s } else v.row op' := rfl

@[simp] theorem setRow_job : (v.setRow op s).job = v.job := rfl

@[simp] theorem setRow_build : (v.setRow op s).build = v.build := rfl

@[simp] theorem mapJob_job (f : JobView → JobView) :
    (v.mapJob id f).job id' = if id' = id then (v.job id).map f else v.job id' := rfl

@[simp] theorem mapJob_row (f : JobView → JobView) : (v.mapJob id f).row = v.row := rfl

@[simp] theorem setJob_job : (v.setJob id j).job id' = if id' = id then (v.job id).map fun _ => j else v.job id' := rfl

@[simp] theorem setJob_build : (v.setJob id j).build = v.build := rfl

@[simp] theorem setJob_row : (v.setJob id j).row = v.row := rfl

@[simp] theorem mapBuild_build (f : BuildStatus → BuildStatus) :
    (v.mapBuild id f).build id' = if id' = id then (v.build id).map f else v.build id' := rfl

@[simp] theorem mapBuild_row (f : BuildStatus → BuildStatus) : (v.mapBuild id f).row = v.row := rfl

@[simp] theorem setBuild_row : (v.setBuild id b).row = v.row := rfl

@[simp] theorem addJob_job : (v.addJob id).job id' = if id' = id then some ⟨.preparing, false⟩ else v.job id' := rfl

@[simp] theorem addJob_build : (v.addJob id).build = v.build := rfl

@[simp] theorem addJob_row : (v.addJob id).row op = if op = jobOp id then some ⟨.queued, v.last + 1⟩ else v.row op := rfl

@[simp] theorem addBuild_build : (v.addBuild id).build id' = if id' = id then some .queued else v.build id' := rfl

@[simp] theorem addBuild_job : (v.addBuild id).job = v.job := rfl

@[simp] theorem addBuild_row :
    (v.addBuild id).row op = if op = buildOp id then some ⟨.queued, v.last + 1⟩ else v.row op := rfl

end View

/-! ## Effects -/

/-- The state of a row that `SyncJob` with a terminal snapshot leaves. -/
def endExecuting (s : OperationState) : OperationState := if s.executing then .terminalizing else s

/-- The state of a row that `FailJob` leaves. -/
def endLive (s : OperationState) : OperationState := if s.live then .terminalizing else s

/-- The state of a row that `RequestJobCancellation` leaves. -/
def dropQueued (s : OperationState) : OperationState := if s = .queued then .released else s

/-- The state of a row that `FinishBuild` leaves. -/
def endBuild (s : OperationState) : OperationState := if s = .queued then .released else endLive s

open Classical in
/-- What a transaction that commits with value `a` requires of the view before and does to it. -/
def Tx.Effect : (x : Tx) → x.Val → View → View → Prop
  | .createPreparedJob _ _, (j, replayed), v, v' =>
    v'.job j.id = some ⟨j.status, j.cancelRequested⟩ ∧
      if replayed then v' = v else v.job j.id = none ∧ v.row (jobOp j.id) = none ∧ v' = v.addJob j.id
  | .createBuild _ _, (b, replayed), v, v' =>
    v'.build b.id = some b.status ∧
      if replayed then v' = v else v.build b.id = none ∧ v.row (buildOp b.id) = none ∧ v' = v.addBuild b.id
  | .queueJob id _, _, v, v' =>
    (∃ c, v.job id = some ⟨.preparing, c⟩ ∧ v' = (v.setJob id ⟨.queued, c⟩).setRow (jobOp id) .queued) ∧
      v.RowIs (jobOp id) fun s => s == .queued || s == .admitting
  | .syncJob id remote, _, v, v' =>
    v' = (v.mapJob id fun j => if j.status.terminal then j else ⟨remote.status, remote.cancelRequested⟩).mapRow (jobOp id)
      fun s => if remote.status.terminal then endExecuting s else s
  | .requestJobCancellation id, _, v, v' =>
    ∃ j, v.job id = some j ∧ j.status.terminal = false ∧
      v' = (v.setJob id ⟨if v.CancelsNow id j.status then .cancelled else j.status, true⟩).mapRow (jobOp id) dropQueued
  | .failJob id _, _, v, v' =>
    ∃ j, v.job id = some j ∧ (j.status = .preparing ∨ j.status = .queued) ∧
      v' = (v.setJob id ⟨.failed, j.cancel⟩).mapRow (jobOp id) endLive
  | .finishBuild id status _, _, v, v' =>
    status.terminal = true ∧ (v.build id = some .queued ∨ v.build id = some .running) ∧
      v' = (v.setBuild id status).mapRow (buildOp id) endBuild
  | .acquireNextOperation, none, v, v' =>
    v' = v ∧ ((∃ op, v.RowIs op OperationState.reserved) ∨ v.NoRow (· == .queued))
  | .acquireNextOperation, some o, v, v' =>
    v.NoRow OperationState.reserved ∧ v.Oldest o.op (· == .queued) ∧ v' = v.setRow o.op .admitting
  | .requeueAdmittingOperation op, _, v, v' => v.RowIs op (· == .admitting) ∧ v' = v.setRow op .queued
  | .activateOperation op, _, v, v' =>
    v.RowIs op (· == .admitting) ∧
      match op.kind with
      | .job => v' = v.setRow op .active
      | .build => v.build op.id = some .queued ∧ v' = (v.setRow op .active).setBuild op.id .running
  | .renewOperationLease op, _, v, v' => v' = v ∧ v.RowIs op OperationState.live
  | .cancelQueuedOperation op, (done : Bool), v, v' =>
    if done then v.RowIs op (· == .queued) ∧ v' = v.setRow op .released else v' = v
  | .beginOperationCleanup op, (done : Bool), v, v' =>
    if done then v.RowIs op OperationState.live ∧ v' = v.setRow op .terminalizing
    else ¬ v.RowIs op OperationState.live ∧ v' = v
  | .claimOperationCleanup, none, v, v' => v' = v ∧ v.NoRow OperationState.tearing
  | .claimOperationCleanup, some o, v, v' =>
    v.Oldest o.op OperationState.tearing ∧ v' = v.setRow o.op .cleaning
  | .recordOperationCleanupFailure op _, _, v, v' => v' = v ∧ v.RowIs op (· == .cleaning)
  | .completeOperationCleanup op, (done : Bool), v, v' =>
    if done then v.RowIs op OperationState.tearing ∧ v' = v.setRow op .released
    else ¬ v.RowIs op OperationState.tearing ∧ v' = v
  | .emergencyStopActiveOperation _, none, v, v' => v' = v ∧ v.NoRow OperationState.executing
  | .emergencyStopActiveOperation _, some o, v, v' =>
    v.Oldest o.op OperationState.executing ∧
      match o.op.kind with
      | .job => (∃ j, v.job o.op.id = some j ∧ j.status.terminal = false) ∧
          v' = (v.setJob o.op.id ⟨.failed, true⟩).setRow o.op .terminalizing
      | .build => (v.build o.op.id = some .queued ∨ v.build o.op.id = some .running) ∧
          v' = (v.setBuild o.op.id .cancelled).setRow o.op .terminalizing
  | .job id, j, v, v' => v' = v ∧ j.id = id ∧ v.job id = some ⟨j.status, j.cancelRequested⟩
  | .build id, b, v, v' => v' = v ∧ b.id = id ∧ v.build id = some b.status
  | .operationState op, (s : OperationState), v, v' => v' = v ∧ v.RowIs op (· == s)
  | .operation op, o, v, v' => v' = v ∧ o.op = op ∧ v.RowIs op (· == o.state)
  | .workerBusy, (busy : Bool), v, v' => v' = v ∧ (busy = true ↔ ∃ op, v.RowIs op OperationState.reserved)
  | .scheduledJobs, (jobs : List Job), v, v' =>
    v' = v ∧ ∀ j ∈ jobs, (j.status = .queued ∨ j.status = .running) ∧
      v.job j.id = some ⟨j.status, j.cancelRequested⟩ ∧ v.RowIs (jobOp j.id) OperationState.executing
  | .stalePreparingJobs _, (jobs : List Job), v, v' =>
    v' = v ∧ ∀ j ∈ jobs, v.job j.id = some ⟨.preparing, j.cancelRequested⟩ ∧
      v.RowIs (jobOp j.id) fun s => s == .queued || s == .admitting
  | .staleBuilds _, (builds : List Build), v, v' =>
    v' = v ∧ ∀ b ∈ builds, (v.build b.id = some .queued ∨ v.build b.id = some .running) ∧
      v.RowIs (buildOp b.id) OperationState.live
  | .listJobs _ _ _, (jobs : List Job), v, v' => v' = v ∧ ∀ j ∈ jobs, v.job j.id = some ⟨j.status, j.cancelRequested⟩
  | .resourceBaseline _, _, v, v' => v' = v
  | .saveResourceBaseline _ _, _, v, v' => v' = v
  | .audit _ _ _ _ _, _, v, v' => v' = v

end Autback
