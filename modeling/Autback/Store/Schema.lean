import Autback.Control.Model
import Autback.Table.Basic

/-!
# The tables of the store

The rows that `internal/control/sqlite/store.go` keeps of jobs, builds and the queue. The queue carries the constraints of the
schema as fields: sequences are never given out twice (`AUTOINCREMENT`), and the partial unique index
`control_queue_one_reserved_idx` admits one row in a reserved state. A statement that would break the index fails
(`Queue.update`). The JSON columns hold the values that they encode.
-/

namespace Autback

/-- A row of `control_jobs`, without its id. -/
structure JobRow where
  (projectID image : String)
  command : Option (List String)
  workingDirectory : String
  environment : Option (List (String × String))
  secrets : Option (List SecretBinding)
  caches : Option (List CacheMount)
  rootDigest : String
  status : Status
  timeoutMillis : Int
  createdAt : Time
  (startedAt finishedAt : Option Time)
  exitCode : Option Int
  errorMessage : String
  cancelRequested : Bool
  (workerID idempotencyKey requestHash : String)
  deriving DecidableEq

def scanJob (id : String) (r : JobRow) : Job where
  id := id
  projectID := r.projectID
  image := r.image
  command := r.command
  workingDirectory := r.workingDirectory
  environment := r.environment
  rootDigest := r.rootDigest
  status := r.status
  timeout := r.timeoutMillis * 1000000
  createdAt := r.createdAt
  startedAt := r.startedAt
  finishedAt := r.finishedAt
  exitCode := r.exitCode
  errorMessage := r.errorMessage
  cancelRequested := r.cancelRequested
  workerID := r.workerID
  caches := r.caches
  secrets := r.secrets

/-- A row of `control_builds`, without its id. -/
structure BuildRow where
  projectID : String
  status : BuildStatus
  createdAt : Time
  finishedAt : Option Time
  exitCode : Option Int
  (idempotencyKey requestHash : String)
  deriving DecidableEq

def scanBuild (id : String) (r : BuildRow) : Build :=
  ⟨id, r.projectID, r.status, r.createdAt, r.finishedAt, r.exitCode⟩

/-- The columns of `control_queue` that statements set. -/
structure QueueCols where
  state : OperationState
  acceptedAt : Time
  leasedAt : Option Time
  cleanupAttempts : Nat
  cleanupError : String
  cleanupUpdatedAt : Time
  deriving DecidableEq

/-- A row of `control_queue`, without its kind and operation id. -/
structure QueueRow extends QueueCols where
  sequence : Nat
  deriving DecidableEq

def scanOperation (op : Op) (r : QueueRow) : Operation where
  op := op
  state := r.state
  acceptedAt := r.acceptedAt
  leasedAt := r.leasedAt
  cleanupAttempts := r.cleanupAttempts
  cleanupError := r.cleanupError
  cleanupUpdatedAt := if r.cleanupUpdatedAt = 0 then none else some r.cleanupUpdatedAt

def QueueRow.lease (r : QueueRow) : Time := r.leasedAt.getD r.acceptedAt

/-! ## The queue -/

/-- `control_queue` with its constraints; `last` is the sequence given out last. -/
structure Queue where
  table : Table Op QueueRow
  last : Nat
  bounded : ∀ op r, table.lookup op = some r → r.sequence ≤ last
  distinct : ∀ op op' r r', table.lookup op = some r → table.lookup op' = some r' → r.sequence = r'.sequence → op = op'
  oneReserved : ∀ op op' r r', table.lookup op = some r → table.lookup op' = some r' → r.state.reserved = true →
    r'.state.reserved = true → op = op'

namespace Queue

def empty : Queue where
  table := ∅
  last := 0
  bounded := by simp
  distinct := by simp
  oneReserved := by simp

def maxSequence : Nat := 9223372036854775807

def othersReserved (q : Queue) (op : Op) : Bool :=
  (Table.rows q.table).any fun e => decide (e.1 ≠ op) && e.2.state.reserved

theorem othersReserved_eq_false {q : Queue} {op : Op} (h : q.othersReserved op = false) {op' : Op} {r : QueueRow}
    (hne : op' ≠ op) (hl : q.table.lookup op' = some r) : r.state.reserved = false := by
  rw [othersReserved, List.any_eq_false] at h
  simpa [hne] using h (op', r) (Table.mem_rows.mpr hl)

def put (q : Queue) (op : Op) (old r : QueueRow) (hold : q.table.lookup op = some old)
    (hseq : r.sequence = old.sequence) (hres : (r.state.reserved && q.othersReserved op) = false) : Queue where
  table := q.table.insert op r
  last := q.last
  bounded op' r' h := by
    rw [Table.lookup_insert_eq] at h
    split at h
    · cases h
      rw [hseq]
      exact q.bounded _ _ hold
    · exact q.bounded _ _ h
  distinct op1 op2 r1 r2 h1 h2 hs := by
    rw [Table.lookup_insert_eq] at h1 h2
    split at h1 <;> split at h2 <;> rename_i e1 e2
    · rw [e1, e2]
    · cases h1
      rw [e1]
      exact q.distinct _ _ _ _ hold h2 (hseq ▸ hs)
    · cases h2
      rw [e2]
      exact q.distinct _ _ _ _ h1 hold (hseq ▸ hs)
    · exact q.distinct _ _ _ _ h1 h2 hs
  oneReserved op1 op2 r1 r2 h1 h2 hr1 hr2 := by
    rw [Table.lookup_insert_eq] at h1 h2
    split at h1 <;> split at h2 <;> rename_i e1 e2
    · rw [e1, e2]
    · cases h1
      rw [hr1, Bool.true_and] at hres
      rw [othersReserved_eq_false hres e2 h2] at hr2
      cases hr2
    · cases h2
      rw [hr2, Bool.true_and] at hres
      rw [othersReserved_eq_false hres e1 h1] at hr1
      cases hr1
    · exact q.oneReserved _ _ _ _ h1 h2 hr1 hr2

def constraint : Err := .new "UNIQUE constraint failed: index 'control_queue_one_reserved_idx'"

/-- `UPDATE control_queue SET f WHERE kind=? AND operation_id=? AND p(state)`: the number of rows affected and the new
queue, or the violation of the index. -/
def update (q : Queue) (op : Op) (p : OperationState → Bool) (f : QueueCols → QueueCols) : Except Err (Nat × Queue) :=
  match h : q.table.lookup op with
  | none => .ok (0, q)
  | some r =>
    if p r.state then
      if hc : ((f r.toQueueCols).state.reserved && q.othersReserved op) = false then
        .ok (1, q.put op r { f r.toQueueCols with sequence := r.sequence } h rfl hc)
      else .error constraint
    else .ok (0, q)

/-- `INSERT INTO control_queue(kind,operation_id,state,accepted_at,leased_at)` of a queued row. -/
def insert (q : Queue) (op : Op) (acceptedAt : Time) (leasedAt : Option Time) : Except Err Queue :=
  match h : q.table.lookup op with
  | some _ => .error (.new "UNIQUE constraint failed: control_queue.kind, control_queue.operation_id")
  | none =>
    if q.last < maxSequence then
      .ok {
        table := q.table.insert op ⟨⟨.queued, acceptedAt, leasedAt, 0, "", 0⟩, q.last + 1⟩
        last := q.last + 1
        bounded := by
          intro op' r' hl
          rw [Table.lookup_insert_eq] at hl
          split at hl
          · cases hl
            exact le_refl _
          · exact (q.bounded _ _ hl).trans (Nat.le_succ _)
        distinct := by
          intro op1 op2 r1 r2 h1 h2 hs
          rw [Table.lookup_insert_eq] at h1 h2
          split at h1 <;> split at h2 <;> rename_i e1 e2
          · rw [e1, e2]
          · cases h1
            exact absurd (q.bounded _ _ h2) (by simp only at hs; omega)
          · cases h2
            exact absurd (q.bounded _ _ h1) (by simp only at hs; omega)
          · exact q.distinct _ _ _ _ h1 h2 hs
        oneReserved := by
          intro op1 op2 r1 r2 h1 h2 hr1 hr2
          rw [Table.lookup_insert_eq] at h1 h2
          split at h1
          · cases h1
            cases hr1
          split at h2
          · cases h2
            cases hr2
          · exact q.oneReserved _ _ _ _ h1 h2 hr1 hr2 }
    else .error (.new "database or disk is full")

/-- `SELECT COUNT(*) … WHERE state IN (admitting, active, terminalizing, cleaning)` is positive. -/
def busy (q : Queue) : Bool := (Table.rows q.table).any fun e => e.2.state.reserved

/-- The row of smallest sequence whose state satisfies `p`. -/
def oldest (q : Queue) (p : OperationState → Bool) : Option (Op × QueueRow) :=
  Table.first q.table (fun _ r => p r.state) fun _ r => r.sequence

end Queue

/-! ## The database -/

structure AuditEvent where
  actorKind : PrincipalKind
  actorID : String
  projectID : Option String
  (action targetID : String)
  createdAt : Time
  metadata : Option (List (String × String))
  deriving DecidableEq

structure DB where
  jobs : Table String JobRow
  builds : Table String BuildRow
  queue : Queue
  baselines : Table Op ResourceSet
  audit : List AuditEvent

def DB.empty : DB := ⟨∅, ∅, Queue.empty, ∅, []⟩

end Autback
