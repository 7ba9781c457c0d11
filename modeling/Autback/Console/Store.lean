import Autback.Access.Store
import Autback.Store.Tx

/-!
# What the console reads

The store as `internal/console/source.go` sees it: the tables of projects, users and operations, the resource tables of
`internal/control/sqlite/resources.go`, and the journal of changes of `changes.go`, whose largest sequence is the revision.

Triggers append to the journal for every row of the first tables that a statement inserts, updates or deletes. The resource
tables have none: `AppendResourceSample` appends a record itself, `CompactResourceSamples` does not.

The columns of type `REAL` are of a type `ν` of numbers, whose sums are left to the database (`Engine`).
-/

namespace Autback

namespace Console

/-- What SQL leaves to the database: the order of rows without `ORDER BY`, and the sums of `REAL` columns. -/
structure Engine (ν : Type := Float) extends Access.Engine where
  sum : List ν → ν

/-! ## The journal -/

/-- `control_changes`: the sequences of its records, and the last one that was given out. -/
structure Journal where
  sequences : List Nat
  last : Nat
  bounded : ∀ n ∈ sequences, n ≤ last
  newest : last = 0 ∨ last ∈ sequences

namespace Journal

def empty : Journal := ⟨[], 0, by simp, .inl rfl⟩

/-- `INSERT INTO control_changes`, with the trigger that drops all but the newest records. -/
def insert (j : Journal) : Journal where
  sequences := (j.sequences ++ [j.last + 1]).filter fun n => !decide (n < j.last + 1 - 10000)
  last := j.last + 1
  bounded n hn := by
    rcases List.mem_append.mp (List.mem_of_mem_filter hn) with hn | hn
    · have hle := j.bounded n hn
      omega
    · rw [List.mem_singleton.mp hn]
  newest := by
    right
    rw [List.mem_filter]
    refine ⟨List.mem_append_right _ (List.mem_singleton_self _), ?_⟩
    simp only [Bool.not_eq_true', decide_eq_false_iff_not]
    omega

def record : Nat → Journal → Journal
  | 0, j => j
  | n + 1, j => record n j.insert

def currentRevision (j : Journal) : Nat := j.sequences.max?.getD 0

theorem currentRevision_eq (j : Journal) : j.currentRevision = j.last := by
  rw [currentRevision]
  rcases j.newest with hzero | hmem
  · cases hmax : j.sequences.max? with
    | none =>
      rw [hzero]
      rfl
    | some n =>
      have hle := j.bounded n (List.max?_mem hmax)
      show n = j.last
      omega
  have hmax : j.sequences.max? = some j.last := List.max?_eq_some_iff.mpr ⟨hmem, j.bounded⟩
  rw [hmax]
  rfl

theorem last_record (n : Nat) (j : Journal) : (record n j).last = j.last + n := by
  induction n generalizing j with
  | zero => rfl
  | succ n ih =>
    rw [record, ih]
    show j.last + 1 + n = j.last + (n + 1)
    omega

end Journal

/-! ## Resource tables -/

/-- `ResourceScope`. The operation is empty for a sample that belongs to none. -/
structure ResourceScope where
  (projectID operationKind operationID : String)
  deriving DecidableEq

structure ResourceSample (ν : Type := Float) extends ResourceScope where
  observedAt : Time
  cpuUtilization : ν
  cpuCores : Int
  memoryUtilization : ν
  (memoryUsageBytes memoryTotalBytes diskUsageBytes diskTotalBytes diskInodesUsed diskInodesTotal : Nat)
  (cpuPressure memoryPressure memoryFullPressure ioPressure ioFullPressure : ν)
  (memoryHighEvents oomEvents oomKills pidsCurrent pidsLimit : Nat)

structure RollupKey extends ResourceScope where
  bucketAt : Time
  deriving DecidableEq

structure RollupRow (ν : Type := Float) where
  sampleCount : Nat
  (cpuSum cpuPeak memorySum memoryPeak : ν)
  (memoryBytesPeak diskUsageBytes diskTotalBytes : Nat)
  cpuCores : Int

/-- A row of `resource_operation_summaries`. -/
structure SummaryRow (ν : Type := Float) where
  projectID : String
  sampleCount : Nat
  (observedStartedAt observedFinishedAt : Time)
  (cpuSum cpuPeak memorySum memoryPeak : ν)
  memoryBytesPeak : Nat

/-- The tables with triggers, and those of authentication that have none. The names of the users are apart from their other
columns. -/
structure Tables where
  access : Access.DB
  names : Table String String
  control : Autback.DB

/-- The store. Summaries are keyed by the kind and the id of the operation, samples are in the order of their ids. -/
structure DB (ν : Type := Float) where
  tables : Tables
  samples : List (ResourceSample ν)
  rollups : Table RollupKey (RollupRow ν)
  summaries : Table (String × String) (SummaryRow ν)
  changes : Journal

def validRatio (value : Float) : Bool := !value.isNaN && !value.isInf && decide (value ≥ 0) && decide (value ≤ 1)

class Ratio (ν : Type) where
  valid : ν → Bool

instance : Ratio Float := ⟨validRatio⟩

section Methods

variable {ν : Type}

def validateResourceSample [Ratio ν] (sample : ResourceSample ν) : Except Err Unit :=
  if sample.observedAt = zeroTime || sample.cpuCores < 1 || sample.memoryTotalBytes = 0 ||
      sample.memoryUsageBytes > sample.memoryTotalBytes || sample.diskUsageBytes > sample.diskTotalBytes ||
      sample.diskInodesUsed > sample.diskInodesTotal then
    .error (.new "resource sample capacities and observation time are invalid")
  else if !Ratio.valid sample.cpuUtilization || !Ratio.valid sample.memoryUtilization || !Ratio.valid sample.cpuPressure ||
      !Ratio.valid sample.memoryPressure || !Ratio.valid sample.memoryFullPressure || !Ratio.valid sample.ioPressure ||
      !Ratio.valid sample.ioFullPressure then
    .error (.new "resource utilization must be between zero and one")
  else if (sample.operationID == "") != (sample.operationKind == "") || sample.operationID ≠ "" && sample.projectID == "" then
    .error (.new "resource operation scope is incomplete")
  else .ok ()

def ResourceSample.summary (sample : ResourceSample ν) : SummaryRow ν :=
  ⟨sample.projectID, 1, sample.observedAt, sample.observedAt, sample.cpuUtilization, sample.cpuUtilization,
    sample.memoryUtilization, sample.memoryUtilization, sample.memoryUsageBytes⟩

/-- `ON CONFLICT … DO UPDATE` on `resource_operation_summaries`. -/
def SummaryRow.merge [Add ν] [Max ν] (r excluded : SummaryRow ν) : SummaryRow ν where
  projectID := excluded.projectID
  sampleCount := r.sampleCount + 1
  observedStartedAt := min r.observedStartedAt excluded.observedStartedAt
  observedFinishedAt := max r.observedFinishedAt excluded.observedFinishedAt
  cpuSum := r.cpuSum + excluded.cpuSum
  cpuPeak := max r.cpuPeak excluded.cpuPeak
  memorySum := r.memorySum + excluded.memorySum
  memoryPeak := max r.memoryPeak excluded.memoryPeak
  memoryBytesPeak := max r.memoryBytesPeak excluded.memoryBytesPeak

/-- `INSERT … ON CONFLICT … DO UPDATE`. -/
def upsert {κ ρ : Type} [DecidableEq κ] (merge : ρ → ρ → ρ) (T : Table κ ρ) (k : κ) (row : ρ) : Table κ ρ :=
  match T.lookup k with
  | none => T.insert k row
  | some old => T.insert k (merge old row)

def DB.appendResourceSample [Ratio ν] [Add ν] [Max ν] (db : DB ν) (sample : ResourceSample ν) : Except Err (DB ν) :=
  match validateResourceSample sample with
  | .error e => .error e
  | .ok _ => .ok { db with
      samples := db.samples ++ [sample]
      summaries :=
        if sample.operationID ≠ "" then
          upsert SummaryRow.merge db.summaries (sample.operationKind, sample.operationID) sample.summary
        else db.summaries
      changes := db.changes.insert }

def ResourceSample.rollup (sample : ResourceSample ν) : RollupKey :=
  { sample.toResourceScope with bucketAt := Int.tdiv sample.observedAt minute * minute }

/-- `MAX` over non-negative values. -/
def peak {α : Type} [Max α] [OfNat α 0] (values : List α) : α := values.foldl max 0

def rollupOf [Max ν] [OfNat ν 0] (E : Engine ν) (group : List (ResourceSample ν)) : RollupRow ν where
  sampleCount := group.length
  cpuSum := E.sum (group.map (·.cpuUtilization))
  cpuPeak := peak (group.map (·.cpuUtilization))
  memorySum := E.sum (group.map (·.memoryUtilization))
  memoryPeak := peak (group.map (·.memoryUtilization))
  memoryBytesPeak := peak (group.map (·.memoryUsageBytes))
  diskUsageBytes := peak (group.map (·.diskUsageBytes))
  diskTotalBytes := peak (group.map (·.diskTotalBytes))
  cpuCores := peak (group.map (·.cpuCores))

/-- `ON CONFLICT … DO UPDATE` on `resource_minute_rollups`. -/
def RollupRow.merge [Add ν] [Max ν] (r excluded : RollupRow ν) : RollupRow ν where
  sampleCount := r.sampleCount + excluded.sampleCount
  cpuSum := r.cpuSum + excluded.cpuSum
  cpuPeak := max r.cpuPeak excluded.cpuPeak
  memorySum := r.memorySum + excluded.memorySum
  memoryPeak := max r.memoryPeak excluded.memoryPeak
  memoryBytesPeak := max r.memoryBytesPeak excluded.memoryBytesPeak
  diskUsageBytes := excluded.diskUsageBytes
  diskTotalBytes := excluded.diskTotalBytes
  cpuCores := excluded.cpuCores

def DB.compactResourceSamples [Add ν] [Max ν] [OfNat ν 0] (E : Engine ν) (db : DB ν) (rawBefore rollupBefore : Time) :
    Except Err (DB ν) :=
  if rawBefore = zeroTime || rollupBefore = zeroTime || !decide (rollupBefore < rawBefore) then
    .error (.new "resource retention boundaries are invalid")
  else
    let old := db.samples.filter fun sample => decide (sample.observedAt < rawBefore)
    let rollups := (old.map ResourceSample.rollup).dedup.foldl (fun rollups k =>
      upsert RollupRow.merge rollups k (rollupOf E (old.filter fun sample => sample.rollup = k))) db.rollups
    .ok { db with
      samples := db.samples.filter fun sample => !decide (sample.observedAt < rawBefore)
      rollups := Table.delete rollups fun k _ => decide (k.bucketAt < rollupBefore) }

end Methods

/-! ## Transactions -/

structure Tables.Same (T T' : Tables) : Prop where
  users : T'.access.auth.users = T.access.auth.users
  names : T'.names = T.names
  projects : T'.access.projects = T.access.projects
  members : T'.access.members = T.access.members
  tokens : T'.access.auth.tokens = T.access.auth.tokens
  enrollments : T'.access.auth.enrollments = T.access.auth.enrollments
  trusts : T'.access.trusts = T.access.trusts
  audit : T'.control.audit = T.control.audit
  jobs : T'.control.jobs = T.control.jobs
  builds : T'.control.builds = T.control.builds
  queue : T'.control.queue = T.control.queue

/-- A transaction that commits. Those on the tables of projects, users and operations may do anything; `rows` is the number of
rows of tables with triggers that they insert, update or delete. -/
inductive Commit (E : Engine) : DB → DB → Prop
  | write (db : DB) (tables : Tables) (rows : Nat) (h : rows = 0 → db.tables.Same tables) :
    Commit E db { db with tables := tables, changes := db.changes.record rows }
  | append (db : DB) {db' : DB} (sample : ResourceSample) (h : db.appendResourceSample sample = .ok db') : Commit E db db'
  | compact (db : DB) {db' : DB} (rawBefore rollupBefore : Time)
      (h : db.compactResourceSamples E rawBefore rollupBefore = .ok db') : Commit E db db'

def DB.revision (db : DB) : Nat := db.changes.currentRevision

/-! ## Statements that read -/

structure ResourceFilter extends ResourceScope where
  (fromTime toTime : Time)
  deriving DecidableEq

def ResourceFilter.admits (filter : ResourceFilter) (scope : ResourceScope) (time : Time) : Bool :=
  (filter.projectID == "" || scope.projectID == filter.projectID) &&
  (filter.operationKind == "" || scope.operationKind == filter.operationKind) &&
  (filter.operationID == "" || scope.operationID == filter.operationID) &&
  (filter.fromTime == zeroTime || decide (time ≥ filter.fromTime)) &&
  (filter.toTime == zeroTime || decide (time ≤ filter.toTime))

structure QueueOperation where
  op : Op
  state : OperationState
  acceptedAt : Time
  leasedAt : Option Time
  projectID : String

/-- Which projects a statement of `ListProjects` selects. -/
inductive ProjectScope
  | one (id : String)
  | all
  | memberOf (userID : String)

/-- Which events a statement of `ListAuditEvents` selects. -/
inductive AuditScope
  | project (id : String)
  | all
  | visibleTo (userID : String)

inductive Query
  | currentRevision
  | projects (scope : ProjectScope)
  | project (selector : String)
  | isMember (projectID userID : String)
  | memberCount (projectID : String)
  | trusts (projectID : String)
  | user (id : String)
  | queue
  | jobs (projectID : String) (limit : Nat)
  | builds (projectID : String) (limit : Nat)
  | job (id : String)
  | build (id : String)
  | audits (scope : AuditScope) (limit : Nat)
  | summaries (projectID : String) (limit : Nat)
  | summary (operationKind operationID : String)
  | samples (filter : ResourceFilter) (limit : Nat)
  | rollups (filter : ResourceFilter) (limit : Nat)

@[reducible]
def Query.Rows : Query → Type
  | currentRevision => Nat
  | projects _ => List Access.Project
  | project _ => Option Access.Project
  | isMember _ _ => Bool
  | memberCount _ => Nat
  | trusts _ => List Access.GitHubTrust
  | user _ => Option String
  | queue => List QueueOperation
  | jobs _ _ => List Job
  | builds _ _ => List Build
  | job _ => Option Job
  | build _ => Option Build
  | audits _ _ => List (Nat × AuditEvent)
  | summaries _ _ => List ((String × String) × SummaryRow)
  | summary _ _ => Option SummaryRow
  | samples _ _ => List ResourceSample
  | rollups _ _ => List (RollupKey × RollupRow)

namespace Tables

variable (T : Tables)

def projects : ProjectScope → List Access.Project
  | .one id => Access.listed T.access fun p => p.id == id
  | .all => Access.listed T.access fun _ => true
  | .memberOf userID => Access.listed T.access fun p => (T.access.members.lookup (p.id, userID)).isSome

/-- The statement of `ListGitHubTrusts`. The console only counts the trusts, so their order is left out. -/
def trusts (projectID : String) : List Access.GitHubTrust :=
  ((Table.rows T.access.trusts).filter fun e => e.2.projectID == projectID).map fun e => e.2.trust e.1

def projectOf (op : Op) : String :=
  match op.kind with
  | .job => ((T.control.jobs.lookup op.id).map (·.projectID)).getD ""
  | .build => ((T.control.builds.lookup op.id).map (·.projectID)).getD ""

def queue : List QueueOperation :=
  (((Table.rows T.control.queue.table).filter fun e => e.2.state ≠ .released).insertionSort fun a b =>
    a.2.sequence ≤ b.2.sequence).map fun e => ⟨e.1, e.2.state, e.2.acceptedAt, e.2.leasedAt, T.projectOf e.1⟩

/-- The statement of `ListBuilds`, newest first. -/
def builds (projectID : String) (limit : Nat) : List Build :=
  ((((Table.rows T.control.builds).filter fun e => e.2.projectID == projectID).insertionSort fun a b =>
    a.2.createdAt > b.2.createdAt ∨ (a.2.createdAt = b.2.createdAt ∧ b.1 ≤ a.1)).take limit).map fun e => scanBuild e.1 e.2

def shows (scope : AuditScope) (event : AuditEvent) : Bool :=
  match scope with
  | .project id => event.projectID == some id
  | .all => true
  | .visibleTo userID => match event.projectID with
    | some projectID => (T.access.members.lookup (projectID, userID)).isSome
    | none => event.actorID == userID

def audits (scope : AuditScope) (limit : Nat) : List (Nat × AuditEvent) :=
  (((T.control.audit.zipIdx.map fun e => (e.2 + 1, e.1)).filter fun e => T.shows scope e.2).insertionSort fun a b =>
    a.2.createdAt > b.2.createdAt ∨ (a.2.createdAt = b.2.createdAt ∧ b.1 ≤ a.1)).take limit

end Tables

namespace DB

variable (db : DB)

def listSummaries (projectID : String) (limit : Nat) : List ((String × String) × SummaryRow) :=
  (((Table.rows db.summaries).filter fun e => projectID == "" || e.2.projectID == projectID).insertionSort fun a b =>
    a.2.observedFinishedAt ≥ b.2.observedFinishedAt).take limit

def listSamples (filter : ResourceFilter) (limit : Nat) : List ResourceSample :=
  let found := (db.samples.filter fun sample => filter.admits sample.toResourceScope sample.observedAt).insertionSort
    fun a b => a.observedAt ≤ b.observedAt
  found.drop (found.length - limit)

def listRollups (filter : ResourceFilter) (limit : Nat) : List (RollupKey × RollupRow) :=
  (((Table.rows db.rollups).filter fun e => filter.admits e.1.toResourceScope e.1.bucketAt).insertionSort fun a b =>
    a.1.bucketAt ≥ b.1.bucketAt).take limit

end DB

/-- What a statement returns on the tables `db`. -/
def Query.eval (E : Engine) (db : DB) : (q : Query) → q.Rows
  | currentRevision => db.revision
  | projects scope => db.tables.projects scope
  | project selector => (Access.project E.toEngine db.tables.access selector).toOption
  | isMember projectID userID => (db.tables.access.members.lookup (projectID, userID)).isSome
  | memberCount projectID => (Table.rows db.tables.access.members).countP fun e => e.1.1 == projectID
  | trusts projectID => db.tables.trusts projectID
  | user id => db.tables.names.lookup id
  | queue => db.tables.queue
  | jobs projectID limit => db.tables.control.listJobs projectID limit none
  | builds projectID limit => db.tables.builds projectID limit
  | job id => (db.tables.control.job id).toOption
  | build id => (db.tables.control.build id).toOption
  | audits scope limit => db.tables.audits scope limit
  | summaries projectID limit => db.listSummaries projectID limit
  | summary operationKind operationID => db.summaries.lookup (operationKind, operationID)
  | samples filter limit => db.listSamples filter limit
  | rollups filter limit => db.listRollups filter limit

/-! ## What a transaction changes -/

section Commits

variable {E : Engine} {db db' : DB} {T T' : Tables}

theorem DB.revision_eq (db : DB) : db.revision = db.changes.last := db.changes.currentRevision_eq

theorem DB.appendResourceSample_ok {sample : ResourceSample} (h : db.appendResourceSample sample = .ok db') :
    db'.revision = db.revision + 1 := by
  rw [DB.appendResourceSample] at h
  split at h
  · cases h
  cases h
  rw [DB.revision_eq, DB.revision_eq]
  rfl

theorem DB.compactResourceSamples_ok {rawBefore rollupBefore : Time}
    (h : db.compactResourceSamples E rawBefore rollupBefore = .ok db') :
    db'.tables = db.tables ∧ db'.summaries = db.summaries ∧ db'.changes = db.changes ∧
      db'.samples = db.samples.filter fun sample => !decide (sample.observedAt < rawBefore) := by
  rw [DB.compactResourceSamples] at h
  split at h
  · cases h
  cases h
  exact ⟨rfl, rfl, rfl, rfl⟩

theorem Commit.revision_le (h : Commit E db db') : db.revision ≤ db'.revision := by
  cases h with
  | write tables rows h =>
    rw [DB.revision_eq, DB.revision_eq]
    rw [Journal.last_record]
    omega
  | append sample h =>
    have hnext := DB.appendResourceSample_ok h
    omega
  | compact rawBefore rollupBefore h =>
    rw [DB.revision, DB.revision, (DB.compactResourceSamples_ok h).2.2.1]

structure Unjournaled (db db' : DB) : Prop where
  tables : db.tables.Same db'.tables
  summaries : db'.summaries = db.summaries
  samples : ∀ sample ∈ db'.samples, sample ∈ db.samples

theorem Tables.Same.refl (T : Tables) : T.Same T := ⟨rfl, rfl, rfl, rfl, rfl, rfl, rfl, rfl, rfl, rfl, rfl⟩

theorem Commit.unjournaled (h : Commit E db db') (heq : db.revision = db'.revision) : Unjournaled db db' := by
  cases h with
  | write tables rows h =>
    rw [DB.revision_eq, DB.revision_eq] at heq
    have hlast : db.changes.last = (db.changes.record rows).last := heq
    rw [Journal.last_record] at hlast
    exact ⟨h (by omega), rfl, fun _ hs => hs⟩
  | append sample h =>
    have hnext := DB.appendResourceSample_ok h
    omega
  | compact rawBefore rollupBefore h =>
    obtain ⟨htable, hsummary, -, hsample⟩ := DB.compactResourceSamples_ok h
    refine ⟨?_, hsummary, ?_⟩
    · rw [htable]
      exact .refl _
    intro sample hs
    rw [hsample] at hs
    exact List.mem_of_mem_filter hs

theorem Unjournaled.listSamples_nil (h : Unjournaled db db') {filter : ResourceFilter} {limit : Nat} (hlim : 0 < limit)
    (hnil : db.listSamples filter limit = []) : db'.listSamples filter limit = [] := by
  have hfound : (db.samples.filter fun sample => filter.admits sample.toResourceScope sample.observedAt) = [] := by
    rw [DB.listSamples, List.drop_eq_nil_iff] at hnil
    apply List.eq_nil_of_length_eq_zero
    rw [List.length_insertionSort] at hnil
    omega
  have hfound' : (db'.samples.filter fun sample => filter.admits sample.toResourceScope sample.observedAt) = [] := by
    rw [List.filter_eq_nil_iff] at hfound ⊢
    intro sample hs
    exact hfound sample (h.samples sample hs)
  rw [DB.listSamples, hfound', List.insertionSort_nil, List.drop_nil]

def Query.steady : Query → Bool
  | samples _ _ | rollups _ _ => false
  | _ => true

def Query.plain : Query → Bool
  | currentRevision | samples _ _ | rollups _ _ => false
  | _ => true

theorem Query.steady_of_plain {q : Query} (h : q.plain = true) : q.steady = true := by
  cases q <;> first | rfl | cases h

theorem Tables.Same.listed (h : T.Same T') (visible : Access.Project → Bool) :
    Access.listed T'.access visible = Access.listed T.access visible := by
  simp only [Access.listed, Access.DB.allProjects, h.projects]

theorem Tables.Same.projects_eq (h : T.Same T') (scope : ProjectScope) : T'.projects scope = T.projects scope := by
  cases scope with
  | one id => exact h.listed _
  | all => exact h.listed _
  | memberOf userID =>
    rw [Tables.projects, Tables.projects, h.listed, h.members]

theorem Tables.Same.project_eq (h : T.Same T') (selector : String) :
    Access.project E.toEngine T'.access selector = Access.project E.toEngine T.access selector := by
  simp only [Access.project, Access.selected, h.projects]

theorem Tables.Same.queue_eq (h : T.Same T') : T'.queue = T.queue := by
  have hproject : T'.projectOf = T.projectOf := by
    funext op
    simp only [Tables.projectOf, h.jobs, h.builds]
  simp only [Tables.queue, h.queue, hproject]

theorem Tables.Same.audits_eq (h : T.Same T') (scope : AuditScope) (limit : Nat) :
    T'.audits scope limit = T.audits scope limit := by
  have hshow : T'.shows = T.shows := by
    funext scope event
    simp only [Tables.shows, h.members]
  simp only [Tables.audits, h.audit, hshow]

theorem Unjournaled.eval_eq (h : Unjournaled db db') (heq : db.revision = db'.revision) {q : Query} (hq : q.steady = true) :
    q.eval E db' = q.eval E db := by
  have htable := h.tables
  cases q with
  | currentRevision => exact heq.symm
  | projects scope => exact htable.projects_eq scope
  | project selector => exact congrArg Except.toOption (htable.project_eq selector)
  | isMember projectID userID => simp only [Query.eval, htable.members]
  | memberCount projectID => simp only [Query.eval, htable.members]
  | trusts projectID => simp only [Query.eval, Tables.trusts, htable.trusts]
  | user id => simp only [Query.eval, htable.names]
  | queue => exact htable.queue_eq
  | jobs projectID limit => simp only [Query.eval, DB.listJobs, htable.jobs]
  | builds projectID limit => simp only [Query.eval, Tables.builds, htable.builds]
  | job id => simp only [Query.eval, DB.job, htable.jobs]
  | build id => simp only [Query.eval, DB.build, htable.builds]
  | audits scope limit => exact htable.audits_eq scope limit
  | summaries projectID limit => simp only [Query.eval, DB.listSummaries, h.summaries]
  | summary operationKind operationID => simp only [Query.eval, h.summaries]
  | samples filter limit => cases hq
  | rollups filter limit => cases hq

end Commits

end Console

end Autback
