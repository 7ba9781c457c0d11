import Autback.Conc.Reads
import Autback.Console.Store

/-!
# Console snapshots

`SQLiteSource.Snapshot` of `internal/console/source.go` as a program that reads; between two of its calls any transaction may
commit. It takes the revision before and after the reads of a view, and tries again if they differ.

A view that is returned with revision `r` has read a single state of the store, whose revision is `r` (`snapshot_consistent`).
For the tables with triggers that is the argument of `Conc.Guards`. A compaction has none, but it affects only the samples and
the rollups, and the rollups are read only if there are no samples.

The arithmetic of averages and percentiles and the texts of the views are left out.
-/

namespace Autback

namespace Console

open Conc
open Fallible (only_bind)

/-! ## Routes and views -/

inductive RouteKind
  | overview
  | project
  | operation
  | audit
  deriving DecidableEq

structure Route where
  kind : RouteKind
  (project operationKind operationID : String)
  deriving DecidableEq

structure ProjectView where
  (id slug name activeImage : String)
  allowImageOverrides : Bool
  (members trusts : Nat)

structure QueueView where
  position : Nat
  op : Op
  (project projectName : String)
  status : OperationState
  acceptedAt : Time
  leasedAt : Option Time

inductive AnyOperation
  | job (job : Job)
  | build (build : Build)

namespace AnyOperation

def op : AnyOperation → Op
  | job j => ⟨.job, j.id⟩
  | build b => ⟨.build, b.id⟩

def createdAt : AnyOperation → Time
  | job j => j.createdAt
  | build b => b.createdAt

end AnyOperation

/-- `OperationView`, with the summary and the queue entry that `augmentOperation` adds. -/
structure OperationView where
  operation : AnyOperation
  project : Access.Project
  summary : Option SummaryRow
  queue : Option QueueView

inductive ResourceView
  | samples (samples : List ResourceSample)
  | rollups (rollups : List (RollupKey × RollupRow))

structure AuditView where
  id : Nat
  (actor action target project : String)
  metadata : List (String × String)
  createdAt : Time

structure Snapshot where
  revision : Nat
  user : String
  admin : Bool
  projects : List ProjectView
  online : Bool
  activeID : String
  resources : ResourceView
  queue : List QueueView
  operations : List OperationView
  operation : Option OperationView
  audit : List AuditView
  updatedAt : Time

/-! ## Calls -/

/-- What the program asks: a statement of the store, the clock, or whether the worker is there. -/
inductive Call
  | store (q : Query)
  | now
  | check

@[reducible]
def Call.Ret : Call → Type
  | store q => q.Rows
  | now => Time
  | check => Bool

def answers (E : Engine) (db : DB) : (c : Call) → c.Ret → Prop
  | .store q, r => r = q.eval E db
  | .now, _ => True
  | .check, _ => True

abbrev Reading (α : Type) := Fallible Call Call.Ret Err α

def perform (c : Call) : Reading c.Ret := Fallible.ofProg (Prog.lift c)

def query (q : Query) : Reading q.Rows := perform (.store q)

/-- `errors.New("forbidden")`, the sentinel. -/
def forbidden : Err := ⟨"forbidden", [.forbidden], false⟩

/-! ## Methods of the store -/

def found {α : Type} : Option α → Reading α
  | none => Fallible.throw .notFound
  | some a => pure a

def listProjects (principal : Principal) : Reading (List Access.Project) :=
  if principal.projectID ≠ "" then query (.projects (.one principal.projectID))
  else if principal.userID = "" then Fallible.throw forbidden
  else if principal.admin then query (.projects .all)
  else query (.projects (.memberOf principal.userID))

def authorizeProject (principal : Principal) (selector : String) : Reading Access.Project := do
  let project ← query (.project selector) >>= found
  if principal.projectID ≠ "" then
    if principal.projectID ≠ project.id then Fallible.throw forbidden else return project
  else if principal.userID = "" then Fallible.throw forbidden
  else if principal.admin then return project
  else do
    let exists_ ← query (.isMember project.id principal.userID)
    if exists_ then return project else Fallible.throw forbidden

def listGitHubTrusts (principal : Principal) (selector : String) : Reading (List Access.GitHubTrust) := do
  let project ← authorizeProject principal selector
  query (.trusts project.id)

def listQueue (principal : Principal) : Reading (List QueueOperation) := do
  let projects ← listProjects principal
  let rows ← query .queue
  return rows.filter fun item => item.projectID != "" && projects.any fun p => p.id == item.projectID

def listJobs (projectID : String) (pageSize : Nat) : Reading (List Job) := do
  let jobs ← query (.jobs projectID (pageSize + 1))
  return jobs.take pageSize

def listAuditEvents (principal : Principal) (projectID : String) (limit : Nat) : Reading (List (Nat × AuditEvent)) :=
  if projectID ≠ "" then do
    let project ← authorizeProject principal projectID
    query (.audits (.project project.id) limit)
  else if principal.kind = .github then query (.audits (.project principal.projectID) limit)
  else if !principal.admin then query (.audits (.visibleTo principal.userID) limit)
  else query (.audits .all limit)

/-! ## The view -/

def readUser (principal : Principal) : Reading String :=
  if principal.userID ≠ "" then query (.user principal.userID) >>= found else return principal.subject

def forEach {α β : Type} (f : α → Reading β) : List α → Reading (List β)
  | [] => return []
  | a :: as => do
    let b ← f a
    let bs ← forEach f as
    return b :: bs

def readProject (principal : Principal) (project : Access.Project) : Reading ProjectView := do
  let members ← query (.memberCount project.id)
  let trusts ← listGitHubTrusts principal project.id
  return ⟨project.id, project.slug, project.name, project.activeImage, project.allowImageOverrides, members,
    trusts.countP fun trust => trust.revokedAt.isNone⟩

def selectProject (principal : Principal) (route : Route) : Reading String :=
  if route.kind = .project then do
    let project ← authorizeProject principal route.project
    return project.id
  else return ""

def projectByID (projects : List Access.Project) (id : String) : Access.Project :=
  (projects.find? fun p => p.id == id).getD ⟨"", "", "", "", "", false⟩

def queueViews (projects : List Access.Project) (selected : String) (records : List QueueOperation) : List QueueView :=
  (records.zipIdx.filter fun e => selected == "" || e.1.projectID == selected).map fun e =>
    let project := projectByID projects e.1.projectID
    ⟨e.2 + 1, e.1.op, project.slug, project.name, e.1.state, e.1.acceptedAt, e.1.leasedAt⟩

def activeID (queue : List QueueView) : String :=
  ((queue.filter fun item => item.status = .active).getLast?.map (·.op.id)).getD ""

def readOperations (project : Access.Project) : Reading (List OperationView) := do
  let jobs ← listJobs project.id 24
  let builds ← query (.builds project.id 24)
  return jobs.map (fun job => ⟨.job job, project, none, none⟩) ++ builds.map fun build => ⟨.build build, project, none, none⟩

def OperationView.before (a b : OperationView) : Prop :=
  if a.operation.createdAt = b.operation.createdAt then a.operation.op.id > b.operation.op.id
  else a.operation.createdAt > b.operation.createdAt

instance (a b : OperationView) : Decidable (a.before b) := inferInstanceAs (Decidable (ite _ _ _))

def operations (projects : List Access.Project) (selected : String) : Reading (List OperationView) := do
  let found ← forEach readOperations (projects.filter fun p => selected == "" || p.id == selected)
  return (found.flatten.insertionSort OperationView.before).take 40

abbrev Summaries := List ((String × String) × SummaryRow)

def Summaries.of (summaries : Summaries) (op : Op) : Option SummaryRow :=
  (summaries.find? fun e => e.1 == (op.kind.text, op.id)).map (·.2)

def readSummaries (route : Route) (selected : String) : Reading Summaries := do
  let summaries ← query (.summaries selected 200)
  if route.kind = .operation && !(summaries.any fun e => e.1 == (route.operationKind, route.operationID)) then do
    let summary ← query (.summary route.operationKind route.operationID)
    match summary with
    | none => return summaries
    | some row => return summaries ++ [((route.operationKind, route.operationID), row)]
  else return summaries

def augmentOperation (summaries : Summaries) (queue : List QueueView) (v : OperationView) : OperationView :=
  { v with summary := summaries.of v.operation.op, queue := queue.find? fun item => item.op = v.operation.op }

def resources (route : Route) (selected : String) : Reading ResourceView := do
  let now ← perform .now
  let filter : ResourceFilter :=
    if route.kind = .operation then ⟨⟨"", route.operationKind, route.operationID⟩, zeroTime, zeroTime⟩
    else ⟨⟨selected, "", ""⟩, now - 60 * minute, zeroTime⟩
  let samples ← query (.samples filter 5000)
  if samples.isEmpty && route.kind = .operation then do
    let rollups ← query (.rollups filter 5000)
    return .rollups rollups
  else return .samples samples

def operation (principal : Principal) (route : Route) : Reading OperationView :=
  if route.operationKind = "job" then do
    let job ← query (.job route.operationID) >>= found
    let project ← authorizeProject principal job.projectID
    return ⟨.job job, project, none, none⟩
  else if route.operationKind = "build" then do
    let build ← query (.build route.operationID) >>= found
    let project ← authorizeProject principal build.projectID
    return ⟨.build build, project, none, none⟩
  else Fallible.throw .notFound

def readDetail (principal : Principal) (route : Route) : Reading (Option OperationView) :=
  if route.kind = .operation then do
    let view ← operation principal route
    return some view
  else return none

/-- The projects by id, after `operation` has added that of a job. -/
def withDetail (projects : List Access.Project) : Option OperationView → List Access.Project
  | some ⟨.job _, project, _, _⟩ => project :: projects
  | _ => projects

def auditView (principal : Principal) (userName : String) (projects : List Access.Project) (e : Nat × AuditEvent) : AuditView :=
  let event := e.2
  ⟨e.1, if event.actorID = principal.userID then userName else event.actorID, event.action, event.targetID,
    (projectByID projects (event.projectID.getD "")).slug, event.metadata.getD [], event.createdAt⟩

/-- What `readSnapshot` has read before it turns to the resources. -/
structure Overview where
  userName : String
  projects : List Access.Project
  projectViews : List ProjectView
  selected : String
  queue : List QueueView
  operations : List OperationView
  summaries : Summaries

/-- The first part of `readSnapshot`. -/
def readOverview (principal : Principal) (route : Route) : Reading Overview := do
  let projects ← listProjects principal
  let userName ← readUser principal
  let projectViews ← forEach (readProject principal) projects
  let selected ← selectProject principal route
  let records ← listQueue principal
  let operations ← operations projects selected
  let summaries ← readSummaries route selected
  return ⟨userName, projects, projectViews, selected, queueViews projects selected records, operations, summaries⟩

def readRest (principal : Principal) (route : Route) (v : Overview) (resources : ResourceView) : Reading Snapshot := do
  let detail ← readDetail principal route
  let events ← listAuditEvents principal v.selected 80
  let online ← perform .check
  let now ← perform .now
  return {
    revision := 0
    user := v.userName
    admin := principal.admin
    projects := v.projectViews
    online := online
    activeID := activeID v.queue
    resources := resources
    queue := v.queue
    operations := v.operations.map (augmentOperation v.summaries v.queue)
    operation := detail.map (augmentOperation v.summaries v.queue)
    audit := events.map (auditView principal v.userName (withDetail v.projects detail))
    updatedAt := now }

def readSnapshot (principal : Principal) (route : Route) : Reading Snapshot := do
  let v ← readOverview principal route
  let r ← resources route v.selected
  readRest principal route v r

def attempt (principal : Principal) (route : Route) : Nat → Reading Snapshot
  | 0 => Fallible.throw (.new "control state changed too quickly to produce a consistent console snapshot")
  | n + 1 => do
    let before ← query .currentRevision
    let view ← readSnapshot principal route
    let after ← query .currentRevision
    if before = after then return { view with revision := after } else attempt principal route n

def snapshot (principal : Principal) (route : Route) : Reading Snapshot := attempt principal route 5

/-! ## Reads that change only with the revision -/

def Call.Steady : Call → Prop
  | store q => q.steady = true
  | _ => True

def Call.Plain : Call → Prop
  | store q => q.plain = true
  | _ => True

theorem Call.Plain.steady {c : Call} (h : c.Plain) : c.Steady := by
  cases c with
  | store q => exact Query.steady_of_plain h
  | now => trivial
  | check => trivial

theorem guards (E : Engine) : Guards (Commit E) (answers E) DB.revision Call.Steady where
  le _ _ h := h.revision_le
  same db db' h heq c hc r := by
    cases c with
    | store q =>
      show r = q.eval E db ↔ r = q.eval E db'
      rw [(h.unjournaled heq).eval_eq heq hc]
    | now => exact Iff.rfl
    | check => exact Iff.rfl

section Plain

variable (principal : Principal) (route : Route)

theorem plain_query {q : Query} (h : q.plain = true) : Prog.Only Call.Plain (query q) := ⟨h, fun _ => trivial⟩

theorem plain_found {α : Type} (r : Option α) : Prog.Only Call.Plain (found r) := by
  cases r <;> trivial

theorem plain_listProjects : Prog.Only Call.Plain (listProjects principal) := by
  rw [listProjects]
  split
  · exact plain_query rfl
  split
  · trivial
  · split <;> exact plain_query rfl

theorem plain_authorizeProject (selector : String) : Prog.Only Call.Plain (authorizeProject principal selector) := by
  apply only_bind
  · exact only_bind (plain_query rfl) plain_found
  intro project
  split
  · split <;> trivial
  split
  · trivial
  split
  · trivial
  apply only_bind (plain_query rfl)
  intro isMember
  split <;> trivial

theorem plain_forEach {α β : Type} {f : α → Reading β} (hf : ∀ a, Prog.Only Call.Plain (f a)) (as : List α) :
    Prog.Only Call.Plain (forEach f as) := by
  induction as with
  | nil => trivial
  | cons a as ih => exact only_bind (hf a) fun _ => only_bind ih fun _ => trivial

theorem plain_readOverview : Prog.Only Call.Plain (readOverview principal route) := by
  apply only_bind (plain_listProjects principal)
  intro projects
  apply only_bind
  · rw [readUser]
    split
    · exact only_bind (plain_query rfl) plain_found
    · trivial
  intro userName
  apply only_bind
  · apply plain_forEach
    intro project
    apply only_bind (plain_query rfl)
    intro members
    apply only_bind
    · exact only_bind (plain_authorizeProject principal project.id) fun _ => plain_query rfl
    · exact fun _ => trivial
  intro projectViews
  apply only_bind
  · rw [selectProject]
    split
    · exact only_bind (plain_authorizeProject principal _) fun _ => trivial
    · trivial
  intro selected
  apply only_bind
  · exact only_bind (plain_listProjects principal) fun _ =>
      only_bind (plain_query rfl) fun _ => trivial
  intro records
  apply only_bind
  · apply only_bind
    · apply plain_forEach
      intro project
      apply only_bind
      · exact only_bind (plain_query rfl) fun _ => trivial
      · exact fun _ => only_bind (plain_query rfl) fun _ => trivial
    · exact fun _ => trivial
  intro operations
  apply only_bind
  · apply only_bind (plain_query rfl)
    intro summaries
    split
    · apply only_bind (plain_query rfl)
      intro summary
      cases summary <;> trivial
    · trivial
  · exact fun _ => trivial

theorem plain_readRest (v : Overview) (resources : ResourceView) :
    Prog.Only Call.Plain (readRest principal route v resources) := by
  apply only_bind
  · rw [readDetail]
    split
    · apply only_bind
      · rw [operation]
        split
        · exact only_bind (only_bind (plain_query rfl) plain_found) fun _ =>
            only_bind (plain_authorizeProject principal _) fun _ => trivial
        split
        · exact only_bind (only_bind (plain_query rfl) plain_found) fun _ =>
            only_bind (plain_authorizeProject principal _) fun _ => trivial
        · trivial
      · exact fun _ => trivial
    · trivial
  intro detail
  apply only_bind
  · rw [listAuditEvents]
    split
    · exact only_bind (plain_authorizeProject principal _) fun _ => plain_query rfl
    split
    · exact plain_query rfl
    · split <;> exact plain_query rfl
  intro events
  exact ⟨trivial, fun _ => ⟨trivial, fun _ => trivial⟩⟩

end Plain

/-! ## A single state -/

section Consistent

variable {E : Engine} {db db' : DB}

variable {tr : Trace Call Call.Ret} {route : Route}

theorem exec_query {q : Query} {rows : q.Rows} (h : Exec (Commit E) (answers E) db (query q) tr (.ok rows) db') :
    ∃ s, Relation.ReflTransGen (Commit E) db s ∧ Relation.ReflTransGen (Commit E) s db' ∧ rows = q.eval E s ∧
      tr = [⟨.store q, rows⟩] := by
  obtain ⟨s, r, tr', hmove, hr, htr, hrest⟩ := h.of_call
  obtain ⟨heq, hnil⟩ := hrest.of_ret
  cases heq
  rw [hnil] at htr
  exact ⟨s, hmove, hrest.moves, hr, htr⟩

theorem listSamples_nil_of_moves {filter : ResourceFilter} {limit : Nat} (hlim : 0 < limit)
    (h : Relation.ReflTransGen (Commit E) db db') (heq : db.revision = db'.revision)
    (hnil : db.listSamples filter limit = []) : db'.listSamples filter limit = [] := by
  induction h with
  | refl => exact hnil
  | @tail u t h hcomm ih =>
    have hle := (guards E).le_of_moves h
    have hle' := hcomm.revision_le
    exact (hcomm.unjournaled (by omega)).listSamples_nil hlim (ih (by omega))

theorem exec_resources {selected : String} {v : ResourceView}
    (h : Exec (Commit E) (answers E) db (resources route selected) tr (.ok v) db') (heq : db.revision = db'.revision) :
    ∃ s, Relation.ReflTransGen (Commit E) db s ∧ Relation.ReflTransGen (Commit E) s db' ∧
      ∀ x ∈ tr, x.1.Steady ∨ answers E s x.1 x.2 := by
  obtain ⟨u0, now, tr0, hmove0, -, htr0, h0⟩ := h.of_call
  subst htr0
  obtain ⟨tr1, samples, u2, tr2, htr, h1, h2⟩ := Exec.of_bind_ok h0
  subst htr
  obtain ⟨u1, hmove1, hmove2, hsample, rfl⟩ := exec_query h1
  have hnow : ∀ (x : Σ c : Call, c.Ret), x = ⟨.now, now⟩ → x.1.Steady := by
    rintro _ rfl
    trivial
  split at h2
  · rename_i hempty
    obtain ⟨tr3, rollups, u4, tr4, htr', h3, h4⟩ := Exec.of_bind_ok h2
    obtain ⟨-, hnil⟩ := h4.of_ret
    obtain ⟨u3, hmove3, hmove4, hrollup, rfl⟩ := exec_query h3
    subst htr' hnil
    have hbefore : Relation.ReflTransGen (Commit E) u1 u3 := hmove2.trans hmove3
    have hafter : Relation.ReflTransGen (Commit E) u3 db' := hmove4.trans h4.moves
    have hstart : Relation.ReflTransGen (Commit E) db u1 := hmove0.trans hmove1
    refine ⟨u3, hstart.trans hbefore, hafter, ?_⟩
    have hrev : u1.revision = u3.revision := by
      have hle1 := (guards E).le_of_moves hstart
      have hle2 := (guards E).le_of_moves hbefore
      have hle3 := (guards E).le_of_moves hafter
      omega
    rw [Bool.and_eq_true, List.isEmpty_iff] at hempty
    intro x hx
    simp only [List.cons_append, List.nil_append, List.mem_cons, List.not_mem_nil, or_false] at hx
    rcases hx with hx | rfl | rfl
    · exact .inl (hnow x hx)
    · -- a compaction between the two statements leaves no samples
      right
      rw [hempty.1] at hsample
      have hnil := listSamples_nil_of_moves (by omega) hbefore hrev hsample.symm
      rw [hempty.1]
      exact hnil.symm
    · exact .inr hrollup
  · obtain ⟨-, hnil⟩ := h2.of_ret
    subst hnil
    refine ⟨u1, hmove0.trans hmove1, hmove2.trans h2.moves, ?_⟩
    intro x hx
    simp only [List.append_nil, List.mem_cons, List.not_mem_nil, or_false] at hx
    rcases hx with hx | rfl
    · exact .inl (hnow x hx)
    · exact .inr hsample

theorem exec_readSnapshot {principal : Principal} {view : Snapshot}
    (h : Exec (Commit E) (answers E) db (readSnapshot principal route) tr (.ok view) db') (heq : db.revision = db'.revision) :
    ∃ s, Relation.ReflTransGen (Commit E) db s ∧ Relation.ReflTransGen (Commit E) s db' ∧
      ∀ x ∈ tr, answers E s x.1 x.2 := by
  obtain ⟨tr1, v, u1, tr', htr', h1, h'⟩ := Exec.of_bind_ok h
  obtain ⟨tr2, r, u2, tr3, htr, h2, h3⟩ := Exec.of_bind_ok h'
  have hle1 := (guards E).le_of_moves h1.moves
  have hle2 := (guards E).le_of_moves h2.moves
  have hle3 := (guards E).le_of_moves h3.moves
  obtain ⟨s, hbefore, hafter, hres⟩ := exec_resources h2 (by omega)
  have hstart := h1.moves.trans hbefore
  have hend := hafter.trans h3.moves
  have hrev : s.revision = db'.revision := by
    have hle4 := (guards E).le_of_moves hstart
    have hle5 := (guards E).le_of_moves hend
    omega
  have hste : ∀ x ∈ tr, x.1.Steady → answers E s x.1 x.2 := by
    intro x hx hx'
    exact ((guards E).answers_iff hend hrev hx' x.2).mpr ((guards E).answers_of_exec h heq x hx hx')
  refine ⟨s, hstart, hend, ?_⟩
  intro x hx
  have hx' := hx
  rw [htr', htr, List.mem_append, List.mem_append] at hx'
  rcases hx' with hx' | hx' | hx'
  · exact hste x hx (h1.only (plain_readOverview principal route) x hx').steady
  · rcases hres x hx' with hx'' | hx''
    · exact hste x hx hx''
    · exact hx''
  · exact hste x hx (h3.only (plain_readRest principal route v r) x hx').steady

theorem exec_attempt {principal : Principal} {n : Nat} {view : Snapshot}
    (h : Exec (Commit E) (answers E) db (attempt principal route n) tr (.ok view) db') :
    ∃ s tr' view', Relation.ReflTransGen (Commit E) db s ∧ Relation.ReflTransGen (Commit E) s db' ∧ tr' <:+: tr ∧
      Exec (fun _ _ => False) (answers E) s (readSnapshot principal route) tr' (.ok view') s ∧
      view = { view' with revision := s.revision } := by
  induction n generalizing db tr with
  | zero => cases h.of_ret.1
  | succ n ih =>
    rw [attempt] at h
    obtain ⟨tr1, before, u1, tr2, rfl, h1, h⟩ := Exec.of_bind_ok h
    obtain ⟨tr3, view', u2, tr4, rfl, h2, h⟩ := Exec.of_bind_ok h
    obtain ⟨tr5, after, u3, tr6, rfl, h3, h⟩ := Exec.of_bind_ok h
    split at h
    · rename_i hsame
      obtain ⟨hview, rfl⟩ := h.of_ret
      cases hview
      obtain ⟨s1, hstart, hmove1, hbefore, -⟩ := exec_query h1
      obtain ⟨s2, hmove2, hend, hafter, -⟩ := exec_query h3
      -- the revision is the same when the first statement is answered and when the last one is
      have hrev : s1.revision = s2.revision := hbefore.symm.trans (hsame.trans hafter)
      have hle1 := (guards E).le_of_moves hmove1
      have hle2 := (guards E).le_of_moves h2.moves
      have hle3 := (guards E).le_of_moves hmove2
      obtain ⟨s, hs1, hs2, hall⟩ := exec_readSnapshot h2 (by omega)
      have hle4 := (guards E).le_of_moves hs1
      have hle5 := (guards E).le_of_moves hs2
      refine ⟨s, tr3, view', (hstart.trans hmove1).trans hs1, ((hs2.trans hmove2).trans hend).trans h.moves, ?_,
        h2.atomic hall, ?_⟩
      · exact ⟨tr1, tr5 ++ [], by simp⟩
      have hs : s2.revision = s.revision := by omega
      rw [hafter.trans hs]
    obtain ⟨s, tr', view'', hs1, hs2, ⟨earlier, later, htr⟩, hexec, hview⟩ := ih h
    refine ⟨s, tr', view'', ?_, hs2, ⟨tr1 ++ tr3 ++ tr5 ++ earlier, later, ?_⟩, hexec, hview⟩
    · exact ((h1.moves.trans h2.moves).trans h3.moves).trans hs1
    · simp only [← htr, List.append_assoc]

end Consistent

/-- Whatever transactions commit between the reads of `Snapshot`: a view that it returns is the view that the same reads
return when they are all made in one state of the store, and the revision of the view is that of this state. -/
theorem snapshot_consistent (E : Engine) {db db' : DB} {principal : Principal} {route : Route} {tr : Trace Call Call.Ret}
    {view : Snapshot} (h : Exec (Commit E) (answers E) db (snapshot principal route) tr (.ok view) db') :
    ∃ s tr' view', Relation.ReflTransGen (Commit E) db s ∧ Relation.ReflTransGen (Commit E) s db' ∧ tr' <:+: tr ∧
      Exec (fun _ _ => False) (answers E) s (readSnapshot principal route) tr' (.ok view') s ∧
      view = { view' with revision := s.revision } :=
  exec_attempt h

def sampleEngine : Engine where
  toEngine := Access.lastFirst
  sum _ := 0

def sampleStore : DB where
  tables := ⟨{ Access.DB.empty with projects := Access.DB.empty.projects.insert "p" ⟨"site", "Site", "", "", true⟩ }, ∅, DB.empty⟩
  samples := []
  rollups := ∅
  summaries := ∅
  changes := (Journal.empty.record 2).record 1

def sampleWorkflow : Principal := ⟨.github, "t", "", "p", false, "workflow"⟩

def sampleRoute : Route := ⟨.overview, "", "", ""⟩

def sampleAnswers : (c : Call) → c.Ret
  | .store q => q.eval sampleEngine sampleStore
  | .now => 0
  | .check => true

/-- A transaction commits after the first read, so the view is of the second attempt. -/
theorem snapshot_consistent_workflow : ∃ view s tr view', view.projects.length = 1 ∧ view.revision = 3 ∧
    Exec (fun _ _ => False) (answers sampleEngine) s (readSnapshot sampleWorkflow sampleRoute) tr (.ok view') s ∧
    view = { view' with revision := s.revision } := by
  have hanswers : ∀ c, answers sampleEngine sampleStore c (sampleAnswers c) := by
    intro c
    cases c with
    | store q => rfl
    | now => trivial
    | check => trivial
  let rest (before : Nat) : Reading Snapshot := do
    let view ← readSnapshot sampleWorkflow sampleRoute
    let after ← query .currentRevision
    if before = after then return { view with revision := after } else attempt sampleWorkflow sampleRoute 4
  let earlier : DB := { sampleStore with changes := Journal.empty.record 2 }
  have hcommit : Commit sampleEngine earlier sampleStore := .write earlier sampleStore.tables 1 nofun
  have hrest : Exec (Commit sampleEngine) (answers sampleEngine) earlier (rest 2) _ ((rest 2).run sampleAnswers).2 sampleStore :=
    .move hcommit (Exec.run hanswers _)
  have hfirst : answers sampleEngine earlier (.store .currentRevision) (2 : Nat) := rfl
  have hexec := Exec.call (R := Call.Ret) (c := .store .currentRevision) (k := rest) (2 : Nat) hfirst hrest
  have hfields : ((rest 2).run sampleAnswers).2.toOption.map (fun view => (view.projects.length, view.revision)) =
      some (1, 3) := by decide +kernel
  generalize ((rest 2).run sampleAnswers).2 = result at hexec hfields
  cases result with
  | error e => cases hfields
  | ok view =>
    simp only [Except.toOption, Option.map_some, Option.some.injEq, Prod.mk.injEq] at hfields
    obtain ⟨s, tr, view', -, -, -, hatomic, hview⟩ := snapshot_consistent sampleEngine hexec
    exact ⟨view, s, tr, view', hfields.1, hfields.2, hatomic, hview⟩

end Console

end Autback
