import Autback.Auth.Store

/-!
# Projects, members and GitHub trusts

The statements of `internal/control/sqlite/store.go` on projects, their members and the GitHub trusts of a project, on top of
the tables of authentication.

The order in which a statement without `ORDER BY` returns its rows is a parameter (`Engine`). It matters where a method takes the
first of several rows: a selector is compared with the id and with the slug of every project, and of the trusts that match the
first one found is taken.
-/

namespace Autback

namespace Access

open Auth (Primitives Error)

/-! ## Tables -/

structure ProjectRow where
  (slug name activeImage previousImage : String)
  allowImageOverrides : Bool
  deriving DecidableEq

structure TrustRow where
  (projectID repositoryOwnerID repositoryID workflowRef ref environment : String)
  events : List String
  revokedAt : Option Int
  deriving DecidableEq

/-- The order in which the database returns the rows of a statement without `ORDER BY`; that of the projects may depend on the
selector. -/
structure Engine where
  projects : String → List (String × ProjectRow) → List (String × ProjectRow)
  trusts : List (String × TrustRow) → List (String × TrustRow)
  projects_perm : ∀ selector l, (projects selector l).Perm l
  trusts_perm : ∀ l, (trusts l).Perm l

def lastFirst : Engine := ⟨fun _ l => l, id, fun _ l => .refl l, fun l => .refl l⟩

structure DB where
  auth : Auth.DB
  projects : Table String ProjectRow
  members : Table (String × String) Unit
  trusts : Table String TrustRow

def DB.empty : DB := ⟨Auth.DB.empty, ∅, ∅, ∅⟩

abbrev Result (α : Type) := Except Error α × DB

structure Dice extends Auth.Dice where
  (project trust : Auth.Random)

structure Project where
  (id slug name activeImage previousImage : String)
  allowImageOverrides : Bool
  deriving DecidableEq

structure GitHubTrust where
  (id projectID repositoryOwnerID repositoryID workflowRef ref environment : String)
  events : List String
  revokedAt : Option Int
  deriving DecidableEq

/-- `GitHubClaims`: what the verifier has found in an identity token. -/
structure GitHubClaims where
  (subject repositoryOwnerID repositoryID workflowRef ref environment eventName : String)
  expiresAt : Time
  deriving DecidableEq

def ProjectRow.project (id : String) (r : ProjectRow) : Project :=
  ⟨id, r.slug, r.name, r.activeImage, r.previousImage, r.allowImageOverrides⟩

/-- `scanTrust`; the events are stored as JSON. -/
def TrustRow.trust (id : String) (r : TrustRow) : GitHubTrust :=
  ⟨id, r.projectID, r.repositoryOwnerID, r.repositoryID, r.workflowRef, r.ref, r.environment, r.events, r.revokedAt⟩

def DB.allProjects (db : DB) : List Project := (Table.rows db.projects).map fun e => e.2.project e.1

section Methods

variable (P : Primitives) (E : Engine) (db : DB) (now : Time) (dice : Dice)

/-! ## Projects -/

def selected (selector : String) : List (String × ProjectRow) :=
  (Table.rows db.projects).filter fun e => e.1 == selector || e.2.slug == selector

/-- `project`: the first project whose id or slug is the selector. -/
def project (selector : String) : Except Error Project :=
  match (E.projects selector (selected db selector)).head? with
  | none => .error .notFound
  | some (id, r) => .ok (r.project id)

def authorizeProject (principal : Principal) (selector : String) : Except Error Project :=
  match project E db selector with
  | .error e => .error e
  | .ok project =>
    if principal.projectID ≠ "" then
      if principal.projectID ≠ project.id then .error .forbidden else .ok project
    else if principal.userID = "" then .error .forbidden
    else if principal.admin then .ok project
    else if (db.members.lookup (project.id, principal.userID)).isNone then .error .forbidden
    else .ok project

def Project.before (p q : Project) : Bool := decide (p.slug < q.slug) || p.slug == q.slug && decide (p.id ≤ q.id)

/-- `SELECT … FROM projects WHERE … ORDER BY slug,id`. -/
def listed (visible : Project → Bool) : List Project :=
  (db.allProjects.filter visible).insertionSort fun p q => p.before q = true

def listProjects (principal : Principal) : Except Error (List Project) :=
  if principal.projectID ≠ "" then .ok (listed db fun p => p.id == principal.projectID)
  else if principal.userID = "" then .error .forbidden
  else if principal.admin then .ok (listed db fun _ => true)
  else .ok (listed db fun p => (db.members.lookup (p.id, principal.userID)).isSome)

def insertProject (id slug name : String) : Option DB :=
  if (db.projects.lookup id).isSome || (Table.rows db.projects).any fun e => e.2.slug == slug then none
  else some { db with projects := db.projects.insert id ⟨slug, name, "", "", true⟩ }

def createProject (principal : Principal) (slug name : String) : Result Project :=
  if !principal.admin then (.error .forbidden, db)
  else if P.trimSpace slug = "" then (.error (.invalid "project slug is required"), db)
  else
    let name := if name = "" then slug else name
    let id := Auth.randomID "prj" dice.project
    match insertProject db id slug name with
    | none => (.error .alreadyExists, db)
    | some db' => (.ok ⟨id, slug, name, "", "", true⟩, db')

def bootstrap (userName projectSlug projectName tokenName : String) : Result (Auth.Issued × Project) :=
  if P.trimSpace userName = "" || P.trimSpace projectSlug = "" || P.trimSpace tokenName = "" then
    (.error (.invalid "bootstrap user, project slug, and token name are required"), db)
  else
    let projectName := if projectName = "" then projectSlug else projectName
    let id := Auth.randomID "prj" dice.project
    match Auth.bootstrap P db.auth dice.toDice with
    | (.error e, _) => (.error e, db)
    | (.ok issued, auth) => match insertProject { db with auth := auth } id projectSlug projectName with
      | none => (.error .constraint, db)
      | some db' => (.ok (issued, ⟨id, projectSlug, projectName, "", "", true⟩),
          { db' with members := db'.members.insert (id, issued.userID) () })

def createUser (principal : Principal) (name : String) (admin : Bool) : Result String :=
  ((Auth.createUser P db.auth dice.toDice principal name admin).1,
    { db with auth := (Auth.createUser P db.auth dice.toDice principal name admin).2 })

/-- `AddProjectMember`. A member is not inserted twice; a user who does not exist violates a foreign key. -/
def addProjectMember (principal : Principal) (selector userID : String) : Result Unit :=
  if !principal.admin then (.error .forbidden, db)
  else match authorizeProject E db principal selector with
    | .error e => (.error e, db)
    | .ok project =>
      if (db.members.lookup (project.id, userID)).isSome then
        if (db.auth.users.lookup userID).isNone then (.error .notFound, db) else (.ok (), db)
      else if (db.auth.users.lookup userID).isNone then (.error .constraint, db)
      else (.ok (), { db with members := db.members.insert (project.id, userID) () })

def changeProjectImage (projectID : String) (image : Option String) : Result Project :=
  match db.projects.lookup projectID with
  | none => (.error (.invalid "sql: no rows in result set"), db)
  | some r =>
    if image.isNone && r.previousImage = "" then (.error .notFound, db)
    else
      let image := image.getD r.previousImage
      if image = r.activeImage then (.ok (r.project projectID), db)
      else
        let r := { r with activeImage := image, previousImage := r.activeImage }
        (.ok (r.project projectID), { db with projects := db.projects.insert projectID r })

def activateProjectImage (principal : Principal) (projectID image : String) : Result Project :=
  if principal.kind ≠ .device || !principal.admin then (.error .forbidden, db)
  else changeProjectImage db projectID (some image)

def rollbackProjectImage (principal : Principal) (projectID : String) : Result Project :=
  if principal.kind ≠ .device || !principal.admin then (.error .forbidden, db)
  else changeProjectImage db projectID none

def setProjectImagePolicy (principal : Principal) (projectID : String) (allow : Bool) : Result Project :=
  if principal.kind ≠ .device || !principal.admin then (.error .forbidden, db)
  else match Table.update db.projects projectID (fun _ => true) fun r => { r with allowImageOverrides := allow } with
    | (1, projects) => (project E { db with projects := projects } projectID, { db with projects := projects })
    | _ => (.error .notFound, db)

/-! ## GitHub trusts -/

structure TrustInput where
  (projectID repositoryOwnerID repositoryID workflowRef ref environment : String)
  events : List String
  deriving DecidableEq

def createGitHubTrust (principal : Principal) (trust : TrustInput) : Result GitHubTrust :=
  if !principal.admin then (.error .forbidden, db)
  else match authorizeProject E db principal trust.projectID with
    | .error e => (.error e, db)
    | .ok project =>
      if trust.repositoryOwnerID = "" || trust.repositoryID = "" || trust.workflowRef = "" || trust.ref = "" ||
          trust.events = [] then
        (.error (.invalid "repository owner ID, repository ID, workflow ref, ref, and events are required"), db)
      else if trust.events.contains "pull_request" && trust.environment = "" then
        (.error (.invalid "pull_request trust requires a protected GitHub environment"), db)
      else
        let id := Auth.randomID "ght" dice.trust
        let r : TrustRow := ⟨project.id, trust.repositoryOwnerID, trust.repositoryID, trust.workflowRef, trust.ref,
          trust.environment, trust.events, none⟩
        if (db.trusts.lookup id).isSome then (.error .constraint, db)
        else (.ok (r.trust id), { db with trusts := db.trusts.insert id r })

def revokeGitHubTrust (principal : Principal) (id : String) : Result Unit :=
  if !principal.admin then (.error .forbidden, db)
  else match Table.update db.trusts id (fun r => r.revokedAt.isNone) fun r => { r with revokedAt := some (Auth.unix now) } with
    | (1, trusts) => (.ok (), { db with trusts := trusts })
    | _ => (.error .notFound, db)

/-- The loop of `glob` over runes. The star that was met last, if any, is at `starIndex`; it has taken the value up to
`starValueIndex`. -/
def globLoop (pattern value : List Char) (patternIndex valueIndex : Nat) (starIndex : Option Nat) (starValueIndex : Nat)
    (h : starValueIndex ≤ valueIndex) : Bool :=
  if hv : valueIndex < value.length then
    if hp : patternIndex < pattern.length ∧
        (pattern[patternIndex]? = some '?' ∨ pattern[patternIndex]? = value[valueIndex]?) then
      globLoop pattern value (patternIndex + 1) (valueIndex + 1) starIndex starValueIndex (by omega)
    else if hs : patternIndex < pattern.length ∧ pattern[patternIndex]? = some '*' then
      globLoop pattern value (patternIndex + 1) valueIndex (some patternIndex) valueIndex (by omega)
    else match starIndex with
      | some starIndex =>
        globLoop pattern value (starIndex + 1) (starValueIndex + 1) (some starIndex) (starValueIndex + 1) (by omega)
      | none => false
  else (pattern.drop patternIndex).all fun c => c == '*'
termination_by (value.length - starValueIndex) * (value.length + pattern.length + 1) +
  ((value.length - valueIndex) + (pattern.length - patternIndex))
decreasing_by
  · omega
  · by_cases heq : valueIndex = starValueIndex
    · subst heq
      omega
    have := Nat.mul_le_mul_right (value.length + pattern.length + 1)
      (by omega : value.length - valueIndex + 1 ≤ value.length - starValueIndex)
    rw [Nat.add_mul] at this
    omega
  have := Nat.mul_le_mul_right (value.length + pattern.length + 1)
    (by omega : value.length - (starValueIndex + 1) + 1 ≤ value.length - starValueIndex)
  rw [Nat.add_mul] at this
  omega

def glob (pattern value : String) : Bool := globLoop pattern.toList value.toList 0 0 none 0 (Nat.le_refl 0)

def exactOptional (pattern value : String) : Bool := pattern == "" || pattern == value

def TrustRow.allows (claims : GitHubClaims) (r : TrustRow) : Bool :=
  glob r.workflowRef claims.workflowRef && glob r.ref claims.ref && exactOptional r.environment claims.environment &&
    r.events.contains claims.eventName

def matchGitHubTrust (selector : String) (claims : GitHubClaims) : Except Error GitHubTrust :=
  match project E db selector with
  | .error _ => .error .forbidden
  | .ok project =>
    match (E.trusts ((Table.rows db.trusts).filter fun e => e.2.projectID == project.id &&
        e.2.repositoryOwnerID == claims.repositoryOwnerID && e.2.repositoryID == claims.repositoryID &&
        e.2.revokedAt.isNone)).find? fun e => e.2.allows claims with
    | none => .error .forbidden
    | some (id, r) => .ok (r.trust id)

end Methods

/-! ## Histories -/

inductive Call
  | bootstrap (userName projectSlug projectName tokenName : String)
  | createUser (principal : Principal) (name : String) (admin : Bool)
  | createProject (principal : Principal) (slug name : String)
  | addProjectMember (principal : Principal) (selector userID : String)
  | activateProjectImage (principal : Principal) (projectID image : String)
  | rollbackProjectImage (principal : Principal) (projectID : String)
  | setProjectImagePolicy (principal : Principal) (projectID : String) (allow : Bool)
  | createGitHubTrust (principal : Principal) (trust : TrustInput)
  | revokeGitHubTrust (principal : Principal) (id : String)
  deriving DecidableEq

structure Event where
  call : Call
  now : Time
  dice : Dice
  engine : Engine

def Event.apply (P : Primitives) (db : DB) (e : Event) : DB :=
  match e.call with
  | .bootstrap userName projectSlug projectName tokenName =>
    (Access.bootstrap P db e.dice userName projectSlug projectName tokenName).2
  | .createUser principal name admin => (Access.createUser P db e.dice principal name admin).2
  | .createProject principal slug name => (Access.createProject P db e.dice principal slug name).2
  | .addProjectMember principal selector userID => (Access.addProjectMember e.engine db principal selector userID).2
  | .activateProjectImage principal projectID image => (Access.activateProjectImage db principal projectID image).2
  | .rollbackProjectImage principal projectID => (Access.rollbackProjectImage db principal projectID).2
  | .setProjectImagePolicy principal projectID allow =>
    (Access.setProjectImagePolicy e.engine db principal projectID allow).2
  | .createGitHubTrust principal trust => (Access.createGitHubTrust e.engine db e.dice principal trust).2
  | .revokeGitHubTrust principal id => (Access.revokeGitHubTrust db e.now principal id).2

def history (P : Primitives) (evs : List Event) : DB := evs.foldl (Event.apply P) DB.empty

end Access

end Autback
