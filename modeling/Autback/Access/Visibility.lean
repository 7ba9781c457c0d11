import Autback.Access.Trust

/-!
# Authorization and visibility

A principal is authorized for the projects that it can list (`authorization_visible`), also where a handler authorizes it by
the project id that is stored with a job or a build. A selector is compared with ids and with slugs, `CreateProject` accepts any
slug, and the statement has no `ORDER BY`. So this rests on the order of the database (`Engine.IdFirst`).
-/

namespace Autback

namespace Access

open Auth (Primitives Error)

/-! ## Handlers -/

def authorizedOperation {ρ : Type} (E : Engine) (db : DB) (principal : Principal) (projectID : ρ → String) :
    Option ρ → Except Error ρ
  | none => .error .notFound
  | some operation => match authorizeProject E db principal (projectID operation) with
    | .error e => .error e
    | .ok _ => .ok operation

def authorizedJob (E : Engine) (db : DB) (jobs : Table String Job) (principal : Principal) (id : String) : Except Error Job :=
  authorizedOperation E db principal Job.projectID (jobs.lookup id)

def authorizedBuild (E : Engine) (db : DB) (builds : Table String Build) (principal : Principal) (id : String) :
    Except Error Build :=
  authorizedOperation E db principal Build.projectID (builds.lookup id)

/-! ## What an id selects -/

/-- Of the projects that a selector selects, the one whose id it is comes first: for `WHERE id=? OR slug=?` SQLite searches the
index of the ids before the one of the slugs. -/
def Engine.IdFirst (E : Engine) : Prop :=
  ∀ selector rows, (∃ r, (selector, r) ∈ rows) → ∃ r, (E.projects selector rows).head? = some (selector, r)

variable {db : DB} {p : Project} {E : Engine} {principal : Principal} {projects : List Project}

theorem mem_selected {selector id : String} {r : ProjectRow} :
    (id, r) ∈ selected db selector ↔ db.projects.lookup id = some r ∧ (id = selector ∨ r.slug = selector) := by
  rw [selected, List.mem_filter, Table.mem_rows]
  simp

theorem mem_allProjects : p ∈ db.allProjects ↔ ∃ r, db.projects.lookup p.id = some r ∧ r.project p.id = p := by
  rw [DB.allProjects, List.mem_map]
  constructor
  · rintro ⟨⟨id, r⟩, hmem, rfl⟩
    exact ⟨r, Table.mem_rows.mp hmem, rfl⟩
  rintro ⟨r, hr, hp⟩
  exact ⟨(p.id, r), Table.mem_rows.mpr hr, hp⟩

theorem mem_listed {visible : Project → Bool} : p ∈ listed db visible ↔ p ∈ db.allProjects ∧ visible p = true := by
  rw [listed, (List.perm_insertionSort _ _).mem_iff, List.mem_filter]

theorem Engine.IdFirst.head {id : String} (h : E.IdFirst) {r : ProjectRow} (hr : db.projects.lookup id = some r) :
    (E.projects id (selected db id)).head? = some (id, r) := by
  obtain ⟨r', hhead⟩ := h id (selected db id) ⟨r, mem_selected.mpr ⟨hr, .inl rfl⟩⟩
  have hmem := (E.projects_perm id _).mem_iff.mp (List.mem_of_head? hhead)
  cases hr.symm.trans (mem_selected.mp hmem).1
  exact hhead

theorem Engine.IdFirst.project (h : E.IdFirst) (hp : p ∈ db.allProjects) : project E db p.id = .ok p := by
  obtain ⟨r, hr, hrow⟩ := mem_allProjects.mp hp
  rw [Access.project, h.head hr]
  exact congrArg Except.ok hrow

/-! ## Authorization -/

/-- The principal may use the project: it is for this project alone, or its user is an administrator or a member. -/
def DB.admits (db : DB) (principal : Principal) (p : Project) : Bool :=
  if principal.projectID ≠ "" then p.id == principal.projectID
  else principal.userID ≠ "" && (principal.admin || (db.members.lookup (p.id, principal.userID)).isSome)

theorem mem_listProjects (h : listProjects db principal = .ok projects) (p : Project) :
    p ∈ projects ↔ p ∈ db.allProjects ∧ db.admits principal p = true := by
  rw [listProjects] at h
  split at h
  · rename_i hproject
    cases h
    rw [mem_listed, DB.admits, if_pos hproject]
  rename_i hproject
  split at h
  · cases h
  rename_i huser
  split at h
  · rename_i hadm
    cases h
    simp [mem_listed, DB.admits, hproject, huser, hadm]
  rename_i hadm
  cases h
  simp [mem_listed, DB.admits, hproject, huser, hadm]

theorem authorizeProject_eq {selector : String} (h : project E db selector = .ok p) (principal : Principal) :
    authorizeProject E db principal selector = if db.admits principal p then .ok p else .error .forbidden := by
  rw [authorizeProject, h, DB.admits]
  by_cases hproject : principal.projectID = ""
  · by_cases huser : principal.userID = ""
    · simp [hproject, huser]
    by_cases hadm : principal.admin = true
    · simp [hproject, huser, hadm]
    cases hmemb : db.members.lookup (p.id, principal.userID) with
    | none => simp [hproject, huser, hadm, hmemb]
    | some _ => simp [hproject, huser, hmemb]
  by_cases hid : p.id = principal.projectID
  · simp [hproject, hid]
  · simp [hproject, hid, Ne.symm hid]

theorem authorizeProject_iff (hlist : listProjects db principal = .ok projects) (hp : p ∈ db.allProjects)
    (hfirst : E.IdFirst) : authorizeProject E db principal p.id = .ok p ↔ p ∈ projects := by
  rw [authorizeProject_eq (hfirst.project hp), mem_listProjects hlist]
  cases db.admits principal p <;> simp [hp]

theorem authorizedOperation_iff {ρ : Type} {projectID : ρ → String} {operation : ρ}
    (hlist : listProjects db principal = .ok projects) (hp : p ∈ db.allProjects) (hfirst : E.IdFirst)
    (hstored : projectID operation = p.id) :
    authorizedOperation E db principal projectID (some operation) = .ok operation ↔ p ∈ projects := by
  simp only [authorizedOperation, hstored]
  rw [authorizeProject_eq (hfirst.project hp), mem_listProjects hlist]
  cases db.admits principal p <;> simp [hp]

/-- **Authorization agrees with visibility**: whatever the slugs are, principals are authorized for the projects that they can
list, and for their jobs and builds. -/
theorem authorization_visible (P : Primitives) (evs : List Event) (E : Engine) (p : Project)
    (hfirst : E.IdFirst) (hp : p ∈ (history P evs).allProjects) (principal : Principal) (projects : List Project)
    (hlist : listProjects (history P evs) principal = .ok projects) :
    (authorizeProject E (history P evs) principal p.id = .ok p ↔ p ∈ projects) ∧
    (∀ jobs id job, jobs.lookup id = some job → job.projectID = p.id →
      (authorizedJob E (history P evs) jobs principal id = .ok job ↔ p ∈ projects)) ∧
    ∀ builds id build, builds.lookup id = some build → build.projectID = p.id →
      (authorizedBuild E (history P evs) builds principal id = .ok build ↔ p ∈ projects) := by
  refine ⟨authorizeProject_iff hlist hp hfirst, ?_, ?_⟩
  · intro jobs id job hjob hstored
    rw [authorizedJob, hjob]
    exact authorizedOperation_iff hlist hp hfirst hstored
  intro builds id build hbuild hstored
  rw [authorizedBuild, hbuild]
  exact authorizedOperation_iff hlist hp hfirst hstored

/-! ## A slug that is an id -/

def firstID : String := Auth.randomID "prj" (Auth.sampleRandom 0)

/-- A project `b`, another one whose slug is the id of `b`, and a user who is a member of the second. -/
def collision : List Event :=
  [⟨.createProject Auth.sampleAdmin "b" "", 0, sampleDice 0, lastFirst⟩,
    ⟨.createProject Auth.sampleAdmin firstID "a", 0, sampleDice 1, lastFirst⟩,
    ⟨.createUser Auth.sampleAdmin "guest" false, 0, sampleDice 2, lastFirst⟩,
    ⟨.addProjectMember Auth.sampleAdmin (Auth.randomID "prj" (Auth.sampleRandom 1))
      (Auth.randomID "usr" (Auth.sampleRandom 2)), 0, sampleDice 3, lastFirst⟩]

def collided : DB := history Auth.samplePrimitives collision

def projectB : Project := ⟨firstID, "b", "b", "", "", true⟩

def sessionB : Principal := ⟨.github, "", "", firstID, false, ""⟩

def guest : Principal := ⟨.device, "", Auth.randomID "usr" (Auth.sampleRandom 2), "", false, ""⟩

def buildB : Build := ⟨"build", firstID, .running, 0, none, none⟩

def buildsB : Table String Build := (∅ : Table String Build).insert "build" buildB

def idFirst : Engine :=
  { lastFirst with
    projects := fun selector rows => rows.filter (·.1 == selector) ++ rows.filter (!·.1 == selector)
    projects_perm := fun _ rows => List.filter_append_perm _ rows }

theorem idFirst_idFirst : idFirst.IdFirst := by
  rintro selector rows ⟨r, hmem⟩
  have hid : (selector, r) ∈ rows.filter (·.1 == selector) := List.mem_filter.mpr ⟨hmem, beq_self_eq_true selector⟩
  obtain ⟨⟨id, r'⟩, rest, hrows⟩ := List.exists_cons_of_ne_nil (List.ne_nil_of_mem hid)
  have hfirst : (id, r') ∈ rows.filter (·.1 == selector) := hrows ▸ List.mem_cons_self
  cases eq_of_beq (List.mem_filter.mp hfirst).2
  exact ⟨r', by simp only [idFirst, hrows, List.cons_append, List.head?_cons]⟩

/-- The session for `b` is authorized by its id, and a user who does not see `b` does not get its build. -/
theorem authorization_visible_collision : authorizeProject idFirst collided sessionB firstID = .ok projectB ∧
    ¬ authorizedBuild idFirst collided buildsB guest "build" = .ok buildB := by
  have hp : projectB ∈ collided.allProjects := by decide +kernel
  have hvisible := authorization_visible Auth.samplePrimitives collision idFirst projectB idFirst_idFirst hp
  refine ⟨(hvisible sessionB [projectB] (by decide +kernel)).1.mpr List.mem_cons_self, fun hbuild => ?_⟩
  have hlisted := ((hvisible guest _ rfl).2.2 buildsB "build" buildB rfl rfl).mp hbuild
  revert hlisted
  decide +kernel

end Access

end Autback
