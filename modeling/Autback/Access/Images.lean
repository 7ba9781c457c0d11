import Autback.Access.Trust
import Autback.Conc.Ghost

/-!
# Project images and their history

`ActivateProjectImage` and `RollbackProjectImage`: the handlers of `internal/control/controlapi/server.go`, and the transaction
of `internal/control/sqlite/store.go` that changes the images of a project and records the change in `project_image_events`.
Between two calls of a handler the others and all other writes of projects may run. The scheduler keeps what it has validated.
-/

namespace Autback

namespace Access

namespace Images

open Auth (Error Failure Random)
open Conc (Prog Fallible)

/-! ## References -/

def lowerHex (c : Char) : Bool := ('0' ≤ c && c ≤ '9') || ('a' ≤ c && c ≤ 'f')

/-- The part of a reference before `@sha256:` and the digest, which have 72 characters. -/
def imageName (image : List Char) : List Char := image.take (image.length - 72)

def imageDigest (image : List Char) : List Char := image.drop (image.length - 64)

def imageDigestPattern (image : String) : Bool :=
  let cs := image.toList
  decide (72 < cs.length) && (imageName cs).all (· != '\n') && (cs.drop (cs.length - 72)).take 8 == "@sha256:".toList &&
    (imageDigest cs).all lowerHex

/-! ## Tables -/

inductive Action
  | activate
  | rollback
  deriving DecidableEq

structure ImageEvent where
  (id projectID : String)
  action : Action
  (image replacedImage actor : String)
  createdAt : Int
  deriving DecidableEq

/-- The tables, with the events in the order of their commits, and what the scheduler has validated. -/
structure State where
  db : Access.DB
  events : List ImageEvent
  validated : List String

def State.empty : State := ⟨Access.DB.empty, [], []⟩

namespace State

variable (s : State) (now : Time) (dice : Random)

def history (projectID : String) : List ImageEvent := s.events.filter fun e => e.projectID == projectID

def target (action : Action) (image : String) (r : ProjectRow) : String :=
  if action = .rollback then r.previousImage else image

def changeProjectImage (principal : Principal) (projectID : String) (action : Action) (image : String) :
    Except Error Project × State :=
  match s.db.projects.lookup projectID with
  | none => (.error (.invalid "sql: no rows in result set"), s)
  | some r =>
    if action = .rollback ∧ r.previousImage = "" then (.error .notFound, s)
    else
      let image := target action image r
      if image = r.activeImage then (.ok (r.project projectID), s)
      else
        let id := Auth.randomID "img" dice
        let changed := { r with activeImage := image, previousImage := r.activeImage }
        if s.events.any fun e => e.id == id then (.error .constraint, s)
        else
          (.ok (changed.project projectID),
            { s with
              db := { s.db with projects := s.db.projects.insert projectID changed }
              events := s.events ++ [⟨id, projectID, action, image, r.activeImage, Autback.DB.actorID principal,
                Auth.unix now⟩] })

def activateProjectImage (principal : Principal) (projectID image : String) : Except Error Project × State :=
  if principal.kind ≠ .device || !principal.admin then (.error .forbidden, s)
  else s.changeProjectImage now dice principal projectID .activate image

def rollbackProjectImage (principal : Principal) (projectID : String) : Except Error Project × State :=
  if principal.kind ≠ .device || !principal.admin then (.error .forbidden, s)
  else s.changeProjectImage now dice principal projectID .rollback ""

end State

/-! ## Handlers -/

/-- The calls of the handlers. The event of an audit names the image and the one that it replaces. -/
inductive Call
  | authenticate
  | authorizeProject (principal : Principal) (selector : String)
  | validateImage (image : String)
  | activateProjectImage (principal : Principal) (projectID image : String)
  | rollbackProjectImage (principal : Principal) (projectID : String)
  | audit (principal : Principal) (projectID action targetID image replacedImage : String)
  deriving DecidableEq

@[reducible]
def Call.Ret : Call → Type
  | authenticate => Except ApiError Principal
  | authorizeProject _ _ => Except Failure Project
  | validateImage _ => Except Err Unit
  | activateProjectImage _ _ _ => Except Failure Project
  | rollbackProjectImage _ _ => Except Failure Project
  | audit _ _ _ _ _ _ => Except Failure Unit

abbrev Go (α : Type) := Fallible Call Call.Ret ApiError α

def authenticate : Go Principal := show Prog Call Call.Ret (Except ApiError Principal) from Prog.lift Call.authenticate

def api {α : Type} (p : Fallible Call Call.Ret Failure α) : Go α := Fallible.mapError Auth.Api.connectError p

def authorizeProject (principal : Principal) (selector : String) : Fallible Call Call.Ret Failure Project :=
  show Prog Call Call.Ret (Except Failure Project) from Prog.lift (Call.authorizeProject principal selector)

/-- `ValidateImage`, whose failure is answered as unavailable. -/
def validateImage (context image : String) : Go Unit :=
  Fallible.mapError (fun e : Err => ⟨.unavailable, (e.wrap context).text⟩)
    (show Prog Call Call.Ret (Except Err Unit) from Prog.lift (Call.validateImage image))

def storeActivate (principal : Principal) (projectID image : String) : Fallible Call Call.Ret Failure Project :=
  show Prog Call Call.Ret (Except Failure Project) from Prog.lift (Call.activateProjectImage principal projectID image)

def storeRollback (principal : Principal) (projectID : String) : Fallible Call Call.Ret Failure Project :=
  show Prog Call Call.Ret (Except Failure Project) from Prog.lift (Call.rollbackProjectImage principal projectID)

def audit (principal : Principal) (action : String) (project : Project) : Fallible Call Call.Ret Failure Unit :=
  show Prog Call Call.Ret (Except Failure Unit) from
    Prog.lift (Call.audit principal project.id action project.id project.activeImage project.previousImage)

def projectConfiguration (selector : String) : Go (Principal × Project) := do
  let principal ← authenticate
  let project ← api (authorizeProject principal selector)
  if principal.kind ≠ .device || !principal.admin then Fallible.throw (Auth.Api.connectError (.store .forbidden))
  else return (principal, project)

def activateProjectImage (selector image : String) : Go Project := do
  let (principal, project) ← projectConfiguration selector
  if !imageDigestPattern image then Fallible.throw ⟨.invalidArgument, "image must be pinned by sha256 digest"⟩
  else do
    validateImage "validate project image" image
    let project ← api (storeActivate principal project.id image)
    api (audit principal "project.image.activate" project)
    return project

def rollbackProjectImage (selector : String) : Go Project := do
  let (principal, project) ← projectConfiguration selector
  if project.previousImage = "" then Fallible.throw ⟨.failedPrecondition, "project has no previous image"⟩
  else do
    validateImage "validate rollback image" project.previousImage
    let project ← api (storeRollback principal project.id)
    api (audit principal "project.image.rollback" project)
    return project

inductive Request
  | activate (selector image : String)
  | rollback (selector : String)
  deriving DecidableEq

def body : Request → Prog Call Call.Ret (Option Request)
  | .activate selector image => Prog.bind (activateProjectImage selector image) fun _ => .ret none
  | .rollback selector => Prog.bind (rollbackProjectImage selector) fun _ => .ret none

/-! ## Interleavings -/

/-- What a call leaves open: who the caller is, in which order the database returns rows, what the scheduler says, the time and
the random id of a commit, whether an audit is written, or that the database fails. -/
inductive Choice
  | caller (r : Except ApiError Principal)
  | rows (E : Engine)
  | scheduler (r : Except Err Unit)
  | commit (now : Time) (dice : Random)
  | written (r : Except Failure Unit)
  | fails

def State.answered (s : State) (image : String) : Except Err Unit → State
  | .ok _ => { s with validated := image :: s.validated }
  | .error _ => s

def exec (_ : Nat) : Choice → State → (c : Call) → Option (c.Ret × State × Option Request)
  | .caller r, s, .authenticate => some (r, s, none)
  | .rows E, s, .authorizeProject principal selector =>
    some ((Access.authorizeProject E s.db principal selector).mapError .store, s, none)
  | .scheduler r, s, .validateImage image => some (r, s.answered image r, none)
  | .commit now dice, s, .activateProjectImage principal projectID image =>
    let (r, s) := s.activateProjectImage now dice principal projectID image
    some (r.mapError .store, s, none)
  | .commit now dice, s, .rollbackProjectImage principal projectID =>
    let (r, s) := s.rollbackProjectImage now dice principal projectID
    some (r.mapError .store, s, none)
  | .written r, s, .audit _ _ _ _ _ _ => some (r, s, none)
  | .fails, s, .authorizeProject _ _ => some (.error .database, s, none)
  | .fails, s, .activateProjectImage _ _ _ => some (.error .database, s, none)
  | .fails, s, .rollbackProjectImage _ _ => some (.error .database, s, none)
  | _, _, _ => none

def env (P : Auth.Primitives) (e : Access.Event) (s : State) : Option State :=
  match e.call with
  | .activateProjectImage _ _ _ | .rollbackProjectImage _ _ => none
  | _ => some { s with db := e.apply P s.db }

def machine (P : Auth.Primitives) : Conc.Machine State Call Call.Ret Request Choice Access.Event where
  body := body
  entry _ _ := true
  exec := exec
  env := env P
  crash s := s

/-! ## What a commit does -/

def State.images (s : State) (projectID : String) : Option (String × String) :=
  (s.db.projects.lookup projectID).map fun r => (r.activeImage, r.previousImage)

def changed (r : ProjectRow) (image : String) : ProjectRow := { r with activeImage := image, previousImage := r.activeImage }

structure Changes (s : State) (r : ProjectRow) (e : ImageEvent) (s' : State) : Prop where
  row : s.db.projects.lookup e.projectID = some r
  replaced : e.replacedImage = r.activeImage
  new : e.image ≠ r.activeImage
  back : e.action = .rollback → e.image = r.previousImage ∧ r.previousImage ≠ ""
  eq : s' = { s with
    db := { s.db with projects := s.db.projects.insert e.projectID (changed r e.image) }
    events := s.events ++ [e] }

section Commits

variable {s s' : State} {now : Time} {dice : Random} {principal : Principal} {projectID image : String} {action : Action}
  {result : Except Error Project}

theorem changeProjectImage_cases (h : s.changeProjectImage now dice principal projectID action image = (result, s')) :
    (s' = s ∧ ∀ project, result = .ok project → ∃ r, s.db.projects.lookup projectID = some r ∧
      (action = .rollback → r.previousImage = r.activeImage)) ∨
      ∃ r e, Changes s r e s' ∧ e.projectID = projectID ∧ e.action = action ∧ (action = .activate → e.image = image) := by
  unfold State.changeProjectImage at h
  split at h
  · cases h
    exact .inl ⟨rfl, nofun⟩
  next r hr =>
    split at h
    · cases h
      exact .inl ⟨rfl, nofun⟩
    next hprev =>
      simp only at h
      split at h
      next hsame =>
        cases h
        refine .inl ⟨rfl, fun _ _ => ⟨r, hr, fun hrollup => ?_⟩⟩
        rwa [State.target, if_pos hrollup] at hsame
      next hnew =>
        split at h
        · cases h
          exact .inl ⟨rfl, nofun⟩
        cases h
        refine .inr ⟨r, ⟨_, projectID, action, _, _, _, _⟩, ⟨hr, rfl, hnew, fun hrollup => ?_, rfl⟩, rfl, rfl, fun hactive => ?_⟩
        · exact ⟨if_pos hrollup, fun hempty => hprev ⟨hrollup, hempty⟩⟩
        · exact if_neg (by rw [hactive]; decide)

theorem activateProjectImage_cases (h : s.activateProjectImage now dice principal projectID image = (result, s')) :
    s' = s ∨ ∃ r e, Changes s r e s' ∧ e.action = .activate ∧ e.image = image := by
  unfold State.activateProjectImage at h
  split at h
  · cases h
    exact .inl rfl
  rcases changeProjectImage_cases h with ⟨rfl, -⟩ | ⟨r, e, hchange, -, hactive, himage⟩
  · exact .inl rfl
  · exact .inr ⟨r, e, hchange, hactive, himage rfl⟩

theorem rollbackProjectImage_cases (h : s.rollbackProjectImage now dice principal projectID = (result, s')) :
    (s' = s ∧ ∀ project, result = .ok project → ∃ r, s.db.projects.lookup projectID = some r ∧
      r.previousImage = r.activeImage) ∨
      ∃ r e, Changes s r e s' ∧ e.projectID = projectID ∧ e.action = .rollback := by
  unfold State.rollbackProjectImage at h
  split at h
  · cases h
    exact .inl ⟨rfl, nofun⟩
  rcases changeProjectImage_cases h with ⟨rfl, hok⟩ | ⟨r, e, hchange, hid, hactive, -⟩
  · refine .inl ⟨rfl, fun project hproject => ?_⟩
    obtain ⟨r, hr, hsame⟩ := hok project hproject
    exact ⟨r, hr, hsame rfl⟩
  · exact .inr ⟨r, e, hchange, hid, hactive⟩

end Commits

/-! ## What others do -/

structure Kept (db db' : DB) : Prop where
  images : ∀ id r', db'.projects.lookup id = some r' →
    (∃ r, db.projects.lookup id = some r ∧ r'.activeImage = r.activeImage ∧ r'.previousImage = r.previousImage) ∨
      (db.projects.lookup id = none ∧ r'.activeImage = "" ∧ r'.previousImage = "")
  projects : ∀ id, (db.projects.lookup id).isSome = true → (db'.projects.lookup id).isSome = true

variable {db db' : DB} {id : String} {r : ProjectRow} {P : Auth.Primitives} {s s' : State} {e : ImageEvent}

theorem Kept.of_eq (h : db'.projects = db.projects) : Kept db db' := by
  constructor
  · intro id r' hr'
    rw [h] at hr'
    exact .inl ⟨r', hr', rfl, rfl⟩
  intro id hid
  rwa [h]

theorem Kept.of_provision (h : Provision db db') : Kept db db' := by
  cases h with
  | members => exact .of_eq rfl
  | project auth members id r h =>
    constructor
    · intro id' r' hr'
      rw [Table.lookup_insert_eq] at hr'
      split at hr'
      next hid =>
        cases hr'
        subst hid
        exact h
      · exact .inl ⟨r', hr', rfl, rfl⟩
    intro id' hid'
    rw [Table.lookup_insert_eq]
    split
    · rfl
    · exact hid'

theorem kept_createGitHubTrust (E : Engine) (db : DB) (dice : Dice) (principal : Principal) (trust : TrustInput) :
    Kept db (createGitHubTrust E db dice principal trust).2 := by
  apply Kept.of_eq
  unfold createGitHubTrust
  split
  · rfl
  split
  · rfl
  split
  · rfl
  split
  · rfl
  simp only
  split <;> rfl

theorem kept_revokeGitHubTrust (db : DB) (now : Time) (principal : Principal) (id : String) :
    Kept db (revokeGitHubTrust db now principal id).2 := by
  apply Kept.of_eq
  unfold revokeGitHubTrust
  split
  · rfl
  · split <;> rfl

theorem env_kept {e : Access.Event} (h : env P e s = some s') :
    Kept s.db s'.db ∧ s'.events = s.events ∧ s'.validated = s.validated := by
  obtain ⟨call, now, dice, engine⟩ := e
  cases call with
  | activateProjectImage | rollbackProjectImage => cases h
  | bootstrap => cases h; exact ⟨.of_provision (bootstrap_provision ..), rfl, rfl⟩
  | createUser => cases h; exact ⟨.of_eq rfl, rfl, rfl⟩
  | createProject => cases h; exact ⟨.of_provision (createProject_provision ..), rfl, rfl⟩
  | addProjectMember => cases h; exact ⟨.of_provision (addProjectMember_provision ..), rfl, rfl⟩
  | setProjectImagePolicy => cases h; exact ⟨.of_provision (setProjectImagePolicy_provision ..), rfl, rfl⟩
  | createGitHubTrust => cases h; exact ⟨kept_createGitHubTrust .., rfl, rfl⟩
  | revokeGitHubTrust => cases h; exact ⟨kept_revokeGitHubTrust .., rfl, rfl⟩

/-! ## Replay -/

/-- The images after an event, if it fits those before: it replaces the active image, and a rollback goes back to the previous
one. -/
def ImageEvent.replay (images : String × String) (e : ImageEvent) : Option (String × String) :=
  if e.replacedImage = images.1 ∧ (e.action = .rollback → e.image = images.2) then some (e.image, images.1) else none

def replay (history : List ImageEvent) : Option (String × String) := history.foldlM ImageEvent.replay ("", "")

theorem replay_concat {history : List ImageEvent} {images : String × String} (h : replay history = some images)
    (e : ImageEvent) : replay (history ++ [e]) = ImageEvent.replay images e := by
  unfold replay at h ⊢
  rw [List.foldlM_append, h]
  simp

structure Recorded (validated : List String) (history : List ImageEvent) (active previous : String) : Prop where
  replayed : replay history = some (active, previous)
  unequal : previous ≠ "" → active ≠ "" ∧ active ≠ previous
  active_validated : active ≠ "" → active ∈ validated
  previous_validated : previous ≠ "" → previous ∈ validated

structure Consistent (s : State) : Prop where
  rows : ∀ id r, s.db.projects.lookup id = some r → Recorded s.validated (s.history id) r.activeImage r.previousImage
  owned : ∀ e ∈ s.events, (s.db.projects.lookup e.projectID).isSome = true
  changes : ∀ e ∈ s.events, e.image ≠ e.replacedImage

theorem consistent_empty : Consistent State.empty :=
  ⟨fun _ _ h => (by cases h), fun _ h => (by cases h), fun _ h => (by cases h)⟩

theorem Consistent.answered (h : Consistent s) (image : String) (r : Except Err Unit) : Consistent (s.answered image r) := by
  cases r with
  | error e => exact h
  | ok =>
    refine ⟨fun id row hrow => ?_, h.owned, h.changes⟩
    obtain ⟨hreply, huneq, hactive, hprev⟩ := h.rows id row hrow
    exact ⟨hreply, huneq, fun hne => List.mem_cons_of_mem _ (hactive hne), fun hne => List.mem_cons_of_mem _ (hprev hne)⟩

theorem history_of_none (h : Consistent s) (hnone : s.db.projects.lookup id = none) : s.history id = [] := by
  refine List.filter_eq_nil_iff.mpr fun e he hid => ?_
  have hown := h.owned e he
  rw [beq_iff_eq.mp hid, hnone] at hown
  cases hown

theorem Consistent.kept (h : Consistent s) (hkept : Kept s.db s'.db) (hevents : s'.events = s.events)
    (hvalue : s'.validated = s.validated) : Consistent s' := by
  have hhistory : ∀ id, s'.history id = s.history id := fun id => by rw [State.history, hevents, State.history]
  constructor
  · intro id r' hr'
    rw [hhistory, hvalue]
    rcases hkept.images id r' hr' with ⟨r, hr, hactive, hprev⟩ | ⟨hnone, hactive, hprev⟩
    · rw [hactive, hprev]
      exact h.rows id r hr
    rw [history_of_none h hnone, hactive, hprev]
    exact ⟨rfl, fun hne => absurd rfl hne, fun hne => absurd rfl hne, fun hne => absurd rfl hne⟩
  · intro e he
    rw [hevents] at he
    exact hkept.projects _ (h.owned e he)
  rw [hevents]
  exact h.changes

theorem Consistent.changed (h : Consistent s) (hchange : Changes s r e s') (hnon : e.image ≠ "")
    (hvalue : e.image ∈ s.validated) : Consistent s' := by
  obtain ⟨hrow, hreplaced, hnew, hback, rfl⟩ := hchange
  obtain ⟨hreply, huneq, hactive, hprev⟩ := h.rows e.projectID r hrow
  constructor
  · intro id r' hr'
    simp only [Table.lookup_insert_eq] at hr'
    split at hr'
    next hid =>
      cases hr'
      subst hid
      have hhistory : State.history { s with
          db := { s.db with projects := s.db.projects.insert e.projectID (Images.changed r e.image) }
          events := s.events ++ [e] } e.projectID = s.history e.projectID ++ [e] := by
        simp [State.history]
      rw [hhistory]
      refine ⟨?_, fun _ => ⟨hnon, hnew⟩, fun _ => hvalue, hactive⟩
      rw [replay_concat hreply]
      exact if_pos ⟨hreplaced, fun hrollup => (hback hrollup).1⟩
    next hid =>
      have hhistory : State.history { s with
          db := { s.db with projects := s.db.projects.insert e.projectID (Images.changed r e.image) }
          events := s.events ++ [e] } id = s.history id := by
        simp [State.history, Ne.symm hid]
      rw [hhistory]
      exact h.rows id r' hr'
  · intro e' he'
    simp only [Table.lookup_insert_eq]
    split
    · rfl
    next hid =>
      rcases List.mem_append.mp he' with he' | he'
      · exact h.owned e' he'
      cases List.mem_singleton.mp he'
      exact absurd rfl hid
  · intro e' he'
    rcases List.mem_append.mp he' with he' | he'
    · exact h.changes e' he'
    cases List.mem_singleton.mp he'
    rw [hreplaced]
    exact hnew

theorem Changes.rollback_validated (hchange : Changes s r e s') (h : Consistent s) (hrollup : e.action = .rollback) :
    e.image ≠ "" ∧ e.image ∈ s.validated := by
  obtain ⟨himage, hnon⟩ := hchange.back hrollup
  rw [himage]
  exact ⟨hnon, (h.rows _ r hchange.row).previous_validated hnon⟩

/-! ## Runs -/

def validating : Conc.Ghost Call Call.Ret Request (Option String) where
  start _ := none
  next g
    | .validateImage image, .ok _ => some image
    | _, _ => g
  guard g
    | .activateProjectImage _ _ image => g = some image ∧ image ≠ ""
    | _ => True
  fact _ _ _ := True
  exit _ _ := True

def Sound (g : Option String) (s : State) : Prop := ∀ image, g = some image → image ∈ s.validated

theorem ne_of_imageDigestPattern {image : String} (h : imageDigestPattern image = true) : image ≠ "" := by
  rintro rfl
  revert h
  decide

theorem safe_projectConfiguration {α : Type} (selector : String) {f : Principal × Project → Go α}
    (hf : ∀ x, validating.Safe none (f x) fun _ _ => True) :
    validating.Safe none (projectConfiguration selector >>= f : Go α) fun _ _ => True := by
  refine ⟨trivial, fun principal _ => ?_⟩
  cases principal with
  | error e => trivial
  | ok principal =>
    refine ⟨trivial, fun project _ => ?_⟩
    cases project with
    | error e => trivial
    | ok project =>
      apply Conc.Ghost.safe_try.mpr
      apply Conc.Ghost.safe_ite
      · exact fun _ => trivial
      · exact fun _ => hf _

theorem safe_audited {g : Option String} (principal : Principal) (action : String) (project : Project) :
    validating.Safe g (api (audit principal action project) >>= fun _ => pure project : Go Project) fun _ _ => True := by
  refine ⟨trivial, fun r _ => ?_⟩
  cases r <;> trivial

theorem safe_activate (selector image : String) :
    validating.Safe none (activateProjectImage selector image) fun _ _ => True := by
  apply safe_projectConfiguration
  rintro ⟨principal, project⟩
  apply Conc.Ghost.safe_ite
  · exact fun _ => trivial
  intro hpattern
  have hpattern : imageDigestPattern image = true := by simpa using hpattern
  refine ⟨trivial, fun valid _ => ?_⟩
  cases valid with
  | error e => trivial
  | ok =>
    refine ⟨⟨rfl, ne_of_imageDigestPattern hpattern⟩, fun project _ => ?_⟩
    cases project with
    | error e => trivial
    | ok project => exact safe_audited _ _ _

theorem safe_rollback (selector : String) : validating.Safe none (rollbackProjectImage selector) fun _ _ => True := by
  apply safe_projectConfiguration
  rintro ⟨principal, project⟩
  apply Conc.Ghost.safe_ite
  · exact fun _ => trivial
  refine fun _ => ⟨trivial, fun valid _ => ?_⟩
  cases valid with
  | error e => trivial
  | ok =>
    refine ⟨trivial, fun project _ => ?_⟩
    cases project with
    | error e => trivial
    | ok project => exact safe_audited _ _ _

theorem safe_body : ∀ l, validating.Safe (validating.start l) (body l) validating.exit
  | .activate selector image => Conc.Ghost.safe_bind.mpr ((safe_activate selector image).mono fun _ _ _ => trivial)
  | .rollback selector => Conc.Ghost.safe_bind.mpr ((safe_rollback selector).mono fun _ _ _ => trivial)

theorem exec_cases {t : Nat} {ch : Choice} {c : Call} {r : c.Ret} {sp : Option Request}
    (hexec : exec t ch s c = some (r, s', sp)) : sp = none ∧ ((s' = s ∧ ∀ g, validating.next g c r = g) ∨
      (∃ image, s' = s.answered image (.ok ()) ∧ ∀ g, validating.next g c r = some image) ∨
      ((∀ g, validating.next g c r = g) ∧ ∃ row e, Changes s row e s' ∧
        (e.action = .rollback ∨ ∃ principal id, c = .activateProjectImage principal id e.image))) := by
  cases c with
  | authenticate | audit =>
    cases ch <;> cases hexec
    exact ⟨rfl, .inl ⟨rfl, fun _ => rfl⟩⟩
  | authorizeProject =>
    cases ch <;> cases hexec <;> exact ⟨rfl, .inl ⟨rfl, fun _ => rfl⟩⟩
  | validateImage image =>
    cases ch <;> cases hexec
    cases r with
    | error e => exact ⟨rfl, .inl ⟨rfl, fun _ => rfl⟩⟩
    | ok => exact ⟨rfl, .inr (.inl ⟨image, rfl, fun _ => rfl⟩)⟩
  | activateProjectImage principal projectID image =>
    cases ch <;> cases hexec
    · rename_i now dice
      rcases activateProjectImage_cases (Prod.mk.eta (p := s.activateProjectImage now dice principal projectID image)).symm with
        heq | ⟨row, e, hchange, -, rfl⟩
      · exact ⟨rfl, .inl ⟨heq, fun _ => rfl⟩⟩
      · exact ⟨rfl, .inr (.inr ⟨fun _ => rfl, row, e, hchange, .inr ⟨principal, projectID, rfl⟩⟩)⟩
    · exact ⟨rfl, .inl ⟨rfl, fun _ => rfl⟩⟩
  | rollbackProjectImage principal projectID =>
    cases ch <;> cases hexec
    · rename_i now dice
      rcases rollbackProjectImage_cases (Prod.mk.eta (p := s.rollbackProjectImage now dice principal projectID)).symm with
        ⟨heq, -⟩ | ⟨row, e, hchange, -, hactive⟩
      · exact ⟨rfl, .inl ⟨heq, fun _ => rfl⟩⟩
      · exact ⟨rfl, .inr (.inr ⟨fun _ => rfl, row, e, hchange, .inl hactive⟩)⟩
    · exact ⟨rfl, .inl ⟨rfl, fun _ => rfl⟩⟩

theorem Changes.validated {row : ProjectRow} {c : Call} {g : Option String} (hchange : Changes s row e s') (h : Consistent s)
    (hsound : Sound g s) (hguard : validating.guard g c)
    (hby : e.action = .rollback ∨ ∃ principal id, c = .activateProjectImage principal id e.image) :
    e.image ≠ "" ∧ e.image ∈ s.validated := by
  rcases hby with hrollup | ⟨principal, id, rfl⟩
  · exact hchange.rollback_validated h hrollup
  · exact ⟨hguard.2, hsound _ hguard.1⟩

theorem local_consistent (P : Auth.Primitives) :
    Conc.Local (machine P) .all validating State.empty (fun _ => True) Consistent Sound where
  init := consistent_empty
  start _ _ _ _ := nofun
  call w t g c ch r s' sp _ h hsound hguard hexec _ := by
    obtain ⟨-, hcas⟩ := exec_cases (t := t) hexec
    rcases hcas with ⟨rfl, hnext⟩ | ⟨image, rfl, hnext⟩ | ⟨hnext, row, e, hchange, hby⟩
    · rw [hnext]
      exact ⟨trivial, h, hsound, fun _ h' => h'⟩
    · rw [hnext]
      refine ⟨trivial, h.answered image (.ok ()), fun image' heq => ?_, fun g' hg' image' heq => List.mem_cons_of_mem _
          (hg' image' heq)⟩
      cases heq
      exact List.mem_cons_self
    rw [hnext]
    obtain ⟨hnon, hvalid⟩ := hchange.validated h hsound hguard hby
    have hsame : s'.validated = w.st.validated := by rw [hchange.eq]
    have hother : ∀ g', Sound g' w.st → Sound g' s' := by
      intro g' hg' image heq
      rw [hsame]
      exact hg' image heq
    exact ⟨trivial, h.changed hchange hnon hvalid, hother g hsound, hother⟩
  spawn t g c ch r s s' l _ hexec := by cases (exec_cases (t := t) hexec).1
  jump _ _ _ _ _ _ := nofun
  env w e s' _ h he _ := by
    obtain ⟨hkept, hevents, hvalue⟩ := env_kept he
    refine ⟨h.kept hkept hevents hvalue, fun g hg image heq => ?_⟩
    rw [hvalue]
    exact hg image heq
  crash _ _ h _ := h

abbrev Reaches (P : Auth.Primitives) (σ : Conc.Conf State Call Call.Ret Request) : Prop := (machine P).Reach .all State.empty σ

theorem reaches_consistent {σ : Conc.Conf State Call Call.Ret Request} (h : Reaches P σ) : Consistent σ.st :=
  (Conc.run_invariant safe_body (fun _ _ => trivial) (local_consistent P).keeps h).2.1

theorem step_validated {σ σ' : Conc.Conf State Call Call.Ret Request} (h : Reaches P σ) (hstep : (machine P).Step .all σ σ')
    {image : String} (hactive : (σ'.st.images id).map Prod.fst = some image)
    (hnew : (σ.st.images id).map Prod.fst ≠ some image) (hnon : image ≠ "") : image ∈ σ.st.validated := by
  obtain ⟨hfollows, hcons, hsound⟩ := Conc.run_invariant safe_body (fun _ _ => trivial) (local_consistent P).keeps h
  cases hstep with
  | start | finish | jump | crash => exact absurd hactive hnew
  | env e st he =>
    obtain ⟨hkept, -, -⟩ := env_kept he
    obtain ⟨⟨active, previous⟩, himage, rfl⟩ := Option.map_eq_some_iff.mp hactive
    obtain ⟨r', hr', heq⟩ := Option.map_eq_some_iff.mp himage
    cases heq
    rcases hkept.images id r' hr' with ⟨r, hr, hsame, -⟩ | ⟨-, hempty, -⟩
    · refine absurd ?_ hnew
      simp only [State.images, hr, Option.map_some]
      rw [← hsame]
    · exact absurd hempty hnon
  | call t l c k ch a hl hc ha =>
    obtain ⟨r, s', sp⟩ := a
    obtain ⟨g, hg, hsafe⟩ := (hl ▸ hfollows t).eq_some
    rw [hc] at hsafe
    obtain ⟨rfl, hcas⟩ := exec_cases (t := t) ha
    change (s'.images id).map Prod.fst = some image at hactive
    rcases hcas with ⟨rfl, -⟩ | ⟨_, rfl, -⟩ | ⟨-, row, e, hchange, hby⟩
    · exact absurd hactive hnew
    · exact absurd hactive hnew
    have hvalue := hchange.validated hcons (hsound t g hg) hsafe.1 hby
    rw [hchange.eq] at hactive
    simp only [State.images, Table.lookup_insert_eq, Option.map_map] at hactive
    split at hactive
    · cases hactive
      exact hvalue.2
    refine absurd ?_ hnew
    rw [State.images, Option.map_map]
    exact hactive

theorem Changes.images (h : Changes s r e s') :
    s.images e.projectID = some (r.activeImage, r.previousImage) ∧ s'.images e.projectID = some (e.image, r.activeImage) := by
  constructor
  · simp only [State.images, h.row, Option.map_some]
  rw [h.eq]
  simp only [State.images, Table.lookup_insert_eq, if_true, Option.map_some]
  rfl

theorem rollback_twice {s1 s2 s3 : State} {now now' : Time} {dice dice' : Random} {principal principal' : Principal}
    {p p' : Project} (h1 : s.rollbackProjectImage now dice principal id = (.ok p, s1)) (hsame : s2.images id = s1.images id)
    (h2 : s2.rollbackProjectImage now' dice' principal' id = (.ok p', s3)) : s3.images id = s.images id := by
  rcases rollbackProjectImage_cases h1 with ⟨rfl, hok⟩ | ⟨r, e, hchange, rfl, haction⟩
  · obtain ⟨r, hr, heq⟩ := hok p rfl
    rcases rollbackProjectImage_cases h2 with ⟨rfl, -⟩ | ⟨r2, e2, hchange2, rfl, hactive2⟩
    · exact hsame
    have himage := hchange2.images.1
    rw [hsame, State.images, hr, Option.map_some, Option.some.injEq, Prod.mk.injEq] at himage
    obtain ⟨hactive, hprev⟩ := himage
    refine absurd ?_ hchange2.new
    rw [(hchange2.back hactive2).1, ← hprev, heq, hactive]
  obtain ⟨hbefore, hafter⟩ := hchange.images
  have hback := (hchange.back haction).1
  rw [hafter] at hsame
  rcases rollbackProjectImage_cases h2 with ⟨rfl, hok⟩ | ⟨r2, e2, hchange2, hid, hactive2⟩
  · obtain ⟨r2, hr2, heq⟩ := hok p' rfl
    rw [State.images, hr2, Option.map_some, Option.some.injEq, Prod.mk.injEq] at hsame
    refine absurd ?_ hchange.new
    rw [← hsame.1, ← heq, hsame.2]
  obtain ⟨hbefore2, hafter2⟩ := hchange2.images
  rw [hid, hsame, Option.some.injEq, Prod.mk.injEq] at hbefore2
  rw [hid] at hafter2
  rw [hafter2, hbefore, (hchange2.back hactive2).1, ← hbefore2.1, ← hbefore2.2, hback]

/-- **Project images are the replay of their history.** In every reachable state the history of a project, replayed from no
images, gives its active and previous image, each event with the image that it replaced; the two are different if both are set,
and both have been validated. What a step makes active has been validated before, a change is recorded only if there is one, and
two successful rollbacks restore the images. -/
theorem images_replay_history (P : Auth.Primitives) (σ : Conc.Conf State Call Call.Ret Request) (hσ : Reaches P σ) :
    (∀ id r, σ.st.db.projects.lookup id = some r →
      replay (σ.st.history id) = some (r.activeImage, r.previousImage) ∧
      (r.activeImage ≠ "" → r.previousImage ≠ "" → r.activeImage ≠ r.previousImage) ∧
      ∀ image ∈ [r.activeImage, r.previousImage], image ≠ "" → image ∈ σ.st.validated) ∧
    (∀ e ∈ σ.st.events, e.image ≠ e.replacedImage) ∧
    (∀ σ', (machine P).Step .all σ σ' → ∀ id image, (σ'.st.images id).map Prod.fst = some image →
      (σ.st.images id).map Prod.fst ≠ some image → image ≠ "" → image ∈ σ.st.validated) ∧
    (∀ id now dice principal p s₁, σ.st.rollbackProjectImage now dice principal id = (.ok p, s₁) →
      ∀ (s₂ s₃ : State) now' dice' principal' p', s₂.images id = s₁.images id →
        s₂.rollbackProjectImage now' dice' principal' id = (.ok p', s₃) → s₃.images id = σ.st.images id) := by
  have hconsistent := reaches_consistent hσ
  refine ⟨fun id r hr => ?_, hconsistent.changes, fun σ' hstep id image => step_validated hσ hstep, ?_⟩
  · obtain ⟨hreplayed, hunequal, hactive, hprevious⟩ := hconsistent.rows id r hr
    refine ⟨hreplayed, fun _ hne => (hunequal hne).2, fun image himage hne => ?_⟩
    simp only [List.mem_cons, List.not_mem_nil, or_false] at himage
    rcases himage with rfl | rfl
    · exact hactive hne
    · exact hprevious hne
  intro id now dice principal p s₁ h₁ s₂ s₃ now' dice' principal' p' hsame h₂
  exact rollback_twice h₁ hsame h₂

def pinned (name : String) (digit : Char) : String := name ++ "@sha256:" ++ String.ofList (List.replicate 64 digit)

/-- The events of a request that nothing stops; `t` is the number of its goroutine. -/
def served (t : Nat) (r : Request) (n : UInt8) : List (Conc.Event Request Choice Access.Event) :=
  [.start r, .run t (.caller (.ok Auth.sampleAdmin)), .run t (.rows lastFirst), .run t (.scheduler (.ok ())),
    .run t (.commit 0 (Auth.sampleRandom n)), .run t (.written (.ok ())), .run t .fails]

def rolledBack : Option (Conc.Conf State Call Call.Ret Request) :=
  (machine Auth.samplePrimitives).steps (Conc.Machine.init State.empty)
    ([.env ⟨.createProject Auth.sampleAdmin "web" "", 0, sampleDice 0, lastFirst⟩] ++
      served 0 (.activate "web" (pinned "ci" 'a')) 1 ++ served 1 (.activate "web" (pinned "ci" 'b')) 2 ++
      served 2 (.rollback "web") 3)

theorem images_replay_history_rollback : ∃ σ, Reaches Auth.samplePrimitives σ ∧
    σ.st.images (Auth.randomID "prj" (Auth.sampleRandom 0)) = some (pinned "ci" 'a', pinned "ci" 'b') ∧
    ∀ id r, σ.st.db.projects.lookup id = some r → replay (σ.st.history id) = some (r.activeImage, r.previousImage) := by
  have himages : rolledBack.bind (fun σ => σ.st.images (Auth.randomID "prj" (Auth.sampleRandom 0))) =
      some (pinned "ci" 'a', pinned "ci" 'b') := by decide +kernel
  obtain ⟨σ, hσ, himages⟩ := Option.bind_eq_some_iff.mp himages
  have hreach : Reaches Auth.samplePrimitives σ := Conc.Machine.reach_steps .init hσ
  exact ⟨σ, hreach, himages, fun id r hr => ((images_replay_history _ σ hreach).1 id r hr).1⟩

end Images

end Access

end Autback
