import Autback.Conc.Machine
import Autback.Server.Call

/-!
# The state of the system and the meaning of calls

The state (`Sys`) is the database, what the Docker Engine has of jobs and resources, and what the server process keeps in
memory. `exec` answers the calls. A crash loses the memory and nothing else.

The task of a service runs from the return of `Scheduler.Create` until the environment ends it; the service's removal or
cancellation does not end it at once.
-/

namespace Autback

structure Sys where
  db : DB
  now : Time
  /-- Services by the id of their job. -/
  services : Table String Service
  /-- The jobs whose task runs. -/
  running : List String
  resources : List Resource
  /-- The goroutine that holds the capacity lock. -/
  lock : Option Nat
  lastPressure : Time
  (advancing advancePending advanceWake draining cleanupRunning cleanupPending cleanupDraining booted serving : Bool)
  /-- The context of the process has ended. -/
  stopped : Bool

/-- A machine on which the server was never started, at time `now`. -/
def Sys.fresh (now : Time) : Sys where
  db := DB.empty
  now := now
  services := ∅
  running := []
  resources := []
  lock := none
  lastPressure := zeroTime
  advancing := false
  advancePending := false
  advanceWake := false
  draining := false
  cleanupRunning := false
  cleanupPending := false
  cleanupDraining := false
  booted := false
  serving := false
  stopped := false

def Sys.crash (s : Sys) : Sys :=
  { Sys.fresh s.now with db := s.db, services := s.services, running := s.running, resources := s.resources }

/-! ## Answers -/

abbrev Result (c : Call) := c.Ret × Sys × Option Label

def attemptWith {α : Type} (s : Sys) (ch : Choice) (a : α) (s' : Sys) : Option (Except Err α × Sys × Option Label) :=
  match ch with
  | .go => some (.ok a, s', none)
  | .fail e => some (.error e, s, none)
  | _ => none

def commitTx (s : Sys) (x : Tx) (fresh : String) : Result (.tx x) :=
  match x.run s.now fresh s.db with
  | .ok (a, db) => (.ok a, { s with db := db }, none)
  | .error e => (.error e, s, none)

/-- An error of the `control` package: these stand for what its code finds, and nothing else returns them. -/
def ofControl (e : Err) : Bool :=
  [Sentinel.unauthenticated, .forbidden, .notFound, .alreadyExists, .idempotencyConflict, .invalidPageToken].any e.is

/-- A transaction of the store. It can fail on its own, but with an error of the database only. -/
def execTx (s : Sys) (ch : Choice) (x : Tx) : Option (Result (.tx x)) :=
  match ch with
  | .go => some (commitTx s x "")
  | .fresh id => some (commitTx s x id)
  | .fail e => if ofControl e then none else some (.error e, s, none)
  | _ => none

/-- `Scheduler.Create` with the service id that the engine gives. -/
def execCreate (s : Sys) (ch : Choice) (job : Job) : Option (Result (.create job)) :=
  match ch with
  | .fresh serviceID =>
    if job.id = "" then some (.error (.new "job ID is required"), s, none)
    else if job.image = "" then some (.error (.new "project image is required"), s, none)
    else match s.services.lookup job.id with
    | some _ => some (.error (.new ("create Swarm job " ++ job.id ++ ": name conflicts with an existing object")), s, none)
    | none => some (.ok (),
        { s with
          services := s.services.insert job.id (newService job serviceID s.now)
          running := job.id :: s.running }, none)
  | .fail e => some (.error e, s, none)
  | _ => none

def execStatus (s : Sys) (ch : Choice) (id : String) : Option (Result (.status id)) :=
  match ch with
  | .go => match s.services.lookup id with
    | some service => some (service.status id, s, none)
    | none => some (.error (.new ("inspect Swarm job " ++ id ++ ": not found")), s, none)
  | .fail e => some (.error e, s, none)
  | _ => none

def cancelService (s : Sys) (id : String) : Sys :=
  match s.services.lookup id with
  | some service => { s with services := s.services.insert id (service.cancel s.now) }
  | none => s

/-- The entries of `ListResults`, newest first; those of `broken` cannot be inspected. -/
def managedJobs (s : Sys) (broken : List String) : List RuntimeJob :=
  let managed := (Table.rows s.services).filter fun e => e.2.label managedLabel == "true"
  let entries := managed.map fun e => (⟨e.1,
    if e.1 ∈ broken then .error (.new ("inspect Swarm job " ++ e.1)) else e.2.status e.1⟩ : RuntimeJob)
  let created (r : RuntimeJob) : Time := match r.job with
    | .ok job => job.createdAt
    | .error _ => zeroTime
  entries.insertionSort fun a b => created a > created b ∨ (created a = created b ∧ a.id ≤ b.id)

def execManagedJobs (s : Sys) (ch : Choice) : Option (Result .managedJobs) :=
  match ch with
  | .managed broken => some (.ok (managedJobs s broken), s, none)
  | .fail e => some (.error e, s, none)
  | _ => none

def listResources (s : Sys) (kind : ResourceKind) : List String :=
  (s.resources.filter fun r => r.kind == kind).map Resource.id

def Resource.named (r : Resource) (kind : ResourceKind) (id : String) : Bool :=
  r.kind == kind && resourceName kind r.id == resourceName kind id

def removeResources (s : Sys) (kind : ResourceKind) (id : String) : Sys :=
  { s with resources := s.resources.filter fun r => !r.named kind id }

/-- The capacity controller locks its mutex and then asks the backend for its lock, which may fail. -/
def execLock (t : Nat) (s : Sys) (ch : Choice) : Option (Result .lock) :=
  if s.lock = none then
    match ch with
    | .go => some (.ok (), { s with lock := some t }, none)
    | .fail e => some (.error e, s, none)
    | _ => none
  else none

def execCtxErr (s : Sys) (ch : Choice) (scope : Scope) : Option (Result (.ctxErr scope)) :=
  match scope, ch with
  | .request, .go => some (false, s, none)
  | .request, .done => some (true, s, none)
  | .process, .go => some (s.stopped, s, none)
  | .background, .go => some (false, s, none)
  | _, _ => none

def execWait (s : Sys) (ch : Choice) (scope : Scope) : Option (Result (.wait scope)) :=
  match scope, ch with
  | _, .go => some (true, s, none)
  | .request, .done => some (false, s, none)
  | .process, .done => if s.stopped then some (false, s, none) else none
  | _, _ => none

/-- The `select` after a failed admission: the end of the context, a wake-up or the timer. -/
def execRetryDelay (s : Sys) (ch : Choice) : Option (Result .retryDelay) :=
  match ch with
  | .go => some (true, s, none)
  | .wakeup _ => if s.advanceWake then some (true, { s with advanceWake := false }, none) else none
  | .done => if s.stopped then some (false, s, none) else none
  | _ => none

def dispatcherAdvance (s : Sys) : Sys × Option Label :=
  if s.draining then (s, none)
  else if s.advancing then ({ s with advancePending := true, advanceWake := true }, none)
  else ({ s with advancePending := true, advancing := true }, some .dispatcher)

def coordinatorAdvance (s : Sys) : Sys × Option Label :=
  if s.cleanupDraining then (s, none)
  else if s.cleanupRunning then ({ s with cleanupPending := true }, none)
  else ({ s with cleanupPending := true, cleanupRunning := true }, some .coordinator)

def Sys.boot (s : Sys) : Sys :=
  { s with
    advancing := false
    advancePending := false
    advanceWake := false
    draining := false
    cleanupRunning := false
    cleanupPending := false
    cleanupDraining := false
    booted := true
    serving := false
    stopped := false }

def exec (t : Nat) (ch : Choice) (s : Sys) : (c : Call) → Option (Result c)
  | .tx x => execTx s ch x
  | .create job => execCreate s ch job
  | .status id => execStatus s ch id
  | .cancel id => attemptWith s ch () (cancelService s id)
  | .remove id => attemptWith s ch () { s with services := s.services.erase id }
  | .managedJobs => execManagedJobs s ch
  | .logs _ => attemptWith s ch () s
  | .list kind => attemptWith s ch (listResources s kind) s
  | .removeResource _ kind id => attemptWith s ch () (removeResources s kind id)
  | .resolveSecret _ _ => attemptWith s ch () s
  | .writeSecret _ _ => attemptWith s ch () s
  | .publishSecrets _ => attemptWith s ch () s
  | .removeSecrets _ => attemptWith s ch () s
  | .authenticate => match ch with
    | .principal p => some (.ok p, s, none)
    | .deny e => some (.error e, s, none)
    | _ => none
  | .authorizeProject _ _ => match ch with
    | .project p => some (.ok p, s, none)
    | .fail e => some (.error e, s, none)
    | _ => none
  | .issue _ => match ch with
    | .go => some (.ok (), s, none)
    | .fail e => if ofControl e then none else some (.error e, s, none)
    | _ => none
  | .respond _ _ => some ((), s, none)
  | .lock => execLock t s ch
  | .unlock => some ((), { s with lock := none }, none)
  | .snapshot => match ch with
    | .snapshot x => some (.ok x, s, none)
    | .fail e => some (.error e, s, none)
    | _ => none
  | .reclaim _ => attemptWith s ch () s
  | .lastPressure => some (s.lastPressure, s, none)
  | .setLastPressure time => some ((), { s with lastPressure := time }, none)
  | .now => some (s.now, s, none)
  | .ctxErr scope => execCtxErr s ch scope
  | .wait scope => execWait s ch scope
  | .retryDelay => execRetryDelay s ch
  | .nextTrigger => match ch with
    | .trigger trigger => some (some trigger, s, none)
    | .done => if s.stopped then some (none, s, none) else none
    | _ => none
  | .wakeup => match ch with
    | .wakeup w => some (w, s, none)
    | _ => none
  | .draining => some (s.draining, s, none)
  | .dispatcherAdvance => some ((), (dispatcherAdvance s).1, (dispatcherAdvance s).2)
  | .dispatcherBegin => some ((), { s with advancePending := false }, none)
  | .dispatcherEnd =>
    if s.advancePending then some (true, s, none) else some (false, { s with advancing := false }, none)
  | .dispatcherFinish => some ((), { s with advancing := false }, none)
  | .coordinatorAdvance => some ((), (coordinatorAdvance s).1, (coordinatorAdvance s).2)
  | .coordinatorBegin => some ((), { s with cleanupPending := false }, none)
  | .coordinatorEnd =>
    if s.cleanupPending then some (true, s, none) else some (false, { s with cleanupRunning := false }, none)
  | .coordinatorFinish => some ((), { s with cleanupRunning := false }, none)
  | .boot => if s.booted then some (false, s, none) else some (true, s.boot, none)
  | .go l => some ((), s, some l)
  | .serve => some ((), { s with serving := true }, none)
  | .drainDispatcher => some ((), { s with draining := true }, none)
  | .drainCoordinator => some ((), { s with cleanupDraining := true }, none)
  | .stopProcess => some ((), { s with stopped := true }, none)

/-! ## The environment -/

/-- What the world does on its own: time passes, the engine updates the tasks of a service, a task ends, a running
operation creates a resource. -/
inductive Env
  | tick (d : Nat)
  | tasks (id : String) (tasks : List Task)
  | exit (id : String)
  | addResource (r : Resource)

def Env.apply (e : Env) (s : Sys) : Option Sys :=
  match e with
  | tick d => some { s with now := s.now + d }
  | tasks id ts => match s.services.lookup id with
    | some service => some { s with services := s.services.insert id { service with tasks := ts } }
    | none => none
  | exit id => some { s with running := s.running.filter (· ≠ id) }
  | addResource r => some { s with resources := r :: s.resources }

/-- The goroutines that the environment starts: the process, the `maintain` command, and, while the server serves, requests
and the shutdown. -/
def entry (s : Sys) : Label → Bool
  | .main => !s.booted
  | .maintain _ => true
  | .request _ => s.serving
  | .shutdown => s.serving
  | _ => false

end Autback
