import Autback.Server.Store

/-!
# Preparation and teardown of operations

`ResourceManager` (`internal/operation/cleanup/resources.go`) and the secret manager (`internal/secrets/manager.go`),
combined in the order of the server's `Lifecycle`, and the cleanup coordinator
(`internal/operation/cleanup/coordinator.go`).
-/

namespace Autback

open Conc (Fallible)

def isContextCancellation (e : Err) (scope : Scope) : Srv Bool := do
  let ended : Bool ← perform (.ctxErr scope)
  return ended && (e.is .canceled || e.is .deadlineExceeded)

/-! ## Resources -/

namespace ResourceManager

/-- `Client.Inventory`: four lists. -/
def inventory : Go Err ResourceSet := do
  let services : List String ← wrapping "list Docker services" (perform (.list .service))
  let containers : List String ← wrapping "list Docker containers" (perform (.list .container))
  let networks : List String ← wrapping "list Docker networks" (perform (.list .network))
  let volumes : List String ← wrapping "list Docker volumes" (perform (.list .volume))
  return ⟨services, containers, networks, volumes⟩

/-- `ResourceManager.Prepare`. -/
def prepare (op : Op) : Go Err Unit := do
  match ← Fallible.attempt (Store.resourceBaseline op) with
  | .ok _ => pure ()
  | .error e =>
    if e.is .notFound then do
      let resources ← wrapping "inventory Docker resources" inventory
      wrapping "save resource baseline" (Store.saveResourceBaseline op (normalize resources))
    else fail (e.wrap "read resource baseline")

def removeEach (owner : Op) (kind : ResourceKind) : List String → Srv (List Err)
  | [] => return []
  | id :: ids => do
    let result : Except Err Unit ← perform (.removeResource owner kind id)
    let errs ← removeEach owner kind ids
    match result with
    | .ok _ => return errs
    | .error e => return e.wrap ("remove " ++ kind.text ++ " " ++ id) :: errs

def removeOwned (owner : Op) (owned : ResourceSet) : Srv (List Err) := do
  let services ← removeEach owner .service owned.services
  let containers ← removeEach owner .container owned.containers
  let networks ← removeEach owner .network owned.networks
  let volumes ← removeEach owner .volume owned.volumes
  return services ++ containers ++ networks ++ volumes

/-- A list as `%v` prints it. -/
def listText (ids : List String) : String := "[" ++ " ".intercalate ids ++ "]"

def remain (r : ResourceSet) : Err :=
  .new ("operation-owned Docker resources remain: services=" ++ listText r.services ++ " containers=" ++
    listText r.containers ++ " networks=" ++ listText r.networks ++ " volumes=" ++ listText r.volumes)

def verify (baseline : ResourceSet) : Srv (List Err) := do
  match ← inventory with
  | .error e => return [e.wrap "verify Docker resource cleanup"]
  | .ok current =>
    let remaining := difference current baseline
    return if remaining.empty then [] else [remain remaining]

def joined (errs : List Err) : Go Err Unit :=
  match Err.joinAll errs with
  | none => pure ()
  | some e => fail e

def grace (scope : Scope) : OperationKind → Go Err Unit
  | .build => pure ()
  | .job => do
    let elapsed : Bool ← always (perform (.wait scope))
    if elapsed then pure () else fail .canceled

def cleanupWith (scope : Scope) (op : Op) (baseline : ResourceSet) : Go Err Unit := do
  grace scope op.kind
  let current ← wrapping "inventory Docker resources" inventory
  let removal ← always (removeOwned op (difference current baseline))
  let final ← always (verify baseline)
  joined (removal ++ final)

/-- `ResourceManager.Cleanup`. -/
def cleanup (scope : Scope) (op : Op) : Go Err Unit := do
  match ← Fallible.attempt (Store.resourceBaseline op) with
  | .ok baseline => cleanupWith scope op baseline
  | .error e => if e.is .notFound then pure () else fail (e.wrap "read resource baseline")

end ResourceManager

/-! ## Secrets -/

namespace SecretManager

def materialize (job : Job) : List SecretBinding → Go Err Unit
  | [] => pure ()
  | binding :: bindings => do
    let _ : Unit ← perform (.resolveSecret job.projectID binding.name)
    let _ : Unit ← wrapping ("materialize job secret " ++ binding.name) (perform (.writeSecret job.id binding.name))
    wrapping ("record access to job secret " ++ binding.name)
      (Store.audit ⟨.system, "", "", "", false, "dispatcher"⟩ job.projectID "job.secret.access" job.id
        (some [("name", binding.name)]))
    materialize job bindings

def prepare (op : Op) : Go Err Unit :=
  match op.kind with
  | .build => pure ()
  | .job => do
    let job ← Store.job op.id
    match job.secrets with
    | some (binding :: bindings) => do
      materialize job (binding :: bindings)
      let _ : Unit ← wrapping "publish job secret material" (perform (.publishSecrets job.id))
      pure ()
    | _ => pure ()

def cleanup (op : Op) : Go Err Unit :=
  match op.kind with
  | .build => pure ()
  | .job => do
    let _ : Unit ← perform (.removeSecrets op.id)
    pure ()

end SecretManager

namespace Lifecycle

def prepare (op : Op) : Go Err Unit := do
  ResourceManager.prepare op
  SecretManager.prepare op

def joinResults : Except Err Unit → Except Err Unit → Except Err Unit
  | .ok _, r => r
  | .error e, .ok _ => .error e
  | .error e, .error e' => .error (e.join e')

/-- `Lifecycle.Cleanup`: both cleaners run. -/
def cleanup (scope : Scope) (op : Op) : Go Err Unit := do
  let secrets ← Fallible.attempt (SecretManager.cleanup op)
  let resources ← Fallible.attempt (ResourceManager.cleanup scope op)
  Fallible.ofExcept (joinResults secrets resources)

end Lifecycle

/-! ## The wake-up of the workers -/

def advance : Srv Unit := do
  let draining : Bool ← perform .draining
  if draining then return ()
  else do
    let _ : Unit ← perform .coordinatorAdvance
    perform .dispatcherAdvance

namespace Coordinator

def request (op : Op) : Go Err Unit := do
  Store.beginOperationCleanup op
  always (perform .coordinatorAdvance)

/-- The end of `RunOnce` after the cleaner has failed. -/
def recordFailure (scope : Scope) (op : Op) (e : Err) : Srv (Option Err) := do
  if ← isContextCancellation e scope then return some e
  else do
    let failure := e.wrap ("clean " ++ op.kind.text ++ " " ++ op.id)
    match ← Store.recordOperationCleanupFailure op e.text with
    | .ok _ => return some failure
    | .error e' => return some (failure.join e')

/-- `Coordinator.RunOnce`: whether a teardown was claimed, and the error. -/
def runOnce (scope : Scope) : Srv (Bool × Option Err) := do
  match ← Store.claimOperationCleanup with
  | .error e => return (false, some e)
  | .ok none => return (false, none)
  | .ok (some operation) =>
    match ← Lifecycle.cleanup scope operation.op with
    | .error e => return (true, ← recordFailure scope operation.op e)
    | .ok _ =>
      match ← Store.completeOperationCleanup operation.op with
      | .error e =>
        return (true, some (e.wrap ("complete cleanup for " ++ operation.op.kind.text ++ " " ++ operation.op.id)))
      | .ok _ => do
        advance
        return (true, none)

/-- `finish`, after which the worker returns. -/
def finish : Srv (Option Label) := do
  let _ : Unit ← perform .coordinatorFinish
  return none

/-- One round of the worker's loop (`Coordinator.advance`). -/
def round : Srv (Option Label) := do
  let _ : Unit ← perform .coordinatorBegin
  let (claimed, err) ← runOnce .process
  match err with
  | some e =>
    if ← isContextCancellation e .process then finish
    else do
      let elapsed : Bool ← perform (.wait .process)
      if elapsed then return some .coordinator else finish
  | none =>
    if claimed then return some .coordinator
    else do
      let again : Bool ← perform .coordinatorEnd
      if again then return some .coordinator else return none

end Coordinator

end Autback
