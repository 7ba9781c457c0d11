import Autback.Server.Capacity

/-!
# The dispatcher

`RunOnce` reserves the oldest operation when the worker is idle and starts it, under the capacity lock; `round` is one round
of the background worker that retries it (`internal/control/dispatcher/dispatcher.go`).

Every path through the loop of `runOnce` returns, so that the loop body runs once and the list of admission errors that it
collects has at most the error of the path at hand.
-/

namespace Autback

open Conc (Fallible)

/-- What the server is configured with; validation and hashing of requests are functions of the request. -/
structure Config where
  validateJob : String → PrepareJobRequest → Except Err PrepareJob
  admissionHash : PrepareJob → String
  buildHash : String → String
  (validRootDigest validIdempotencyKey : String → Bool)
  (requiredJobCapability requiredBuildCapability : String)
  (serviceRetention admissionGrace buildLeaseTimeout jobPreparationLeaseTimeout : Duration)
  policy : Policy
  dryRun : Bool

namespace Dispatcher

variable (cfg : Config) (scope : Scope)

/-- End a job that cannot be admitted because of `e`: mark it failed and ask for its teardown. -/
def rejectJob (context : String) (id : String) (e : Err) : Go Err Unit := do
  let failure := e.wrap context
  match ← Fallible.attempt (Store.failJob id e.text) with
  | .error failErr => fail (failure.join failErr)
  | .ok _ =>
    match ← Fallible.attempt (Coordinator.request (jobOp id)) with
    | .error releaseErr => fail (failure.join releaseErr)
    | .ok _ => fail failure

/-- The end of a job's admission: activate it and forward a cancellation that was requested meanwhile. -/
def activateJob (id : String) : Go Err Unit := do
  wrapping ("activate job " ++ id) (Store.activateOperation (jobOp id))
  let job ← wrapping ("read active job " ++ id) (Store.job id)
  if job.cancelRequested then wrapping ("cancel admitted job " ++ id) (perform (.cancel id)) else pure ()

def createJob (job : Job) (id : String) : Go Err Unit := do
  match ← Fallible.attempt (perform (.create job)) with
  | .ok _ => activateJob id
  | .error e =>
    if ← always (isContextCancellation e scope) then fail e
    else rejectJob ("admit job " ++ id) id e

/-- What `runOnce` does when the preparation of an operation fails. -/
def prepareFailed (op : Op) (e : Err) : Go Err Unit :=
  if e.permanent && op.kind == .job then rejectJob ("prepare operation " ++ op.id) op.id e
  else do
    let failure := e.wrap ("prepare operation " ++ op.id ++ " resources")
    match ← Fallible.attempt (Store.requeueAdmittingOperation op) with
    | .ok _ => fail failure
    | .error requeueErr => fail (failure.join requeueErr)

def admitPrepared (op : Op) (start : Go Err Unit) : Go Err Unit := do
  match ← Fallible.attempt (Lifecycle.prepare op) with
  | .error e => prepareFailed op e
  | .ok _ => start

def admitOperation (op : Op) : Go Err Unit :=
  match op.kind with
  | .build => admitPrepared op (wrapping ("activate build " ++ op.id) (Store.activateOperation op))
  | .job => do
    let job ← wrapping ("read admitted job " ++ op.id) (Store.job op.id)
    if job.status = .preparing then pure ()
    else admitPrepared op (createJob scope job op.id)

/-- `Dispatcher.runOnce`. -/
def reserve : Go Err Unit := do
  let draining : Bool ← always (perform .draining)
  if draining then fail .draining
  else do
    match ← Store.acquireNextOperation with
    | none => pure ()
    | some operation => admitOperation scope operation.op

def runOnce : Go Err Unit := do
  let draining : Bool ← always (perform .draining)
  if draining then fail .draining
  else Controller.admitReserve cfg.policy cfg.dryRun scope (reserve scope)

def release (op : Op) : Go Err Unit := Coordinator.request op

/-- `RunOnce`, followed by `Advance` if it fails. -/
def runOrAdvance : Srv (Option Err) := do
  match ← runOnce cfg scope with
  | .ok _ => return none
  | .error e => do
    advance
    return some e

/-- `finishAdvance`, after which the worker returns. -/
def finish : Srv (Option Label) := do
  let _ : Unit ← perform .dispatcherFinish
  return none

/-- One round of the worker's loop (`Dispatcher.advance`). -/
def round : Srv (Option Label) := do
  let _ : Unit ← perform .dispatcherBegin
  match ← runOnce cfg .process with
  | .error e =>
    if e.is .draining then finish
    else if ← isContextCancellation e .process then finish
    else do
      let elapsed : Bool ← perform .retryDelay
      if elapsed then return some .dispatcher else finish
  | .ok _ => do
    let again : Bool ← perform .dispatcherEnd
    if again then return some .dispatcher else return none

end Dispatcher

end Autback
