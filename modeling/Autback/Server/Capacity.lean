import Autback.Server.Cleanup

/-!
# The capacity controller

`runLocked` measures the worker's file system, reclaims space while the worker is idle and, below the hard floor, stops the
running operation (`internal/capacity/controller.go`). `emergency` is the closure that the server gives it for that
(`newCapacityController` in `cmd/autback-server/main.go`): it ends the operation that holds the reservation, tears it down and
releases the reservation, all under the capacity lock.
-/

namespace Autback

open Conc (Fallible)

def logged (p : Go Err Unit) : Go Err Unit := do
  let _ ← Fallible.attempt p
  pure ()

def stopRuntime (op : Op) : Go Err Unit :=
  match op.kind with
  | .build => pure ()
  | .job => do
    logged (perform (.cancel op.id))
    logged (perform (.remove op.id))

/-- The part of the closure that claims the teardown of `op` and carries it out. -/
def emergencyTeardown (scope : Scope) (op : Op) : Go Err Unit := do
  match ← Store.claimOperationCleanup with
  | none => fail (.new ("claim emergency cleanup for " ++ op.kind.text ++ " " ++ op.id))
  | some claimed =>
    if claimed.op = op then do
      wrapping ("emergency resource cleanup for " ++ op.kind.text ++ " " ++ op.id) (Lifecycle.cleanup scope claimed.op)
      Store.completeOperationCleanup op
    else fail (.new ("claim emergency cleanup for " ++ op.kind.text ++ " " ++ op.id))

/-- The `Emergency` closure; `dryRun` makes it do nothing (`Host.Emergency`). -/
def emergency (dryRun : Bool) (scope : Scope) : Go Err Unit :=
  if dryRun then pure ()
  else do
    match ← Store.emergencyStopActiveOperation "worker capacity exhausted" with
    | none => pure ()
    | some operation => do
      stopRuntime operation.op
      emergencyTeardown scope operation.op

namespace Controller

variable (policy : Policy) (dryRun : Bool) (scope : Scope) (trigger : Trigger)

def snapshot : Go Err Snapshot := perform .snapshot

def reclaim (request : ReclaimRequest) : Go Err Unit := perform (.reclaim request)

/-- The last part of `runLocked`: the worker is blocked if space is still short. -/
def conclude (thresholds : Thresholds) (after : Snapshot) : Go Err Unit :=
  if policy.pressure thresholds after then fail (capacityError after thresholds policy.minimumFreeInodes) else pure ()

/-- A snapshot whose error is ignored: `status.After, _ = c.backend.Snapshot(ctx)`. -/
def snapshotOrZero : Go Err Snapshot := do
  match ← Fallible.attempt snapshot with
  | .ok s => return s
  | .error _ => return ⟨0, 0, 0, 0⟩

/-- The part of `runLocked` after the reclaim: below the hard floor, stop the running operation and reclaim again. -/
def afterReclaim (thresholds : Thresholds) (before after : Snapshot) : Go Err Unit :=
  if policy.hardPressure thresholds after then do
    match ← Fallible.attempt (emergency dryRun scope) with
    | .error _ => conclude policy thresholds after
    | .ok _ => do
      let _ ← Fallible.attempt (reclaim (policy.reclaimRequest trigger true before))
      conclude policy thresholds (← snapshotOrZero)
  else conclude policy thresholds after

/-- The part of `runLocked` that reclaims. -/
def reclaimStage (thresholds : Thresholds) (before : Snapshot) (pressure : Bool) : Go Err Unit :=
  if pressure || trigger ≠ .admission then do
    wrapping "reclaim worker capacity" (reclaim (policy.reclaimRequest trigger pressure before))
    let after ← wrapping "remeasure worker capacity" snapshot
    afterReclaim policy dryRun scope trigger thresholds before after
  else afterReclaim policy dryRun scope trigger thresholds before before

def throttle : Go Err Bool :=
  if trigger = .pressure then do
    let now : Time ← always (perform .now)
    let last : Time ← always (perform .lastPressure)
    if policy.pressureThrottle > 0 && now - last < policy.pressureThrottle then return false
    else do
      let _ : Unit ← always (perform (.setLastPressure now))
      return true
  else return true

/-- The part of `runLocked` after the worker is known to be idle. -/
def idleStage (thresholds : Thresholds) (before : Snapshot) (pressure : Bool) : Go Err Unit := do
  if ← throttle policy trigger then reclaimStage policy dryRun scope trigger thresholds before pressure
  else pure ()

/-- The part of `runLocked` that stops a running operation before it reclaims under hard pressure. -/
def emergencyStage (thresholds : Thresholds) (before : Snapshot) (pressure : Bool) : Go Err Unit := do
  wrapping "stop active operation before emergency reclaim" (emergency dryRun scope)
  let busy ← wrapping "verify worker activity after emergency" Store.workerBusy
  if busy then fail (.new "worker remains busy after emergency stop")
  else idleStage policy dryRun scope trigger thresholds before pressure

/-- The part of `runLocked` that looks whether the worker is busy. -/
def busyStage (thresholds : Thresholds) (before : Snapshot) (pressure : Bool) : Go Err Unit := do
  let busy ← wrapping "read worker activity" Store.workerBusy
  if busy then
    if policy.hardPressure thresholds before then
      emergencyStage policy dryRun scope trigger thresholds before pressure
    else pure ()
  else idleStage policy dryRun scope trigger thresholds before pressure

def runLocked : Go Err Unit := do
  let before ← wrapping "measure worker capacity" snapshot
  let thresholds := policy.thresholds before.totalBytes
  let pressure := policy.pressure thresholds before
  if trigger = .pressure && !pressure then pure ()
  else if pressure || trigger ≠ .admission then
    busyStage policy dryRun scope trigger thresholds before pressure
  else idleStage policy dryRun scope trigger thresholds before pressure

/-- Run `p` with the capacity lock, which is released however `p` ends. -/
def locked (p : Go Err Unit) : Go Err Unit := do
  let _ : Unit ← wrapping "lock worker capacity" (perform .lock)
  let result ← Fallible.attempt p
  let _ : Unit ← always (perform .unlock)
  Fallible.ofExcept result

def admitReserve (reserve : Go Err Unit) : Go Err Unit :=
  locked do
    runLocked policy dryRun scope .admission
    reserve

def maintain : Go Err Unit := locked (runLocked policy dryRun scope trigger)

end Controller

end Autback
