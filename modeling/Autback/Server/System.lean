import Autback.Server.Handlers
import Autback.Server.Reconciler
import Autback.Server.State

/-!
# The system

The programs of all goroutines (`body`), as `cmd/autback-server/main.go` starts them, and the machine that interleaves
them. A request, the shutdown and the `maintain` command start whenever the environment wants; the reconciler, the
capacity controller and the two background workers are started by the code.
-/

namespace Autback

variable (cfg : Config)

def serverMain : Srv (Option Label) := do
  let new : Bool ← perform .boot
  if new then do
    let _ ← Controller.maintain cfg.policy cfg.dryRun .process .manual
    advance
    let _ : Unit ← perform (.go .reconcilerRun)
    let _ : Unit ← perform (.go .capacityWait)
    let _ : Unit ← perform .serve
    return none
  else return none

/-- The end of the server (`OnDrain` and the end of the process context). -/
def shutdown : Srv (Option Label) := do
  let _ : Unit ← perform .drainDispatcher
  let _ : Unit ← perform .drainCoordinator
  let _ : Unit ← perform .stopProcess
  return none

/-- The ticker of `runReconciler`. -/
def reconcilerWait : Srv (Option Label) := do
  let elapsed : Bool ← perform (.wait .process)
  if elapsed then return some .reconcilerRun else return none

def reconcilerRun : Srv (Option Label) := do
  Reconciler.runOnce cfg
  return some .reconcilerWait

/-- The `select` of `runCapacityController`. -/
def capacityWait : Srv (Option Label) := do
  let trigger : Option Trigger ← perform .nextTrigger
  match trigger with
  | some trigger => return some (.capacityRun trigger)
  | none => return none

def capacityRun (trigger : Trigger) : Srv (Option Label) := do
  let _ ← Controller.maintain cfg.policy cfg.dryRun .process trigger
  return some .capacityWait

def maintainCommand (dryRun : Bool) : Srv (Option Label) := do
  let _ ← Controller.maintain cfg.policy dryRun .background .manual
  return none

def body : Label → Srv (Option Label)
  | .main => serverMain cfg
  | .request r => Api.handle cfg r
  | .awaitActive offset job => Api.awaitActive offset job
  | .poll offset job following => Api.poll offset job following
  | .dispatcher => Dispatcher.round cfg
  | .coordinator => Coordinator.round
  | .reconcilerWait => reconcilerWait
  | .reconcilerRun => reconcilerRun cfg
  | .capacityWait => capacityWait
  | .capacityRun trigger => capacityRun cfg trigger
  | .maintain dryRun => maintainCommand cfg dryRun
  | .shutdown => shutdown

/-- The machine of a server with configuration `cfg`. -/
def machine : Conc.Machine Sys Call Call.Ret Label Choice Env where
  body := body cfg
  entry := entry
  exec := exec
  env := Env.apply
  crash := Sys.crash

abbrev World := Conc.World Sys Call Call.Ret Label

abbrev Conf := Conc.Conf Sys Call Call.Ret Label

abbrev Rules := Conc.Rules Sys Call Call.Ret Label Env

/-- The configurations that a server with configuration `cfg` reaches from a new machine, at any time of day, with events
that the rules allow. -/
def Reaches (K : Rules) (σ : Conf) : Prop := ∃ now : Time, (machine cfg).Reach K (Sys.fresh now) σ

/-! ## Computed runs

A server that accepts every request, on a machine with room, and the first events of its runs. -/

abbrev Event := Conc.Event Label Choice Env

def sampleConfig : Config where
  validateJob project message := .ok ⟨project, message.image, message.command, message.workingDirectory,
    message.environment, message.timeout.getD 0, message.caches, message.secrets⟩
  admissionHash _ := ""
  buildHash _ := ""
  validRootDigest _ := true
  validIdempotencyKey _ := true
  requiredJobCapability := ""
  requiredBuildCapability := ""
  serviceRetention := 0
  admissionGrace := 0
  buildLeaseTimeout := 0
  jobPreparationLeaseTimeout := 0
  policy := defaultPolicy
  dryRun := false

def sampleTime : Time := 1000 * minute

theorem reaches_of_steps (cfg : Config) (evs : List Event) {p : Conf → Bool}
    (h : ((machine cfg).steps (Conc.Machine.init (Sys.fresh sampleTime)) evs).any p = true) :
    ∃ σ, Reaches cfg Conc.Rules.all σ ∧ p σ = true := by
  obtain ⟨σ, hσ, hp⟩ := (Option.any_eq_true ..).mp h
  exact ⟨σ, ⟨_, Conc.Machine.reach_steps .init hσ⟩, hp⟩

/-- The same for runs under rules, with a test `q` for the calls that they allow. -/
theorem reaches_of_stepsIf (cfg : Config) {K : Rules} (evs : List Event) {p : Conf → Bool}
    {q : World → Nat → (c : Call) → c.Ret → Bool} (hstart : ∀ w l, K.start w l) (henv : ∀ w e, K.env w e)
      (hcall : ∀ w t c r, q w t c r = true → K.call w t c r)
    (h : ((machine cfg).stepsIf q (Conc.Machine.init (Sys.fresh sampleTime)) evs).any p = true) :
    ∃ σ, Reaches cfg K σ ∧ p σ = true := by
  obtain ⟨σ, hσ, hp⟩ := (Option.any_eq_true ..).mp h
  exact ⟨σ, ⟨_, Conc.Machine.reach_stepsIf hstart henv hcall .init hσ⟩, hp⟩

/-- Goroutine `t` makes `n` steps that go through. -/
def goes (t n : Nat) : List Event := List.replicate n (.run t .go)

def roomy : Snapshot := ⟨1099511627776, 1099511627776, 1000000000, 1000000000⟩

/-- The server starts: the coordinator is goroutine 1, the dispatcher 2, the reconciler 3, the capacity controller 4. -/
def startup : List Event :=
  .start .main :: goes 0 2 ++ .run 0 (.snapshot roomy) :: goes 0 2 ++ .run 0 (.snapshot roomy) :: goes 0 8

def settled : List Event :=
  startup ++ goes 1 4 ++ goes 2 3 ++ .run 2 (.snapshot roomy) :: goes 2 5 ++ goes 3 4 ++ .run 3 (.managed []) :: goes 3 1

/-- A request of an authenticated user, handled by goroutine `t`. -/
def asks (t : Nat) (r : Request) : List Event :=
  [.start (.request r), .run t (.principal ⟨.device, "device", "", "", false, ""⟩)]

def authorized (t : Nat) : Event := .run t (.project ⟨"project", "image", false⟩)

def prepareRequest (key : String) : Request := .prepareJob ⟨"project", "image", none, "", none, none, key, none, none, [], ""⟩

def prepared : List Event :=
  settled ++ asks 5 (prepareRequest "first") ++ [authorized 5, .run 5 (.fresh "1")] ++ goes 5 3 ++
    .run 5 (.snapshot roomy) :: goes 5 10

def building : List Event :=
  settled ++ asks 5 (.prepareBuild "project" "first" [] "") ++ [authorized 5, .run 5 (.fresh "1")] ++ goes 5 3 ++
    .run 5 (.snapshot roomy) :: goes 5 14

end Autback
