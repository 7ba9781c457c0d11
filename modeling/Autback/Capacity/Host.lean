import Autback.Capacity.Policy
import Autback.Conc.Traces

/-!
# Reclaiming space on the worker

`Host.Reclaim` of `internal/capacity/host.go` as a program. It works through stages (workspaces of terminal jobs, containers,
networks, volumes, images, caches, BuildKit) and, under pressure, measures after each whether the target is reached.

A measurement carries the place in the code where it is taken (`Moment`). What `cacheDirectories` finds in the file system is one
call. `sort.Slice` is not stable: a sort is any function that returns a sorted permutation (`Sorter`). The store is always
configured, as the server configures it; Docker and BuildKit may be missing.
-/

namespace Autback

/-- `sort.Slice` with the comparison `less`. -/
structure Sorter {α : Type} (less : α → α → Bool) where
  sort : List α → List α
  perm : ∀ l, (sort l).Perm l
  sorted : ∀ l, (sort l).Pairwise fun a b => less b a = false

namespace Host

/-! ## Data -/

structure ImagePolicy where
  reference : String
  lastUsedAt : Time
  isProtected : Bool
  deriving DecidableEq

structure RuntimeImage where
  id : String
  (repoTags repoDigests : List String)
  createdAt : Time
  deriving DecidableEq

/-- `dockerImage`: an image with its last use and whether it is protected. -/
structure DockerImage extends RuntimeImage where
  lastUsed : Time
  isProtected : Bool
  deriving DecidableEq

def DockerImage.less (a b : DockerImage) : Bool :=
  if a.lastUsed = b.lastUsed then decide (a.id < b.id) else decide (a.lastUsed < b.lastUsed)

structure CacheDirectory where
  path : String
  modTime : Time
  size : UInt64
  deriving DecidableEq

def CacheDirectory.less (a b : CacheDirectory) : Bool :=
  if a.modTime = b.modTime then decide (a.path < b.path) else decide (a.modTime < b.modTime)

/-- `capacity.HostConfig`, as far as `Reclaim` reads it; `durationText` is `time.Duration.String`. -/
structure HostConfig where
  /-- A Docker runtime is configured. -/
  runtime : Bool
  /-- A BuildKit client is configured. -/
  (buildCache dryRun : Bool)
  durationText : Duration → String
  images : Sorter DockerImage.less
  caches : Sorter CacheDirectory.less

structure ReclaimReport where
  reclaimedBytes : UInt64 := 0
  removedJobs : Nat := 0
  removedCaches : Nat := 0
  commands : List String := []
  deriving DecidableEq

def ReclaimReport.add (report stage : ReclaimReport) : ReclaimReport where
  reclaimedBytes := report.reclaimedBytes
  removedJobs := report.removedJobs + stage.removedJobs
  removedCaches := report.removedCaches + stage.removedCaches
  commands := report.commands ++ stage.commands

/-! ## Calls -/

/-- Where a measurement is taken: at the beginning, after a stage, after the removal of an image, for the report. -/
inductive Moment
  | before
  | stage
  | image
  | after
  deriving DecidableEq

inductive HostCall
  | snapshot (m : Moment)
  | now
  | terminalJobIDsBefore (before : Time)
  /-- Remove the directory of a job. -/
  | removeJob (id : String)
  | pruneContainers (age : Duration) (all : Bool)
  | pruneNetworks (age : Duration)
  | pruneVolumes
  | pruneImages (age : Duration)
  | listImages
  | capacityImagePolicies
  | removeImage (id : String)
  | cacheDirectories
  /-- Remove the directory of a cache. -/
  | removeCache (path : String)
  | pruneBuildKit (maxUsedBytes : Int)
  deriving DecidableEq

@[reducible]
def HostCall.Ret : HostCall → Type
  | snapshot _ => Except Err Snapshot
  | now => Time
  | terminalJobIDsBefore _ => Except Err (List String)
  | listImages => Except Err (List RuntimeImage)
  | capacityImagePolicies => Except Err (List ImagePolicy)
  | cacheDirectories => Except Err (List CacheDirectory)
  | _ => Except Err Unit

abbrev HostProg := Conc.Prog HostCall HostCall.Ret

abbrev HostTrace := Conc.Trace HostCall HostCall.Ret

def perform (c : HostCall) : HostProg c.Ret := Conc.Prog.lift c

/-! ## Texts -/

def joinCommand : List String → String
  | [] => ""
  | argument :: arguments => arguments.foldl (fun result argument => result ++ " " ++ argument) argument

def docker (command : List String) : String := "docker " ++ joinCommand command

variable (h : HostConfig)

def dockerAge (duration : Duration) : String :=
  if duration ≤ 0 then "24h"
  else if duration % (60 * minute) = 0 then toString (duration / (60 * minute)) ++ "h"
  else h.durationText duration

/-- `filepath.Base`, with `/` as separator. -/
def base (path : String) : String :=
  if path = "" then "."
  else
    let trimmed := path.toList.reverse.dropWhile (· == '/')
    if trimmed.isEmpty then "/" else String.ofList (trimmed.takeWhile (· != '/')).reverse

def safeChild (value : String) : Bool := value != "" && value != "." && value != ".." && base value == value

/-! ## Stages -/

/-- The loop of `removeTerminalJobs`: the number of jobs removed, and the error that ended it. -/
def removeJobs : List String → Nat → HostProg (Nat × Option Err)
  | [], removed => return (removed, none)
  | id :: ids, removed =>
    if !safeChild id then return (removed, some (.new ("refuse unsafe job directory " ++ id.quote)))
    else if h.dryRun then removeJobs ids (removed + 1)
    else do
      match ← perform (.removeJob id) with
      | .ok _ => removeJobs ids (removed + 1)
      | .error e => return (removed, some (e.wrap ("remove terminal job " ++ id)))

def removeTerminalJobs (retention : Duration) : HostProg (Nat × Option Err) :=
  if retention ≤ 0 then return (0, none)
  else do
    let now : Time ← perform .now
    match ← perform (.terminalJobIDsBefore (now - retention)) with
    | .ok ids => removeJobs h ids 0
    | .error e => return (0, some (e.wrap "list retained terminal jobs"))

def noRuntime : Err := .new "Docker capacity runtime is not configured"

abbrev Stage := HostProg (ReclaimReport × Option Err)

def runtimeStage (command : List String) (run : HostProg (Except Err Unit)) : Stage :=
  if h.dryRun then return ({ commands := [docker command] }, none)
  else if !h.runtime then return ({ commands := [docker command] }, some noRuntime)
  else do
    match ← run with
    | .ok _ => return ({ commands := [docker command] }, none)
    | .error e => return ({ commands := [docker command] }, some (e.wrap (docker command)))

def policyOf (policies : List ImagePolicy) (reference : String) : Option ImagePolicy :=
  policies.reverse.find? fun p => p.reference == reference

def DockerImage.note (policies : List ImagePolicy) (image : DockerImage) (reference : String) : DockerImage :=
  match policyOf policies reference with
  | none => image
  | some policy =>
    { image with
      isProtected := image.isProtected || policy.isProtected
      lastUsed := if policy.lastUsedAt > image.lastUsed then policy.lastUsedAt else image.lastUsed }

def annotate (policies : List ImagePolicy) (image : RuntimeImage) : DockerImage :=
  (image.repoTags ++ image.repoDigests).foldl (DockerImage.note policies)
    { image with lastUsed := image.createdAt, isProtected := false }

/-- The loop of `pruneUnusedImages` passes over the image. -/
def DockerImage.skipped (image : DockerImage) (creationGrace : Time) : Bool :=
  image.isProtected || decide (image.lastUsed > creationGrace)

def imageCommand (id : String) : String := docker ["image", "rm", id]

def removeImage (id : String) : HostProg Unit :=
  if h.dryRun then return ()
  else do
    let _ ← perform (.removeImage id)
    return ()

/-- The loop of `pruneUnusedImages` over the sorted images; `commands` are those of the images before. -/
def pruneLoop (targetFreeBytes : UInt64) (creationGrace : Time) :
    List DockerImage → List String → HostProg (List String × Option Err)
  | [], commands => return (commands, none)
  | image :: images, commands =>
    if image.skipped creationGrace then pruneLoop targetFreeBytes creationGrace images commands
    else do
      let commands := commands ++ [imageCommand image.id]
      removeImage h image.id
      if targetFreeBytes > 0 then do
        match ← perform (.snapshot .image) with
        | .error e => return (commands, some e)
        | .ok s =>
          if s.freeBytes ≥ targetFreeBytes then return (commands, none)
          else pruneLoop targetFreeBytes creationGrace images commands
      else pruneLoop targetFreeBytes creationGrace images commands

/-- The images in the order in which `pruneUnusedImages` looks at them. -/
def ordered (images : List RuntimeImage) (policies : List ImagePolicy) : List DockerImage :=
  h.images.sort (images.map (annotate policies))

def pruneUnusedImages (targetFreeBytes : UInt64) : HostProg (List String × Option Err) :=
  if !h.runtime then return ([], some noRuntime)
  else do
    match ← perform .listImages with
    | .error e => return ([], some (e.wrap "list Docker images"))
    | .ok [] => return ([], none)
    | .ok (image :: images) => do
      match ← perform .capacityImagePolicies with
      | .error e => return ([], some (e.wrap "load protected Docker images"))
      | .ok policies => do
        let now : Time ← perform .now
        pruneLoop h targetFreeBytes (now - 5 * minute) (ordered h (image :: images) policies) []

def cacheLoop (low : UInt64) : List CacheDirectory → UInt64 → Nat → HostProg (Nat × Option Err)
  | [], _, removed => return (removed, none)
  | cache :: caches, total, removed =>
    if total ≤ low then return (removed, none)
    else
      let rest := if cache.size ≥ total then 0 else total - cache.size
      if h.dryRun then cacheLoop low caches rest (removed + 1)
      else do
        match ← perform (.removeCache cache.path) with
        | .ok _ => cacheLoop low caches rest (removed + 1)
        | .error e => return (removed, some (e.wrap ("remove project cache " ++ cache.path)))

def pruneCaches (high low : UInt64) (pressure : Bool) : HostProg (Nat × Option Err) := do
  match ← perform .cacheDirectories with
  | .error e => return (0, some e)
  | .ok caches =>
    let total := caches.foldl (fun sum cache => sum + cache.size) 0
    if !pressure && (high == 0 || decide (total ≤ high)) then return (0, none)
    else cacheLoop h (if low > high && high != 0 then high else low) (h.caches.sort caches) total 0

def buildKitCommand : String := "buildkit prune --all --max-used-space 2000000000"

def buildKitStage : HostProg (Option Err) :=
  if h.dryRun then return none
  else if !h.buildCache then return some (.new "BuildKit capacity runtime is not configured")
  else do
    match ← perform (.pruneBuildKit 2000000000) with
    | .ok _ => return none
    | .error e => return some (e.wrap "prune BuildKit")

/-! ## Reclaim -/

def reachedTarget (request : ReclaimRequest) : HostProg Bool :=
  if !request.pressure || request.targetFreeBytes = 0 then return false
  else do
    match ← perform (.snapshot .stage) with
    | .ok s => return decide (s.freeBytes ≥ request.targetFreeBytes)
    | .error _ => return false

/-- What `Reclaim` returns. -/
abbrev Outcome := ReclaimReport × Option Err

/-- What `finishReport` returns for the last measurement. -/
def finished (before : Snapshot) (report : ReclaimReport) (errs : List Err) : Except Err Snapshot → Outcome
  | .ok after =>
    ({ report with
      reclaimedBytes :=
        if after.freeBytes > before.freeBytes then after.freeBytes - before.freeBytes else report.reclaimedBytes },
      Err.joinAll errs)
  | .error e => (report, Err.joinAll ((Err.joinAll errs).toList ++ [e]))

def finishReport (before : Snapshot) (report : ReclaimReport) (errs : List Err) : HostProg Outcome := do
  return finished before report errs (← perform (.snapshot .after))

def objectAge (request : ReclaimRequest) : Duration :=
  if request.pressure then 5 * minute
  else if request.normalObjectAge ≤ 0 then 24 * 60 * minute
  else request.normalObjectAge

def containerCommand (request : ReclaimRequest) : List String :=
  if request.pressure then ["container", "prune", "--force", "--filter", "until=" ++ dockerAge h (objectAge request)]
  else ["container", "prune", "--force", "--filter", "label=org.testcontainers=true", "--filter",
    "until=" ++ dockerAge h (objectAge request)]

/-- `runtimeCalls`: the commands for containers, networks and volumes, with their calls. -/
def runtimeCalls (request : ReclaimRequest) : List (List String × HostProg (Except Err Unit)) :=
  let age := objectAge request
  [(containerCommand h request, perform (.pruneContainers age request.pressure)),
    (["network", "prune", "--force", "--filter", "until=" ++ dockerAge h age], perform (.pruneNetworks age)),
    (["volume", "prune", "--force"], perform .pruneVolumes)]

def jobStage (request : ReclaimRequest) : Stage := do
  let (removed, err) ← removeTerminalJobs h request.jobRetention
  return ({ removedJobs := removed }, err)

def imageStage (request : ReclaimRequest) : Stage :=
  if request.pressure then do
    let (commands, err) ← pruneUnusedImages h request.targetFreeBytes
    return ({ commands }, err)
  else
    let age := objectAge request
    runtimeStage h ["image", "prune", "--force", "--filter", "until=" ++ dockerAge h age] (perform (.pruneImages age))

def cacheStage (request : ReclaimRequest) : Stage := do
  let (removed, err) ← pruneCaches h request.cacheHighBytes request.cacheLowBytes request.pressure
  return ({ removedCaches := removed }, err)

/-- The stages after which `Reclaim` measures, in their order. -/
def stages (request : ReclaimRequest) : List Stage :=
  [jobStage h request] ++ (runtimeCalls h request).map (fun call => runtimeStage h call.1 call.2) ++
    [imageStage h request, cacheStage h request]

/-- Run the stages: each adds to the report and to the errors, and `Reclaim` ends after it if the target is reached. What is left
to do after all of them is `last`. -/
def runStages (request : ReclaimRequest) (before : Snapshot) (last : ReclaimReport → List Err → HostProg Outcome) :
    List Stage → ReclaimReport → List Err → HostProg Outcome
  | [], report, errs => last report errs
  | stage :: rest, report, errs => do
    let (added, err) ← stage
    if ← reachedTarget request then finishReport before (report.add added) (errs ++ err.toList)
    else runStages request before last rest (report.add added) (errs ++ err.toList)

def lastStage (request : ReclaimRequest) (before : Snapshot) (report : ReclaimReport) (errs : List Err) :
    HostProg Outcome := do
  if !request.pressure then finishReport before report errs
  else do
    let err ← buildKitStage h
    finishReport before (report.add { commands := [buildKitCommand] }) (errs ++ err.toList)

def reclaim (request : ReclaimRequest) : HostProg Outcome := do
  match ← perform (.snapshot .before) with
  | .error e => return ({}, some e)
  | .ok before => runStages request before (lastStage h request before) (stages h request) {} []

end Host

end Autback
