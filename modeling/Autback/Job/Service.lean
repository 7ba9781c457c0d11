import Autback.Gateway.Identity
import Autback.Job.Request

/-!
# The service of a job

`specForJob` of `internal/control/swarmscheduler/scheduler.go` and `serviceSpec` of `internal/adapter/docker/swarm.go`: what the
container of a job is given. Of the service specification stand here the command, the environment, the mounts and the limits; the
labels are those of `Runtime/Swarm.lean`, and the rest does not depend on the job.
-/

namespace Autback

open Gateway (bytes)

structure ResourceEnvelope where
  (cpuLimitNano cpuReservationNano memoryLimitBytes memoryReservationBytes pidsLimit : Int)
  deriving DecidableEq

structure SchedulerConfig where
  (casAddress casInstance jobsRoot entrypointHostPath cacheRoot hostUID hostGID : String)
  resources : ResourceEnvelope
  deriving DecidableEq

structure SecretMount where
  (source target : String)
  deriving DecidableEq

structure Spec where
  (id image casAddress casInstance rootDigest jobsRoot : String)
  command : List String
  workingDirectory : String
  environment : List (String × String)
  entrypointHostPath : String
  timeout : Duration
  (cacheRoot projectID : String)
  caches : List CacheMount
  secrets : List SecretMount
  hasSecrets : Bool
  (hostUID hostGID : String)
  resources : ResourceEnvelope
  deriving DecidableEq

def fileNumber (index : Nat) : String :=
  String.ofList (List.replicate (3 - index.repr.toList.length) '0') ++ index.repr

/-- `ValueFile` of `internal/secrets/manager.go`. -/
def valueFile (index : Nat) (name : String) : String := fileNumber index ++ "-" ++ name

def secretMounts (cfg : SchedulerConfig) (job : Job) : List SecretMount :=
  (job.secrets.getD []).zipIdx.filterMap fun e =>
    if e.1.file ≠ "" then some ⟨joinPath [cfg.jobsRoot, job.id, "secrets", valueFile e.2 e.1.name], e.1.file⟩ else none

def specForJob (cfg : SchedulerConfig) (job : Job) : Spec where
  id := job.id
  image := job.image
  casAddress := cfg.casAddress
  casInstance := cfg.casInstance
  rootDigest := job.rootDigest
  jobsRoot := cfg.jobsRoot
  command := job.command.getD []
  workingDirectory := job.workingDirectory
  environment := job.environment.getD []
  entrypointHostPath := cfg.entrypointHostPath
  timeout := job.timeout
  cacheRoot := cfg.cacheRoot
  projectID := job.projectID
  caches := job.caches.getD []
  secrets := secretMounts cfg job
  hasSecrets := 0 < (job.secrets.getD []).length
  hostUID := cfg.hostUID
  hostGID := cfg.hostGID
  resources := cfg.resources

inductive MountType
  | bind
  | tmpfs
  deriving DecidableEq

/-- A mount; `size` is that of a file system in memory. -/
structure Mount where
  type : MountType
  (source target : String)
  readOnly : Bool
  size : Option Int
  deriving DecidableEq

/-- What `serviceSpec` gives the container. -/
structure ContainerSpec where
  image : String
  (command args : List String)
  env : List (List UInt8)
  user : String
  mounts : List Mount
  resources : ResourceEnvelope
  deriving DecidableEq

def runtimeDirectory : String := "/run/autback/secrets"

def entrypoint : String := "/usr/local/bin/autback-job-entrypoint"

def sharedMemorySize : Int := 1073741824

/-- `fallback`. -/
def orDefault (value defaultValue : String) : String := if value = "" then defaultValue else value

def assignment (key value : String) : List UInt8 := bytes (key ++ "=" ++ value)

namespace Spec

variable (spec : Spec)

def workspace : String := joinPath [spec.jobsRoot, spec.id, "workspace"]

def serverEnvironment : List (String × String) :=
  [("AUTBACK_JOB_ID", spec.id), ("AUTBACK_WORKSPACE", spec.workspace), ("AUTBACK_HOST_UID", spec.hostUID),
    ("AUTBACK_HOST_GID", spec.hostGID), ("AUTBACK_CAS_ADDRESS", spec.casAddress),
    ("AUTBACK_CAS_INSTANCE", orDefault spec.casInstance "autback"), ("AUTBACK_ROOT_DIGEST", spec.rootDigest),
    ("AUTBACK_TIMEOUT_MILLIS", toString (spec.timeout.tdiv 1000000)),
    ("AUTBACK_WORKING_DIRECTORY", orDefault spec.workingDirectory "."), ("TESTCONTAINERS_HOST_OVERRIDE", "localhost"),
    ("TESTCONTAINERS_DOCKER_SOCKET_OVERRIDE", "/var/run/docker.sock"), ("RYUK_RECONNECTION_TIMEOUT", "5s"), ("TMPDIR", "/tmp"),
    ("TEST_DATA_DIR", joinPath [spec.workspace, ".autback", "data"])]

/-- The variables of the container: those of the server, then the public ones of the job by their keys. -/
def containerEnvironment : List (String × String) :=
  spec.serverEnvironment ++ spec.environment.insertionSort fun a b => a.1 ≤ b.1

def fixedMounts : List Mount :=
  [⟨.bind, spec.jobsRoot, spec.jobsRoot, false, none⟩,
    ⟨.bind, "/var/run/docker.sock", "/var/run/docker.sock", false, none⟩,
    ⟨.tmpfs, "", "/dev/shm", false, some sharedMemorySize⟩]

def secretsMounts : List Mount :=
  (if spec.hasSecrets then
    [⟨.bind, joinPath [spec.jobsRoot, spec.id, "secrets"], runtimeDirectory, true, none⟩] else []) ++
  spec.secrets.map fun secret => ⟨.bind, secret.source, secret.target, true, none⟩

def cacheMounts : List Mount :=
  (spec.caches.insertionSort fun a b => a.name < b.name ∨ (a.name = b.name ∧ a.target ≤ b.target)).map fun cache =>
    ⟨.bind, joinPath [spec.cacheRoot, spec.projectID, cache.name], cache.target, false, none⟩

def entrypointMounts : List Mount :=
  if spec.entrypointHostPath ≠ "" then [⟨.bind, spec.entrypointHostPath, entrypoint, true, none⟩] else []

def serverMounts : List Mount := spec.fixedMounts ++ spec.secretsMounts ++ spec.entrypointMounts

end Spec

def serviceSpec (spec : Spec) : ContainerSpec where
  image := spec.image
  command := [entrypoint]
  args := spec.command
  env := spec.containerEnvironment.map fun e => assignment e.1 e.2
  user := "0:0"
  mounts := spec.fixedMounts ++ spec.secretsMounts ++ spec.cacheMounts ++ spec.entrypointMounts
  resources := spec.resources

structure Job.Requested (job : Job) (input : PrepareJob) : Prop where
  environment : (job.environment.getD []).Perm (input.environment.getD [])
  caches : job.caches.getD [] = input.caches.getD []
  secrets : job.secrets.getD [] = input.secrets.getD []

end Autback
