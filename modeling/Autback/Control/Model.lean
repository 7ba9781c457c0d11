import Mathlib.Algebra.Ring.Nat
import Mathlib.Data.List.AList

/-!
# The control domain

Operations (jobs and builds), their states, and the records that the store, the dispatcher and the handlers pass around
(`internal/control/model.go`, `internal/protocol/types.go`).

Times are nanoseconds since the Unix epoch, durations nanoseconds. A Go slice or map that can be nil is an `Option` of
the list of its elements or entries.
-/

namespace Autback

abbrev Time := Int

abbrev Duration := Int

def zeroTime : Time := -62135596800000000000

def second : Duration := 1000000000

def minute : Duration := 60 * second

/-! ## Errors -/

/-- The errors that code compares with `errors.Is`. -/
inductive Sentinel
  | unauthenticated
  | forbidden
  | notFound
  | alreadyExists
  | idempotencyConflict
  | invalidPageToken
  | draining
  | canceled
  | deadlineExceeded
  deriving DecidableEq

/-- An error: its text, the sentinels in its chain, and whether an error of the chain is `Permanent`. -/
structure Err where
  text : String
  chain : List Sentinel
  permanent : Bool
  deriving DecidableEq

namespace Err

def new (text : String) : Err := ⟨text, [], false⟩

def notFound : Err := ⟨"not found", [.notFound], false⟩

def idempotencyConflict : Err :=
  ⟨"idempotency key was already used with a different request", [.idempotencyConflict], false⟩

def draining : Err := ⟨"dispatcher is draining", [.draining], false⟩

def canceled : Err := ⟨"context canceled", [.canceled], false⟩

/-- `errors.Is`. -/
def is (e : Err) (s : Sentinel) : Bool := e.chain.contains s

/-- `fmt.Errorf("context: %w", err)`. -/
def wrap (context : String) (e : Err) : Err := { e with text := context ++ ": " ++ e.text }

/-- `errors.Join` of two errors. -/
def join (e e' : Err) : Err :=
  ⟨e.text ++ "\n" ++ e'.text, e.chain ++ e'.chain, e.permanent || e'.permanent⟩

/-- `errors.Join`: nil if there is no error. -/
def joinAll : List Err → Option Err
  | [] => none
  | e :: es => some (es.foldl join e)

end Err

/-! ## Principals -/

inductive PrincipalKind
  | device
  | github
  | browser
  | system
  deriving DecidableEq

structure Principal where
  kind : PrincipalKind
  (tokenID userID projectID : String)
  admin : Bool
  subject : String
  deriving DecidableEq

/-! ## Operations -/

inductive OperationKind
  | job
  | build
  deriving DecidableEq

def OperationKind.text : OperationKind → String
  | job => "job"
  | build => "build"

inductive OperationState
  | queued
  | admitting
  | active
  | terminalizing
  | cleaning
  | released
  deriving DecidableEq

namespace OperationState

def text : OperationState → String
  | queued => "queued"
  | admitting => "admitting"
  | active => "active"
  | terminalizing => "terminalizing"
  | cleaning => "cleaning"
  | released => "released"

def reserved : OperationState → Bool
  | admitting | active | terminalizing | cleaning => true
  | queued | released => false

/-- `admitting` or `active`: the reservation is held for execution. -/
def executing : OperationState → Bool
  | admitting | active => true
  | queued | terminalizing | cleaning | released => false

/-- `queued`, `admitting` or `active`: the operation has not ended. -/
def live : OperationState → Bool
  | queued | admitting | active => true
  | terminalizing | cleaning | released => false

/-- `terminalizing` or `cleaning`: the reservation is held for teardown. -/
def tearing : OperationState → Bool
  | terminalizing | cleaning => true
  | queued | admitting | active | released => false

end OperationState

structure Op where
  kind : OperationKind
  id : String
  deriving DecidableEq

abbrev jobOp (id : String) : Op := ⟨.job, id⟩

abbrev buildOp (id : String) : Op := ⟨.build, id⟩

structure Operation where
  op : Op
  state : OperationState
  acceptedAt : Time
  leasedAt : Option Time
  cleanupAttempts : Nat
  cleanupError : String
  cleanupUpdatedAt : Option Time
  deriving DecidableEq

/-! ## Jobs -/

inductive Status
  | preparing
  | queued
  | running
  | succeeded
  | failed
  | cancelled
  | timedOut
  | lost
  deriving DecidableEq

def Status.terminal : Status → Bool
  | succeeded | failed | cancelled | timedOut | lost => true
  | preparing | queued | running => false

structure CacheMount where
  (name target : String)
  deriving DecidableEq

structure SecretBinding where
  (name environment file : String)
  deriving DecidableEq

structure Job where
  (id projectID image : String)
  command : Option (List String)
  workingDirectory : String
  environment : Option (List (String × String))
  rootDigest : String
  status : Status
  timeout : Duration
  createdAt : Time
  (startedAt finishedAt : Option Time)
  exitCode : Option Int
  errorMessage : String
  cancelRequested : Bool
  workerID : String
  caches : Option (List CacheMount)
  secrets : Option (List SecretBinding)
  deriving DecidableEq

/-- `control.PrepareJob`: what is asked of a new job. -/
structure PrepareJob where
  (projectID image : String)
  command : Option (List String)
  workingDirectory : String
  environment : Option (List (String × String))
  timeout : Duration
  caches : Option (List CacheMount)
  secrets : Option (List SecretBinding)
  deriving DecidableEq

structure Idempotency where
  (key requestHash : String)
  deriving DecidableEq

/-- `protocol.Job`: a snapshot of a job as the runtime reports it. -/
structure RemoteJob where
  id : String
  status : Status
  workerID : String
  createdAt : Time
  (startedAt finishedAt : Option Time)
  cancelRequested : Bool
  exitCode : Option Int
  errorMessage : String
  deriving DecidableEq

/-! ## Builds -/

inductive BuildStatus
  | queued
  | running
  | succeeded
  | failed
  | cancelled
  deriving DecidableEq

def BuildStatus.terminal : BuildStatus → Bool
  | succeeded | failed | cancelled => true
  | queued | running => false

structure Build where
  (id projectID : String)
  status : BuildStatus
  createdAt : Time
  finishedAt : Option Time
  exitCode : Option Int
  deriving DecidableEq

/-! ## Resources -/

/-- `cleanup.ResourceSet`: ids of Docker resources by kind. -/
structure ResourceSet where
  (services containers networks volumes : List String)
  deriving DecidableEq

def ResourceSet.empty (r : ResourceSet) : Bool :=
  r.services.isEmpty && r.containers.isEmpty && r.networks.isEmpty && r.volumes.isEmpty

/-! ## Computations that succeed -/

variable {ε α : Type} {a : α}

theorem bind_eq_ok {β : Type} {x : Except ε α} {f : α → Except ε β} {b : β} :
    x >>= f = .ok b ↔ ∃ a, x = .ok a ∧ f a = .ok b := by
  cases x with
  | error e => simp [bind, Except.bind]
  | ok a => simp [bind, Except.bind]

theorem check_eq_ok {c : Prop} [Decidable c] {e : ε} {f : PUnit → Except ε α} {k : Except ε α} :
    (if c then (throw e : Except ε PUnit) >>= f else k) = .ok a ↔ ¬ c ∧ k = .ok a := by
  by_cases hc : c
  · simp [hc, bind, Except.bind, throw, throwThe, MonadExceptOf.throw]
  · simp [hc]

theorem pure_eq_ok {b : α} : (pure a : Except ε α) = .ok b ↔ a = b := by
  simp [pure, Except.pure]

theorem return_eq_ok {σ : Type} {a' : α} {s s' : σ} :
    (pure (a, s) : Except ε (α × σ)) = .ok (a', s') ↔ a = a' ∧ s = s' := by
  rw [pure_eq_ok, Prod.mk.injEq]

theorem foldlM_keeps {σ : Type} {P : σ → Prop} {f : σ → α → Except ε σ}
    (hstep : ∀ s a s', f s a = .ok s' → P s → P s') {l : List α} {s s' : σ} (h : l.foldlM f s = .ok s') (hs : P s) : P s' := by
  induction l generalizing s with
  | nil =>
    cases h
    exact hs
  | cons a l ih =>
    rw [List.foldlM_cons] at h
    obtain ⟨s1, hfirst, hrest⟩ := bind_eq_ok.mp h
    exact ih hrest (hstep s a s1 hfirst hs)

end Autback
