import Autback.Server.System
import Autback.Store.Refine

/-!
# What one call does

The effect of a call on the parts of the state that invariants speak of. Only transactions change the tables, and
`exec_tx` says how; only `Scheduler.Create` starts a task; only the capacity controller takes its lock.
-/

namespace Autback

variable {t : Nat} {ch : Choice} {s s' : Sys} {sp : Option Label}

theorem attemptWith_eq_some {α : Type} {a : α} {s1 : Sys} {r : Except Err α}
    (h : attemptWith s ch a s1 = some (r, s', sp)) :
    sp = none ∧ ((r = .ok a ∧ s' = s1) ∨ (∃ e, r = .error e ∧ s' = s)) := by
  rw [attemptWith.eq_def] at h
  split at h
  · cases h
    exact ⟨rfl, .inl ⟨rfl, rfl⟩⟩
  · cases h
    exact ⟨rfl, .inr ⟨_, rfl, rfl⟩⟩
  · cases h

variable {x : Tx} {c : Call} {r : c.Ret} {id : String} {service : Service} {e : Env} {remote : RemoteJob}

theorem commitTx_cases {fresh : String} {r : Except Err x.Val} (h : commitTx s x fresh = (r, s', sp)) :
    sp = none ∧ ((∃ e, r = .error e ∧ s' = s ∧ x.run s.now fresh s.db = .error e) ∨
      ∃ a db, r = .ok a ∧ s' = { s with db := db } ∧ x.run s.now fresh s.db = .ok (a, db)) := by
  unfold commitTx at h
  split at h
  · rename_i a db hx
    cases h
    exact ⟨rfl, .inr ⟨a, db, rfl, rfl, hx⟩⟩
  rename_i e hx
  cases h
  exact ⟨rfl, .inl ⟨e, rfl, rfl, hx⟩⟩

theorem exec_run {r : Except Err x.Val} (h : exec t ch s (.tx x) = some (r, s', sp)) :
    sp = none ∧ ((∃ e, r = .error e ∧ s' = s ∧ (ofControl e = false ∨ ∃ fresh, x.run s.now fresh s.db = .error e)) ∨
      ∃ a db fresh, r = .ok a ∧ s' = { s with db := db } ∧ x.run s.now fresh s.db = .ok (a, db)) := by
  have hcas : (∃ fresh, commitTx s x fresh = (r, s', sp)) ∨
      ∃ e, ofControl e = false ∧ ((.error e, s, none) : Result (.tx x)) = (r, s', sp) := by
    simp only [exec, execTx] at h
    split at h
    · exact .inl ⟨_, Option.some.inj h⟩
    · exact .inl ⟨_, Option.some.inj h⟩
    · obtain ⟨hpla, heq⟩ := Option.ite_none_left_eq_some.mp h
      exact .inr ⟨_, Bool.eq_false_iff.mpr hpla, Option.some.inj heq⟩
    · cases h
  rcases hcas with ⟨fresh, h⟩ | ⟨e, hpla, heq⟩
  · obtain ⟨hsp, ⟨e, hr, hs, he⟩ | ⟨a, db, hr, hs, ha⟩⟩ := commitTx_cases h
    · exact ⟨hsp, .inl ⟨e, hr, hs, .inr ⟨fresh, he⟩⟩⟩
    · exact ⟨hsp, .inr ⟨a, db, fresh, hr, hs, ha⟩⟩
  cases heq
  exact ⟨rfl, .inl ⟨e, rfl, rfl, .inl hpla⟩⟩

theorem exec_tx {r : Except Err x.Val} (h : exec t ch s (.tx x) = some (r, s', sp)) :
    sp = none ∧ ((∃ e, r = .error e ∧ s' = s) ∨
      ∃ a db, r = .ok a ∧ s' = { s with db := db } ∧ x.Effect a s.db.view db.view) := by
  obtain ⟨hsp, ⟨e, hr, hs, -⟩ | ⟨a, db, fresh, hr, hs, ha⟩⟩ := exec_run h
  · exact ⟨hsp, .inl ⟨e, hr, hs⟩⟩
  · exact ⟨hsp, .inr ⟨a, db, hr, hs, Tx.run_effect ha⟩⟩

/-- `OperationState` returns `ErrNotFound` only if there is no row. -/
theorem exec_operationState {op : Op} {e : Err} (h : exec t ch s (.tx (.operationState op)) = some (.error e, s', sp))
    (he : e.is .notFound = true) : s.db.view.row op = none := by
  obtain ⟨-, ⟨e', heq, -, hpla | ⟨fresh, hrun⟩⟩ | ⟨a, db, fresh, heq, -⟩⟩ := exec_run h
  · cases heq
    simp [ofControl, he] at hpla
  · cases hr : s.db.queue.table.lookup op with
    | none => simp [DB.view, hr]
    | some q => simp [Tx.run, DB.operationState, DB.rowState, hr, bind, Except.bind, pure, Except.pure] at hrun
  · cases heq

/-- `Operation` returns the lease of the row, and `ErrNotFound` only if there is none. -/
theorem exec_operation {op : Op} {r : Except Err Operation} (h : exec t ch s (.tx (.operation op)) = some (r, s', sp)) :
    (∀ e, r = .error e → e.is .notFound = true → s.db.queue.table.lookup op = none) ∧
      ∀ o, r = .ok o → ∃ q, s.db.queue.table.lookup op = some q ∧ o.leasedAt = q.leasedAt := by
  obtain ⟨-, ⟨e, rfl, -, hpla | ⟨fresh, hrun⟩⟩ | ⟨a, db, fresh, rfl, -, hrun⟩⟩ := exec_run h
  · refine ⟨fun e' heq he => ?_, nofun⟩
    cases heq
    simp [ofControl, he] at hpla
  · refine ⟨fun e' _ _ => ?_, nofun⟩
    cases hr : s.db.queue.table.lookup op with
    | none => rfl
    | some q => simp [Tx.run, DB.operation, hr, bind, Except.bind, pure, Except.pure] at hrun
  refine ⟨fun e heq => (by cases heq), fun o heq => ?_⟩
  cases heq
  cases hr : s.db.queue.table.lookup op with
  | none => simp [Tx.run, DB.operation, hr, bind, Except.bind] at hrun
  | some q =>
    simp only [Tx.run, DB.operation, hr, bind, Except.bind, pure, Except.pure, Except.ok.injEq, Prod.mk.injEq] at hrun
    exact ⟨q, rfl, by rw [← hrun.1]; rfl⟩

theorem exec_db (hc : ∀ x, c ≠ .tx x) (h : exec t ch s c = some (r, s', sp)) : s'.db = s.db := by
  cases c
  case tx x => exact absurd rfl (hc x)
  all_goals
    simp only [exec, execCreate, execStatus, execManagedJobs, execLock, execCtxErr, execWait, execRetryDelay, attemptWith,
      dispatcherAdvance, coordinatorAdvance] at h
    grind [removeResources, cancelService, Sys.boot]

/-- The goroutines that calls start: the two workers and what the server starts with `go`. -/
theorem exec_spawns {l : Label} (h : exec t ch s c = some (r, s', some l)) :
    (c = .dispatcherAdvance ∧ l = .dispatcher) ∨ (c = .coordinatorAdvance ∧ l = .coordinator) ∨ c = .go l := by
  cases c
  case tx x => cases (exec_tx h).1
  all_goals
    simp only [exec, execCreate, execStatus, execManagedJobs, execLock, execCtxErr, execWait, execRetryDelay, attemptWith,
      dispatcherAdvance, coordinatorAdvance] at h
    grind

def Sys.up (s : Sys) : Bool := s.booted && !s.draining && !s.cleanupDraining && !s.stopped

def Call.steersCleanup : Call → Bool
  | .coordinatorAdvance | .coordinatorBegin | .coordinatorEnd | .coordinatorFinish | .boot => true
  | _ => false

def Call.schedules : Call → Bool
  | .create _ | .cancel _ | .remove _ => true
  | _ => false

/-- What a call leaves alone: the clock, the lock, the services, the tasks that run, the worker of the cleanup. -/
structure Framed (c : Call) (s s' : Sys) : Prop where
  now : s'.now = s.now
  lock : c ≠ .lock → c ≠ .unlock → s'.lock = s.lock
  services : c.schedules = false → s'.services = s.services
  /-- A task runs after a call if it did before, or if the call is the `Scheduler.Create` of its job. -/
  running : ∀ id ∈ s'.running, id ∈ s.running ∨ ∃ job, c = .create job ∧ job.id = id
  cleanup : c.steersCleanup = false →
    (s'.up = true → s.up = true) ∧ s'.cleanupRunning = s.cleanupRunning ∧ s'.cleanupPending = s.cleanupPending

theorem exec_framed (h : exec t ch s c = some (r, s', sp)) : Framed c s s' := by
  cases c
  case tx x =>
    obtain ⟨-, ⟨e, -, rfl⟩ | ⟨a, db, -, rfl, -⟩⟩ := exec_tx h <;>
      exact ⟨rfl, fun _ _ => rfl, fun _ => rfl, fun _ hid => .inl hid, fun _ => ⟨fun hup => hup, rfl, rfl⟩⟩
  all_goals
    simp only [exec, execCreate, execStatus, execManagedJobs, execLock, execCtxErr, execWait, execRetryDelay, attemptWith,
      dispatcherAdvance, coordinatorAdvance] at h
    -- most calls change none of these fields
    first
      | ((repeat' split at h) <;> cases h <;>
          exact ⟨rfl, fun _ _ => rfl, fun _ => rfl, fun _ hid => .inl hid, fun _ => ⟨fun hup => hup, rfl, rfl⟩⟩)
      | constructor <;> grind [removeResources, cancelService, Sys.boot, Sys.up, Call.schedules, Call.steersCleanup]

/-- A service after a call is one before it, cancelled or not, or the one that `Scheduler.Create` has made. -/
theorem exec_service (h : exec t ch s c = some (r, s', sp)) (hs : s'.services.lookup id = some service) :
    (∃ before, s.services.lookup id = some before ∧ (service = before ∨ service = before.cancel s.now)) ∨
      ∃ job serviceID, c = .create job ∧ job.id = id ∧ s.services.lookup id = none ∧
        service = newService job serviceID s.now := by
  have same : s'.services = s.services →
      ∃ before, s.services.lookup id = some before ∧ (service = before ∨ service = before.cancel s.now) :=
    fun heq => ⟨service, heq ▸ hs, .inl rfl⟩
  cases c with
  | create job =>
    simp only [exec, execCreate] at h
    split at h
    · split at h
      · cases h
        exact .inl (same rfl)
      split at h
      · cases h
        exact .inl (same rfl)
      split at h
      · cases h
        exact .inl (same rfl)
      rename_i serviceID _ _ _ hnone
      cases h
      simp only [Table.lookup_insert_eq] at hs
      split at hs
      · rename_i hid
        subst hid
        exact .inr ⟨job, serviceID, rfl, rfl, hnone, (Option.some.inj hs).symm⟩
      · exact .inl ⟨service, hs, .inl rfl⟩
    · cases h
      exact .inl (same rfl)
    · cases h
  | cancel id' =>
    obtain ⟨-, ⟨-, rfl⟩ | ⟨e, -, rfl⟩⟩ := attemptWith_eq_some h
    · rw [cancelService] at hs
      split at hs
      · rename_i before hbefore
        simp only [Table.lookup_insert_eq] at hs
        split at hs
        · rename_i hid
          subst hid
          exact .inl ⟨before, hbefore, .inr (Option.some.inj hs).symm⟩
        · exact .inl ⟨service, hs, .inl rfl⟩
      · exact .inl ⟨service, hs, .inl rfl⟩
    · exact .inl (same rfl)
  | remove id' =>
    obtain ⟨-, ⟨-, rfl⟩ | ⟨e, -, rfl⟩⟩ := attemptWith_eq_some h
    · by_cases hid : id = id'
      · subst hid
        rw [AList.lookup_erase] at hs
        cases hs
      rw [AList.lookup_erase_ne hid] at hs
      exact .inl ⟨service, hs, .inl rfl⟩
    · exact .inl (same rfl)
  | _ => exact .inl (same ((exec_framed h).services rfl))

theorem env_lock (h : e.apply s = some s') : s'.lock = s.lock := by
  cases e <;> simp only [Env.apply] at h <;> grind

theorem env_db (h : e.apply s = some s') : s'.db = s.db := by
  cases e <;> simp only [Env.apply] at h <;> grind

theorem env_cleanup (h : e.apply s = some s') :
    s'.up = s.up ∧ s'.cleanupRunning = s.cleanupRunning ∧ s'.cleanupPending = s.cleanupPending := by
  cases e <;> simp only [Env.apply] at h <;> grind [Sys.up]

/-! ## What the runtime reports -/

theorem runtimeTaskStatus_ne_preparing (state : TaskState) (exitCode : Int) (cancelled : Bool) :
    runtimeTaskStatus state exitCode cancelled ≠ .preparing := by
  unfold runtimeTaskStatus
  grind

theorem Service.status_ne_preparing (h : service.status id = .ok remote) : remote.status ≠ .preparing := by
  have htask : ∀ job task, (taskStatus job task).status ≠ .preparing := by
    intro job task
    simp only [taskStatus]
    split <;> exact runtimeTaskStatus_ne_preparing _ _ _
  unfold Service.status at h
  grind

theorem exec_status (h : exec t ch s (.status id) = some (Except.ok remote, s', sp)) : remote.status ≠ .preparing := by
  simp only [exec, execStatus] at h
  split at h
  · split at h
    · rename_i service hs
      simp only [Option.some.injEq, Prod.mk.injEq] at h
      exact Service.status_ne_preparing h.1
    · cases h
  · cases h
  · cases h

theorem Service.status_id (hname : service.name = id) (h : service.status id = .ok remote) : remote.id = id := by
  have htask : ∀ job task, (taskStatus job task).id = job.id := by
    intro job task
    simp only [taskStatus]
    split <;> rfl
  unfold Service.status at h
  grind


theorem mem_managedJobs {broken : List String} {e : RuntimeJob} (he : e ∈ managedJobs s broken) (hjob : e.job = .ok remote) :
    ∃ service, s.services.lookup e.id = some service ∧ service.status e.id = .ok remote := by
  unfold managedJobs at he
  rw [(List.perm_insertionSort _ _).mem_iff, List.mem_map] at he
  obtain ⟨⟨id, service⟩, hm, rfl⟩ := he
  rw [List.mem_filter] at hm
  refine ⟨service, Table.mem_rows.mp hm.1, ?_⟩
  simp only at hjob
  split at hjob
  · cases hjob
  · exact hjob

theorem managedJobs_mem (broken : List String) (h : s.services.lookup id = some service)
    (hm : service.label managedLabel = "true") :
    ∃ e ∈ managedJobs s broken, e.id = id ∧ (e.job = service.status id ∨ ∃ err, e.job = .error err) := by
  refine ⟨⟨id, if id ∈ broken then .error (.new ("inspect Swarm job " ++ id)) else service.status id⟩, ?_, rfl, ?_⟩
  · unfold managedJobs
    rw [(List.perm_insertionSort _ _).mem_iff, List.mem_map]
    exact ⟨(id, service), List.mem_filter.mpr ⟨Table.mem_rows.mpr h, by simp [hm]⟩, rfl⟩
  simp only
  split
  · exact .inr ⟨_, rfl⟩
  · exact .inl rfl

theorem exec_managedJobs {managed : List RuntimeJob}
    (h : exec t ch s .managedJobs = some (Except.ok managed, s', sp)) :
    ∃ broken, managed = managedJobs s broken := by
  simp only [exec, execManagedJobs] at h
  split at h
  · cases h
    exact ⟨_, rfl⟩
  · cases h
  · cases h

end Autback
