import Autback.Protocol.Exclusivity
import Autback.Store.Progress

/-!
# Runs in which jobs only go on

`SyncJob` overwrites the record of a job with a snapshot of its service. The snapshot was taken outside the transaction, so
other goroutines may have written the record since: two refreshes of one job can store their snapshots in the other order, and
a refresh can store a snapshot that was taken before a cancellation. As long as no snapshot is stored that is behind the
record, no job goes back in any run of the server (`job_progress`).
-/

namespace Autback

open Conc

def current : Rules where
  start _ _ := True
  call w _ c _ := ∀ x, c = .tx x → x.Current w.st.db
  env _ _ := True
  crash _ := True

theorem step_progress {cfg : Config} {σ σ' : Conf} (h : (machine cfg).Step current σ σ') {id : String} {r : JobRow}
    (hr : σ.st.db.jobs.lookup id = some r) : ∃ r', σ'.st.db.jobs.lookup id = some r' ∧ r.Progress r' := by
  have same : σ'.st.db = σ.st.db → ∃ r', σ'.st.db.jobs.lookup id = some r' ∧ r.Progress r' :=
    fun hdb => ⟨r, by rw [hdb, hr], .refl r⟩
  cases h with
  | call t l c k ch a _ _ ha hK =>
    obtain ⟨answer, st, sp⟩ := a
    have ha : exec t ch σ.st c = some (answer, st, sp) := ha
    have hst : ((machine cfg).resume σ t c k (answer, st, sp)).st = st := by cases sp <;> rfl
    rw [hst] at same ⊢
    by_cases hc : ∃ x, c = .tx x
    · obtain ⟨x, rfl⟩ := hc
      obtain ⟨-, ⟨e, -, rfl, -⟩ | ⟨a, db, fresh, -, rfl, hrun⟩⟩ := exec_run ha
      · exact same rfl
      · exact Tx.progress hrun (hK x rfl) hr
    · exact same (exec_db (fun x hx => hc ⟨x, hx⟩) ha)
  | env e st he _ => exact same (env_db he)
  | start _ _ _ => exact same rfl
  | finish _ _ _ _ => exact same rfl
  | jump _ _ _ _ _ _ => exact same rfl
  | crash _ => exact same rfl

/-- **No job goes back**, as long as no snapshot is stored that is behind its record. From every configuration and along every
run of handlers, dispatcher, reconciler and the rest in which the stored snapshots are current, with failures and crashes: the
rank of a job's status does not decrease, a recorded start is not erased and a requested cancellation is not cleared. The
condition cannot be weakened: a snapshot that is stored for a job that is not terminal lets the job go on if and only if it is
not behind. -/
theorem job_progress (cfg : Config) (σ : Conf) :
    (∀ σ', Relation.ReflTransGen ((machine cfg).Step current) σ σ' → ∀ id r, σ.st.db.jobs.lookup id = some r →
      ∃ r', σ'.st.db.jobs.lookup id = some r' ∧ r.Progress r') ∧
    ∀ t ch id remote s sp r, exec t ch σ.st (.tx (.syncJob id remote)) = some (Except.ok (), s, sp) →
      σ.st.db.jobs.lookup id = some r → r.status.terminal = false →
      ((∃ r', s.db.jobs.lookup id = some r' ∧ r.Progress r') ↔ ¬ remote.Behind r) := by
  constructor
  · intro σ' hrun id r hr
    induction hrun with
    | refl => exact ⟨r, hr, .refl r⟩
    | tail _ hstep ih =>
      obtain ⟨r1, hr1, hp1⟩ := ih
      obtain ⟨r2, hr2, hp2⟩ := step_progress hstep hr1
      exact ⟨r2, hr2, hp1.trans hp2⟩
  intro t ch id remote s sp r hexec hr hlive
  obtain ⟨-, ⟨e, he, -⟩ | ⟨a, db, fresh, -, rfl, hrun⟩⟩ := exec_run hexec
  · cases he
  · exact syncJob_progress_iff hrun hr hlive

def activates : List Event := starting ++ .run 6 (.fresh "svc1") :: goes 6 7

def snapshots (t : Nat) : List Event := asks t (.getJob "job1") ++ [.run t .go, authorized t] ++ goes t 2

/-- Goroutine 7 has a snapshot, the task begins to run, and goroutine 8 takes a snapshot and stores it. -/
def overtakes : List Event :=
  activates ++ snapshots 7 ++ .env (.tasks "job1" [⟨sampleTime, sampleTime, "node", .running, sampleTime, "", none⟩]) ::
    snapshots 8 ++ goes 8 1

def overtakesCancel : List Event :=
  goes 7 1 ++ snapshots 9 ++ asks 10 (.cancelJob "job1") ++ [.run 10 .go, authorized 10] ++ goes 10 3

/-- What the record of the job says: its status, whether a start is recorded and whether its cancellation is requested. -/
def recordedProgress (σ : Conf) : Option (Status × Bool × Bool) :=
  (σ.st.db.jobs.lookup "job1").map fun r => (r.status, r.startedAt.isSome, r.cancelRequested)

def currentCall (w : World) (_ : Nat) (c : Call) (_ : c.Ret) : Bool :=
  match c with
  | .tx (.syncJob id remote) => (w.st.db.jobs.lookup id).all fun r => r.status.terminal || !decide (remote.Behind r)
  | _ => true

theorem current_of_test {w : World} {t : Nat} {c : Call} {r : c.Ret} (h : currentCall w t c r = true) :
    current.call w t c r := by
  rintro x rfl id remote rfl row hrow hlive
  simpa [currentCall, hrow, hlive] using h

/-- The first snapshot of the running task is current when it is stored. -/
theorem job_progress_stored : ∃ σ σ', Reaches sampleConfig Conc.Rules.all σ ∧ (machine sampleConfig).Step current σ σ' ∧
    recordedProgress σ = some (.queued, false, false) ∧ recordedProgress σ' = some (.running, true, false) ∧
    ∃ r r', σ.st.db.jobs.lookup "job1" = some r ∧ σ'.st.db.jobs.lookup "job1" = some r' ∧ r.Progress r' := by
  obtain ⟨σ, hr, hp⟩ := reaches_of_steps sampleConfig (runs ++ snapshots 7)
    (p := fun σ => recordedProgress σ == some (.queued, false, false) &&
      (((machine sampleConfig).stepsIf currentCall σ (goes 7 1)).any fun σ' =>
        recordedProgress σ' == some (.running, true, false))) (by decide +kernel)
  simp only [Bool.and_eq_true, Option.any_eq_true, beq_iff_eq] at hp
  obtain ⟨hbefore, σ', hrun, hafter⟩ := hp
  obtain ⟨haccepts, hrun⟩ := Option.ite_none_right_eq_some.mp hrun
  obtain ⟨σ1, hstep, hlast⟩ := Option.bind_eq_some_iff.mp hrun
  cases hlast
  have hstep := Machine.step_of_eq (Machine.allowed_of_accepts (K := current) (fun _ _ => trivial) (fun _ _ => trivial)
    (fun _ _ _ _ h => current_of_test h) haccepts) hstep
  obtain ⟨r, hrow, -⟩ := Option.map_eq_some_iff.mp hbefore
  obtain ⟨r', hrow', hprogress⟩ := (job_progress sampleConfig σ).1 σ' (.single hstep) "job1" r hrow
  exact ⟨σ, σ', hr, hstep, hbefore, hafter, r, r', hrow, hrow', hprogress⟩

/-- Two refreshes of one job store their snapshots in the other order: the job goes from running back to queued and loses its
start. A refresh stores a snapshot that was taken before a cancellation: the cancellation is cleared. -/
theorem job_goes_back :
    (∃ σ σ', Reaches sampleConfig Conc.Rules.all σ ∧ (machine sampleConfig).steps σ (goes 7 1) = some σ' ∧
      recordedProgress σ = some (.running, true, false) ∧ recordedProgress σ' = some (.queued, false, false)) ∧
    ∃ σ σ', Reaches sampleConfig Conc.Rules.all σ ∧ (machine sampleConfig).steps σ (goes 9 1) = some σ' ∧
      recordedProgress σ = some (.queued, false, true) ∧ recordedProgress σ' = some (.running, true, false) := by
  constructor
  · obtain ⟨σ, hr, hp⟩ := reaches_of_steps sampleConfig overtakes
      (p := fun σ => recordedProgress σ == some (.running, true, false) &&
        (((machine sampleConfig).steps σ (goes 7 1)).any fun σ' => recordedProgress σ' == some (.queued, false, false)))
      (by decide +kernel)
    simp only [Bool.and_eq_true, Option.any_eq_true, beq_iff_eq] at hp
    obtain ⟨hbefore, σ', hstep, hafter⟩ := hp
    exact ⟨σ, σ', hr, hstep, hbefore, hafter⟩
  obtain ⟨σ, hr, hp⟩ := reaches_of_steps sampleConfig (overtakes ++ overtakesCancel)
    (p := fun σ => recordedProgress σ == some (.queued, false, true) &&
      (((machine sampleConfig).steps σ (goes 9 1)).any fun σ' => recordedProgress σ' == some (.running, true, false)))
    (by decide +kernel)
  simp only [Bool.and_eq_true, Option.any_eq_true, beq_iff_eq] at hp
  obtain ⟨hbefore, σ', hstep, hafter⟩ := hp
  exact ⟨σ, σ', hr, hstep, hbefore, hafter⟩

end Autback
