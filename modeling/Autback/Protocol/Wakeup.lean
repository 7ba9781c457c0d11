import Autback.Protocol.Reservation

/-!
# Teardowns without a worker

A row gets into teardown in one transaction, and the coordinator's worker is woken later, by the goroutine that committed it:
until then the wake-up is that goroutine's duty (`Alarm.duty`). A wake-up starts a worker or makes it look once more before it
ends (`Alarm.phase`).

A duty is lost if a store call fails between the commit and the wake-up, if an emergency stop does not get through with its
teardown, or if `PrepareBuild` takes back a build that has been admitted meanwhile (`teardown_stranded`). As long as that does
not happen to a row in teardown (`waking`), a worker tends to it (`teardown_tended`).
-/

namespace Autback

open Conc Ghost

def View.tears (v : View) (op : Op) : Bool := (v.row op).any fun r => r.state.tearing

section Tears

variable {v v' : View} {x : Tx} {a : x.Val} {op : Op} {id : String}

theorem tears_iff : v.tears op = true ↔ ∃ r, v.row op = some r ∧ r.state.tearing = true := by
  simp [View.tears, Option.any_eq_true]

theorem Tx.Effect.tears (he : x.Effect a v v') (h : v'.tears op = true) :
    v.tears op = true ∨ ∃ r s', v.row op = some r ∧ x.Moves a op r.state s' ∧ r.state.tearing = false ∧ s'.tearing = true := by
  obtain ⟨r', hr', hs'⟩ := tears_iff.mp h
  cases hr : v.row op with
  | none =>
    obtain ⟨-, rfl⟩ := he.row_new hr hr'
    cases hs'
  | some r =>
    cases hs : r.state.tearing with
    | true => exact .inl (tears_iff.mpr ⟨r, hr, hs⟩)
    | false =>
      obtain ⟨r1, hr1, -, hm⟩ := he.row hr
      rw [hr'] at hr1
      cases hr1
      refine .inr ⟨r, r'.state, rfl, hm.resolve_left fun heq => ?_, hs, hs'⟩
      rw [heq, hs] at hs'
      cases hs'

theorem Tx.Effect.terminal (he : x.Effect a v v') (h : ∃ j, v.job id = some j ∧ j.status.terminal = true) :
    ∃ j, v'.job id = some j ∧ j.status.terminal = true := by
  obtain ⟨j, hj, ht⟩ := h
  obtain ⟨j', hj', rfl | hw⟩ := he.job hj
  · exact ⟨j', hj', ht⟩
  exfalso
  cases x <;> simp only [Tx.Writes] at hw <;> cases hs : j.status <;> simp_all [Status.terminal]

end Tears

/-! ## Duties -/

/-- The wake-up that a goroutine owes: nothing; for a row that it has moved into teardown, for the row of a job whose snapshot
it has stored and which it reads back, for the operation that its emergency stop has ended; for whatever the start of the
process has found. -/
inductive Duty
  | nothing
  | row (op : Op)
  | read (id : String)
  | stopped (op : Op)
  | every
  deriving DecidableEq

/-- Where a goroutine is in the worker's loop: elsewhere, at work, or about to end because there was nothing to tear down. -/
inductive Phase
  | away
  | working
  | idle
  deriving DecidableEq

/-- What a goroutine has to do with wake-ups: its duty, its place in the worker's loop, and the build that it is about to take
back because its creation could not be recorded. -/
structure Alarm where
  label : Label
  duty : Duty
  rollback : Option String
  phase : Phase

/-- The duty includes the wake-up for `op`. -/
def Duty.Covers (d : Duty) (v : View) (op : Op) : Prop :=
  match d with
  | .nothing => False
  | .row op' => op = op'
  | .read id => op = jobOp id ∧ ∃ j, v.job id = some j ∧ j.status.terminal = true
  | .stopped op' => op = op'
  | .every => True

namespace Alarm

def incur (g : Alarm) (d : Duty) : Alarm := if g.duty = .every then g else { g with duty := d }

def lose (g : Alarm) : Alarm :=
  match g.duty with
  | .row _ | .read _ => { g with duty := .nothing }
  | _ => g

def leave (g : Alarm) : Alarm :=
  match g.duty with
  | .stopped _ => { g with duty := .nothing }
  | _ => g

def after (g : Alarm) (c : Call) (r : c.Ret) : Alarm :=
  match c, r with
  | .tx (.audit _ _ action id _), Except.error _ =>
    if action = "build.prepare" then { g.lose with rollback := some id } else g.lose
  | .tx _, Except.error _ => g.lose
  | .tx (.job id), Except.ok (job : Job) =>
    if g.duty = .read id then { g with duty := if job.status.terminal then .row (jobOp id) else .nothing } else g
  | .tx (.syncJob id remote), Except.ok _ => if remote.status.terminal then g.incur (.read id) else g
  | .tx (.failJob id _), Except.ok _ => g.incur (.row (jobOp id))
  | .tx (.finishBuild id _ _), Except.ok _ => if g.rollback = some id then g else g.incur (.row (buildOp id))
  | .tx (.beginOperationCleanup op), Except.ok (done : Bool) => if done then g.incur (.row op) else g
  | .tx (.emergencyStopActiveOperation _), Except.ok (some (o : Operation)) => g.incur (.stopped o.op)
  | .tx (.operationState op), Except.ok (state : OperationState) =>
    if g.duty = .row op ∧ state.tearing = false then { g with duty := .nothing } else g
  | .tx (.completeOperationCleanup op), Except.ok _ => if g.duty = .stopped op then { g with duty := .nothing } else g
  | .tx .claimOperationCleanup, Except.ok none => if g.phase = .working then { g with phase := .idle } else g
  | .coordinatorAdvance, _ => { g with duty := .nothing }
  | .coordinatorEnd, (again : Bool) => { g with phase := if again then .working else .away }
  | .draining, (draining : Bool) => if draining then { g with duty := .nothing } else g.leave
  | .unlock, _ => g.leave
  | .boot, (new : Bool) => if new then { g with duty := .every } else g
  | .ctxErr .process, (ended : Bool) => if ended then { g with phase := .away } else g
  | .wait .process, (elapsed : Bool) => if elapsed then g else { g with phase := .away }
  | _, _ => g

section After

variable (g : Alarm) (e : Err) (u : Unit)

theorem after_audit (principal : Principal) (projectID action id : String) (metadata : Option (List (String × String))) :
    g.after (.tx (.audit principal projectID action id metadata)) (Except.error e) =
      if action = "build.prepare" then { g.lose with rollback := some id } else g.lose := rfl

theorem after_job (id : String) (job : Job) : g.after (.tx (.job id)) (Except.ok job) =
    if g.duty = .read id then { g with duty := if job.status.terminal then .row (jobOp id) else .nothing } else g := rfl

theorem after_syncJob (id : String) (remote : RemoteJob) : g.after (.tx (.syncJob id remote)) (Except.ok u) =
    if remote.status.terminal then g.incur (.read id) else g := rfl

theorem after_finishBuild (id : String) (status : BuildStatus) (exitCode : Int) :
    g.after (.tx (.finishBuild id status exitCode)) (Except.ok u) =
      if g.rollback = some id then g else g.incur (.row (buildOp id)) := rfl

theorem after_operationState (op : Op) (state : OperationState) : g.after (.tx (.operationState op)) (Except.ok state) =
    if g.duty = .row op ∧ state.tearing = false then { g with duty := .nothing } else g := rfl

theorem after_complete (op : Op) (done : Bool) : g.after (.tx (.completeOperationCleanup op)) (Except.ok done) =
    if g.duty = .stopped op then { g with duty := .nothing } else g := rfl

theorem after_claim_none : g.after (.tx .claimOperationCleanup) (Except.ok none) =
    if g.phase = .working then { g with phase := .idle } else g := rfl

theorem after_wait (elapsed : Bool) : g.after (.wait .process) elapsed = if elapsed then g else { g with phase := .away } := rfl

end After

end Alarm

def Label.mayAlarm : Label → Bool
  | .coordinator | .reconcilerWait | .capacityWait | .shutdown => false
  | _ => true

def Call.measures : Call → Bool
  | .lock | .snapshot | .tx .workerBusy | .now | .lastPressure | .setLastPressure _ | .reclaim _ => true
  | _ => false

def Call.watched (c : Call) : Bool := c.betweenRuns || c.measures

def alarms : Ghost Call Call.Ret Label Alarm where
  start l := ⟨l, .nothing, none, if l = .coordinator then .working else .away⟩
  next := Alarm.after
  guard g c := match c with
    | .tx (.syncJob _ _) | .tx (.failJob _ _) | .tx (.finishBuild _ _ _) | .tx (.emergencyStopActiveOperation _) =>
      g.label.mayAlarm = true ∧ (g.duty = .nothing ∨ g.duty = .every)
    | .tx (.beginOperationCleanup op) =>
      g.label.mayAlarm = true ∧ (g.duty = .nothing ∨ g.duty = .every ∨ g.duty = .row op)
    | .boot => g.label = .main
    | .coordinatorBegin => g.phase = .working
    | .coordinatorEnd => g.duty = .nothing ∧ g.phase = .idle
    | .coordinatorFinish => g.duty = .nothing ∧ g.phase = .away
    | c => c.watched = true → g.duty = .nothing ∨ g.duty = .every
  fact _ _ _ := True
  exit g l := (g.duty = .nothing ∨ g.duty = .every ∧ g.label ≠ .main) ∧ (g.phase = .away ∨ l = some .coordinator)

section Walk

variable {l : Label} {g : Alarm} {op : Op} {id : String} {c : Call}

structure Calm (l : Label) (g : Alarm) : Prop where
  label : g.label = l
  duty : g.duty = .nothing ∨ g.duty = .every
  phase : g.phase = .away

/-- The goroutine may owe the wake-up for `op` as well. -/
structure Owing (l : Label) (op : Op) (g : Alarm) : Prop where
  label : g.label = l
  duty : (g.duty = .nothing ∨ g.duty = .every) ∨ g.duty = .row op
  phase : g.phase = .away

structure Stopping (l : Label) (g : Alarm) : Prop where
  label : g.label = l
  duty : (g.duty = .nothing ∨ g.duty = .every) ∨ ∃ op, g.duty = .stopped op
  phase : g.phase = .away

/-- The goroutine has ended `op` by an emergency stop. -/
structure Stopped (l : Label) (op : Op) (g : Alarm) : Prop where
  label : g.label = l
  duty : g.duty = .every ∨ g.duty = .stopped op
  phase : g.phase = .away

def Call.calm : Call → Bool
  | .tx (.syncJob _ _) | .tx (.failJob _ _) | .tx (.finishBuild _ _ _) | .tx (.emergencyStopActiveOperation _)
  | .tx (.beginOperationCleanup _) | .boot | .coordinatorBegin | .coordinatorEnd | .coordinatorFinish => false
  | _ => true

theorem Calm.owing (h : Calm l g) (op : Op) : Owing l op g := ⟨h.label, .inl h.duty, h.phase⟩

theorem Calm.stopping (h : Calm l g) : Stopping l g := ⟨h.label, .inl h.duty, h.phase⟩

theorem Calm.lose (h : Calm l g) : g.lose = g := by
  rcases h.duty with hd | hd <;> simp [Alarm.lose, hd]

theorem Calm.leave (h : Calm l g) : g.leave = g := by
  rcases h.duty with hd | hd <;> simp [Alarm.leave, hd]

theorem Calm.ne (h : Calm l g) {d : Duty} (hn : d ≠ .nothing) (he : d ≠ .every) : g.duty ≠ d := by
  rcases h.duty with hd | hd <;> rw [hd]
  · exact hn.symm
  · exact he.symm

theorem Owing.lose (h : Owing l op g) : Calm l g.lose := by
  rcases h.duty with hd | hd
  · have hcalm : Calm l g := ⟨h.label, hd, h.phase⟩
    rwa [hcalm.lose]
  simp only [Alarm.lose, hd]
  exact ⟨h.label, .inl rfl, h.phase⟩

theorem Stopping.leave (h : Stopping l g) : Calm l g.leave := by
  rcases h.duty with hd | ⟨op, hd⟩
  · have hcalm : Calm l g := ⟨h.label, hd, h.phase⟩
    rwa [hcalm.leave]
  simp only [Alarm.leave, hd]
  exact ⟨h.label, .inl rfl, h.phase⟩

theorem Stopped.stopping (h : Stopped l op g) : Stopping l g :=
  ⟨h.label, h.duty.imp .inr fun hd => ⟨op, hd⟩, h.phase⟩

theorem Stopped.lose (h : Stopped l op g) : g.lose = g := by
  rcases h.duty with hd | hd <;> simp [Alarm.lose, hd]

theorem Calm.after (h : Calm l g) (hc : c.calm = true) (r : c.Ret) : Calm l (g.after c r) := by
  unfold Alarm.after
  split
  · rw [h.lose]
    split
    · exact ⟨h.label, h.duty, h.phase⟩
    · exact h
  · rwa [h.lose]
  · rw [if_neg (h.ne (by simp) (by simp))]
    exact h
  all_goals first | cases hc | skip
  · rw [if_neg fun hc => h.ne (by simp) (by simp) hc.1]
    exact h
  · rw [if_neg (h.ne (by simp) (by simp))]
    exact h
  · rw [if_neg (by simp [h.phase])]
    exact h
  · exact ⟨h.label, .inl rfl, h.phase⟩
  · split
    · exact ⟨h.label, .inl rfl, h.phase⟩
    · rwa [h.leave]
  · rwa [h.leave]
  · split
    · exact ⟨h.label, h.duty, rfl⟩
    · exact h
  · split
    · exact h
    · exact ⟨h.label, h.duty, rfl⟩
  · exact h

theorem alarms_still (hc : c.calm = true) : alarms.Still (Calm l) c := by
  intro g hg
  refine ⟨?_, fun r _ => hg.after hc r⟩
  simp only [alarms]
  split
  all_goals first | cases hc | skip
  exact fun _ => hg.duty

theorem calm_of_quiet (hc : c.quiet = true) : c.calm = true := by
  cases c with
  | tx x => cases x <;> first | rfl | cases hc
  | _ => first | rfl | cases hc

theorem alarms_quiet (c : Call) (hc : c.quiet = true) : alarms.Still (Calm l) c := alarms_still (calm_of_quiet hc)

theorem alarms_connection (job : Job) : alarms.Within (Calm l) (Api.jobPreparationConnection job) :=
  within_jobPreparationConnection alarms_quiet (fun _ => alarms_still rfl) job

theorem alarms_advance : alarms.Within (Calm l) advance := within_advance alarms_quiet (alarms_still rfl) (alarms_still rfl)

/-! ### Wake-ups -/

theorem alarms_wake (hg : Owing l op g) :
    alarms.Safe g (always (perform .coordinatorAdvance) : Go Err Unit) fun g' _ => Calm l g' :=
  safe_ofProg.mpr ⟨fun h => (by cases h), fun _ _ => ⟨hg.label, .inl rfl, hg.phase⟩⟩

theorem alarms_advanceOwing (hg : Owing l op g) :
    alarms.Safe g advance fun g' _ => Calm l g' ∧ g'.duty = .nothing := by
  have hnoth : Calm l { g with duty := .nothing } ∧ ({ g with duty := .nothing } : Alarm).duty = .nothing :=
    ⟨⟨hg.label, .inl rfl, hg.phase⟩, rfl⟩
  refine safe_bind.mpr ⟨fun h => (by cases h), fun draining _ => ?_⟩
  cases (draining : Bool) with
  | true => exact hnoth
  | false =>
    have hleaves : g.leave = g := by rcases hg.duty with (hd | hd) | hd <;> simp [Alarm.leave, hd]
    change alarms.Safe g.leave _ _
    rw [hleaves]
    exact safe_bind.mpr ⟨fun h => (by cases h), fun _ _ => ⟨fun h => (by cases h), fun _ _ => hnoth⟩⟩

variable (hl : l.mayAlarm = true)

include hl

theorem Calm.incurs (h : Calm l g) : g.label.mayAlarm = true ∧ (g.duty = .nothing ∨ g.duty = .every) :=
  ⟨h.label ▸ hl, h.duty⟩

omit hl in
theorem Calm.incur (h : Calm l g) (op : Op) : Owing l op (g.incur (.row op)) := by
  unfold Alarm.incur
  split
  · exact h.owing op
  · exact ⟨h.label, .inr rfl, h.phase⟩

/-- A request for the teardown of `op` ends with the wake-up. -/
theorem alarms_request (hg : Owing l op g) : alarms.Safe g (Coordinator.request op) fun g' _ => Calm l g' := by
  refine safe_try.mpr (safe_try.mpr ⟨⟨hg.label ▸ hl, or_assoc.mp hg.duty⟩, fun r _ => ?_⟩)
  rcases r with e | (done : Bool)
  · exact hg.lose
  cases done with
  | true =>
    have howing : Owing l op (g.incur (.row op)) := by
      unfold Alarm.incur
      split
      · exact hg
      · exact ⟨hg.label, .inr rfl, hg.phase⟩
    exact alarms_wake howing
  | false =>
    refine safe_try.mpr ⟨fun h => (by cases h), fun r _ => ?_⟩
    rcases r with e | (state : OperationState)
    · exact hg.lose
    change alarms.Safe (g.after (.tx (.operationState op)) (Except.ok state)) _ _
    rw [Alarm.after_operationState]
    refine safe_ite (fun _ => ?_) fun hs => ?_
    · split
      · have hnoth : Owing l op { g with duty := .nothing } := ⟨hg.label, .inl (.inl rfl), hg.phase⟩
        exact alarms_wake hnoth
      · exact alarms_wake hg
    -- the row is not in teardown, so that nobody has to be woken for it
    have hs : state.tearing = false := by
      cases h : state.tearing <;> simp_all
    rcases hg.duty with hd | hd
    · have hcalm : Calm l g := ⟨hg.label, hd, hg.phase⟩
      rwa [if_neg fun hc => hcalm.ne (by simp) (by simp) hc.1]
    rw [if_pos ⟨hd, hs⟩]
    exact ⟨hg.label, .inl rfl, hg.phase⟩

theorem alarms_requestCalm (op : Op) : alarms.Within (Calm l) (Coordinator.request op) :=
  fun _ hg => alarms_request hl (hg.owing op)

theorem alarms_failJob (message : String) (hg : Calm l g) :
    alarms.Safe g (Store.failJob id message) fun g' r => match r with
      | .ok _ => Owing l (jobOp id) g'
      | .error _ => Calm l g' := by
  refine safe_try.mpr ⟨hg.incurs hl, fun r _ => ?_⟩
  rcases r with e | u
  · change Calm l g.lose
    rwa [hg.lose]
  have howing : Owing l (jobOp id) (g.incur (.row (jobOp id))) := hg.incur _
  refine ⟨fun h => (by cases h), fun r _ => ?_⟩
  rcases r with e | (job : Job)
  · exact howing.lose
  change Owing l (jobOp id) ((g.incur (.row (jobOp id))).after (.tx (.job id)) (Except.ok job))
  rw [Alarm.after_job, if_neg (by rcases howing.duty with (hd | hd) | hd <;> simp [hd])]
  exact howing

theorem alarms_finishBuild (status : BuildStatus) (exitCode : Int) (hg : Calm l g) :
    alarms.Safe g (Store.finishBuild id status exitCode) fun g' r => match r with
      | .ok _ => Owing l (buildOp id) g'
      | .error _ => Calm l g' := by
  refine safe_try.mpr ⟨hg.incurs hl, fun r _ => ?_⟩
  rcases r with e | u
  · change Calm l g.lose
    rwa [hg.lose]
  have howing : Owing l (buildOp id) (g.after (.tx (.finishBuild id status exitCode)) (Except.ok u)) := by
    rw [Alarm.after_finishBuild]
    split
    · exact hg.owing _
    · exact hg.incur _
  refine ⟨fun h => (by cases h), fun r _ => ?_⟩
  rcases r with e | (build : Build)
  · exact howing.lose
  · exact howing

theorem alarms_syncJob (remote : RemoteJob) (hg : Calm l g) :
    alarms.Safe g (Store.syncJob id remote) fun g' r => match r with
      | .ok job => Owing l (jobOp id) g' ∧ (job.status.terminal = false → Calm l g')
      | .error _ => Calm l g' := by
  refine safe_try.mpr ⟨hg.incurs hl, fun r _ => ?_⟩
  rcases r with e | u
  · change Calm l g.lose
    rwa [hg.lose]
  have hread : Calm l (g.after (.tx (.syncJob id remote)) (Except.ok u)) ∨
      g.after (.tx (.syncJob id remote)) (Except.ok u) = { g with duty := .read id } := by
    rw [Alarm.after_syncJob, Alarm.incur]
    split
    · split
      · exact .inl hg
      · exact .inr rfl
    · exact .inl hg
  refine ⟨fun h => (by cases h), fun r _ => ?_⟩
  change alarms.Safe ((g.after (.tx (.syncJob id remote)) (Except.ok u)).after (.tx (.job id)) r) (.ret r) _
  rcases hread with hcalm | hread
  · have hcalm := hcalm.after (c := .tx (.job id)) rfl r
    rcases r with e | (job : Job)
    · exact hcalm
    · exact ⟨hcalm.owing _, fun _ => hcalm⟩
  rw [hread]
  rcases r with e | (job : Job)
  · exact ⟨hg.label, .inl rfl, hg.phase⟩
  rw [Alarm.after_job, if_pos rfl]
  cases ht : job.status.terminal with
  | true => exact ⟨⟨hg.label, .inr rfl, hg.phase⟩, fun h => (by simp [ht] at h)⟩
  | false => exact ⟨⟨hg.label, .inl (.inl rfl), hg.phase⟩, fun _ => ⟨hg.label, .inl rfl, hg.phase⟩⟩

theorem alarms_rejectJob (context id : String) (e : Err) :
    alarms.Within (Calm l) (Dispatcher.rejectJob context id e) := by
  intro g hg
  refine safe_try.mpr (safe_attempt.mpr ((alarms_failJob hl _ hg).mono ?_))
  rintro g' (e' | job) hg'
  · exact hg'
  refine safe_try.mpr (safe_attempt.mpr ((alarms_request hl hg').mono ?_))
  rintro g'' (e' | u) hg'' <;> exact hg''

/-! ### Emergency stops -/

omit hl in
theorem Call.unwatched_of_lifecycle (hc : c.lifecycle = true) : c.watched = false := by
  cases c with
  | tx x => cases x <;> first | rfl | cases hc
  | _ => first | rfl | cases hc

omit hl in
theorem stopped_lifecycle (c : Call) (hc : c.lifecycle = true) : alarms.Still (Stopped l op) c := by
  intro g hg
  have hguard : c.watched = true → g.duty = .nothing ∨ g.duty = .every := by
    intro h
    rw [Call.unwatched_of_lifecycle hc] at h
    cases h
  cases c with
  | tx x =>
    cases x with
    | job id =>
      refine ⟨hguard, fun r _ => ?_⟩
      rcases r with e | (job : Job)
      · change Stopped l op g.lose
        rwa [hg.lose]
      change Stopped l op (g.after (.tx (.job id)) (Except.ok job))
      rw [Alarm.after_job, if_neg (by rcases hg.duty with hd | hd <;> simp [hd])]
      exact hg
    | resourceBaseline _ | saveResourceBaseline _ _ =>
      refine ⟨hguard, fun r _ => ?_⟩
      rcases r with e | u
      · change Stopped l op g.lose
        rwa [hg.lose]
      · exact hg
    | audit principal projectID action id metadata =>
      refine ⟨hguard, fun r _ => ?_⟩
      rcases r with e | u
      · change Stopped l op (g.after (.tx (.audit principal projectID action id metadata)) (Except.error e))
        rw [Alarm.after_audit, hg.lose]
        split
        · exact ⟨hg.label, hg.duty, hg.phase⟩
        · exact hg
      · exact hg
    | _ => cases hc
  | wait scope =>
    refine ⟨hguard, fun r _ => ?_⟩
    change Stopped l op (g.after (.wait scope) r)
    cases scope with
    | process =>
      rw [Alarm.after_wait]
      split
      · exact hg
      · exact ⟨hg.label, hg.duty, rfl⟩
    | request | background => exact hg
  | list _ | resolveSecret _ _ | writeSecret _ _ | publishSecrets _ | removeSecrets _ => exact ⟨hguard, fun _ _ => hg⟩
  | _ => cases hc

omit hl in
theorem alarms_complete (hg : Stopped l op g) :
    alarms.Safe g (Store.completeOperationCleanup op) fun g' r => match r with
      | .ok _ => Calm l g'
      | .error _ => Stopping l g' := by
  refine safe_try.mpr ⟨fun h => (by cases h), fun r _ => ?_⟩
  rcases r with e | (done : Bool)
  · change Stopping l g.lose
    rw [hg.lose]
    exact hg.stopping
  have hcalm : Calm l (g.after (.tx (.completeOperationCleanup op)) (Except.ok done)) := by
    rw [Alarm.after_complete]
    split
    · exact ⟨hg.label, .inl rfl, hg.phase⟩
    · exact ⟨hg.label, .inr (hg.duty.resolve_right ‹_›), hg.phase⟩
  refine safe_ite (fun _ => hcalm) fun _ => ?_
  refine safe_try.mpr ((within_quiet alarms_quiet (.tx (.operationState op)) rfl _ hcalm).mono ?_)
  rintro g' (e | (state : OperationState)) hg'
  · exact hg'.stopping
  · exact safe_ite (fun _ => hg') fun _ => hg'.stopping

omit hl in
theorem alarms_emergencyTeardown (scope : Scope) (hg : Stopped l op g) :
    alarms.Safe g (emergencyTeardown scope op) fun g' r => match r with
      | .ok _ => Calm l g'
      | .error _ => Stopping l g' := by
  refine safe_try.mpr ⟨fun h => (by cases h), fun r _ => ?_⟩
  rcases r with e | (_ | (claimed : Operation))
  · change Stopping l g.lose
    rw [hg.lose]
    exact hg.stopping
  · change Stopping l (g.after (.tx .claimOperationCleanup) (Except.ok none))
    rw [Alarm.after_claim_none, if_neg (by simp [hg.phase])]
    exact hg.stopping
  refine safe_ite (fun _ => ?_) fun _ => hg.stopping
  have hrem : ∀ kind id, alarms.Still (Stopped l op) (.removeResource claimed.op kind id) :=
    fun _ _ _ hg => ⟨fun h => (by cases h), fun _ _ => hg⟩
  refine safe_try.mpr (safe_mapError.mpr ((within_cleanup stopped_lifecycle hrem scope g hg).mono ?_))
  rintro g' (e | u) hg'
  · exact hg'.stopping
  · exact alarms_complete hg'

theorem alarms_emergency (dryRun : Bool) (scope : Scope) (hg : Calm l g) :
    alarms.Safe g (emergency dryRun scope) fun g' r => match r with
      | .ok _ => Calm l g'
      | .error _ => Stopping l g' := by
  rw [emergency]
  refine safe_ite (fun _ => hg) fun _ => ?_
  refine safe_try.mpr ⟨hg.incurs hl, fun r _ => ?_⟩
  rcases r with e | (_ | (o : Operation))
  · change Stopping l g.lose
    rw [hg.lose]
    exact hg.stopping
  · exact hg
  have hstopped : Stopped l o.op (g.incur (.stopped o.op)) := by
    unfold Alarm.incur
    split
    · exact ⟨hg.label, .inl ‹_›, hg.phase⟩
    · exact ⟨hg.label, .inr rfl, hg.phase⟩
  have hstill : ∀ c : Call, (∃ id, c = .cancel id ∨ c = .remove id) → alarms.Still (Stopped l o.op) c := by
    rintro c ⟨id, rfl | rfl⟩ g hg <;> exact ⟨fun h => (by cases h), fun _ _ => hg⟩
  have hstop := within_stopRuntime (fun id => hstill (.cancel id) ⟨id, .inl rfl⟩)
    (fun id => hstill (.remove id) ⟨id, .inr rfl⟩) o.op
  refine safe_try.mpr ((hstop _ hstopped).mono ?_)
  rintro g' (e | u) hg'
  · exact hg'.stopping
  · exact alarms_emergencyTeardown scope hg'

theorem alarms_runLocked (policy : Policy) (dryRun : Bool) (scope : Scope) (trigger : Trigger) (hg : Calm l g) :
    alarms.Safe g (Controller.runLocked policy dryRun scope trigger) fun g' _ => Stopping l g' :=
  safe_runLocked alarms_quiet (fun _ => alarms_still rfl) (fun _ h => h.stopping)
    (fun _ hg => alarms_emergency hl dryRun scope hg) trigger hg

omit hl in
theorem alarms_unlock (g : Alarm) (hg : Stopping l g) :
    alarms.guard g .unlock ∧ ∀ r, alarms.fact g .unlock r → Calm l (alarms.next g .unlock r) :=
  ⟨fun h => (by cases h), fun _ _ => hg.leave⟩

theorem alarms_maintain (policy : Policy) (dryRun : Bool) (scope : Scope) (trigger : Trigger) :
    alarms.Within (Calm l) (Controller.maintain policy dryRun scope trigger) :=
  safe_locked (alarms_still rfl) (fun _ hg => alarms_runLocked hl policy dryRun scope trigger hg) alarms_unlock

/-! ### The dispatcher -/

theorem alarms_admitOperation (scope : Scope) (op : Op) :
    alarms.Within (Calm l) (Dispatcher.admitOperation scope op) :=
  within_admits alarms_quiet (fun context e => alarms_rejectJob hl context op.id e) (alarms_still rfl) (fun _ => alarms_still rfl)
    (fun _ => alarms_still rfl) (alarms_still rfl)

theorem alarms_reserve (scope : Scope) (hg : Stopping l g) :
    alarms.Safe g (Dispatcher.reserve scope) fun g' _ => Calm l g' := by
  refine safe_try.mpr (safe_ofProg.mpr ⟨fun h => (by cases h), fun draining _ => ?_⟩)
  cases (draining : Bool) with
  | true => exact ⟨hg.label, .inl rfl, hg.phase⟩
  | false =>
    refine safe_ite (fun h => (by cases h)) fun _ => ?_
    refine (within_try (within_lift (alarms_still rfl)) fun operation => ?_) _ hg.leave
    split
    · exact within_ok _
    · exact alarms_admitOperation hl scope _

theorem alarms_runOnce (cfg : Config) (scope : Scope) : alarms.Within (Calm l) (Dispatcher.runOnce cfg scope) := by
  refine within_runOnce alarms_quiet (safe_locked (alarms_still rfl) (fun g hg => ?_) alarms_unlock)
  refine safe_try.mpr ((alarms_runLocked hl _ _ _ _ hg).mono ?_)
  rintro g' (e | u) hg'
  · exact hg'
  · exact (alarms_reserve hl scope hg').mono fun _ _ h => h.stopping

theorem alarms_runOrAdvance (cfg : Config) (scope : Scope) :
    alarms.Within (Calm l) (Dispatcher.runOrAdvance cfg scope) :=
  within_runOrAdvance (alarms_runOnce hl cfg scope) alarms_advance

/-! ### Handlers -/

theorem alarms_refreshRemote (id : String) : alarms.Within (Calm l) (Api.refreshRemote id) := by
  intro g hg
  refine safe_try.mpr ((within_quiet alarms_quiet (.status id) rfl g hg).mono ?_)
  rintro g' (e | (remote : RemoteJob)) hg'
  · exact hg'
  refine safe_try.mpr ((alarms_syncJob hl remote hg').mono ?_)
  rintro g'' (e | job) hg''
  · exact hg''
  refine safe_ite (fun _ => ?_) fun ht => hg''.2 (by simpa using ht)
  exact safe_try.mpr (safe_ofProg.mpr ((alarms_advanceOwing hg''.1).mono fun _ _ h => h.1))

theorem alarms_createJob (cfg : Config) (principal : Principal) (project : Project) (input : PrepareJob) (key : String) :
    alarms.Within (Calm l) (Api.createJob cfg principal project input key) := by
  have hanswer := within_answerPrepared alarms_quiet (alarms_runOrAdvance hl cfg .request) alarms_connection
  refine within_try (within_mapError (within_lift (alarms_still rfl))) fun created => ?_
  obtain ⟨job, replayed⟩ := created
  simp only []
  split
  · exact hanswer _
  refine within_try (within_ofProg (within_quiet alarms_quiet _ rfl)) fun result => ?_
  split
  · exact hanswer _
  intro g hg
  refine safe_try.mpr (safe_try.mpr (safe_ofProg.mpr ((alarms_failJob hl _ hg).mono ?_)))
  have hrel : alarms.Within (Calm l) (Api.ignoring (Dispatcher.release (jobOp job.id))) :=
    within_ignoring (alarms_requestCalm hl _)
  rintro g' (e | failed) hg'
  · exact within_try hrel (fun _ => within_throw _) g' hg'
  refine safe_try.mpr (safe_try.mpr (safe_ofProg.mpr ?_))
  exact (alarms_request hl hg').mono fun _ _ h => h

theorem alarms_cancelInState (cfg : Config) (principal : Principal) (id : String) (state : Option OperationState) :
    alarms.Within (Calm l) (Api.cancelInState cfg principal id state) :=
  within_cancelInState alarms_quiet (alarms_still rfl) (alarms_still rfl) (alarms_refreshRemote hl) fun _ =>
    within_afterCancel (fun _ => alarms_requestCalm hl _) (alarms_runOnce hl cfg .request) fun _ _ => alarms_still rfl

theorem alarms_abandonBuild (id : String) : alarms.Within (Calm l) (Api.abandonBuild id) := by
  intro g hg
  refine safe_try.mpr (safe_try.mpr (safe_ofProg.mpr ((alarms_finishBuild hl _ _ hg).mono ?_)))
  rintro g' (e | build) hg'
  · exact within_ofProg alarms_advance g' hg'
  · exact safe_ofProg.mpr ((alarms_advanceOwing hg').mono fun _ _ h => h.1)

theorem alarms_endBuild (principal : Principal) (id : String) (status : BuildStatus) (exitCode : Int) (action : String)
    (metadata : Option (List (String × String))) :
    alarms.Within (Calm l) (Api.endBuild principal id status exitCode action metadata) := by
  intro g hg
  refine safe_try.mpr (safe_mapError.mpr ((alarms_finishBuild hl _ _ hg).mono ?_))
  rintro g' (e | build) hg'
  · exact hg'
  refine safe_try.mpr (safe_mapError.mpr ⟨fun h => (by cases h), fun r _ => ?_⟩)
  rcases r with e | u
  · change Calm l (g'.after (.tx (.audit principal build.projectID action build.id metadata)) (Except.error e))
    rw [Alarm.after_audit]
    split
    · exact ⟨hg'.lose.label, hg'.lose.duty, hg'.lose.phase⟩
    · exact hg'.lose
  · exact safe_try.mpr (safe_ofProg.mpr ((alarms_advanceOwing hg').mono fun _ _ h => h.1))

theorem alarms_answerBuild (cfg : Config) (id : String) : alarms.Within (Calm l) (Api.answerBuild cfg id) :=
  within_answerBuild alarms_quiet (alarms_runOrAdvance hl cfg .request) (fun _ => alarms_still rfl) (alarms_abandonBuild hl) id

theorem alarms_takeBack (id : String) (hg : Calm l g) (hback : g.rollback = some id) :
    alarms.Safe g (Api.ignoring (Store.finishBuild id .failed 1)) fun g' _ => Calm l g' := by
  refine safe_try.mpr (safe_ofProg.mpr (safe_try.mpr ⟨hg.incurs hl, fun r _ => ?_⟩))
  rcases r with e | u
  · change Calm l g.lose
    rwa [hg.lose]
  have hsame : g.after (.tx (.finishBuild id .failed 1)) (Except.ok u) = g := by rw [Alarm.after_finishBuild, if_pos hback]
  rw [show alarms.next g (.tx (.finishBuild id .failed 1)) (Except.ok u) = g from hsame]
  exact (within_quiet alarms_quiet (.tx (.build id)) rfl g hg).mono fun _ _ h => h

theorem alarms_createBuild (cfg : Config) (principal : Principal) (project : Project) (key : String) :
    alarms.Within (Calm l) (Api.createBuild cfg principal project key) := by
  refine within_try (within_mapError (within_lift (alarms_still rfl))) fun created => ?_
  obtain ⟨build, replayed⟩ := created
  simp only []
  split
  · exact alarms_answerBuild hl cfg _
  intro g hg
  refine safe_try.mpr (safe_ofProg.mpr ⟨fun _ => hg.duty, fun r _ => ?_⟩)
  rcases r with e | u
  · have hcalm : Calm l { g with rollback := some build.id } := ⟨hg.label, hg.duty, hg.phase⟩
    have hafter : g.after (.tx (.audit principal project.id "build.prepare" build.id none)) (Except.error e) =
        { g with rollback := some build.id } := by
      rw [Alarm.after_audit, hg.lose, if_pos rfl]
    rw [show alarms.next g (.tx (.audit principal project.id "build.prepare" build.id none)) (Except.error e) = _ from hafter]
    refine safe_try.mpr ((alarms_takeBack hl build.id hcalm rfl).mono ?_)
    rintro g' (e' | u) hg' <;> exact hg'
  · exact alarms_answerBuild hl cfg build.id g hg

theorem alarms_handlers (cfg : Config) : HandlerParts alarms (Calm l) cfg where
  quiet := alarms_quiet
  respond _ _ := alarms_still rfl
  run := alarms_runOrAdvance hl cfg .request
  createJob := alarms_createJob hl cfg
  queueAndRun _ _ _ := within_queueAndRun alarms_quiet (alarms_still rfl) (alarms_runOrAdvance hl cfg .request)
  getJob := within_getJob alarms_quiet (alarms_refreshRemote hl) alarms_connection
  listJobs := within_listJobs alarms_quiet (alarms_refreshRemote hl)
  cancelJob := within_cancelJob alarms_quiet (alarms_cancelInState hl cfg)
  createBuild := alarms_createBuild hl cfg
  getBuild := within_getBuild alarms_quiet fun _ => alarms_still rfl
  endBuild := alarms_endBuild hl

/-! ### The reconciler -/

theorem alarms_expireBuild (build : Build) : alarms.Within (Calm l) (Reconciler.expireBuild build) := by
  intro g hg
  refine safe_bind.mpr ((alarms_finishBuild hl _ _ hg).mono ?_)
  rintro g' (e | b) hg'
  · exact hg'
  · exact safe_bind.mpr ((alarms_request hl hg').mono fun _ _ h => h)

theorem alarms_syncAndRelease (id : String) (remote : RemoteJob) :
    alarms.Within (Calm l) (Reconciler.syncAndRelease id remote) := by
  intro g hg
  refine safe_bind.mpr ((alarms_syncJob hl remote hg).mono ?_)
  rintro g' (e | stored) hg'
  · exact hg'
  refine safe_ite (fun _ => ?_) fun ht => hg'.2 (by simpa using ht)
  exact safe_bind.mpr ((alarms_request hl hg'.1).mono fun _ _ h => h)

theorem alarms_reconcilerRun (cfg : Config) : alarms.Within (Calm l) (reconcilerRun cfg) := by
  refine within_reconcilerRun alarms_quiet ?_ (alarms_expireBuild hl) (fun _ => alarms_still rfl) (alarms_syncAndRelease hl)
    fun _ => alarms_still rfl
  exact within_expirePreparation (quiet_tx alarms_quiet) (fun _ => alarms_still rfl) fun _ => alarms_requestCalm hl _

/-! ### Goroutines -/

omit hl in
theorem alarms_main (cfg : Config) (hg : Calm .main g) (hd : g.duty = .nothing) :
    alarms.Safe g (serverMain cfg) fun g' _ => Calm .main g' ∧ g'.duty = .nothing := by
  refine safe_bind.mpr ⟨hg.label, fun new _ => ?_⟩
  cases (new : Bool) with
  | false => exact ⟨hg, hd⟩
  | true =>
    have hever : Calm .main { g with duty := .every } := ⟨hg.label, .inr rfl, hg.phase⟩
    refine safe_bind.mpr ((alarms_maintain rfl _ _ _ _ _ hever).mono fun g1 _ hg1 => ?_)
    refine safe_bind.mpr ((alarms_advanceOwing (hg1.owing (jobOp ""))).mono fun g2 _ hg2 => ?_)
    refine safe_bind.mpr ⟨fun h => (by cases h), fun _ _ => ?_⟩
    refine safe_bind.mpr ⟨fun h => (by cases h), fun _ _ => ?_⟩
    exact safe_bind.mpr ⟨fun h => (by cases h), fun _ _ => hg2⟩

end Walk

/-! ### The coordinator -/

section Coordinator

variable {g : Alarm}

structure Tending (g : Alarm) : Prop where
  label : g.label = .coordinator
  duty : g.duty = .nothing
  phase : g.phase = .working ∨ g.phase = .away

theorem Tending.after (h : Tending g) {c : Call} (hc : c.calm = true) (hx : c ≠ .tx .claimOperationCleanup) (r : c.Ret) :
    Tending (g.after c r) := by
  have hlose : g.lose = g := by simp [Alarm.lose, h.duty]
  have hleaves : g.leave = g := by simp [Alarm.leave, h.duty]
  unfold Alarm.after
  split
  · rw [hlose]
    split
    · exact ⟨h.label, h.duty, h.phase⟩
    · exact h
  · rwa [hlose]
  · rw [if_neg (by simp [h.duty])]
    exact h
  all_goals first | cases hc | skip
  · rw [if_neg (by simp [h.duty])]
    exact h
  · rw [if_neg (by simp [h.duty])]
    exact h
  · exact absurd rfl hx
  · exact ⟨h.label, rfl, h.phase⟩
  · split
    · exact ⟨h.label, rfl, h.phase⟩
    · rwa [hleaves]
  · rwa [hleaves]
  · split
    · exact ⟨h.label, h.duty, .inr rfl⟩
    · exact h
  · split
    · exact h
    · exact ⟨h.label, h.duty, .inr rfl⟩
  · exact h

theorem tending_still {c : Call} (hc : c.calm = true) (hx : c ≠ .tx .claimOperationCleanup) : alarms.Still Tending c := by
  intro g hg
  refine ⟨?_, fun r _ => hg.after hc hx r⟩
  simp only [alarms]
  split
  all_goals first | cases hc | skip
  exact fun _ => .inl hg.duty

theorem tending_quiet (c : Call) (hc : c.quiet = true) : alarms.Still Tending c := by
  refine tending_still (calm_of_quiet hc) ?_
  rintro rfl
  cases hc

theorem tending_advance : alarms.Within Tending advance :=
  within_advance tending_quiet (tending_still rfl (by simp)) (tending_still rfl (by simp))

theorem tending_isContextCancellation (e : Err) (hg : Tending g) :
    alarms.Safe g (isContextCancellation e .process) fun g' cancelled =>
      Tending g' ∧ (cancelled = true → g'.phase = .away) := by
  refine safe_bind.mpr ⟨fun _ => .inl hg.duty, fun ended _ => ?_⟩
  cases (ended : Bool) with
  | true => exact ⟨⟨hg.label, hg.duty, .inr rfl⟩, fun _ => rfl⟩
  | false => exact ⟨hg, fun h => (by cases h)⟩

theorem tending_runOnce (hg : Tending g) (hp : g.phase = .working) :
    alarms.Safe g (Coordinator.runOnce .process) fun g' r =>
      (r = (false, none) ∧ g'.label = .coordinator ∧ g'.duty = .nothing ∧ g'.phase = .idle) ∨
      (r ≠ (false, none) ∧ Tending g') := by
  refine safe_bind.mpr ⟨fun h => (by cases h), fun r _ => ?_⟩
  have hlose : g.lose = g := by simp [Alarm.lose, hg.duty]
  rcases r with e | (_ | (o : Operation))
  · refine .inr ⟨by simp, ?_⟩
    change Tending g.lose
    rwa [hlose]
  · refine .inl ⟨rfl, ?_⟩
    change (g.after (.tx .claimOperationCleanup) (Except.ok none)).label = _ ∧
      (g.after (.tx .claimOperationCleanup) (Except.ok none)).duty = _ ∧
      (g.after (.tx .claimOperationCleanup) (Except.ok none)).phase = _
    rw [Alarm.after_claim_none, if_pos hp]
    exact ⟨hg.label, hg.duty, rfl⟩
  have hclean := within_cleanup (fun c hc => tending_quiet c (Call.quiet_of_lifecycle hc))
    (fun kind id => tending_still (c := .removeResource o.op kind id) rfl (by simp)) .process
  have hcomp := within_complete tending_quiet
    (tending_still (c := .tx (.completeOperationCleanup o.op)) rfl (by simp))
  refine safe_bind.mpr ((hclean g hg).mono ?_)
  rintro g1 (e | u) hg1
  · refine safe_bind.mpr (safe_bind.mpr ((within_isContextCancellation tending_quiet e .process g1 hg1).mono ?_))
    intro g2 cancelled hg2
    refine safe_ite (fun _ => .inr ⟨by simp, hg2⟩) fun _ => ?_
    have hrecord := within_lift (tending_still (c := .tx (.recordOperationCleanupFailure o.op e.text)) rfl (by simp))
    refine safe_bind.mpr ((hrecord g2 hg2).mono ?_)
    rintro g3 (e' | u) hg3 <;> exact .inr ⟨by simp, hg3⟩
  refine safe_bind.mpr ((hcomp g1 hg1).mono ?_)
  rintro g2 (e | u) hg2
  · exact .inr ⟨by simp, hg2⟩
  · exact safe_bind.mpr ((tending_advance g2 hg2).mono fun g3 _ hg3 => .inr ⟨by simp, hg3⟩)

theorem tending_finish (hg : Tending g) (hp : g.phase = .away) : alarms.Safe g Coordinator.finish alarms.exit :=
  safe_bind.mpr ⟨⟨hg.duty, hp⟩, fun _ _ => ⟨.inl hg.duty, .inl hp⟩⟩

theorem tending_round (hg : Tending g) (hp : g.phase = .working) : alarms.Safe g Coordinator.round alarms.exit := by
  refine safe_bind.mpr ⟨hp, fun _ _ => ?_⟩
  refine safe_bind.mpr ((tending_runOnce hg hp).mono ?_)
  rintro g' ⟨claimed, err⟩ (⟨heq, hlabel, hd, hidle⟩ | ⟨hne, hg'⟩)
  · cases heq
    refine safe_bind.mpr ⟨⟨hd, hidle⟩, fun again _ => ?_⟩
    cases (again : Bool) with
    | true => exact ⟨.inl hd, .inr rfl⟩
    | false => exact ⟨.inl hd, .inl rfl⟩
  cases err with
  | none =>
    cases claimed with
    | false => exact absurd rfl hne
    | true => exact ⟨.inl hg'.duty, .inr rfl⟩
  | some e =>
    refine safe_bind.mpr ((tending_isContextCancellation e hg').mono ?_)
    rintro g1 cancelled ⟨hg1, hcancel⟩
    refine safe_ite (fun h => tending_finish hg1 (hcancel h)) fun _ => ?_
    refine safe_bind.mpr ⟨fun h => (by cases h), fun elapsed _ => ?_⟩
    cases (elapsed : Bool) with
    | true => exact ⟨.inl hg1.duty, .inr rfl⟩
    | false => exact tending_finish ⟨hg1.label, hg1.duty, .inr rfl⟩ rfl

end Coordinator

variable {g : Alarm}

theorem alarms_exit {l : Label} (hl : l ≠ .main) (hg : Calm l g) (o : Option Label) : alarms.exit g o := by
  refine ⟨hg.duty.imp_right fun hd => ⟨hd, ?_⟩, .inl hg.phase⟩
  rw [hg.label]
  exact hl

theorem alarms_body (cfg : Config) (l : Label) : alarms.Safe (alarms.start l) (body cfg l) alarms.exit := by
  have hstart : l ≠ .coordinator → Calm l (alarms.start l) := fun h => ⟨rfl, .inl rfl, by simp [alarms, h]⟩
  have hend : ∀ {p : Srv (Option Label)}, l ≠ .main → l ≠ .coordinator → alarms.Within (Calm l) p →
      alarms.Safe (alarms.start l) p alarms.exit :=
    fun hm hc hp => (hp _ (hstart hc)).mono fun _ o hg => alarms_exit hm hg o
  cases l with
  | main =>
    refine (alarms_main cfg (hstart (by simp)) rfl).mono fun g o hg => ?_
    exact ⟨.inl hg.2, .inl hg.1.phase⟩
  | coordinator => exact tending_round ⟨rfl, rfl, .inl rfl⟩ rfl
  | request r => exact hend (by simp) (by simp) (within_handle (alarms_handlers rfl cfg) r)
  | awaitActive offset job =>
    exact hend (by simp) (by simp)
      (within_awaitActive alarms_quiet (fun _ _ => alarms_still rfl) (alarms_refreshRemote rfl) offset job)
  | poll offset job following =>
    exact hend (by simp) (by simp)
      (within_poll alarms_quiet (fun _ _ => alarms_still rfl) (alarms_refreshRemote rfl) offset job following)
  | dispatcher =>
    exact hend (by simp) (by simp) (within_dispatcherRound alarms_quiet (alarms_still rfl) (alarms_still rfl)
      (alarms_still rfl) (alarms_still rfl) (alarms_runOnce rfl cfg .process))
  | reconcilerWait => exact hend (by simp) (by simp) (within_reconcilerWait alarms_quiet)
  | reconcilerRun => exact hend (by simp) (by simp) (alarms_reconcilerRun rfl cfg)
  | capacityWait => exact hend (by simp) (by simp) (within_capacityWait alarms_quiet)
  | capacityRun trigger => exact hend (by simp) (by simp) (within_capacityRun (alarms_maintain rfl _ _ _ _))
  | maintain dryRun => exact hend (by simp) (by simp) (within_maintainCommand (alarms_maintain rfl _ _ _ _))
  | shutdown =>
    exact hend (by simp) (by simp) (within_shutdown (alarms_still rfl) (alarms_still rfl) (alarms_still rfl))

/-! ## Rows in teardown are tended -/

structure Alarm.Sound (g : Alarm) : Prop where
  duty : g.label.mayAlarm = false → g.duty = .nothing
  every : g.duty = .every → g.label = .main
  phase : g.phase ≠ .away → g.label = .coordinator

section Sound

variable {g : Alarm}

theorem after_label (g : Alarm) (c : Call) (r : c.Ret) : (g.after c r).label = g.label := by
  have hlose : g.lose.label = g.label := by unfold Alarm.lose; split <;> rfl
  have hleaves : g.leave.label = g.label := by unfold Alarm.leave; split <;> rfl
  have hinc : ∀ d, (g.incur d).label = g.label := fun d => by unfold Alarm.incur; split <;> rfl
  unfold Alarm.after
  split <;> (try split) <;> simp only [hlose, hleaves, hinc]

theorem Alarm.Sound.nothing (h : g.Sound) : ({ g with duty := .nothing } : Alarm).Sound :=
  ⟨fun _ => rfl, fun h => (by cases h), h.phase⟩

theorem Alarm.Sound.away (h : g.Sound) : ({ g with phase := .away } : Alarm).Sound :=
  ⟨h.duty, h.every, fun h => absurd rfl h⟩

theorem Alarm.Sound.lose (h : g.Sound) : g.lose.Sound := by
  unfold Alarm.lose
  split
  · exact h.nothing
  · exact h.nothing
  · exact h

theorem Alarm.Sound.leave (h : g.Sound) : g.leave.Sound := by
  unfold Alarm.leave
  split
  · exact h.nothing
  · exact h

theorem Alarm.Sound.incur (h : g.Sound) (hmay : g.label.mayAlarm = true) {d : Duty} (hd : d ≠ .every) :
    (g.incur d).Sound := by
  unfold Alarm.incur
  split
  · exact h
  refine ⟨fun hn => ?_, fun he => absurd he hd, h.phase⟩
  rw [hmay] at hn
  cases hn

theorem Alarm.Sound.after (h : g.Sound) {c : Call} (hguard : alarms.guard g c) (r : c.Ret) : (g.after c r).Sound := by
  unfold Alarm.after
  split
  · split
    · exact ⟨h.lose.duty, h.lose.every, h.lose.phase⟩
    · exact h.lose
  · exact h.lose
  · split
    · rename_i hd
      refine ⟨fun hn => ?_, fun he => ?_, h.phase⟩
      · rw [h.duty hn] at hd
        cases hd
      · split at he <;> cases he
    · exact h
  · split
    · exact h.incur hguard.1 (by simp)
    · exact h
  · exact h.incur hguard.1 (by simp)
  · split
    · exact h
    · exact h.incur hguard.1 (by simp)
  · split
    · exact h.incur hguard.1 (by simp)
    · exact h
  · exact h.incur hguard.1 (by simp)
  · split
    · exact h.nothing
    · exact h
  · split
    · exact h.nothing
    · exact h
  · split
    · rename_i hp
      exact ⟨h.duty, h.every, fun _ => h.phase (by simp [hp])⟩
    · exact h
  · exact h.nothing
  · exact ⟨h.duty, h.every, fun _ => h.phase (by simp [hguard.2])⟩
  · split
    · exact h.nothing
    · exact h.leave
  · exact h.leave
  · split
    · have hmain : g.label = .main := hguard
      refine ⟨fun hn => ?_, fun _ => hmain, h.phase⟩
      simp only [hmain] at hn
      cases hn
    · exact h
  · split
    · exact h.away
    · exact h
  · split
    · exact h
    · exact h.away
  · exact h

theorem alarm_sound_start (l : Label) : (alarms.start l).Sound := by
  refine ⟨fun _ => rfl, fun h => (by cases h), fun h => ?_⟩
  by_contra hl
  exact h (if_neg hl)

end Sound

section Effects

variable {v v' : View} {x : Tx} {a : x.Val} {g : Alarm} {op : Op}

theorem Tx.Effect.covers (he : x.Effect a v v') {d : Duty} (h : d.Covers v op) : d.Covers v' op := by
  cases d with
  | read id => exact ⟨h.1, he.terminal h.2⟩
  | nothing | row _ | stopped _ | every => exact h

theorem covers_incur {d : Duty} (h : d.Covers v op) : (g.incur d).duty.Covers v op := by
  unfold Alarm.incur
  split
  · rename_i hd
    simp only [hd]
    trivial
  · exact h

theorem Tx.Effect.alarmed (he : x.Effect a v v') (hrecord : v.Recorded) {r : RowView} {s' : OperationState}
    (hr : v.row op = some r) (hm : x.Moves a op r.state s') (hs : r.state.tearing = false) (hs' : s'.tearing = true)
    (hback : ∀ id status exitCode, x = .finishBuild id status exitCode → g.rollback = some id →
      ∀ r, v.row (buildOp id) = some r → r.state.executing = false) :
    (g.after (.tx x) (Except.ok a)).duty.Covers v' op := by
  cases x <;> simp only [Tx.Moves] at hm
  case syncJob id remote =>
    obtain ⟨rfl, ht, -, -⟩ := hm
    rw [Alarm.after_syncJob, if_pos ht]
    refine covers_incur ⟨rfl, ?_⟩
    obtain ⟨j, hj⟩ := Option.isSome_iff_exists.mp (hrecord.job id (by simp [hr]))
    rw [show v' = _ from he, View.mapRow_job, View.mapJob_job, if_pos rfl, hj]
    refine ⟨_, rfl, ?_⟩
    dsimp only
    split
    · assumption
    · exact ht
  case failJob id message =>
    rw [hm.1]
    exact covers_incur rfl
  case finishBuild id status exitCode =>
    obtain ⟨rfl, ⟨-, rfl⟩ | ⟨hexec, -⟩⟩ := hm
    · cases hs'
    rw [Alarm.after_finishBuild, if_neg fun hb => ?_]
    · exact covers_incur rfl
    rw [hback id status exitCode rfl hb r hr] at hexec
    cases hexec
  case beginOperationCleanup op' =>
    obtain ⟨rfl, rfl, -⟩ := hm
    exact covers_incur rfl
  case emergencyStopActiveOperation message =>
    obtain ⟨⟨o, rfl, rfl⟩, -⟩ := hm
    exact covers_incur rfl
  case claimOperationCleanup =>
    rw [hm.2.1] at hs
    cases hs
  all_goals
    (first
      | (obtain ⟨-, -, rfl⟩ := hm; cases hs')
      | (obtain ⟨-, -, -, rfl⟩ := hm; cases hs'))

theorem Tx.Effect.dutiful (he : x.Effect a v v') (hguard : alarms.guard g (.tx x)) (h : g.duty.Covers v op)
    (ht : v'.tears op = true) : (g.after (.tx x) (Except.ok a)).duty.Covers v' op := by
  have hsame := he.covers h
  have hinc : ∀ d, g.duty = .nothing ∨ g.duty = .every → (g.incur d).duty.Covers v' op := by
    rintro d (hd | hd)
    · rw [hd] at h
      exact h.elim
    rw [Alarm.incur, if_pos hd]
    exact hsame
  cases x with
  | job id =>
    rw [Alarm.after_job]
    split
    · rename_i hd
      rw [hd] at h
      obtain ⟨rfl, j, hj, hterm⟩ := h
      obtain ⟨-, -, hread⟩ := he
      rw [hj] at hread
      cases hread
      rw [if_pos hterm]
      rfl
    · exact hsame
  | syncJob id remote =>
    rw [Alarm.after_syncJob]
    split
    · exact hinc _ hguard.2
    · exact hsame
  | failJob id message => exact hinc _ hguard.2
  | finishBuild id status exitCode =>
    rw [Alarm.after_finishBuild]
    split
    · exact hsame
    · exact hinc _ hguard.2
  | beginOperationCleanup op' =>
    cases a with
    | false => exact hsame
    | true =>
      rcases hguard.2 with hd | hd | hd
      · exact hinc _ (.inl hd)
      · exact hinc _ (.inr hd)
      refine covers_incur ?_
      rw [hd] at h
      exact h
  | emergencyStopActiveOperation message =>
    cases a with
    | none => exact hsame
    | some o => exact hinc _ hguard.2
  | operationState op' =>
    rw [Alarm.after_operationState]
    split
    · rename_i hd
      exfalso
      rw [hd.1] at h
      cases h
      obtain ⟨rfl, r, hr, hs⟩ := he
      obtain ⟨r', hr', ht⟩ := tears_iff.mp ht
      rw [hr] at hr'
      cases hr'
      rw [eq_of_beq hs, hd.2] at ht
      cases ht
    · exact hsame
  | completeOperationCleanup op' =>
    rw [Alarm.after_complete]
    split
    · rename_i hd
      exfalso
      rw [hd] at h
      cases h
      obtain ⟨r', hr', ht⟩ := tears_iff.mp ht
      cases a with
      | false =>
        obtain ⟨hn, rfl⟩ := he
        exact hn ⟨r', hr', ht⟩
      | true =>
        obtain ⟨-, rfl⟩ := he
        simp only [View.setRow_row, if_true, Option.map_eq_some_iff] at hr'
        obtain ⟨r, -, rfl⟩ := hr'
        cases ht
    · exact hsame
  | claimOperationCleanup =>
    cases a with
    | none =>
      rw [Alarm.after_claim_none]
      split <;> exact hsame
    | some o => exact hsame
  | _ => exact hsame

end Effects

/-! ## Runs -/

def Duty.lost : Duty → Option Op
  | .row op => some op
  | .read id => some (jobOp id)
  | _ => none

def Duty.left : Duty → Option Op
  | .stopped op => some op
  | _ => none

/-- No wake-up is lost for a row in teardown: the store does not fail between the transaction and the wake-up, an emergency
stop gets through, and a build that is taken back has not been admitted. -/
def wakingCall (w : World) (t : Nat) (c : Call) (r : c.Ret) : Bool :=
  !w.st.up || (alarms.ghosts w t).all fun g =>
    match c, r with
    | .tx (.finishBuild id _ _), Except.ok _ =>
      !(g.rollback == some id && (w.st.db.view.row (buildOp id)).any fun r => r.state.executing)
    | .tx _, Except.error _ => g.duty.lost.all fun op => !w.st.db.view.tears op
    | .draining, _ | .unlock, _ => g.duty.left.all fun op => !w.st.db.view.tears op
    | _, _ => true

def waking : Rules := { Conc.Rules.all with call := fun w t c r => wakingCall w t c r = true }

/-- What needs a worker of the coordinator: a row in teardown, and the record that there is one. -/
def NeedsWorker (s : Sys) : Option Op → Prop
  | none => s.up = true ∧ s.cleanupRunning = true
  | some op => s.up = true ∧ s.db.view.tears op = true

def Alarm.Tends (g : Alarm) (s : Sys) : Option Op → Prop
  | none => g.phase ≠ .away
  | some op => g.duty.Covers s.db.view op ∨ g.phase = .working ∨ (g.phase = .idle ∧ s.cleanupPending = true)

section Runs

variable {w : World} {t : Nat} {g : Alarm} {c : Call} {ch : Choice} {s : Sys} {sp : Option Label} {i : Option Op} {op : Op}
  {x : Tx} {r : c.Ret} {a : x.Val} {db : DB}

theorem NeedsWorker.up (h : NeedsWorker s i) : s.up = true := by
  cases i <;> exact h.1

/-! What the condition says of the calls of a goroutine in a process that runs. -/

section Condition

variable (hup : w.st.up = true) (hg : alarms.ghosts w t = some g)

include hup hg

theorem waking_error {x : Tx} {e : Err} (hK : wakingCall w t (.tx x) (Except.error e) = true)
    (hd : g.duty.lost = some op) : w.st.db.view.tears op = false := by
  cases x <;> simpa [wakingCall, hup, hg, hd] using hK

theorem waking_takeBack {id : String} {status : BuildStatus} {exitCode : Int} {u : Unit}
    (hK : wakingCall w t (.tx (.finishBuild id status exitCode)) (Except.ok u) = true) (hb : g.rollback = some id)
    {r : RowView} (hr : w.st.db.view.row (buildOp id) = some r) : r.state.executing = false := by
  simpa [wakingCall, hup, hg, hb, hr] using hK

theorem waking_leave {r : c.Ret} (hc : c = .draining ∨ c = .unlock) (hK : wakingCall w t c r = true)
    (hd : g.duty.left = some op) : w.st.db.view.tears op = false := by
  rcases hc with rfl | rfl <;> simpa [wakingCall, hup, hg, hd] using hK

end Condition

theorem tends_error {e : Err} (hg : alarms.ghosts w t = some g)
    (hK : wakingCall w t (.tx x) (Except.error e) = true) (hn : NeedsWorker w.st i) (h : g.Tends w.st i) :
    (g.after (.tx x) (Except.error e)).Tends w.st i := by
  have hafter : (g.after (.tx x) (Except.error e)).phase = g.phase ∧
      (g.after (.tx x) (Except.error e)).duty = g.lose.duty := by
    have hlose : g.lose.phase = g.phase := by unfold Alarm.lose; split <;> rfl
    refine ⟨?_, ?_⟩
    · rw [← hlose]
      cases x <;> first | rfl | (rw [Alarm.after_audit]; split <;> rfl)
    · cases x <;> first | rfl | (rw [Alarm.after_audit]; split <;> rfl)
  cases i with
  | none =>
    change _ ≠ Phase.away
    rwa [hafter.1]
  | some op =>
    rcases h with hd | hp
    · refine .inl ?_
      rw [hafter.2]
      have hlost : ∀ op', g.duty.lost = some op' → op ≠ op' := by
        rintro op' hl rfl
        have := waking_error hn.up hg hK hl
        rw [hn.2] at this
        cases this
      cases hduty : g.duty with
      | row op' =>
        rw [hduty] at hd
        exact absurd hd (hlost op' (by rw [hduty]; rfl))
      | read id =>
        rw [hduty] at hd
        exact absurd hd.1 (hlost (jobOp id) (by rw [hduty]; rfl))
      | nothing | stopped _ | every =>
        simp only [Alarm.lose, hduty]
        rwa [hduty] at hd
    refine .inr ?_
    rwa [hafter.1]

theorem tends_leave (hg : alarms.ghosts w t = some g) (hc : c = .draining ∨ c = .unlock)
    (hK : wakingCall w t c r = true) (hn : NeedsWorker w.st i) (h : g.Tends w.st i) : g.leave.Tends w.st i := by
  have hphase : g.leave.phase = g.phase := by unfold Alarm.leave; split <;> rfl
  cases i with
  | none =>
    change _ ≠ Phase.away
    rwa [hphase]
  | some op =>
    rcases h with hd | hp
    · refine .inl ?_
      cases hduty : g.duty with
      | stopped op' =>
        rw [hduty] at hd
        have hleft : w.st.db.view.tears op' = false := waking_leave hn.up hg hc hK (by rw [hduty]; rfl)
        rw [← (show op = op' from hd), hn.2] at hleft
        cases hleft
      | nothing | row _ | read _ | every =>
        simp only [Alarm.leave, hduty]
        rwa [hduty] at hd
    refine .inr ?_
    rwa [hphase]

theorem tends_other (hx : ∀ x, c ≠ .tx x) (hc : c.steersCleanup = false) (hg : alarms.ghosts w t = some g)
    (hexec : exec t ch w.st c = some (r, s, sp)) (hK : wakingCall w t c r = true) (hn : NeedsWorker w.st i)
    (h : g.Tends w.st i) : (g.after c r).Tends w.st i := by
  have hup := hn.up
  simp only [Sys.up, Bool.and_eq_true, Bool.not_eq_true'] at hup
  obtain ⟨⟨⟨-, hdra⟩, -⟩, hstop⟩ := hup
  unfold Alarm.after
  split
  all_goals first | exact absurd rfl (hx _) | cases hc | skip
  · -- the dispatcher does not drain
    simp only [exec, Option.some.injEq, Prod.mk.injEq] at hexec
    rw [if_neg (by rw [← hexec.1, hdra]; simp)]
    exact tends_leave hg (.inl rfl) hK hn h
  · exact tends_leave hg (.inr rfl) hK hn h
  · -- the context of the process has not ended
    simp only [exec, execCtxErr] at hexec
    split at hexec <;> simp_all
  · simp only [exec, execWait] at hexec
    split at hexec <;> simp_all
  · exact h

theorem after_phase (he : x.Effect a w.st.db.view db.view) :
    (g.after (.tx x) (Except.ok a)).phase = g.phase ∨
      (g.phase = .working ∧ (g.after (.tx x) (Except.ok a)).phase = .idle ∧ ∀ op, db.view.tears op = false) := by
  have hinc : ∀ d, (g.incur d).phase = g.phase := fun d => by unfold Alarm.incur; split <;> rfl
  cases x with
  | claimOperationCleanup =>
    cases a with
    | none =>
      obtain ⟨hv, hnone⟩ := he
      rw [Alarm.after_claim_none]
      split
      · refine .inr ⟨‹_›, rfl, fun op => ?_⟩
        by_contra ht
        rw [Bool.not_eq_false, hv] at ht
        obtain ⟨r, hr, hs⟩ := tears_iff.mp ht
        rw [hnone op r hr] at hs
        cases hs
      · exact .inl rfl
    | some o => exact .inl rfl
  | job id =>
    rw [Alarm.after_job]
    split <;> exact .inl rfl
  | syncJob id remote =>
    rw [Alarm.after_syncJob]
    split
    · exact .inl (hinc _)
    · exact .inl rfl
  | failJob id message => exact .inl (hinc _)
  | finishBuild id status exitCode =>
    rw [Alarm.after_finishBuild]
    split
    · exact .inl rfl
    · exact .inl (hinc _)
  | beginOperationCleanup op' =>
    cases a with
    | true => exact .inl (hinc _)
    | false => exact .inl rfl
  | emergencyStopActiveOperation message =>
    cases a with
    | none => exact .inl rfl
    | some o => exact .inl (hinc _)
  | operationState op' =>
    rw [Alarm.after_operationState]
    split <;> exact .inl rfl
  | completeOperationCleanup op' =>
    rw [Alarm.after_complete]
    split <;> exact .inl rfl
  | _ => exact .inl rfl

theorem tends_tx (he : x.Effect a w.st.db.view db.view) (hguard : alarms.guard g (.tx x))
    (hn : NeedsWorker { w.st with db := db } i) (h : g.Tends w.st i) :
    (g.after (.tx x) (Except.ok a)).Tends { w.st with db := db } i := by
  cases i with
  | none =>
    change _ ≠ Phase.away
    rcases after_phase he with hphase | ⟨-, hphase, -⟩
    · rw [hphase]
      exact h
    · simp [hphase]
  | some op =>
    have ht : db.view.tears op = true := hn.2
    rcases h with hd | hp
    · exact .inl (he.dutiful hguard hd ht)
    rcases after_phase he with hphase | ⟨-, -, hnone⟩
    · refine .inr ?_
      rw [hphase]
      exact hp
    rw [hnone op] at ht
    cases ht

theorem Tx.Effect.tends (he : x.Effect a w.st.db.view db.view)
    (h : g.Tends w.st i) : g.Tends { w.st with db := db } i := by
  cases i with
  | none => exact h
  | some op => exact h.imp_left he.covers

theorem tends_working (hp : g.phase = .working) : g.Tends s i := by
  cases i with
  | none =>
    change _ ≠ Phase.away
    simp [hp]
  | some op => exact .inr (.inl hp)

theorem not_tends (hduty : g.duty = .nothing) (hphase : g.phase = .away) : ¬ g.Tends s i := by
  intro h
  cases i with
  | none => exact h hphase
  | some op =>
    rcases h with h | h | h
    · rw [hduty] at h
      exact h
    · rw [hphase] at h
      cases h
    rw [hphase] at h
    cases h.1

theorem tends_pending (hpending : s.cleanupPending = true) (hp : g.phase ≠ .away) : g.Tends s i := by
  cases i with
  | none => exact hp
  | some op =>
    cases hphase : g.phase with
    | away => exact absurd hphase hp
    | working => exact tends_working hphase
    | idle => exact .inr (.inr ⟨hphase, hpending⟩)

/-- The duty is passed on: to the goroutine itself, to the one that it starts, or it was somebody else's before. -/
def Passes (w : World) (g g' : Alarm) (s : Sys) (sp : Option Label) (i : Option Op) : Prop :=
  g'.Tends s i ∨ (∃ l, sp = some l ∧ (alarms.start l).Tends s i) ∨
    ∃ j, NeedsWorker w.st j ∧ ¬ g.Tends w.st j ∧ ∀ g1 : Alarm, g1.Tends w.st j → g1.Tends s i

theorem passes_same {g' : Alarm} (hn : NeedsWorker w.st i) (hself : g.Tends w.st i → g'.Tends s i)
    (hother : ∀ g1 : Alarm, g1.Tends w.st i → g1.Tends s i) : Passes w g g' s sp i := by
  by_cases h : g.Tends w.st i
  · exact .inl (hself h)
  · exact .inr (.inr ⟨i, hn, h, hother⟩)

theorem passes_tx {r : Except Err x.Val} (hkept : w.st.db.view.Kept) (hg : alarms.ghosts w t = some g)
    (hguard : alarms.guard g (.tx x)) (hexec : exec t ch w.st (.tx x) = some (r, s, sp))
    (hK : wakingCall w t (.tx x) r = true) (hn : NeedsWorker s i) : Passes w g (g.after (.tx x) r) s sp i := by
  obtain ⟨rfl, ⟨e, rfl, rfl⟩ | ⟨a, db, rfl, rfl, he⟩⟩ := exec_tx hexec
  · exact passes_same hn (tends_error hg hK hn) fun _ h => h
  cases i with
  | none => exact passes_same hn (tends_tx he hguard hn) fun _ h => he.tends h
  | some op =>
    rcases he.tears hn.2 with hbefore | ⟨r, s', hr, hm, hs, hs'⟩
    · exact passes_same ⟨hn.1, hbefore⟩ (tends_tx he hguard hn) fun _ h => he.tends h
    refine .inl (.inl (he.alarmed hkept.recorded hr hm hs hs' ?_))
    rintro id status exitCode rfl hback r' hr'
    exact waking_takeBack hn.up hg hK hback hr'

theorem passes_other (hx : ∀ x, c ≠ .tx x) (hc : c.steersCleanup = false) (hg : alarms.ghosts w t = some g)
    (hexec : exec t ch w.st c = some (r, s, sp)) (hK : wakingCall w t c r = true) (hn : NeedsWorker s i) :
    Passes w g (g.after c r) s sp i := by
  obtain ⟨hup, hrunning, hpending⟩ := (exec_framed hexec).cleanup hc
  have hdb := exec_db hx hexec
  have hbefore : NeedsWorker w.st i := by
    cases i with
    | none => exact ⟨hup hn.1, hrunning ▸ hn.2⟩
    | some op => exact ⟨hup hn.1, hdb ▸ hn.2⟩
  have hsame : ∀ g1 : Alarm, g1.Tends w.st i → g1.Tends s i := by
    intro g1 h
    cases i with
    | none => exact h
    | some op =>
      change g1.duty.Covers s.db.view op ∨ g1.phase = .working ∨ (g1.phase = .idle ∧ s.cleanupPending = true)
      rwa [hdb, hpending]
  exact passes_same hbefore (fun h => hsame _ (tends_other hx hc hg hexec hK hbefore h)) hsame

theorem passes_advance (hexec : exec t ch w.st .coordinatorAdvance = some ((), s, sp)) (hn : NeedsWorker s i) :
    Passes w g (g.after .coordinatorAdvance ()) s sp i := by
  simp only [exec, coordinatorAdvance, Option.some.injEq, Prod.mk.injEq, true_and] at hexec
  obtain ⟨hs, hsp⟩ := hexec
  by_cases hdra : w.st.cleanupDraining = true
  · rw [if_pos hdra] at hs
    have hup := hn.up
    rw [← hs] at hup
    simp [Sys.up, hdra] at hup
  rw [if_neg hdra] at hs hsp
  by_cases hrunning : w.st.cleanupRunning = true
  · rw [if_pos hrunning] at hs
    have hpending : s.cleanupPending = true := by rw [← hs]
    have hup : w.st.up = true := by
      have hup := hn.up
      rw [← hs] at hup
      exact hup
    by_cases hphase : g.phase = .away
    · exact .inr (.inr ⟨none, ⟨hup, hrunning⟩, fun h => h hphase, fun _ h => tends_pending hpending h⟩)
    · exact .inl (tends_pending hpending hphase)
  rw [if_neg hrunning] at hsp
  exact .inr (.inl ⟨.coordinator, hsp.symm, tends_working rfl⟩)

theorem passes_end {r : Bool} (hguard : alarms.guard g .coordinatorEnd)
    (hexec : exec t ch w.st .coordinatorEnd = some (r, s, sp)) (hn : NeedsWorker s i) :
    Passes w g (g.after .coordinatorEnd r) s sp i := by
  obtain ⟨hduty, hphase⟩ := hguard
  simp only [exec] at hexec
  split at hexec
  · cases hexec
    exact .inl (tends_working rfl)
  rename_i hpending
  cases hexec
  cases i with
  | none => cases hn.2
  | some op =>
    refine .inr (.inr ⟨some op, hn, ?_, fun _ h => h⟩)
    rintro (h | h | h)
    · rw [hduty] at h
      exact h
    · rw [hphase] at h
      cases h
    · exact hpending h.2

theorem passes_finish (hguard : alarms.guard g .coordinatorFinish)
    (hexec : exec t ch w.st .coordinatorFinish = some ((), s, sp)) (hn : NeedsWorker s i) :
    Passes w g (g.after .coordinatorFinish ()) s sp i := by
  obtain ⟨hduty, hphase⟩ := hguard
  cases hexec
  cases i with
  | none => cases hn.2
  | some op => exact .inr (.inr ⟨some op, hn, not_tends hduty hphase, fun _ h => h⟩)

theorem passes_boot {r : Bool} (hexec : exec t ch w.st .boot = some (r, s, sp)) (hn : NeedsWorker s i) :
    Passes w g (g.after .boot r) s sp i := by
  simp only [exec] at hexec
  split at hexec
  · cases hexec
    exact passes_same hn (fun h => h) fun _ h => h
  cases hexec
  cases i with
  | none => cases hn.2
  | some op => exact .inl (.inl trivial)

theorem passes_call (hkept : w.st.db.view.Kept) (hg : alarms.ghosts w t = some g) (hguard : alarms.guard g c)
    (hexec : exec t ch w.st c = some (r, s, sp)) (hK : wakingCall w t c r = true) (hn : NeedsWorker s i) :
    Passes w g (g.after c r) s sp i := by
  cases hc : c.steersCleanup with
  | true =>
    cases c with
    | coordinatorAdvance => exact passes_advance hexec hn
    | coordinatorBegin => exact .inl (tends_working hguard)
    | coordinatorEnd => exact passes_end hguard hexec hn
    | coordinatorFinish => exact passes_finish hguard hexec hn
    | boot => exact passes_boot hexec hn
    | _ => cases hc
  | false =>
    by_cases hx : ∃ x, c = .tx x
    · obtain ⟨x, rfl⟩ := hx
      exact passes_tx hkept hg hguard hexec hK hn
    · exact passes_other (fun x h => hx ⟨x, h⟩) hc hg hexec hK hn

theorem alarms_local (cfg : Config) (now : Time) :
    Local (machine cfg) waking alarms (Sys.fresh now) (fun w => w.st.db.view.Kept) (fun _ => True) (fun g _ => g.Sound) where
  init := trivial
  start _ l _ _ := alarm_sound_start l
  call _ _ _ _ _ r _ _ _ _ hsound hguard _ _ := ⟨trivial, trivial, hsound.after hguard r, fun _ h => h⟩
  spawn _ _ _ _ _ _ _ l _ _ := alarm_sound_start l
  jump _ _ l _ _ _ := alarm_sound_start l
  env _ _ _ _ _ _ _ := ⟨trivial, fun _ h => h⟩
  crash _ _ _ _ := trivial

theorem duty_of_exit {o : Option Label} (hsound : g.Sound) (hexit : alarms.exit g o) : g.duty = .nothing := by
  rcases hexit.1 with hd | ⟨hd, hmain⟩
  · exact hd
  · exact absurd (hsound.every hd) hmain

theorem alarms_cover (cfg : Config) (now : Time) :
    Cover (machine cfg) waking alarms (Sys.fresh now) (fun w => w.st.db.view.Kept) (fun _ => True) (fun g _ => g.Sound)
      NeedsWorker Alarm.Tends where
  toLocal := alarms_local cfg now
  idle i hn := by cases hn.up
  duty w t g c ch r s sp i hkept _ _ hg hguard hexec hK hn := by
    rcases passes_call hkept hg hguard hexec hK hn with h | h | ⟨j, hj, hno, hkeep⟩
    · exact .inl h
    · exact .inr (.inl h)
    · exact .inr (.inr ⟨j, hj, hno, fun g' _ h => hkeep g' h⟩)
  leave s g i _ hsound hexit _ h := by
    exact not_tends (duty_of_exit hsound hexit) (hexit.2.resolve_right (by simp)) h
  goOn s g l i _ hsound hexit _ h := by
    rcases hexit.2 with hphase | hl
    · exact absurd h (not_tends (duty_of_exit hsound hexit) hphase)
    cases hl
    exact tends_working rfl
  around w e s i _ _ he _ hn := by
    obtain ⟨hup, hrunning, hpending⟩ := env_cleanup he
    have hdb := env_db he
    cases i with
    | none =>
      refine ⟨⟨hup ▸ hn.1, hrunning ▸ hn.2⟩, fun _ _ h => h⟩
    | some op =>
      refine ⟨⟨hup ▸ hn.1, hdb ▸ hn.2⟩, fun g' _ h => ?_⟩
      change g'.duty.Covers s.db.view op ∨ g'.phase = .working ∨ (g'.phase = .idle ∧ s.cleanupPending = true)
      rwa [hdb, hpending]
  gone w i _ _ _ hn := by cases hn.up

end Runs

/-! ## The theorem -/

/-- Whether a goroutine at the label, with `p` still to do, is outside the start of the process, all handlers and passes and
the emergency stops of the capacity controller; such a stop is over when its lock is released. -/
def Label.idles (l : Label) (p : Srv (Option Label)) : Bool :=
  match l with
  | .main | .request _ | .awaitActive _ _ | .poll _ _ _ | .reconcilerRun => false
  | .dispatcher =>
    match p with
    | .call c _ => c.betweenRuns
    | .ret _ => true
  | .capacityRun _ | .maintain _ =>
    match p with
    | .call c _ => c.measures
    | .ret _ => true
  | _ => true

/-- The process has started, and no call of a handler, of `Dispatcher.RunOnce`, of `Reconciler.RunOnce` or of `Emergency` is in
flight. -/
def Idling (σ : Conf) : Prop := ∀ t l, σ.procs t = some l → l.idles (σ.code t) = true

def idling (σ : Conf) : Bool := (List.range σ.next).all fun t => (σ.procs t).all fun l => l.idles (σ.code t)

theorem idling_of_test {σ : Conf} (h : idling σ = true) : Idling σ := by
  intro t l hl
  have hall := List.all_eq_true.mp h t (List.mem_range.mpr (World.lt_next hl))
  rwa [hl] at hall

theorem duty_of_watched {c : Call} (hguard : alarms.guard g c) (hc : c.watched = true) :
    g.duty = .nothing ∨ g.duty = .every := by
  simp only [alarms] at hguard
  split at hguard
  all_goals first | exact hguard hc | cases hc

theorem duty_of_idles {p : Srv (Option Label)} (hsound : g.Sound) (hsafe : alarms.Safe g p alarms.exit)
    (hl : g.label.idles p = true) : g.duty = .nothing := by
  have hcall : ∀ l, l ≠ .main → g.label = l → (∀ c k, p = .call c k → c.watched = true) → g.duty = .nothing := by
    rintro l hmain rfl hwatc
    cases p with
    | ret o => exact duty_of_exit hsound hsafe
    | call c k =>
      exact (duty_of_watched hsafe.1 (hwatc c k rfl)).resolve_right fun hd => hmain (hsound.every hd)
  cases hlabel : g.label with
  | main | request _ | awaitActive _ _ | poll _ _ _ | reconcilerRun =>
    rw [hlabel] at hl
    cases hl
  | coordinator | reconcilerWait | capacityWait | shutdown => exact hsound.duty (by rw [hlabel]; rfl)
  | dispatcher =>
    refine hcall _ (by simp) hlabel ?_
    rintro c k rfl
    rw [hlabel] at hl
    have hc : c.betweenRuns = true := hl
    simp [Call.watched, hc]
  | capacityRun _ | maintain _ =>
    refine hcall _ (by simp) hlabel ?_
    rintro c k rfl
    rw [hlabel] at hl
    have hc : c.measures = true := hl
    simp [Call.watched, hc]

def HasWorker (σ : Conf) : Prop := ∃ t, σ.procs t = some .coordinator ∧ σ.code t ≠ .ret none

/-- **No stranded teardown**, in every configuration that the server reaches without losing a wake-up for a row in teardown:
once no call is in flight, such a row has a worker. -/
theorem teardown_tended {cfg : Config} {σ : Conf} (h : Reaches cfg waking σ) (hup : σ.st.up = true) (hidle : Idling σ)
    {op : Op} {q : QueueRow} (hq : σ.st.db.queue.table.lookup op = some q)
    (hs : q.state = .terminalizing ∨ q.state = .cleaning) : HasWorker σ := by
  obtain ⟨now, hr⟩ := h
  obtain ⟨hfollows, hholds, hcovered⟩ :=
    run_invariant (alarms_body cfg) (fun _ h => kept_of_reach h) (alarms_cover cfg now).keeps hr
  have htears : σ.st.db.view.tears op = true := by
    refine tears_iff.mpr ⟨q.view, by simp [DB.view, hq], ?_⟩
    change q.state.tearing = true
    rcases hs with hs | hs <;> rw [hs] <;> rfl
  obtain ⟨t, g, hg, htends⟩ := hcovered (some op) ⟨hup, htears⟩
  have hlive : (σ.procs t).isSome = true := by rw [← hfollows.fits t, hg]; rfl
  obtain ⟨l, hlabel⟩ := Option.isSome_iff_exists.mp hlive
  obtain ⟨g', hg', hsafe⟩ := (hlabel ▸ hfollows t).eq_some
  rw [hg] at hg'
  cases hg'
  have hl : g.label = l := Ghost.part_eq_start (π := Alarm.label) after_label hr hg hlabel
  have hsound := hholds.2 t g hg
  have hphase : g.phase ≠ .away := by
    intro hphase
    have hduty := duty_of_idles hsound hsafe (hl ▸ hidle t l hlabel)
    exact not_tends hduty hphase htends
  refine ⟨t, ?_, ?_⟩
  · rw [hlabel, ← hl, hsound.phase hphase]
  intro hcode
  rw [hcode] at hsafe
  exact hphase (hsafe.2.resolve_right (by simp))

/-- `CancelBuild` for the build that runs, handled by goroutine 6, until the build is cancelled and nobody has been woken. -/
def cancelsUnwoken : List Event := building ++ asks 6 (.cancelBuild "bld1") ++ goes 6 1 ++ authorized 6 :: goes 6 2

def buildState (σ : Conf) : Option OperationState := (σ.st.db.queue.table.lookup (buildOp "bld1")).map fun q => q.state

/-- The cancellation goes through, and the coordinator's worker is about to begin. -/
theorem teardown_tended_cancelled : ∃ σ, Reaches sampleConfig waking σ ∧ Idling σ ∧ buildState σ = some .terminalizing ∧
    HasWorker σ := by
  obtain ⟨σ, hr, hp⟩ := reaches_of_stepsIf sampleConfig (K := waking) (cancelsUnwoken ++ goes 6 6) (p := fun σ =>
    idling σ && σ.st.up && buildState σ == some .terminalizing) (q := wakingCall)
    (fun _ _ => trivial) (fun _ _ => trivial) (fun _ _ _ _ h => h) (by decide +kernel)
  simp only [Bool.and_eq_true, beq_iff_eq] at hp
  obtain ⟨⟨hidle, hup⟩, hstate⟩ := hp
  obtain ⟨q, hq, hs⟩ := Option.map_eq_some_iff.mp hstate
  exact ⟨σ, hr, idling_of_test hidle, hstate, teardown_tended hr hup (idling_of_test hidle) hq (.inl hs)⟩

/-- The audit record of the cancellation fails, the request ends with its error, and a pass of the reconciler finds nothing to
do: the row is in teardown, and the coordinator has no worker. -/
theorem teardown_stranded : ∃ σ, Reaches sampleConfig Conc.Rules.all σ ∧ σ.st.up = true ∧ Idling σ ∧
    buildState σ = some .terminalizing ∧ ¬ HasWorker σ := by
  obtain ⟨σ, hr, hp⟩ := reaches_of_steps sampleConfig (cancelsUnwoken ++ .run 6 (.fail ⟨"disk I/O error", [], false⟩) ::
    goes 6 2 ++ goes 3 6 ++ .run 3 (.managed []) :: goes 3 1) (p := fun σ => idling σ && σ.st.up &&
    buildState σ == some .terminalizing && (List.range σ.next).all fun t => σ.procs t ≠ some .coordinator) (by decide +kernel)
  simp only [Bool.and_eq_true, beq_iff_eq] at hp
  obtain ⟨⟨⟨hidle, hup⟩, hstate⟩, hall⟩ := hp
  refine ⟨σ, hr, hup, idling_of_test hidle, hstate, ?_⟩
  rintro ⟨t, ht, -⟩
  have hnone := List.all_eq_true.mp hall t (List.mem_range.mpr (World.lt_next ht))
  simp [ht] at hnone

end Autback
