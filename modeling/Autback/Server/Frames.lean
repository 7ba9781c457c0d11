import Autback.Conc.Ghost
import Autback.Server.System

/-!
# What code leaves alone

For a ghost `γ` and a set `A` of its values, the lemmas of this module say that a function of the server does not leave `A`
if its calls do not. Every function has one, so that the proof of an invariant walks only through the code that matters
to it. A quiet call (`Call.quiet`) reads, waits or keeps records that no invariant depends on; the audit of cancellations is
not one of them (`Protocol/Cancellation.lean`).
-/

namespace Autback

open Conc Ghost

def Tx.quiet : Tx → Bool
  | .renewOperationLease _ | .job _ | .build _ | .operationState _ | .operation _ | .workerBusy | .scheduledJobs
  | .stalePreparingJobs _ | .staleBuilds _ | .listJobs _ _ _ | .resourceBaseline _ | .saveResourceBaseline _ _ => true
  | .audit _ _ action _ _ => action != "job.cancel"
  | _ => false

def Call.quiet : Call → Bool
  | .tx x => x.quiet
  | .status _ | .managedJobs | .logs _ | .list _ | .resolveSecret _ _ | .writeSecret _ _ | .publishSecrets _
  | .removeSecrets _ | .authenticate | .authorizeProject _ _ | .snapshot | .lastPressure | .setLastPressure _ | .now
  | .ctxErr _ | .wait _ | .nextTrigger | .wakeup | .draining => true
  | _ => false

/-- The calls of `Lifecycle.prepare` and, apart from the removal of resources, of `Lifecycle.cleanup`: they read, wait, and
keep the baseline, the secrets and their audit. -/
def Call.lifecycle : Call → Bool
  | .tx (.job _) | .tx (.resourceBaseline _) | .tx (.saveResourceBaseline _ _) | .list _
  | .resolveSecret _ _ | .writeSecret _ _ | .publishSecrets _ | .removeSecrets _ | .wait _ => true
  | .tx (.audit _ _ action _ _) => action != "job.cancel"
  | _ => false

/-- The calls of `ResourceManager.cleanup` apart from the removals. -/
def Call.inspects : Call → Bool
  | .tx (.resourceBaseline _) | .list _ | .wait _ => true
  | _ => false

theorem Call.lifecycle_of_inspects {c : Call} (h : c.inspects = true) : c.lifecycle = true := by
  cases c with
  | tx x => cases x <;> first | rfl | cases h
  | _ => first | rfl | cases h

theorem Call.quiet_of_lifecycle {c : Call} (h : c.lifecycle = true) : c.quiet = true := by
  cases c with
  | tx x => cases x <;> first | rfl | exact h
  | _ => first | rfl | cases h

section Frames

variable {G : Type} {γ : Ghost Call Call.Ret Label G} {A : G → Prop}

/-! ## Preparation and teardown -/

section Resources

theorem within_removeEach {owner : Op} {kind : ResourceKind} :
    ∀ {ids : List String}, (∀ id ∈ ids, γ.Still A (.removeResource owner kind id)) →
      γ.Within A (ResourceManager.removeEach owner kind ids)
  | [], _ => within_pure _
  | id :: ids, hrem => by
    refine within_bind (within_lift (hrem id List.mem_cons_self)) fun result => ?_
    refine within_bind (within_removeEach fun id' hid' => hrem id' (List.mem_cons_of_mem _ hid')) fun errs => ?_
    split <;> exact within_pure _

theorem within_removeOwned {owner : Op} {owned : ResourceSet}
    (hrem : ∀ kind, ∀ id ∈ owned.ofKind kind, γ.Still A (.removeResource owner kind id)) :
    γ.Within A (ResourceManager.removeOwned owner owned) := by
  refine within_bind (within_removeEach (hrem .service)) fun services => ?_
  refine within_bind (within_removeEach (hrem .container)) fun containers => ?_
  refine within_bind (within_removeEach (hrem .network)) fun networks => ?_
  refine within_bind (within_removeEach (hrem .volume)) fun volumes => ?_
  exact within_pure _

theorem within_joined (errs : List Err) : γ.Within A (ResourceManager.joined errs) := by
  rw [ResourceManager.joined]
  split
  · exact within_ok _
  · exact within_throw _

variable (I : ∀ c, Call.inspects c = true → γ.Still A c)

include I

theorem within_inventory : γ.Within A ResourceManager.inventory := by
  refine within_try (within_mapError (within_lift (I _ rfl))) fun services => ?_
  refine within_try (within_mapError (within_lift (I _ rfl))) fun containers => ?_
  refine within_try (within_mapError (within_lift (I _ rfl))) fun networks => ?_
  refine within_try (within_mapError (within_lift (I _ rfl))) fun volumes => ?_
  exact within_ok _

theorem within_verify (baseline : ResourceSet) : γ.Within A (ResourceManager.verify baseline) := by
  refine within_bind (within_inventory I) fun result => ?_
  split <;> exact within_pure _

theorem within_grace (scope : Scope) (kind : OperationKind) : γ.Within A (ResourceManager.grace scope kind) := by
  cases kind with
  | build => exact within_ok _
  | job =>
    refine within_try (within_ofProg (within_lift (I _ rfl))) fun elapsed => ?_
    split
    · exact within_ok _
    · exact within_throw _

theorem within_cleanupWith {op : Op} {baseline : ResourceSet}
    (hrem : ∀ kind id, id ∉ baseline.ofKind kind → γ.Still A (.removeResource op kind id)) (scope : Scope) :
    γ.Within A (ResourceManager.cleanupWith scope op baseline) := by
  refine within_try (within_grace I scope op.kind) fun _ => ?_
  refine within_try (within_mapError (within_inventory I)) fun current => ?_
  refine within_try (within_ofProg (within_removeOwned fun kind id hid => hrem kind id
      (mem_difference.mp hid).2.1)) fun removal => ?_
  refine within_try (within_ofProg (within_verify I _)) fun final => ?_
  exact within_joined _

theorem within_cleanupResources {op : Op} (hrem : ∀ kind id, γ.Still A (.removeResource op kind id)) (scope : Scope) :
    γ.Within A (ResourceManager.cleanup scope op) := by
  refine within_try (within_attempt (within_lift (I _ rfl))) fun result => ?_
  split
  · exact within_cleanupWith I (fun kind id _ => hrem kind id) scope
  split
  · exact within_ok _
  · exact within_throw _

end Resources

section Lifecycle

variable (F : ∀ c, Call.lifecycle c = true → γ.Still A c)

include F

theorem within_prepareResources (op : Op) : γ.Within A (ResourceManager.prepare op) := by
  refine within_try (within_attempt (within_lift (F _ rfl))) fun result => ?_
  split
  · exact within_ok _
  split
  · refine within_try (within_mapError (within_inventory fun c h => F c (Call.lifecycle_of_inspects h))) fun resources => ?_
    exact within_mapError (within_lift (F _ rfl))
  · exact within_throw _

theorem within_materialize (job : Job) : ∀ bindings, γ.Within A (SecretManager.materialize job bindings)
  | [] => within_ok _
  | binding :: bindings => by
    refine within_try (within_lift (F _ rfl)) fun _ => ?_
    refine within_try (within_mapError (within_lift (F _ rfl))) fun _ => ?_
    refine within_try (within_mapError (within_lift (F _ rfl))) fun _ => ?_
    exact within_materialize job bindings

theorem within_prepareSecrets (op : Op) : γ.Within A (SecretManager.prepare op) := by
  rw [SecretManager.prepare]
  split
  · exact within_ok _
  refine within_try (within_lift (F _ rfl)) fun job => ?_
  split
  · refine within_try (within_materialize F job _) fun _ => ?_
    refine within_try (within_mapError (within_lift (F _ rfl))) fun _ => ?_
    exact within_ok _
  · exact within_ok _

theorem within_prepare (op : Op) : γ.Within A (Lifecycle.prepare op) :=
  within_try (within_prepareResources F op) fun _ => within_prepareSecrets F op

theorem within_cleanupSecrets (op : Op) : γ.Within A (SecretManager.cleanup op) := by
  rw [SecretManager.cleanup]
  split
  · exact within_ok _
  · exact within_try (within_lift (F _ rfl)) fun _ => within_ok _

theorem within_cleanup {op : Op} (hrem : ∀ kind id, γ.Still A (.removeResource op kind id)) (scope : Scope) :
    γ.Within A (Lifecycle.cleanup scope op) := by
  refine within_try (within_attempt (within_cleanupSecrets F op)) fun secrets => ?_
  refine within_try (within_attempt (within_cleanupResources (fun c h => F c
      (Call.lifecycle_of_inspects h)) hrem scope)) fun resources => ?_
  exact within_ofExcept _

end Lifecycle

section Cleanup

variable (F : ∀ c, Call.quiet c = true → γ.Still A c)

include F

theorem within_quiet (c : Call) (h : c.quiet = true) : γ.Within A (perform c) := within_lift (F c h)

theorem within_isContextCancellation (e : Err) (scope : Scope) : γ.Within A (isContextCancellation e scope) :=
  within_bind (within_quiet F _ rfl) fun _ => within_pure _

theorem within_advance (hco : γ.Still A .coordinatorAdvance) (hdi : γ.Still A .dispatcherAdvance) :
    γ.Within A advance := by
  refine within_bind (within_quiet F _ rfl) fun draining => ?_
  cases draining with
  | true => exact within_pure _
  | false => exact within_bind (within_lift hco) fun _ => within_lift hdi

theorem quiet_tx (x : Tx) (hx : x.quiet = true) : γ.Still A (.tx x) := F (.tx x) hx

omit F in
theorem within_request (T : ∀ x, Tx.quiet x = true → γ.Still A (.tx x)) {op : Op}
    (hbegun : γ.Still A (.tx (.beginOperationCleanup op))) (hco : γ.Still A .coordinatorAdvance) :
    γ.Within A (Coordinator.request op) := by
  refine within_try ?_ fun _ => within_ofProg (within_lift hco)
  refine within_try (within_lift hbegun) fun done => ?_
  split
  · exact within_ok _
  refine within_try (within_lift (T _ rfl)) fun state => ?_
  split
  · exact within_ok _
  · exact within_throw _

theorem within_complete {op : Op} (hcomp : γ.Still A (.tx (.completeOperationCleanup op))) :
    γ.Within A (Store.completeOperationCleanup op) := by
  refine within_try (within_lift hcomp) fun done => ?_
  split
  · exact within_ok _
  refine within_try (within_quiet F _ rfl) fun state => ?_
  split
  · exact within_ok _
  · exact within_throw _

end Cleanup

/-! ## Capacity -/

section Capacity

variable (F : ∀ c, Call.quiet c = true → γ.Still A c)

include F

omit F in
theorem within_stopRuntime (hcancel : ∀ id, γ.Still A (.cancel id)) (hrem : ∀ id, γ.Still A (.remove id)) (op : Op) :
    γ.Within A (stopRuntime op) := by
  rw [stopRuntime]
  split
  · exact within_ok _
  refine within_try (within_try (within_attempt (within_lift (hcancel _))) fun _ => within_ok _) fun _ => ?_
  exact within_try (within_attempt (within_lift (hrem _))) fun _ => within_ok _

variable {policy : Policy} {dryRun : Bool} {scope : Scope}

theorem within_emergency (hstop : ∀ message, γ.Still A (.tx (.emergencyStopActiveOperation message)))
    (hcancel : ∀ id, γ.Still A (.cancel id)) (hremove : ∀ id, γ.Still A (.remove id))
    (hcla : γ.Still A (.tx .claimOperationCleanup)) (hrem : ∀ op kind id, γ.Still A (.removeResource op kind id))
    (hcomp : ∀ op, γ.Still A (.tx (.completeOperationCleanup op))) : γ.Within A (emergency dryRun scope) := by
  have hclean : ∀ op, γ.Within A (Lifecycle.cleanup scope op) := fun op =>
    within_cleanup (fun c hc => F c (Call.quiet_of_lifecycle hc)) (hrem op) scope
  rw [emergency]
  split
  · exact within_ok _
  refine within_try (within_lift (hstop _)) fun operation => ?_
  split
  · exact within_ok _
  refine within_try (within_stopRuntime hcancel hremove _) fun _ => ?_
  refine within_try (within_lift hcla) fun claimed => ?_
  split
  · exact within_throw _
  split
  · refine within_try (within_mapError (hclean _)) fun _ => ?_
    exact within_complete F (hcomp _)
  · exact within_throw _

omit F in
theorem within_conclude (thresholds : Thresholds) (after : Snapshot) :
    γ.Within A (Controller.conclude policy thresholds after) := by
  rw [Controller.conclude]
  split
  · exact within_throw _
  · exact within_ok _

theorem within_snapshotOrZero : γ.Within A Controller.snapshotOrZero := by
  refine within_try (within_attempt (within_quiet F _ rfl)) fun result => ?_
  split <;> exact within_ok _

theorem within_throttle (trigger : Trigger) : γ.Within A (Controller.throttle policy trigger) := by
  rw [Controller.throttle]
  split
  · refine within_try (within_ofProg (within_quiet F _ rfl)) fun now => ?_
    refine within_try (within_ofProg (within_quiet F _ rfl)) fun last => ?_
    split
    · exact within_ok _
    · exact within_try (within_ofProg (within_quiet F _ rfl)) fun _ => within_ok _
  · exact within_ok _

/-! An emergency stop that fails may leave the threads' ghosts in a larger set `B`. -/

variable {B : G → Prop} (hreclaim : ∀ request, γ.Still A (.reclaim request)) (hAB : ∀ g, A g → B g)
  (he : ∀ g, A g → γ.Safe g (emergency dryRun scope) fun g' r => match r with
    | .ok _ => A g'
    | .error _ => B g')

include hreclaim hAB he

variable {g : G}

theorem safe_afterReclaim (trigger : Trigger) (thresholds : Thresholds) (before after : Snapshot) (hg : A g) :
    γ.Safe g (Controller.afterReclaim policy dryRun scope trigger thresholds before after) fun g' _ => B g' := by
  rw [Controller.afterReclaim]
  split
  · refine safe_try.mpr (safe_attempt.mpr ((he g hg).mono ?_))
    rintro g' (e | u) hg'
    · exact within_conclude _ _ g' hg'
    refine safe_try.mpr (safe_attempt.mpr ((within_lift (hreclaim _) g' hg').mono fun g'' r hg'' => ?_))
    refine safe_try.mpr ((within_snapshotOrZero F g'' hg'').mono ?_)
    rintro g3 (e | after) hg3
    · exact hAB g3 hg3
    · exact within_conclude _ _ g3 (hAB g3 hg3)
  · exact within_conclude _ _ g (hAB g hg)

theorem safe_idleStage (trigger : Trigger) (thresholds : Thresholds) (before : Snapshot) (pressure : Bool) (hg : A g) :
    γ.Safe g (Controller.idleStage policy dryRun scope trigger thresholds before pressure) fun g' _ => B g' := by
  refine safe_try.mpr ((within_throttle F trigger g hg).mono ?_)
  rintro g' (e | goOn) hg'
  · exact hAB g' hg'
  refine safe_ite (fun _ => ?_) fun _ => hAB g' hg'
  rw [Controller.reclaimStage]
  refine safe_ite (fun _ => ?_) fun _ => safe_afterReclaim F hreclaim hAB he _ _ _ _ hg'
  refine safe_try.mpr (safe_mapError.mpr ((within_lift (hreclaim _) g' hg').mono ?_))
  rintro g1 (e | u) hg1
  · exact hAB g1 hg1
  refine safe_try.mpr (safe_mapError.mpr ((within_quiet F _ rfl g1 hg1).mono ?_))
  rintro g2 (e | after) hg2
  · exact hAB g2 hg2
  · exact safe_afterReclaim F hreclaim hAB he _ _ _ _ hg2

theorem safe_busyStage (trigger : Trigger) (thresholds : Thresholds) (before : Snapshot) (pressure : Bool) (hg : A g) :
    γ.Safe g (Controller.busyStage policy dryRun scope trigger thresholds before pressure) fun g' _ => B g' := by
  refine safe_try.mpr (safe_mapError.mpr ((within_quiet F (.tx .workerBusy) rfl g hg).mono ?_))
  rintro g' (e | busy) hg'
  · exact hAB g' hg'
  refine safe_ite (fun _ => ?_) fun _ => safe_idleStage F hreclaim hAB he _ _ _ _ hg'
  refine safe_ite (fun _ => ?_) fun _ => hAB g' hg'
  refine safe_try.mpr (safe_mapError.mpr ((he g' hg').mono ?_))
  rintro g1 (e | u) hg1
  · exact hg1
  refine safe_try.mpr (safe_mapError.mpr ((within_quiet F (.tx .workerBusy) rfl g1 hg1).mono ?_))
  rintro g2 (e | busy) hg2
  · exact hAB g2 hg2
  exact safe_ite (fun _ => hAB g2 hg2) fun _ => safe_idleStage F hreclaim hAB he _ _ _ _ hg2

theorem safe_runLocked (trigger : Trigger) (hg : A g) :
    γ.Safe g (Controller.runLocked policy dryRun scope trigger) fun g' _ => B g' := by
  refine safe_try.mpr (safe_mapError.mpr ((within_quiet F .snapshot rfl g hg).mono ?_))
  rintro g' (e | before) hg'
  · exact hAB g' hg'
  refine safe_ite (fun _ => hAB g' hg') fun _ => ?_
  exact safe_ite (fun _ => safe_busyStage F hreclaim hAB he _ _ _ _ hg') fun _ => safe_idleStage F hreclaim hAB he _ _ _ _ hg'

omit hAB he in
theorem within_runLocked (he : γ.Within A (emergency dryRun scope)) (trigger : Trigger) :
    γ.Within A (Controller.runLocked policy dryRun scope trigger) := by
  refine fun g hg => safe_runLocked F hreclaim (fun _ h => h) (fun g hg => (he g hg).mono ?_) trigger hg
  rintro g' (e | u) hg' <;> exact hg'

end Capacity

section Locked

variable {policy : Policy} {dryRun : Bool} {scope : Scope}

/-- Code under the lock may leave the set `A`, if the release of the lock leads back. -/
theorem safe_locked {B : G → Prop} (hlock : γ.Still A .lock) {p : Go Err Unit}
    (hp : ∀ g, A g → γ.Safe g p fun g' _ => B g')
    (hunlock : ∀ g, B g → γ.guard g .unlock ∧ ∀ r, γ.fact g .unlock r → A (γ.next g .unlock r)) :
    γ.Within A (Controller.locked p) := by
  refine within_try (within_mapError (within_lift hlock)) fun _ g hg => ?_
  refine safe_try.mpr (safe_attempt.mpr ((hp g hg).mono fun g' result hg' => ?_))
  exact safe_try.mpr (safe_ofProg.mpr ⟨(hunlock g' hg').1, (hunlock g' hg').2⟩)

theorem within_locked (hlock : γ.Still A .lock) (hunlock : γ.Still A .unlock) {p : Go Err Unit} (hp : γ.Within A p) :
    γ.Within A (Controller.locked p) :=
  safe_locked hlock hp hunlock

/-- What a pass of maintenance does beside the quiet calls. -/
def Call.clearing : Call → Bool
  | .lock | .unlock | .reclaim _ | .cancel _ | .remove _ | .removeResource _ _ _ | .tx (.emergencyStopActiveOperation _)
  | .tx .claimOperationCleanup | .tx (.completeOperationCleanup _) => true
  | _ => false

variable (F : ∀ c, Call.quiet c = true → γ.Still A c) (M : ∀ c, Call.clearing c = true → γ.Still A c)

include F M

theorem within_clearing (policy : Policy) (dryRun : Bool) (scope : Scope) (trigger : Trigger) :
    γ.Within A (Controller.runLocked policy dryRun scope trigger) := by
  refine within_runLocked F (fun _ => M _ rfl) ?_ trigger
  exact within_emergency F (fun _ => M _ rfl) (fun _ => M _ rfl) (fun _ => M _ rfl) (M _ rfl) (fun _ _ _ => M _ rfl)
    fun _ => M _ rfl

theorem within_maintain (policy : Policy) (dryRun : Bool) (scope : Scope) (trigger : Trigger) :
    γ.Within A (Controller.maintain policy dryRun scope trigger) :=
  within_locked (M _ rfl) (M _ rfl) (within_clearing F M policy dryRun scope trigger)

end Locked

/-! ## Dispatcher and coordinator -/

section Workers

variable (F : ∀ c, Call.quiet c = true → γ.Still A c)

include F

variable {id : String} {scope : Scope} {op : Op} {cfg : Config}

theorem within_rejectJob (hfail : ∀ message, γ.Still A (.tx (.failJob id message)))
    (hreq : γ.Within A (Coordinator.request (jobOp id))) (context : String) (e : Err) :
    γ.Within A (Dispatcher.rejectJob context id e) := by
  refine within_try (within_attempt (within_try (within_lift (hfail _)) fun _ => within_quiet F _ rfl)) fun result => ?_
  split
  · exact within_throw _
  refine within_try (within_attempt hreq) fun result => ?_
  split <;> exact within_throw _

theorem within_activateJob (hactive : γ.Still A (.tx (.activateOperation (jobOp id)))) (hcancel : γ.Still A (.cancel id)) :
    γ.Within A (Dispatcher.activateJob id) := by
  refine within_try (within_mapError (within_lift hactive)) fun _ => ?_
  refine within_try (within_mapError (within_quiet F _ rfl)) fun job => ?_
  split
  · exact within_mapError (within_lift hcancel)
  · exact within_ok _

theorem within_createJob {job : Job} (hcreate : γ.Still A (.create job)) (hactive : γ.Within A (Dispatcher.activateJob id))
    (hrej : ∀ context e, γ.Within A (Dispatcher.rejectJob context id e)) :
    γ.Within A (Dispatcher.createJob scope job id) := by
  refine within_try (within_attempt (within_lift hcreate)) fun result => ?_
  split
  · exact hactive
  refine within_try (within_ofProg (within_isContextCancellation F _ _)) fun cancelled => ?_
  split
  · exact within_throw _
  · exact hrej _ _

omit F in
theorem within_prepareFailed (hrej : ∀ context e, γ.Within A (Dispatcher.rejectJob context op.id e))
    (hreq : γ.Still A (.tx (.requeueAdmittingOperation op))) (e : Err) : γ.Within A (Dispatcher.prepareFailed op e) := by
  rw [Dispatcher.prepareFailed]
  split
  · exact hrej _ _
  refine within_try (within_attempt (within_lift hreq)) fun result => ?_
  split <;> exact within_throw _

theorem within_admitPrepared {start : Go Err Unit} (hrej : ∀ context e, γ.Within A (Dispatcher.rejectJob context op.id e))
    (hreq : γ.Still A (.tx (.requeueAdmittingOperation op))) (hstart : γ.Within A start) :
    γ.Within A (Dispatcher.admitPrepared op start) := by
  refine within_try (within_attempt (within_prepare (fun c hc => F c (Call.quiet_of_lifecycle hc)) op)) fun result => ?_
  split
  · exact within_prepareFailed hrej hreq _
  · exact hstart

theorem within_admitOperation (hrej : ∀ context e, γ.Within A (Dispatcher.rejectJob context op.id e))
    (hreq : γ.Still A (.tx (.requeueAdmittingOperation op))) (hbuild : γ.Still A (.tx (.activateOperation op)))
    (hjob : ∀ job, γ.Within A (Dispatcher.createJob scope job op.id)) : γ.Within A (Dispatcher.admitOperation scope op) := by
  rw [Dispatcher.admitOperation]
  split
  · exact within_admitPrepared F hrej hreq (within_mapError (within_lift hbuild))
  refine within_try (within_mapError (within_quiet F _ rfl)) fun job => ?_
  split
  · exact within_ok _
  · exact within_admitPrepared F hrej hreq (hjob job)

/-- The admission of an operation, if each of its calls keeps `A`. -/
theorem within_admits (hrej : ∀ context e, γ.Within A (Dispatcher.rejectJob context op.id e))
    (hreq : γ.Still A (.tx (.requeueAdmittingOperation op))) (hactive : ∀ op, γ.Still A (.tx (.activateOperation op)))
    (hcreate : ∀ job, γ.Still A (.create job)) (hcancel : γ.Still A (.cancel op.id)) :
    γ.Within A (Dispatcher.admitOperation scope op) :=
  within_admitOperation F hrej hreq (hactive op) fun job => within_createJob F (hcreate job)
    (within_activateJob F (hactive _) hcancel) hrej

theorem within_reserve (hacq : γ.Still A (.tx .acquireNextOperation))
    (hoper : ∀ op, γ.Within A (Dispatcher.admitOperation scope op)) : γ.Within A (Dispatcher.reserve scope) := by
  refine within_try (within_ofProg (within_quiet F _ rfl)) fun draining => ?_
  split
  · exact within_throw _
  refine within_try (within_lift hacq) fun operation => ?_
  split
  · exact within_ok _
  · exact hoper _

theorem within_runOnce
    (hres : γ.Within A (Controller.admitReserve cfg.policy cfg.dryRun scope (Dispatcher.reserve scope))) :
    γ.Within A (Dispatcher.runOnce cfg scope) := by
  refine within_try (within_ofProg (within_quiet F _ rfl)) fun draining => ?_
  split
  · exact within_throw _
  · exact hres

theorem within_runOnce_of_reserve (M : ∀ c, Call.clearing c = true → γ.Still A c)
    (hres : γ.Within A (Dispatcher.reserve scope)) : γ.Within A (Dispatcher.runOnce cfg scope) :=
  within_runOnce F (within_locked (M _ rfl) (M _ rfl) (within_try (within_clearing F M _ _ _ _) fun _ => hres))

omit F in
theorem within_runOrAdvance (hrun : γ.Within A (Dispatcher.runOnce cfg scope)) (hadvance : γ.Within A advance) :
    γ.Within A (Dispatcher.runOrAdvance cfg scope) := by
  refine within_bind hrun fun result => ?_
  split
  · exact within_pure _
  · exact within_bind hadvance fun _ => within_pure _

theorem within_dispatcherRound (hbegun : γ.Still A .dispatcherBegin) (hend : γ.Still A .dispatcherEnd)
    (hfin : γ.Still A .dispatcherFinish) (hdel : γ.Still A .retryDelay)
    (hrun : γ.Within A (Dispatcher.runOnce cfg .process)) : γ.Within A (Dispatcher.round cfg) := by
  have hstop : γ.Within A Dispatcher.finish := within_bind (within_lift hfin) fun _ => within_pure _
  refine within_bind (within_lift hbegun) fun _ => ?_
  refine within_bind hrun fun result => ?_
  split
  · split
    · exact hstop
    refine within_bind (within_isContextCancellation F _ _) fun cancelled => ?_
    split
    · exact hstop
    refine within_bind (within_lift hdel) fun elapsed => ?_
    cases elapsed with
    | true => exact within_pure _
    | false => exact hstop
  refine within_bind (within_lift hend) fun again => ?_
  cases again <;> exact within_pure _

theorem within_coordinatorRunOnce (hcla : γ.Still A (.tx .claimOperationCleanup))
    (hrem : ∀ op kind id, γ.Still A (.removeResource op kind id))
    (hrecord : ∀ op message, γ.Still A (.tx (.recordOperationCleanupFailure op message)))
    (hcomp : ∀ op, γ.Still A (.tx (.completeOperationCleanup op))) (hadvance : γ.Within A advance) :
    γ.Within A (Coordinator.runOnce scope) := by
  refine within_bind (within_lift hcla) fun result => ?_
  split
  · exact within_pure _
  · exact within_pure _
  refine within_bind (within_cleanup (fun c hc => F c (Call.quiet_of_lifecycle hc)) (hrem _) scope) fun result => ?_
  split
  · refine within_bind ?_ fun _ => within_pure _
    refine within_bind (within_isContextCancellation F _ _) fun cancelled => ?_
    split
    · exact within_pure _
    refine within_bind (within_lift (hrecord _ _)) fun result => ?_
    split <;> exact within_pure _
  refine within_bind (within_complete F (hcomp _)) fun result => ?_
  split
  · exact within_pure _
  · exact within_bind hadvance fun _ => within_pure _

theorem within_coordinatorRound (hbegun : γ.Still A .coordinatorBegin) (hend : γ.Still A .coordinatorEnd)
    (hfin : γ.Still A .coordinatorFinish) (hrun : γ.Within A (Coordinator.runOnce .process)) :
    γ.Within A Coordinator.round := by
  have hstop : γ.Within A Coordinator.finish := within_bind (within_lift hfin) fun _ => within_pure _
  refine within_bind (within_lift hbegun) fun _ => ?_
  refine within_bind hrun fun result => ?_
  obtain ⟨claimed, err⟩ := result
  simp only []
  split
  · refine within_bind (within_isContextCancellation F _ _) fun cancelled => ?_
    split
    · exact hstop
    refine within_bind (within_quiet F _ rfl) fun elapsed => ?_
    cases elapsed with
    | true => exact within_pure _
    | false => exact hstop
  split
  · exact within_pure _
  refine within_bind (within_lift hend) fun again => ?_
  cases again <;> exact within_pure _

end Workers

end Frames

end Autback
