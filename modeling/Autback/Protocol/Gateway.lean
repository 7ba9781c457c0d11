import Autback.Gateway.Identity
import Autback.Protocol.Records
import Autback.Store.Fifo

/-!
# Who may open data-plane connections

The gateway admits a connection if the operation of its credential is active: a job in preparation, a build that runs. It does not
look at the queue. But a credential is issued for a job whose row was read as admitting, and a row leaves that state only with the
job's preparation (`Leasing`). So the operation that may open connections is the one that holds the worker (`gateway_exclusive`),
unless a goroutine asks for the teardown of a job although it could not end it, as the rollback of `PrepareJob` does after an
error of the store (`heedful`).
-/

namespace Autback

open Conc Ghost

/-- What a goroutine knows of jobs: those that have left their preparation, those whose row it has read as admitting, and
those that it has failed to end. -/
structure Leasing where
  (settled admitted refused : List String)

def Leasing.learn (g : Leasing) (c : Call) (r : c.Ret) : Leasing :=
  match c, r with
  | .tx (.job id), Except.ok (job : Job) =>
    if job.status = .preparing then g else { g with settled := id :: g.settled }
  | .tx .scheduledJobs, Except.ok (jobs : List Job) => { g with settled := jobs.map Job.id ++ g.settled }
  | .tx (.failJob id _), Except.ok _ => { g with settled := id :: g.settled }
  | .tx (.failJob id _), Except.error _ => { g with refused := id :: g.refused }
  | .tx (.requestJobCancellation id), Except.ok _ => { g with settled := id :: g.settled }
  | .tx (.operationState ⟨.job, id⟩), Except.ok (state : OperationState) =>
    if state = .admitting then { g with admitted := id :: g.admitted } else g
  | _, _ => g

def Call.unleased : Call → Bool
  | .tx (.activateOperation ⟨.job, _⟩) | .tx (.requeueAdmittingOperation ⟨.job, _⟩) | .tx (.syncJob _ _)
  | .tx (.beginOperationCleanup ⟨.job, _⟩) | .tx (.cancelQueuedOperation _) | .issue ⟨.job, _⟩ => false
  | _ => true

def leases : Ghost Call Call.Ret Label Leasing where
  start _ := ⟨[], [], []⟩
  next := Leasing.learn
  guard g c := match c with
    | .tx (.activateOperation ⟨.job, id⟩) | .tx (.requeueAdmittingOperation ⟨.job, id⟩) => id ∈ g.settled
    | .tx (.beginOperationCleanup ⟨.job, id⟩) => id ∈ g.settled ∨ id ∈ g.refused
    | .tx (.syncJob _ remote) => remote.status ≠ .preparing
    | .tx (.cancelQueuedOperation _) => False
    | .issue ⟨.job, id⟩ => id ∈ g.admitted
    | _ => True
  fact _ c r := match c, r with
    | .tx (.job id), Except.ok (job : Job) => job.id = id
    | .status _, Except.ok (remote : RemoteJob) => remote.status ≠ .preparing
    | .managedJobs, Except.ok (managed : List RuntimeJob) =>
      ∀ e ∈ managed, ∀ remote, e.job = .ok remote → remote.status ≠ .preparing
    | _, _ => True
  exit _ _ := True

/-- The goroutine knows that the jobs of `ids` have left their preparation, and has tried to end those of `tried`. -/
structure Settled (ids tried : List String) (g : Leasing) : Prop where
  settled : ∀ id ∈ ids, id ∈ g.settled
  tried : ∀ id ∈ tried, id ∈ g.settled ∨ id ∈ g.refused

section Walk

variable {ids tried : List String} {g : Leasing}

variable {c : Call} {id : String} {g : Leasing}

theorem settled_learn {r : c.Ret} (h : id ∈ g.settled) : id ∈ (g.learn c r).settled := by
  unfold Leasing.learn
  split
  · split
    · exact h
    · exact List.mem_cons_of_mem _ h
  · exact List.mem_append_right _ h
  · exact List.mem_cons_of_mem _ h
  · exact h
  · exact List.mem_cons_of_mem _ h
  · split <;> exact h
  · exact h

theorem refused_learn {r : c.Ret} (h : id ∈ g.refused) : id ∈ (g.learn c r).refused := by
  unfold Leasing.learn
  split
  · split <;> exact h
  · exact h
  · exact h
  · exact List.mem_cons_of_mem _ h
  · exact h
  · split <;> exact h
  · exact h

theorem Settled.next (h : Settled ids tried g) (c : Call) (r : c.Ret) : Settled ids tried (leases.next g c r) :=
  ⟨fun id hid => settled_learn (h.settled id hid), fun id hid => (h.tried id hid).imp settled_learn refused_learn⟩

theorem Settled.cons (h : Settled ids tried g) (hid : id ∈ g.settled) : Settled (id :: ids) tried g := by
  refine ⟨?_, h.tried⟩
  rintro id' (_ | ⟨_, h'⟩)
  · exact hid
  · exact h.settled id' h'

theorem Settled.tail (h : Settled (id :: ids) tried g) : Settled ids tried g :=
  ⟨fun id' hid => h.settled id' (List.mem_cons_of_mem _ hid), h.tried⟩

theorem leases_still (hc : c.unleased = true) : leases.Still (Settled ids tried) c := by
  refine fun g hg => ⟨?_, fun r _ => hg.next c r⟩
  simp only [leases]
  split <;> trivial

theorem leases_quiet (c : Call) (hc : c.quiet = true) : leases.Still (Settled ids tried) c := by
  refine leases_still ?_
  cases c with
  | tx x => cases x <;> first | rfl | cases hc
  | _ => first | rfl | cases hc

theorem leases_advance : leases.Within (Settled ids tried) advance :=
  within_advance leases_quiet (leases_still rfl) (leases_still rfl)

theorem leases_request (hid : id ∈ ids ∨ id ∈ tried) : leases.Within (Settled ids tried) (Coordinator.request (jobOp id)) := by
  refine within_request (quiet_tx leases_quiet) (fun g hg => ⟨?_, fun r _ => hg.next _ r⟩) (leases_still rfl)
  exact hid.elim (fun h => .inl (hg.settled id h)) (hg.tried id)

theorem leases_clearing (c : Call) (hc : c.clearing = true) : leases.Still (Settled ids tried) c := by
  refine leases_still ?_
  cases c with
  | tx x => cases x <;> first | rfl | cases hc
  | _ => first | rfl | cases hc

/-! ### Admission -/

theorem leases_rejectJob (context id : String) (e : Err) :
    leases.Within (Settled ids tried) (Dispatcher.rejectJob context id e) := by
  intro g hg
  refine safe_try.mpr (safe_attempt.mpr (safe_try.mpr ⟨trivial, fun r _ => ?_⟩))
  rcases r with e' | u
  · exact hg.next (.tx (.failJob id e.text)) (Except.error e')
  have hfail : Settled (id :: ids) tried (leases.next g (.tx (.failJob id e.text)) (Except.ok u)) :=
    (hg.next _ _).cons (List.mem_cons_self ..)
  refine (within_quiet leases_quiet (.tx (.job id)) rfl _ hfail).mono ?_
  rintro g' (e' | job) hg'
  · exact hg'.tail
  refine safe_try.mpr (safe_attempt.mpr ((leases_request (.inl (List.mem_cons_self ..)) g' hg').mono ?_))
  rintro g'' (e' | u) hg'' <;> exact hg''.tail

theorem leases_admitOperation (scope : Scope) (op : Op) :
    leases.Within (Settled ids tried) (Dispatcher.admitOperation scope op) := by
  obtain ⟨kind, id⟩ := op
  cases kind with
  | build =>
    exact within_admitPrepared leases_quiet (fun context e => leases_rejectJob context id e) (leases_still rfl)
      (within_mapError (within_lift (leases_still rfl)))
  | job =>
    intro g hg
    refine safe_try.mpr (safe_mapError.mpr ⟨trivial, fun r _ => ?_⟩)
    rcases r with e | (job : Job)
    · exact hg
    refine safe_ite (fun _ => hg.next _ _) fun hstatus => ?_
    have hknow : Settled (id :: ids) tried (leases.next g (.tx (.job id)) (Except.ok job)) := by
      refine (hg.next _ _).cons ?_
      simp only [leases, Leasing.learn, if_neg hstatus]
      exact List.mem_cons_self ..
    have hmove : ∀ c, c = .tx (.activateOperation (jobOp id)) ∨ c = .tx (.requeueAdmittingOperation (jobOp id)) →
        leases.Still (Settled (id :: ids) tried) c := by
      rintro c (rfl | rfl) g hg <;> exact ⟨hg.settled id (List.mem_cons_self ..), fun r _ => hg.next _ r⟩
    refine (within_admitPrepared leases_quiet (fun context e => leases_rejectJob context id e) (hmove _ (.inr rfl)) ?_ _
      hknow).mono fun _ _ h => h.tail
    exact within_createJob leases_quiet (leases_still rfl)
      (within_activateJob leases_quiet (hmove _ (.inl rfl)) (leases_still rfl)) fun context e => leases_rejectJob context id e

variable (cfg : Config) (principal : Principal)

theorem leases_runOnce (scope : Scope) : leases.Within (Settled ids tried) (Dispatcher.runOnce cfg scope) :=
  within_runOnce_of_reserve leases_quiet leases_clearing
    (within_reserve leases_quiet (leases_still rfl) (leases_admitOperation scope))

theorem leases_runOrAdvance (scope : Scope) : leases.Within (Settled ids tried) (Dispatcher.runOrAdvance cfg scope) :=
  within_runOrAdvance (leases_runOnce cfg scope) leases_advance

/-! ### Handlers -/

theorem leases_refreshRemote (id : String) (hg : Settled ids tried g) :
    leases.Safe g (Api.refreshRemote id) fun g' r => Settled ids tried g' ∧ ∀ job, r = .ok job → job.id = id := by
  refine safe_try.mpr ⟨trivial, fun r hr => ?_⟩
  rcases r with e | (remote : RemoteJob)
  · exact ⟨hg, fun _ h => by cases h⟩
  refine safe_try.mpr (safe_try.mpr ⟨hr, fun r _ => ?_⟩)
  rcases r with e | u
  · exact ⟨(hg.next _ _).next _ _, fun _ h => by cases h⟩
  refine ⟨trivial, fun r hid => ?_⟩
  rcases r with e | (job : Job)
  · exact ⟨((hg.next _ _).next _ _).next _ _, fun _ h => by cases h⟩
  have hg' := ((hg.next (.status id) (Except.ok remote)).next (.tx (.syncJob id remote)) (Except.ok u)).next
      (.tx (.job id)) (Except.ok job)
  refine safe_ite (fun _ => safe_try.mpr (safe_ofProg.mpr ?_)) fun _ => ⟨hg', fun _ h => by cases h; exact hid⟩
  exact (leases_advance _ hg').mono fun g'' _ hg'' => ⟨hg'', fun _ h => by cases h; exact hid⟩

theorem leases_refreshRemote_within (id : String) : leases.Within (Settled ids tried) (Api.refreshRemote id) :=
  fun _ hg => (leases_refreshRemote id hg).mono fun _ _ h => h.1

theorem leases_refreshJob (job : Job) (hg : Settled ids tried g) :
    leases.Safe g (Api.refreshJob job) fun g' r => Settled ids tried g' ∧ ∀ job', r = .ok job' → job'.id = job.id := by
  have hsame : ∀ {g'}, Settled ids tried g' →
      Settled ids tried g' ∧ ∀ job', (Except.ok job : Except Err Job) = .ok job' → job'.id = job.id :=
    fun hg' => ⟨hg', fun _ h => by cases h; rfl⟩
  rw [Api.refreshJob]
  refine safe_ite (fun _ => hsame hg) fun _ => ?_
  refine safe_try.mpr (safe_attempt.mpr ⟨trivial, fun r _ => ?_⟩)
  rcases r with e | state
  · refine safe_ite (fun _ => ?_) fun _ => ⟨hg.next _ _, fun _ h => by cases h⟩
    exact leases_refreshRemote job.id (hg.next _ _)
  refine safe_ite (fun _ => hsame (hg.next _ _)) fun _ => ?_
  exact leases_refreshRemote job.id (hg.next _ _)

theorem leases_connection (job : Job) : leases.Within (Settled ids tried) (Api.jobPreparationConnection job) := by
  intro g hg
  rw [Api.jobPreparationConnection]
  refine safe_ite (fun _ => ?_) fun _ => hg
  refine safe_try.mpr (safe_mapError.mpr ⟨trivial, fun r _ => ?_⟩)
  rcases r with e | (state : OperationState)
  · exact hg.next _ _
  refine safe_ite (fun hstatus => ?_) fun _ => hg.next _ _
  refine safe_try.mpr (safe_mapError.mpr ⟨?_, fun r _ => ?_⟩)
  · simp only [leases, Leasing.learn, jobOp, if_pos hstatus]
    exact List.mem_cons_self ..
  · rcases r with e | u <;> exact (hg.next _ _).next _ _

theorem leases_createJob (project : Project) (input : PrepareJob) (key : String) :
    leases.Within (Settled ids tried) (Api.createJob cfg principal project input key) := by
  have hanswer : ∀ id, leases.Within (Settled ids tried) (Api.answerPrepared cfg id) :=
    within_answerPrepared leases_quiet (leases_runOrAdvance cfg .request) leases_connection
  refine within_try (within_mapError (within_lift (leases_still rfl))) fun created => ?_
  obtain ⟨job, replayed⟩ := created
  simp only []
  split
  · exact hanswer _
  refine within_try (within_ofProg (within_quiet leases_quiet _ rfl)) fun result => ?_
  split
  · exact hanswer _
  intro g hg
  -- whether the job could be ended or not, it is among those that were tried
  have hrel : ∀ {g'} {e : ApiError}, Settled ids (job.id :: tried) g' →
      leases.Safe g' (Api.ignoring (Dispatcher.release (jobOp job.id)) >>= fun _ => fail e : Go ApiError Reply)
        fun g'' _ => Settled ids tried g'' := fun hg' => by
    refine safe_try.mpr ((within_ignoring (leases_request (.inr (List.mem_cons_self ..))) _ hg').mono ?_)
    rintro g'' (e | u) hg'' <;> exact ⟨hg''.settled, fun id hid => hg''.tried id (List.mem_cons_of_mem _ hid)⟩
  have htried : ∀ {g' : Leasing}, Settled ids tried g' → job.id ∈ g'.settled ∨ job.id ∈ g'.refused →
      Settled ids (job.id :: tried) g' := by
    refine fun hg' h => ⟨hg'.settled, ?_⟩
    rintro id (_ | ⟨_, hid⟩)
    · exact h
    · exact hg'.tried id hid
  refine safe_try.mpr (safe_try.mpr (safe_ofProg.mpr (safe_try.mpr ⟨trivial, fun r _ => ?_⟩)))
  rcases r with e | u
  · exact hrel (htried (hg.next _ _) (.inr (List.mem_cons_self ..)))
  refine ⟨trivial, fun r _ => ?_⟩
  have hsettled : job.id ∈ (leases.next g (.tx (.failJob job.id "record job preparation audit")) (Except.ok u)).settled :=
    List.mem_cons_self ..
  rcases r with e | j <;>
    exact hrel (htried ((hg.next _ _).next _ _) (.inl (settled_learn hsettled)))

theorem leases_refreshOrZero (job : Job) (hg : Settled ids tried g) :
    leases.Safe g (Api.refreshOrZero job) fun g' r => Settled ids tried g' ∧ ∀ job', r = .ok (some job') → job'.id = job.id := by
  refine safe_try.mpr (safe_ofProg.mpr ((leases_refreshJob job hg).mono ?_))
  rintro g' (e | job') ⟨hg', hid⟩
  · exact ⟨hg', fun _ h => by cases h⟩
  · exact ⟨hg', fun _ h => by cases h; exact hid _ rfl⟩

theorem leases_afterCancel {job : Option Job} (state : Option OperationState) (hid : id ∈ ids)
    (hjob : ∀ j, job = some j → j.id = id) :
    leases.Within (Settled ids tried) (Api.afterCancel cfg principal job state) := by
  rw [Api.afterCancel]
  split
  · rename_i hterm
    have hown : Api.idOf job = id := by
      cases job with
      | none => simp at hterm
      | some j => exact hjob j rfl
    rw [hown]
    refine within_try (within_mapError (leases_request (.inl hid))) fun _ => ?_
    exact within_try (within_mapError (within_lift (leases_still rfl))) fun _ => within_ok _
  refine within_try (within_ignoring (leases_runOnce cfg .request)) fun _ => ?_
  exact within_try (within_mapError (within_lift (leases_still rfl))) fun _ => within_ok _

theorem leases_requestCancel (id : String) (state : Option OperationState) :
    leases.Within (Settled ids tried) (Api.requestCancel cfg principal id state) := by
  intro g hg
  refine safe_try.mpr (safe_mapError.mpr (safe_try.mpr ⟨trivial, fun r _ => ?_⟩))
  rcases r with e | u
  · exact hg.next (.tx (.requestJobCancellation id)) (Except.error e)
  have hg1 : Settled (id :: ids) tried (leases.next g (.tx (.requestJobCancellation id)) (Except.ok u)) :=
    (hg.next _ _).cons (List.mem_cons_self ..)
  refine ⟨trivial, fun r hid => ?_⟩
  rcases r with e | (job : Job)
  · exact (hg1.next _ _).tail
  have hid : job.id = id := hid
  have hg2 := hg1.next (.tx (.job id)) (Except.ok job)
  have hafter : ∀ job', (∀ j, job' = some j → j.id = id) → leases.Within (Settled (id :: ids) tried)
      (Api.afterCancel cfg principal job' state) := fun job' => leases_afterCancel cfg principal state (List.mem_cons_self ..)
  refine safe_ite (fun _ => ?_) fun _ => ?_
  · refine safe_try.mpr ((leases_refreshOrZero job hg2).mono ?_)
    rintro g' (e | job') ⟨hg', hid'⟩
    · exact hg'.tail
    · exact (hafter job' (fun j hj => by rw [hid' j (by rw [hj]), hid]) g' hg').mono fun _ _ h => h.tail
  · exact (hafter (some job) (fun j hj => by cases hj; exact hid) _ hg2).mono fun _ _ h => h.tail

theorem leases_cancelInState (id : String) (state : Option OperationState) :
    leases.Within (Settled ids tried) (Api.cancelInState cfg principal id state) := by
  rw [Api.cancelInState]
  split
  · exact within_try (within_mapError (within_lift (leases_still rfl))) fun _ => leases_requestCancel cfg principal id state
  · exact leases_requestCancel cfg principal id state

theorem leases_handlers : HandlerParts leases (Settled ids tried) cfg where
  quiet := leases_quiet
  respond _ _ := leases_still rfl
  run := leases_runOrAdvance cfg .request
  createJob := leases_createJob cfg
  queueAndRun _ _ _ := within_queueAndRun leases_quiet (leases_still rfl) (leases_runOrAdvance cfg .request)
  getJob := within_getJob leases_quiet leases_refreshRemote_within leases_connection
  listJobs := within_listJobs leases_quiet leases_refreshRemote_within
  cancelJob := within_cancelJob leases_quiet (leases_cancelInState cfg)
  createBuild _ _ _ := within_createBuildHandler leases_quiet (fun _ => leases_still rfl) (fun _ => leases_still rfl)
    (within_answerBuild leases_quiet (leases_runOrAdvance cfg .request) (fun _ => leases_still rfl) fun _ =>
      within_abandonBuild leases_quiet (leases_still rfl) leases_advance)
  getBuild := within_getBuild leases_quiet fun _ => leases_still rfl
  endBuild _ _ _ _ _ _ := within_endBuild leases_quiet (leases_still rfl) leases_advance fun _ _ => leases_still rfl

/-! ### Reconciler -/

theorem leases_expirePreparation (job : Job) : leases.Within (Settled ids tried) (Reconciler.expirePreparation job) := by
  intro g hg
  refine safe_bind.mpr (safe_try.mpr ⟨trivial, fun r _ => ?_⟩)
  rcases r with e | u
  · exact hg.next (.tx (.requestJobCancellation job.id)) (Except.error e)
  have hg1 : Settled (job.id :: ids) tried (leases.next g (.tx (.requestJobCancellation job.id)) (Except.ok u)) :=
    (hg.next _ _).cons (List.mem_cons_self ..)
  refine (within_quiet leases_quiet (.tx (.job job.id)) rfl _ hg1).mono ?_
  rintro g' (e | j) hg'
  · exact hg'.tail
  · exact (within_reported (leases_request (.inl (List.mem_cons_self ..))) g' hg').mono fun _ _ h => h.tail

theorem leases_syncAndRelease {remote : RemoteJob} (hremote : remote.status ≠ .preparing) :
    leases.Within (Settled ids tried) (Reconciler.syncAndRelease id remote) := by
  intro g hg
  refine safe_bind.mpr (safe_try.mpr ⟨hremote, fun r _ => ?_⟩)
  rcases r with e | u
  · exact hg.next (.tx (.syncJob id remote)) (Except.error e)
  refine ⟨trivial, fun r _ => ?_⟩
  rcases r with e | (job : Job)
  · exact (hg.next _ _).next (.tx (.job id)) (Except.error e)
  have hg1 := (hg.next (.tx (.syncJob id remote)) (Except.ok u)).next (.tx (.job id)) (Except.ok job)
  refine safe_ite (fun hterm => ?_) fun _ => hg1
  have hne : job.status ≠ .preparing := by
    intro h
    rw [h] at hterm
    cases hterm
  have hg2 : Settled (id :: ids) tried _ := hg1.cons (by
    simp only [leases, Leasing.learn, if_neg hne]
    exact List.mem_cons_self ..)
  exact (within_reported (leases_request (.inl (List.mem_cons_self ..))) _ hg2).mono fun _ _ h => h.tail

theorem leases_reconcilerRun : leases.Within (Settled [] []) (reconcilerRun cfg) := by
  refine within_reconcilerRun_listed (A := fun ids => Settled ids []) (fun _ => leases_quiet) ?_ ?_ (fun _ _ h => h)
    leases_expirePreparation ?_ ?_ ?_ fun _ _ => leases_still rfl
  · exact fun _ g h => ⟨fun id hid => (by cases hid), h.tried⟩
  · exact fun g jobs h => ⟨fun id hid => List.mem_append_left _ hid, (h.next _ _).tried⟩
  · exact within_expireBuild (quiet_tx leases_quiet) (fun _ => leases_still rfl) fun id =>
      within_request (quiet_tx leases_quiet) (leases_still rfl) (leases_still rfl)
  · exact fun _ now id => within_syncMissing (quiet_tx leases_quiet) (leases_syncAndRelease (by simp [Reconciler.lostJob]))
  · exact fun _ id remote hid hremote => within_syncPresent (quiet_tx leases_quiet)
      (fun g hg => ⟨hg.settled id hid, fun r _ => hg.next _ r⟩) (leases_syncAndRelease hremote)

theorem leases_background : BackgroundParts leases (Settled ids tried) cfg where
  background := fun c hc => leases_still (by cases c <;> first | rfl | cases hc)
  advance := leases_advance
  maintain := within_maintain leases_quiet leases_clearing _
  dispatcher := leases_runOnce cfg .process
  coordinator := within_coordinatorRunOnce leases_quiet (leases_still rfl) (fun _ _ _ => leases_still rfl)
    (fun _ _ => leases_still rfl) (fun _ => leases_still rfl) leases_advance

theorem leases_body (l : Label) : leases.Safe (leases.start l) (body cfg l) leases.exit := by
  have h : leases.Within (Settled [] []) (body cfg l) :=
    within_body (leases_handlers cfg) (leases_background cfg) leases_refreshRemote_within fun _ => leases_reconcilerRun cfg
  exact (h _ ⟨fun id hid => (by cases hid), fun id hid => (by cases hid)⟩).mono fun _ _ _ => trivial

end Walk

/-! ## What is known holds -/

def View.Ready (v : View) (id : String) : Prop :=
  ∃ r, v.row (jobOp id) = some r ∧ ∀ j, v.job id = some j → j.status = .preparing → r.state = .admitting

def View.Past (v : View) (id : String) : Prop := ∃ j, v.job id = some j ∧ j.status ≠ .preparing

structure Leasing.Sound (g : Leasing) (v : View) : Prop where
  settled : ∀ id ∈ g.settled, v.Past id
  admitted : ∀ id ∈ g.admitted, v.Ready id

/-- A transaction that the code makes with the knowledge it needs, in view `v`. -/
structure Tx.Informed (x : Tx) (v : View) : Prop where
  sync : ∀ id remote, x = .syncJob id remote → remote.status ≠ .preparing
  activate : ∀ id, x = .activateOperation (jobOp id) → v.Past id
  requeue : ∀ id, x = .requeueAdmittingOperation (jobOp id) → v.Past id
  cleanup : ∀ id, x = .beginOperationCleanup (jobOp id) → v.Past id

section Effects

variable {v v' : View} {x : Tx} {a : x.Val} {g : Leasing} {id : String}

theorem Tx.Effect.ends_preparation (he : x.Effect a v v') (hx : x.Informed v) {s : OperationState}
    (hm : x.Moves a (jobOp id) .admitting s) {j' : JobView} (hj' : v'.job id = some j') : j'.status ≠ .preparing := by
  have hpast : v.Past id → j'.status ≠ .preparing := by
    intro h
    obtain ⟨j, hj, hne⟩ := he.started hx.sync h
    rw [hj'] at hj
    cases hj
    exact hne
  cases x <;> simp only [Tx.Moves] at hm
  case queueJob id' digest =>
    obtain rfl : id = id' := by simpa [jobOp] using hm.1
    obtain ⟨⟨c, hj, rfl⟩, -⟩ := he
    simp only [View.setRow_job, View.setJob_job, hj, if_true, Option.map_some, Option.some.injEq] at hj'
    simp [← hj']
  case syncJob id' remote =>
    obtain rfl : id = id' := by simpa [jobOp] using hm.1
    rw [show v' = _ from he, View.mapRow_job, View.mapJob_job, if_pos rfl] at hj'
    obtain ⟨j, -, rfl⟩ := Option.map_eq_some_iff.mp hj'
    split
    · rename_i hterm
      intro h
      rw [h] at hterm
      cases hterm
    · exact hx.sync id remote rfl
  case failJob id' message =>
    obtain rfl : id = id' := by simpa [jobOp] using hm.1
    obtain ⟨j, hj, -, rfl⟩ := he
    simp only [View.mapRow_job, View.setJob_job, hj, if_true, Option.map_some, Option.some.injEq] at hj'
    simp [← hj']
  case requeueAdmittingOperation op' => exact hpast (hx.requeue id (by rw [hm.1]))
  case activateOperation op' => exact hpast (hx.activate id (by rw [hm.1]))
  case beginOperationCleanup op' => exact hpast (hx.cleanup id (by rw [hm.2.1]))
  case emergencyStopActiveOperation message =>
    obtain ⟨⟨o, rfl, hop⟩, -⟩ := hm
    obtain ⟨-, hv⟩ := he
    rw [← hop] at hv
    obtain ⟨⟨j, hj, -⟩, rfl⟩ := hv
    simp only [View.setRow_job, View.setJob_job, jobOp, hj, if_true, Option.map_some, Option.some.injEq] at hj'
    simp [← hj']
  all_goals simp [jobOp, buildOp, OperationState.tearing] at hm

theorem Tx.Effect.ready (he : x.Effect a v v') (hx : x.Informed v) (h : v.Ready id) : v'.Ready id := by
  obtain ⟨r, hr, hread⟩ := h
  obtain ⟨r', hr', -, hm⟩ := he.row hr
  refine ⟨r', hr', fun j' hj' hs' => ?_⟩
  -- the job was in preparation before: none comes back to it, and a new one would have no row
  have hbefore : r.state = .admitting := by
    cases hj : v.job id with
    | none =>
      rcases he.appears with hkeys | ⟨id', -, hnone, rfl⟩ | ⟨id', -, -, rfl⟩
      · have := hkeys.job id
        simp [hj, hj'] at this
      · by_cases hid : id = id'
        · rw [← hid, hr] at hnone
          cases hnone
        · simp [hid, hj] at hj'
      · simp [hj] at hj'
    | some j =>
      refine hread j hj ?_
      obtain ⟨j1, hj1, hw⟩ := he.job hj
      rw [hj'] at hj1
      cases hj1
      rcases hw with rfl | hw
      · exact hs'
      · exact absurd hs' (hw.started hx.sync)
  rcases hm with hm | hm
  · rw [hm, hbefore]
  rw [hbefore] at hm
  exact absurd hs' (he.ends_preparation hx hm hj')

theorem Leasing.Sound.effect (h : g.Sound v) (he : x.Effect a v v') (hx : x.Informed v) : g.Sound v' :=
  ⟨fun id hid => he.started hx.sync (h.settled id hid), fun id hid => he.ready hx (h.admitted id hid)⟩

theorem Leasing.Sound.learn (h : g.Sound v') (he : x.Effect a v v') : (g.learn (.tx x) (Except.ok a)).Sound v' := by
  have hcons : ∀ {id}, v'.Past id → Leasing.Sound { g with settled := id :: g.settled } v' := by
    refine fun hpast => ⟨fun id' hid => ?_, h.admitted⟩
    rcases List.mem_cons.mp hid with rfl | hid
    · exact hpast
    · exact h.settled id' hid
  cases x with
  | job id =>
    obtain ⟨rfl, -, hj⟩ := he
    simp only [Leasing.learn]
    split
    · exact h
    · exact hcons ⟨_, hj, ‹_›⟩
  | scheduledJobs =>
    obtain ⟨rfl, hjobs⟩ := he
    refine ⟨fun id hid => ?_, h.admitted⟩
    rcases List.mem_append.mp hid with hid | hid
    · obtain ⟨j, hj, rfl⟩ := List.mem_map.mp hid
      obtain ⟨hs, hjob, -⟩ := hjobs j hj
      exact ⟨_, hjob, by rcases hs with hs | hs <;> simp [hs]⟩
    · exact h.settled id hid
  | failJob id message =>
    obtain ⟨j, hj, -, rfl⟩ := he
    exact hcons ⟨⟨.failed, j.cancel⟩, by simp [hj], by simp⟩
  | requestJobCancellation id =>
    obtain ⟨j, hj, hlive, rfl⟩ := he
    refine hcons ?_
    simp only [View.Past, View.mapRow_job, View.setJob_job, hj, if_true, Option.map_some, Option.some.injEq, exists_eq_left']
    split
    · decide
    · exact fun hs => absurd (Or.inl hs) ‹_›
  | operationState op =>
    obtain ⟨kind, id⟩ := op
    cases kind with
    | build => exact h
    | job =>
      obtain ⟨rfl, r, hr, hs⟩ := he
      simp only [Leasing.learn]
      split
      · rename_i hadm
        refine ⟨h.settled, fun id' hid => ?_⟩
        rcases List.mem_cons.mp hid with rfl | hid
        · exact ⟨r, hr, fun _ _ _ => by rw [eq_of_beq hs, hadm]⟩
        · exact h.admitted id' hid
      · exact h
  | _ => exact h

end Effects

/-! ## Runs -/

def Heedful (w : World) (t : Nat) (c : Call) (r : c.Ret) : Prop :=
  match c, r with
  | .tx (.beginOperationCleanup ⟨.job, id⟩), Except.ok _ =>
    (leases.ghosts w t).all (fun g => decide (id ∉ g.refused)) = true
  | _, _ => True

/-- The test for `Heedful`. -/
def heeds (w : World) (t : Nat) (c : Call) (r : c.Ret) : Bool :=
  match c, r with
  | .tx (.beginOperationCleanup ⟨.job, id⟩), Except.ok _ => (leases.ghosts w t).all fun g => decide (id ∉ g.refused)
  | _, _ => true

theorem heeds_iff {w : World} {t : Nat} {c : Call} {r : c.Ret} : heeds w t c r = true ↔ Heedful w t c r := by
  unfold heeds Heedful
  split
  · rfl
  · simp

instance (w : World) (t : Nat) (c : Call) (r : c.Ret) : Decidable (Heedful w t c r) := decidable_of_bool _ heeds_iff

/-- Handlers stop at an error of the store, as far as it matters: the rollback of `PrepareJob` does not go on to the teardown
when `FailJob` has failed. -/
def heedful : Rules := { Conc.Rules.all with call := Heedful }

section Runs

variable {t : Nat} {ch : Choice} {s s' : Sys} {sp : Option Label} {g : Leasing} {w : World}

variable {c : Call}

theorem leases_fact {r : c.Ret} (h : exec t ch s c = some (r, s', sp)) : leases.fact g c r := by
  cases c with
  | tx x =>
    cases x with
    | job id =>
      obtain ⟨-, ⟨e, rfl, -⟩ | ⟨a, db, rfl, -, he⟩⟩ := exec_tx h
      · trivial
      · exact he.2.1
    | _ => trivial
  | status | managedJobs =>
    rcases r with e | a
    · trivial
    · exact records_fact (g := ⟨[], []⟩) h
  | _ => trivial

theorem informed_of_guard {x : Tx} {a : x.Val} (hg : leases.ghosts w t = some g) (hs : g.Sound w.st.db.view)
    (hguard : leases.guard g (.tx x)) (hK : Heedful w t (.tx x) (Except.ok a)) : x.Informed w.st.db.view where
  sync id remote h := by
    subst h
    exact hguard
  activate id h := by
    subst h
    exact hs.settled id hguard
  requeue id h := by
    subst h
    exact hs.settled id hguard
  cleanup id h := by
    subst h
    rcases hguard with h | h
    · exact hs.settled id h
    simp only [Heedful, hg, Option.all_some, decide_eq_true_eq] at hK
    exact absurd h hK

/-- What the issue of a credential has established: the job holds the worker as long as it is in preparation. -/
def Leased (c : Call) (r : c.Ret) (s : Sys) : Prop :=
  match c, r with
  | .issue ⟨.job, id⟩, Except.ok _ => s.db.view.Ready id
  | _, _ => True

theorem Leased.mono {r : c.Ret} (h : Leased c r s) (hread : ∀ id, s.db.view.Ready id → s'.db.view.Ready id) :
    Leased c r s' := by
  revert h
  unfold Leased
  split
  · exact hread _
  · exact id

theorem leases_next_error {x : Tx} {e : Err} {v : View} (h : g.Sound v) :
    (leases.next g (.tx x) (Except.error e)).Sound v := by
  cases x
  case operationState op =>
    obtain ⟨kind, id⟩ := op
    cases kind <;> exact h
  all_goals exact ⟨h.settled, h.admitted⟩

theorem leases_next_of_ne_tx (hc : ∀ x, c ≠ .tx x) (r : c.Ret) : leases.next g c r = g := by
  cases c with
  | tx x => exact absurd rfl (hc x)
  | _ => rfl

theorem leases_local (cfg : Config) (now : Time) :
    LocalAt (machine cfg) heedful leases (Sys.fresh now) (fun _ => True) (fun _ => True)
      (fun _ g s => g.Sound s.db.view) where
  init := trivial
  start _ _ _ _ _ := ⟨fun _ h => (by cases h), fun _ h => (by cases h)⟩
  spawn _ _ _ _ _ _ _ _ _ _ _ := ⟨fun _ h => (by cases h), fun _ h => (by cases h)⟩
  jump _ _ _ _ _ _ _ := ⟨fun _ h => (by cases h), fun _ h => (by cases h)⟩
  env w e s _ _ he _ := ⟨trivial, fun _ g hg => by rw [env_db he]; exact hg⟩
  crash _ _ _ _ := trivial
  call w t g c ch r s sp _ _ _ hgt hg hguard hexec hK := by
    change exec t ch w.st c = some (r, s, sp) at hexec
    refine ⟨leases_fact hexec, trivial, ?_⟩
    by_cases hc : ∃ x, c = .tx x
    · obtain ⟨x, rfl⟩ := hc
      obtain ⟨-, ⟨e, rfl, rfl⟩ | ⟨a, db, rfl, rfl, he⟩⟩ := exec_tx hexec
      · exact ⟨leases_next_error hg, fun _ _ _ _ h => h⟩
      have hx := informed_of_guard hgt hg hguard hK
      exact ⟨(hg.effect he hx).learn he, fun _ _ _ _ h => h.effect he hx⟩
    have hne : ∀ x, c ≠ .tx x := fun x h => hc ⟨x, h⟩
    rw [exec_db hne hexec, leases_next_of_ne_tx hne]
    exact ⟨hg, fun _ _ _ _ h => h⟩

theorem leases_logged (cfg : Config) (now : Time) :
    Keeps (machine cfg) heedful leases (Sys.fresh now) (fun _ => True)
      fun w => leases.HoldsAt (fun _ => True) (fun _ g s => g.Sound s.db.view) w ∧ Logged Leased w := by
  refine (leases_local cfg now).keeps.logged ?_ ?_ ?_
  · intro w t g c ch r s sp _ hI hgt hguard hexec hK
    change exec t ch w.st c = some (r, s, sp) at hexec
    have hg := hI.2 t g hgt
    by_cases hc : ∃ x, c = .tx x
    · obtain ⟨x, rfl⟩ := hc
      refine ⟨trivial, fun c' r' h => h.mono fun id hread => ?_⟩
      obtain ⟨-, ⟨e, rfl, rfl⟩ | ⟨a, db, rfl, rfl, he⟩⟩ := exec_tx hexec
      · exact hread
      · exact he.ready (informed_of_guard hgt hg hguard hK) hread
    have hdb := exec_db (fun x h => hc ⟨x, h⟩) hexec
    refine ⟨?_, fun c' r' h => h.mono fun id hread => by rw [hdb]; exact hread⟩
    unfold Leased
    split
    · rw [hdb]
      exact hg.admitted _ hguard
    · trivial
  · exact fun w e s _ _ he _ c r h => h.mono fun id hread => by rw [env_db he]; exact hread
  · exact fun w _ _ _ c r h => h

end Runs

/-! ## Exclusivity -/

def Issued (σ : Conf) (op : Op) : Prop := ∃ t, Entry.call t (.issue op) (Except.ok ()) ∈ σ.log

def Opens (σ : Conf) (expected : OperationKind) (op : Op) : Prop :=
  Issued σ op ∧ Gateway.verifyConnection expected σ.st.db.operationActive [Gateway.identity op] = true

/-- The operations that can open connections hold the worker, so there is at most one, and each connects to the gateway of
its kind. -/
structure GatewayExclusive (σ : Conf) : Prop where
  kind : ∀ expected op, Opens σ expected op → expected = op.kind
  holds : ∀ expected op, Opens σ expected op →
    ∃ q, σ.st.db.queue.table.lookup op = some q ∧ (q.state = .admitting ∨ q.state = .active)
  one : ∀ expected expected' op op', Opens σ expected op → Opens σ expected' op' → op = op'

theorem operationActive_job {db : DB} {id : String} (h : db.operationActive .job id = true) :
    ∃ j, db.view.job id = some j ∧ j.status = .preparing := by
  obtain ⟨j, hj, hs⟩ := (Option.any_eq_true ..).mp h
  exact ⟨j.view, by simp [DB.view, hj], eq_of_beq hs⟩

theorem operationActive_build {db : DB} {id : String} (h : db.operationActive .build id = true) :
    db.view.build id = some .running := by
  obtain ⟨b, hb, hs⟩ := (Option.any_eq_true ..).mp h
  simp [DB.view, hb, eq_of_beq hs]

theorem opens_row {cfg : Config} {now : Time} {σ : Conf} (h : (machine cfg).Reach heedful (Sys.fresh now) σ)
    {expected : OperationKind} {op : Op} (ho : Opens σ expected op) :
    expected = op.kind ∧ ∃ r, σ.st.db.view.row op = some r ∧ (r.state = .admitting ∨ r.state = .active) := by
  obtain ⟨⟨t, hiss⟩, hver⟩ := ho
  obtain ⟨hkind, hactive⟩ := (Gateway.verifyConnection_identity ..).mp hver
  refine ⟨hkind, ?_⟩
  obtain ⟨kind, id⟩ := op
  cases kind with
  | job =>
    have hI := (run_invariant (leases_body cfg) (fun _ _ => trivial) (leases_logged cfg now) h).2
    obtain ⟨r, hr, hread⟩ := hI.2 t _ _ hiss
    obtain ⟨j, hj, hs⟩ := operationActive_job hactive
    exact ⟨r, hr, .inl (hread j hj hs)⟩
  | build =>
    obtain ⟨r, hr, hagree⟩ := (kept_of_reach h).builds id _ (operationActive_build hactive)
    exact ⟨r, hr, .inr (hagree.2.1.mp rfl)⟩

/-- **Exclusive data plane.** In every configuration that the server reaches, the operation whose credentials open connections
is the one that holds the worker. -/
theorem gateway_exclusive {cfg : Config} {σ : Conf} (h : Reaches cfg heedful σ) : GatewayExclusive σ := by
  obtain ⟨now, hreach⟩ := h
  constructor
  · exact fun expected op ho => (opens_row hreach ho).1
  · intro expected op ho
    obtain ⟨-, r, hr, hs⟩ := opens_row hreach ho
    obtain ⟨q, hq, rfl⟩ := view_row_eq_some hr
    exact ⟨q, hq, hs⟩
  intro expected expected' op op' ho ho'
  obtain ⟨-, r, hr, hs⟩ := opens_row hreach ho
  obtain ⟨-, r', hr', hs'⟩ := opens_row hreach ho'
  have hreserved : ∀ {s : OperationState}, s = .admitting ∨ s = .active → s.reserved = true := by
    rintro s (rfl | rfl) <;> rfl
  exact σ.st.db.oneReserved op op' r r' hr hr' (hreserved hs) (hreserved hs')

/-- Whether a credential has been issued for `op` and opens connections at the gateway for its kind. -/
def opens (σ : Conf) (op : Op) : Bool :=
  σ.log.any (fun e => match e with
    | .call _ (.issue op') (Except.ok _) => op' == op
    | _ => false) && σ.st.db.operationActive op.kind op.id

theorem opens_of_test {σ : Conf} {op : Op} (h : opens σ op = true) : Opens σ op.kind op := by
  rw [opens, Bool.and_eq_true, List.any_eq_true] at h
  obtain ⟨⟨e, he, hiss⟩, hactive⟩ := h
  split at hiss
  · cases eq_of_beq hiss
    exact ⟨⟨_, he⟩, (Gateway.verifyConnection_identity ..).mpr ⟨rfl, hactive⟩⟩
  · cases hiss

/-- A job in preparation, whose row is admitting, can connect. -/
theorem gateway_exclusive_prepared : ∃ σ, Reaches sampleConfig heedful σ ∧ Opens σ .job (jobOp "job1") ∧
    GatewayExclusive σ := by
  obtain ⟨σ, hr, hp⟩ := reaches_of_stepsIf sampleConfig (K := heedful) prepared (p := fun σ => opens σ (jobOp "job1"))
    (q := fun w t c r => decide (Heedful w t c r)) (fun _ _ => trivial) (fun _ _ => trivial)
    (fun _ _ _ _ => of_decide_eq_true) (by decide +kernel)
  exact ⟨σ, hr, opens_of_test hp, gateway_exclusive hr⟩

end Autback
