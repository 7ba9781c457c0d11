import Autback.Server.Frames

/-!
# What handlers and reconciler leave alone

The lemmas of `Frames.lean` for the handlers of the API, the reconciler and the goroutines that run them.
-/

namespace Autback

open Conc Ghost

section Frames

variable {G : Type} {γ : Ghost Call Call.Ret Label G} {A : G → Prop}

/-! ## Handlers -/

section Handlers

variable (F : ∀ c, Call.quiet c = true → γ.Still A c)

include F

theorem within_authorizeProject (principal : Principal) (selector : String) :
    γ.Within A (Api.authorizeProject principal selector) :=
  within_mapError (within_quiet F _ rfl)

theorem within_authorizedJob (principal : Principal) (id : String) : γ.Within A (Api.authorizedJob principal id) := by
  refine within_try (within_mapError (within_quiet F _ rfl)) fun job => ?_
  exact within_try (within_authorizeProject F _ _) fun _ => within_ok _

theorem within_authorizedBuild (principal : Principal) (id : String) : γ.Within A (Api.authorizedBuild principal id) := by
  refine within_try (within_mapError (within_quiet F _ rfl)) fun build => ?_
  exact within_try (within_authorizeProject F _ _) fun _ => within_ok _

omit F in
theorem within_ignoring {α : Type} {p : Go Err α} (hp : γ.Within A p) : γ.Within A (Api.ignoring p) :=
  within_try (within_ofProg hp) fun _ => within_ok _

omit F in
theorem safe_ignoring {α : Type} {p : Go Err α} (hp : γ.Within A p) {g : G} (hg : A g) {Q : G → Except ApiError Unit → Prop}
    (hQ : ∀ g', A g' → Q g' (.ok ())) : γ.Safe g (Api.ignoring p) Q :=
  safe_try.mpr (safe_ofProg.mpr ((hp g hg).mono fun g' _ hg' => hQ g' hg'))

variable {id : String} {principal : Principal}

theorem within_refreshRemote (hsync : ∀ remote, γ.Still A (.tx (.syncJob id remote))) (hadvance : γ.Within A advance) :
    γ.Within A (Api.refreshRemote id) := by
  refine within_try (within_quiet F _ rfl) fun remote => ?_
  refine within_try (within_try (within_lift (hsync remote)) fun _ => within_quiet F _ rfl) fun job => ?_
  split
  · exact within_try (within_ofProg hadvance) fun _ => within_ok _
  · exact within_ok _

theorem within_refreshJob {job : Job} (hremote : γ.Within A (Api.refreshRemote job.id)) :
    γ.Within A (Api.refreshJob job) := by
  rw [Api.refreshJob]
  split
  · exact within_ok _
  refine within_try (within_attempt (within_quiet F _ rfl)) fun result => ?_
  split
  · split
    · exact hremote
    · exact within_throw _
  split
  · exact within_ok _
  · exact hremote

theorem within_jobPreparationConnection (hiss : ∀ op, γ.Still A (.issue op)) (job : Job) :
    γ.Within A (Api.jobPreparationConnection job) := by
  rw [Api.jobPreparationConnection]
  split
  · refine within_try (within_mapError (within_quiet F _ rfl)) fun state => ?_
    split
    · exact within_try (within_mapError (within_lift (hiss _))) fun _ => within_ok _
    · exact within_ok _
  · exact within_ok _

theorem within_renewPreparation (job : Job) : γ.Within A (Api.renewPreparation job) := by
  rw [Api.renewPreparation]
  split
  · exact within_mapError (within_quiet F _ rfl)
  · exact within_ok _

variable {cfg : Config}

theorem within_answerPrepared (hrun : γ.Within A (Dispatcher.runOrAdvance cfg .request))
    (hconn : ∀ job, γ.Within A (Api.jobPreparationConnection job)) (id : String) :
    γ.Within A (Api.answerPrepared cfg id) := by
  refine within_try (within_ofProg hrun) fun _ => ?_
  refine within_try (within_mapError (within_quiet F _ rfl)) fun job => ?_
  refine within_try (within_renewPreparation F job) fun _ => ?_
  exact within_try (hconn job) fun _ => within_ok _

theorem within_prepareJob {message : PrepareJobRequest}
    (hcreate : ∀ principal project input, γ.Within A (Api.createJob cfg principal project input message.idempotencyKey)) :
    γ.Within A (Api.prepareJob cfg message) := by
  refine within_try (within_quiet F _ rfl) fun principal => ?_
  refine within_try (within_authorizeProject F _ _) fun project => ?_
  split
  · exact within_throw _
  refine within_try (within_ofExcept _) fun resolved => ?_
  split
  · exact within_throw _
  · exact hcreate _ _ _

theorem within_createJobHandler {project : Project} {input : PrepareJob} {key : String}
    (hcreate : ∀ idempotency, γ.Still A (.tx (.createPreparedJob input idempotency)))
    (hfail : ∀ id message, γ.Still A (.tx (.failJob id message)))
    (hreq : ∀ id, γ.Within A (Coordinator.request (jobOp id))) (hanswer : ∀ id, γ.Within A (Api.answerPrepared cfg id)) :
    γ.Within A (Api.createJob cfg principal project input key) := by
  refine within_try (within_mapError (within_lift (hcreate _))) fun created => ?_
  obtain ⟨job, replayed⟩ := created
  simp only []
  split
  · exact hanswer _
  refine within_try (within_ofProg (within_quiet F _ rfl)) fun result => ?_
  split
  · exact hanswer _
  refine within_try (within_ignoring (within_try (within_lift (hfail _ _)) fun _ => within_quiet F _ rfl)) fun _ => ?_
  exact within_try (within_ignoring (hreq _)) fun _ => within_throw _

theorem within_startJob {rootDigest : String} (hrun : γ.Within A (Dispatcher.runOrAdvance cfg .request))
    (hqueue : ∀ principal id, γ.Within A (Api.queueAndRun cfg principal id rootDigest)) :
    γ.Within A (Api.startJob cfg id rootDigest) := by
  refine within_try (within_quiet F _ rfl) fun principal => ?_
  refine within_try (within_authorizedJob F _ _) fun job => ?_
  split
  · exact within_throw _
  split
  · split
    · exact within_throw _
    · exact within_try (within_ofProg hrun) fun _ => within_ok _
  refine within_try (within_mapError (within_quiet F _ rfl)) fun state => ?_
  split
  · exact within_throw _
  · exact hqueue _ _

theorem within_queueAndRun {rootDigest : String} (hqueue : γ.Still A (.tx (.queueJob id rootDigest)))
    (hrun : γ.Within A (Dispatcher.runOrAdvance cfg .request)) : γ.Within A (Api.queueAndRun cfg principal id rootDigest) := by
  refine within_try (within_mapError (within_try (within_lift hqueue) fun _ => within_quiet F _ rfl)) fun job => ?_
  refine within_try (within_ofProg hrun) fun dispatchErr => ?_
  refine within_try (within_mapError (within_quiet F _ rfl)) fun job => ?_
  split
  · exact within_throw _
  · exact within_try (within_mapError (within_quiet F _ rfl)) fun _ => within_ok _

theorem within_getJob (hremote : ∀ id, γ.Within A (Api.refreshRemote id))
    (hconn : ∀ job, γ.Within A (Api.jobPreparationConnection job)) (id : String) : γ.Within A (Api.getJob id) := by
  refine within_try (within_quiet F _ rfl) fun principal => ?_
  refine within_try (within_authorizedJob F _ _) fun job => ?_
  refine within_try (within_mapError (within_refreshJob F (hremote _))) fun job => ?_
  refine within_try (within_renewPreparation F job) fun _ => ?_
  exact within_try (hconn job) fun _ => within_ok _

theorem within_refreshEach (hremote : ∀ id, γ.Within A (Api.refreshRemote id)) :
    ∀ jobs, γ.Within A (Api.refreshEach jobs)
  | [] => within_ok _
  | job :: jobs => by
    refine within_try (within_ofProg (within_refreshJob F (hremote _))) fun refreshed => ?_
    refine within_try (within_refreshEach hremote jobs) fun rest => ?_
    split <;> exact within_ok _

theorem within_listJobs (hremote : ∀ id, γ.Within A (Api.refreshRemote id)) (project : String) (pageSize limit : Int)
    (cursor : Option JobCursor) : γ.Within A (Api.listJobs project pageSize limit cursor) := by
  refine within_try (within_quiet F _ rfl) fun principal => ?_
  refine within_try (within_authorizeProject F _ _) fun project => ?_
  extract_lets size
  split
  · exact within_throw _
  refine within_try (within_mapError (within_quiet F _ rfl)) fun page => ?_
  exact within_try (within_refreshEach F hremote _) fun _ => within_ok _

theorem within_cancelJob (hcancel : ∀ principal id state, γ.Within A (Api.cancelInState cfg principal id state))
    (id : String) : γ.Within A (Api.cancelJob cfg id) := by
  refine within_try (within_quiet F _ rfl) fun principal => ?_
  refine within_try (within_authorizedJob F _ _) fun job => ?_
  split
  · exact within_ok _
  refine within_try (within_ofProg (within_quiet F _ rfl)) fun result => ?_
  split
  · exact hcancel _ _ _
  split
  · exact hcancel _ _ _
  · exact within_throw _

omit F in
theorem within_afterCancel {job : Option Job} {state : Option OperationState}
    (hreq : ∀ id, γ.Within A (Coordinator.request (jobOp id))) (hrun : γ.Within A (Dispatcher.runOnce cfg .request))
    (haud : ∀ projectID id, γ.Still A (.tx (.audit principal projectID "job.cancel" id none))) :
    γ.Within A (Api.afterCancel cfg principal job state) := by
  rw [Api.afterCancel]
  split
  · refine within_try (within_mapError (hreq _)) fun _ => ?_
    exact within_try (within_mapError (within_lift (haud _ _))) fun _ => within_ok _
  refine within_try (within_ignoring hrun) fun _ => ?_
  exact within_try (within_mapError (within_lift (haud _ _))) fun _ => within_ok _

theorem within_refreshOrZero {job : Job} (hremote : γ.Within A (Api.refreshRemote job.id)) :
    γ.Within A (Api.refreshOrZero job) := by
  refine within_try (within_ofProg (within_refreshJob F hremote)) fun result => ?_
  split <;> exact within_ok _

theorem within_cancelInState {state : Option OperationState} (hcancel : γ.Still A (.cancel id))
    (hreq : γ.Still A (.tx (.requestJobCancellation id))) (hremote : ∀ id, γ.Within A (Api.refreshRemote id))
    (hafter : ∀ job, γ.Within A (Api.afterCancel cfg principal job state)) :
    γ.Within A (Api.cancelInState cfg principal id state) := by
  have hbody : γ.Within A (Api.requestCancel cfg principal id state) := by
    refine within_try (within_mapError (within_try (within_lift hreq) fun _ => within_quiet F _ rfl)) fun job => ?_
    split
    · exact within_try (within_refreshOrZero F (hremote _)) fun _ => hafter _
    · exact hafter _
  rw [Api.cancelInState]
  split
  · exact within_try (within_mapError (within_lift hcancel)) fun _ => hbody
  · exact hbody

/-- `StreamJobLogs` up to the wait for the job. -/
theorem within_openLogs (id : String) (offset : Int) : γ.Within A (Api.openLogs id offset) := by
  rw [Api.openLogs]
  split
  · exact within_throw _
  refine within_try (within_quiet F _ rfl) fun principal => ?_
  refine within_try (within_authorizedJob F _ _) fun job => ?_
  split
  · exact within_ok _
  split
  · refine within_try (within_ofProg (within_quiet F _ rfl)) fun result => ?_
    split
    · exact within_ok _
    refine within_try (within_ofProg (within_quiet F _ rfl)) fun ended => ?_
    split
    · exact within_ok _
    · exact within_throw _
  · exact within_ok _

omit F in
theorem within_answer (hrespond : ∀ r result, γ.Still A (.respond r result)) (r : Request)
    (result : Except ApiError Reply) : γ.Within A (Api.answer r result) :=
  within_bind (within_lift (hrespond r result)) fun _ => within_pure _

variable (hrespond : ∀ r result, γ.Still A (.respond r result))

include hrespond

theorem within_streamJobLogs (id : String) (offset : Int) : γ.Within A (Api.streamJobLogs id offset) := by
  refine within_bind (within_openLogs F id offset) fun result => ?_
  split
  · exact within_answer hrespond _ _
  split
  · exact within_pure _
  · exact within_answer hrespond _ _

variable (hremote : ∀ id, γ.Within A (Api.refreshRemote id))

include hremote

theorem within_awaitActive (offset : Int) (job : Job) : γ.Within A (Api.awaitActive offset job) := by
  have hrefresh : γ.Within A (Api.awaitRefresh offset job) := by
    refine within_bind (within_refreshJob F (hremote _)) fun result => ?_
    split
    · exact within_answer hrespond _ _
    split
    · exact within_answer hrespond _ _
    refine within_bind (within_quiet F _ rfl) fun elapsed => ?_
    cases elapsed with
    | true => exact within_pure _
    | false => exact within_answer hrespond _ _
  refine within_bind (within_quiet F _ rfl) fun result => ?_
  split
  · split
    · exact within_pure _
    · exact hrefresh
  split
  · exact hrefresh
  · exact within_answer hrespond _ _

theorem within_poll (offset : Int) (job : Job) (following : Bool) : γ.Within A (Api.poll offset job following) := by
  refine within_bind (within_refreshJob F (hremote _)) fun result => ?_
  split
  · exact within_answer hrespond _ _
  split
  · exact within_answer hrespond _ _
  refine within_bind (within_quiet F _ rfl) fun w => ?_
  rw [Api.pollWakeup.eq_def]
  split
  · exact within_answer hrespond _ _
  · exact within_pure _
  · exact within_pure _
  · refine within_bind (within_quiet F _ rfl) fun ended => ?_
    cases ended with
    | true => exact within_pure _
    | false => exact within_answer hrespond _ _

end Handlers

/-! ## Handlers of builds -/

section Builds

variable (F : ∀ c, Call.quiet c = true → γ.Still A c) {cfg : Config}

include F

omit F in
theorem within_buildConnection {build : Build} {failed : Go ApiError Unit} (hiss : γ.Still A (.issue (buildOp build.id)))
    (hfail : γ.Within A failed) : γ.Within A (Api.buildConnection build failed) := by
  rw [Api.buildConnection]
  split
  · refine within_try (within_ofProg (within_lift hiss)) fun result => ?_
    split
    · exact within_ok _
    · exact within_try hfail fun _ => within_throw _
  · exact within_ok _

theorem within_abandonBuild {id : String} (hfin : γ.Still A (.tx (.finishBuild id .failed 1)))
    (hadvance : γ.Within A advance) : γ.Within A (Api.abandonBuild id) := by
  refine within_try (within_ignoring (within_try (within_lift hfin) fun _ => within_quiet F _ rfl)) fun _ => ?_
  exact within_ofProg hadvance

theorem within_answerBuild (hrun : γ.Within A (Dispatcher.runOrAdvance cfg .request))
    (hiss : ∀ id, γ.Still A (.issue (buildOp id))) (haban : ∀ id, γ.Within A (Api.abandonBuild id)) (id : String) :
    γ.Within A (Api.answerBuild cfg id) := by
  refine within_try (within_ofProg hrun) fun _ => ?_
  refine within_try (within_mapError (within_quiet F _ rfl)) fun build => ?_
  exact within_buildConnection (hiss _) (haban _)

theorem within_prepareBuild {key : String}
    (hcreate : ∀ principal project, γ.Within A (Api.createBuild cfg principal project key)) (project : String)
    (capabilities : List String) (version : String) :
    γ.Within A (Api.prepareBuild cfg project key capabilities version) := by
  refine within_try (within_quiet F _ rfl) fun principal => ?_
  refine within_try (within_authorizeProject F _ _) fun project => ?_
  split
  · exact within_throw _
  split
  · exact within_throw _
  · exact hcreate _ _

theorem within_createBuildHandler {principal : Principal} {project : Project} {key : String}
    (hcreate : ∀ idempotency, γ.Still A (.tx (.createBuild project.id idempotency)))
    (hfin : ∀ id, γ.Still A (.tx (.finishBuild id .failed 1)))
    (hanswer : ∀ id, γ.Within A (Api.answerBuild cfg id)) :
    γ.Within A (Api.createBuild cfg principal project key) := by
  refine within_try (within_mapError (within_lift (hcreate _))) fun created => ?_
  obtain ⟨build, replayed⟩ := created
  simp only []
  split
  · exact hanswer _
  refine within_try (within_ofProg (within_quiet F _ rfl)) fun result => ?_
  split
  · exact hanswer _
  refine within_try (within_ignoring (within_try (within_lift (hfin _)) fun _ => within_quiet F _ rfl)) fun _ => ?_
  exact within_throw _

theorem within_getBuild (hiss : ∀ id, γ.Still A (.issue (buildOp id))) (id : String) :
    γ.Within A (Api.getBuild id) := by
  refine within_try (within_quiet F _ rfl) fun principal => ?_
  refine within_try (within_authorizedBuild F _ _) fun build => ?_
  split
  · refine within_try (within_mapError (within_quiet F _ rfl)) fun _ => ?_
    exact within_buildConnection (hiss _) (within_ok _)
  · exact within_ok _

theorem within_endBuild {principal : Principal} {id : String} {status : BuildStatus} {exitCode : Int} {action : String}
    {metadata : Option (List (String × String))} (hfin : γ.Still A (.tx (.finishBuild id status exitCode)))
    (hadvance : γ.Within A advance)
    (haud : ∀ projectID id, γ.Still A (.tx (.audit principal projectID action id metadata))) :
    γ.Within A (Api.endBuild principal id status exitCode action metadata) := by
  refine within_try (within_mapError (within_try (within_lift hfin) fun _ => within_quiet F _ rfl)) fun build => ?_
  refine within_try (within_mapError (within_lift (haud _ _))) fun _ => ?_
  exact within_try (within_ofProg hadvance) fun _ => within_ok _

theorem within_cancelBuild
    (hend : ∀ principal id, γ.Within A (Api.endBuild principal id .cancelled 130 "build.cancel" none)) (id : String) :
    γ.Within A (Api.cancelBuild id) := by
  refine within_try (within_quiet F _ rfl) fun principal => ?_
  refine within_try (within_authorizedBuild F _ _) fun build => ?_
  split
  · exact within_ok _
  · exact hend _ _

theorem within_finishBuild
    (hend : ∀ principal id status exitCode metadata,
      γ.Within A (Api.endBuild principal id status exitCode "build.finish" metadata))
    (id : String) (exitCode : Int) (cancelled : Bool) : γ.Within A (Api.finishBuild id exitCode cancelled) := by
  refine within_try (within_quiet F _ rfl) fun principal => ?_
  refine within_try (within_authorizedBuild F _ _) fun build => ?_
  split
  · exact within_throw _
  · exact hend _ _ _ _ _

end Builds

structure HandlerParts (γ : Ghost Call Call.Ret Label G) (A : G → Prop) (cfg : Config) : Prop where
  quiet : ∀ c, Call.quiet c = true → γ.Still A c
  respond : ∀ r result, γ.Still A (.respond r result)
  run : γ.Within A (Dispatcher.runOrAdvance cfg .request)
  createJob : ∀ principal project input key, γ.Within A (Api.createJob cfg principal project input key)
  queueAndRun : ∀ principal id rootDigest, γ.Within A (Api.queueAndRun cfg principal id rootDigest)
  getJob : ∀ id, γ.Within A (Api.getJob id)
  listJobs : ∀ project pageSize limit cursor, γ.Within A (Api.listJobs project pageSize limit cursor)
  cancelJob : ∀ id, γ.Within A (Api.cancelJob cfg id)
  createBuild : ∀ principal project key, γ.Within A (Api.createBuild cfg principal project key)
  getBuild : ∀ id, γ.Within A (Api.getBuild id)
  endBuild : ∀ principal id status exitCode action metadata,
    γ.Within A (Api.endBuild principal id status exitCode action metadata)

/-- What handlers do themselves beside the quiet calls. -/
def Call.handling : Call → Bool
  | .coordinatorAdvance | .dispatcherAdvance | .issue _ | .cancel _ | .respond _ _ | .tx (.createPreparedJob _ _)
  | .tx (.queueJob _ _) | .tx (.failJob _ _) | .tx (.requestJobCancellation _) | .tx (.createBuild _ _)
  | .tx (.finishBuild _ _ _) | .tx (.audit _ _ _ _ _) => true
  | _ => false

theorem handlerParts {cfg : Config} (F : ∀ c, Call.quiet c = true → γ.Still A c) (H : ∀ c, Call.handling c = true → γ.Still A c)
    (hrun : γ.Within A (Dispatcher.runOnce cfg .request)) (hreq : ∀ id, γ.Within A (Coordinator.request (jobOp id)))
    (hremote : ∀ id, γ.Within A (Api.refreshRemote id)) : HandlerParts γ A cfg :=
  have hadvance : γ.Within A advance := within_advance F (H _ rfl) (H _ rfl)
  have hrun' := within_runOrAdvance hrun hadvance
  have hconn := within_jobPreparationConnection F fun op => H (.issue op) rfl
  { quiet := F
    respond := fun _ _ => H _ rfl
    run := hrun'
    createJob := fun _ _ _ _ => within_createJobHandler F (fun _ => H _ rfl) (fun _ _ => H _ rfl) hreq
      (within_answerPrepared F hrun' hconn)
    queueAndRun := fun _ _ _ => within_queueAndRun F (H _ rfl) hrun'
    getJob := within_getJob F hremote hconn
    listJobs := within_listJobs F hremote
    cancelJob := within_cancelJob F fun _ _ _ => within_cancelInState F (H _ rfl) (H _ rfl) hremote fun _ =>
      within_afterCancel hreq hrun fun _ _ => H _ rfl
    createBuild := fun _ _ _ => within_createBuildHandler F (fun _ => H _ rfl) (fun _ => H _ rfl)
      (within_answerBuild F hrun' (fun _ => H _ rfl) fun _ => within_abandonBuild F (H _ rfl) hadvance)
    getBuild := within_getBuild F fun _ => H _ rfl
    endBuild := fun _ _ _ _ _ _ => within_endBuild F (H _ rfl) hadvance fun _ _ => H _ rfl }

theorem safe_respond (hrespond : ∀ r result, γ.Still A (.respond r result)) {p : Go ApiError Reply} (hp : γ.Within A p)
    {E : G → Option Label → Prop} (hE : ∀ g, A g → E g none) {g : G} (hg : A g) (r : Request) :
    γ.Safe g (Api.respond r p) E := by
  refine safe_bind.mpr ((hp g hg).mono fun g' result hg' => safe_bind.mpr ?_)
  exact ((within_lift (hrespond r result)) g' hg').mono fun g'' _ hg'' => hE g'' hg''

theorem safe_handle {cfg : Config} (P : HandlerParts γ A cfg) {E : G → Option Label → Prop} (hE : ∀ g, A g → E g none)
    (hlogs : ∀ id offset g, A g → γ.Safe g (Api.streamJobLogs id offset) E) {g : G} (hg : A g) (r : Request) :
    γ.Safe g (Api.handle cfg r) E := by
  cases r with
  | prepareJob message =>
    exact safe_respond P.respond (within_prepareJob P.quiet fun _ _ _ => P.createJob _ _ _ _) hE hg _
  | startJob id rootDigest =>
    exact safe_respond P.respond (within_startJob P.quiet P.run fun _ _ => P.queueAndRun _ _ _) hE hg _
  | getJob id => exact safe_respond P.respond (P.getJob id) hE hg _
  | listJobs project pageSize limit cursor =>
    exact safe_respond P.respond (P.listJobs project pageSize limit cursor) hE hg _
  | cancelJob id => exact safe_respond P.respond (P.cancelJob id) hE hg _
  | streamJobLogs id offset => exact hlogs id offset g hg
  | prepareBuild project key capabilities version =>
    exact safe_respond P.respond
      (within_prepareBuild P.quiet (fun _ _ => P.createBuild _ _ _) project capabilities version) hE hg _
  | getBuild id => exact safe_respond P.respond (P.getBuild id) hE hg _
  | cancelBuild id =>
    exact safe_respond P.respond (within_cancelBuild P.quiet (fun _ _ => P.endBuild _ _ _ _ _ _) id) hE hg _
  | finishBuild id exitCode cancelled =>
    exact safe_respond P.respond
      (within_finishBuild P.quiet (fun _ _ _ _ _ => P.endBuild _ _ _ _ _ _) id exitCode cancelled) hE hg _

theorem within_handle {cfg : Config} (P : HandlerParts γ A cfg) (r : Request) : γ.Within A (Api.handle cfg r) :=
  fun _ hg => safe_handle P (fun _ h => h) (fun id offset => within_streamJobLogs P.quiet P.respond id offset) hg r

/-! ## Reconciler -/

section Reconciler

variable (F : ∀ c, Call.quiet c = true → γ.Still A c) {cfg : Config}

variable {α : Type} {id : String} {remote : RemoteJob} {now : Time}

theorem within_forEach {f : α → Srv Unit} : ∀ {as : List α}, (∀ a ∈ as, γ.Within A (f a)) → γ.Within A (Reconciler.forEach f as)
  | [], _ => within_pure _
  | a :: _, hf => within_bind (hf a (List.mem_cons_self ..)) fun _ =>
    within_forEach fun a' ha => hf a' (List.mem_cons_of_mem _ ha)

theorem within_reported {p : Go Err Unit} (hp : γ.Within A p) : γ.Within A (Reconciler.reported p) :=
  within_bind hp fun _ => within_pure _

theorem within_listed {p : Go Err (List α)} (hp : γ.Within A p) : γ.Within A (Reconciler.listed p) := by
  refine within_bind hp fun result => ?_
  split <;> exact within_pure _

theorem safe_listed {g : G} {p : Go Err (List α)} {Q : G → List α → Prop}
    (h : γ.Safe g p fun g' r => match r with | .ok as => Q g' as | .error _ => Q g' []) : γ.Safe g (Reconciler.listed p) Q := by
  refine safe_bind.mpr (h.mono ?_)
  rintro g' (e | as) h <;> exact h

theorem safe_listManaged {g : G} {Q : G → Option (List RuntimeJob) → Prop} (hguard : γ.guard g .managedJobs)
    (herr : ∀ e, γ.fact g .managedJobs (Except.error e) → Q (γ.next g .managedJobs (Except.error e)) none)
    (hok : ∀ l, γ.fact g .managedJobs (Except.ok l) → Q (γ.next g .managedJobs (Except.ok l)) (some l)) :
    γ.Safe g Reconciler.listManaged Q := by
  refine ⟨hguard, fun r hr => ?_⟩
  rcases r with e | l
  · exact herr e hr
  · exact hok l hr

section Transactions

variable (T : ∀ x, Tx.quiet x = true → γ.Still A (.tx x))

include T

theorem within_expirePreparation (hreq : ∀ id, γ.Still A (.tx (.requestJobCancellation id)))
    (hrel : ∀ id, γ.Within A (Coordinator.request (jobOp id))) (job : Job) :
    γ.Within A (Reconciler.expirePreparation job) := by
  refine within_bind (within_try (within_lift (hreq _)) fun _ => within_lift (T _ rfl)) fun result => ?_
  split
  · exact within_pure _
  · exact within_reported (hrel _)

theorem within_expireBuild (hfin : ∀ id, γ.Still A (.tx (.finishBuild id .cancelled 130)))
    (hrel : ∀ id, γ.Within A (Coordinator.request (buildOp id))) (build : Build) :
    γ.Within A (Reconciler.expireBuild build) := by
  refine within_bind (within_try (within_lift (hfin _)) fun _ => within_lift (T _ rfl)) fun result => ?_
  split
  · exact within_pure _
  · exact within_reported (hrel _)

theorem within_syncAndRelease (hsync : γ.Still A (.tx (.syncJob id remote)))
    (hrel : γ.Within A (Coordinator.request (jobOp id))) : γ.Within A (Reconciler.syncAndRelease id remote) := by
  refine within_bind (within_try (within_lift hsync) fun _ => within_lift (T _ rfl)) fun result => ?_
  split
  · exact within_pure _
  split
  · exact within_reported hrel
  · exact within_pure _

theorem within_syncMissing (hsync : γ.Within A (Reconciler.syncAndRelease id (Reconciler.lostJob id now))) :
    γ.Within A (Reconciler.syncMissing cfg now id) := by
  refine within_bind (within_lift (T _ rfl)) fun result => ?_
  split
  · split
    · exact hsync
    · exact within_pure _
  split
  · exact within_pure _
  · exact hsync

theorem within_syncPresent (hactive : γ.Still A (.tx (.activateOperation (jobOp id))))
    (hsync : γ.Within A (Reconciler.syncAndRelease id remote)) : γ.Within A (Reconciler.syncPresent id remote) := by
  refine within_bind (within_lift (T _ rfl)) fun result => ?_
  split
  · split
    · exact hsync
    · exact within_pure _
  split
  · refine within_bind (within_lift hactive) fun result => ?_
    split
    · exact within_pure _
    · exact hsync
  · exact hsync

theorem within_expireLeases (hprepare : ∀ job, γ.Within A (Reconciler.expirePreparation job))
    (hbuild : ∀ build, γ.Within A (Reconciler.expireBuild build)) (now : Time) :
    γ.Within A (Reconciler.expireLeases cfg now) := by
  refine within_bind (within_listed (within_lift (T _ rfl))) fun stalePreparations => ?_
  refine within_bind (within_forEach fun job _ => hprepare job) fun _ => ?_
  refine within_bind (within_listed (within_lift (T _ rfl))) fun staleBuilds => ?_
  exact within_forEach fun build _ => hbuild build

end Transactions

theorem within_syncScheduled {managed : Option (List RuntimeJob)} {job : Job}
    (hmiss : γ.Within A (Reconciler.syncMissing cfg now job.id))
    (hpres : ∀ remote, (∃ l, managed = some l ∧ Reconciler.remoteByID l job.id = some remote) → γ.Within A
      (Reconciler.syncPresent job.id remote)) :
    γ.Within A (Reconciler.syncScheduled cfg now managed job) := by
  rw [Reconciler.syncScheduled.eq_def]
  split
  · exact within_pure _
  split
  · exact within_pure _
  split
  · exact hmiss
  rename_i l _ _ remote h
  exact hpres remote ⟨l, rfl, h⟩

theorem within_retireManaged (hjob : ∀ id, γ.Still A (.tx (.job id))) (hrem : ∀ id, γ.Still A (.remove id)) (now : Time)
    (r : RuntimeJob) :
    γ.Within A (Reconciler.retireManaged cfg now r) := by
  have hret : ∀ remote stored, γ.Within A (Reconciler.retire cfg now remote stored) := by
    intro remote stored
    rw [Reconciler.retire]
    split
    · exact within_pure _
    · exact within_reported (within_lift (hrem _))
  rw [Reconciler.retireManaged]
  split
  · exact within_pure _
  refine within_bind (within_lift (hjob _)) fun result => ?_
  split
  · split
    · exact hret _ _
    · exact within_pure _
  split
  · exact hret _ _
  · exact within_pure _

include F

theorem within_listManaged : γ.Within A Reconciler.listManaged := by
  refine within_bind (within_quiet F _ rfl) fun managed => ?_
  split <;> exact within_pure _

theorem within_syncServices {scheduled : List Job} {managed : Option (List RuntimeJob)}
    (hsync : ∀ job ∈ scheduled, γ.Within A (Reconciler.syncScheduled cfg now managed job))
    (hrem : ∀ id, γ.Still A (.remove id)) : γ.Within A (Reconciler.syncServices cfg now scheduled managed) :=
  within_bind (within_forEach hsync) fun _ => within_forEach fun r _ => within_retireManaged (fun _ => F _ rfl) hrem now r

theorem within_reconcilerRun (hprepare : ∀ job, γ.Within A (Reconciler.expirePreparation job))
    (hbuild : ∀ build, γ.Within A (Reconciler.expireBuild build))
    (hactive : ∀ op, γ.Still A (.tx (.activateOperation op)))
    (hsync : ∀ id remote, γ.Within A (Reconciler.syncAndRelease id remote))
    (hrem : ∀ id, γ.Still A (.remove id)) : γ.Within A (reconcilerRun cfg) := by
  refine within_bind ?_ fun _ => within_pure _
  refine within_bind (within_quiet F _ rfl) fun now => ?_
  refine within_bind (within_expireLeases (quiet_tx F) hprepare hbuild now) fun _ => ?_
  refine within_bind (within_listed (within_quiet F _ rfl)) fun scheduled => ?_
  refine within_bind (within_listManaged F) fun managed => ?_
  exact within_syncServices F (fun job _ => within_syncScheduled (within_syncMissing (quiet_tx F) (hsync _ _)) fun remote _ =>
    within_syncPresent (quiet_tx F) (hactive _) (hsync _ remote)) hrem

omit F in
theorem remoteByID_mem {l : List RuntimeJob} (h : Reconciler.remoteByID l id = some remote) :
    ∃ e ∈ l, e.job = .ok remote ∧ remote.id = id := by
  obtain ⟨e, he, hjob⟩ := List.exists_of_findSome?_eq_some h
  refine ⟨e, List.mem_reverse.mp he, ?_⟩
  cases hr : e.job with
  | error err => simp [hr] at hjob
  | ok remote' =>
    simp only [hr, Option.ite_none_right_eq_some, Option.some.injEq] at hjob
    obtain ⟨hid, rfl⟩ := hjob
    exact ⟨rfl, hid⟩

omit F in
/-- A pass of the reconciler with a ghost that learns from the list of scheduled jobs (`A ids` after a list of the jobs `ids`)
and for which the runtime reports no job as preparing. -/
theorem within_reconcilerRun_listed {A : List String → G → Prop} (F : ∀ ids c, Call.quiet c = true → γ.Still (A ids) c)
    (hweak : ∀ ids g, A ids g → A [] g)
    (hlisted : ∀ g (jobs : List Job), A [] g → A (jobs.map Job.id) (γ.next g (.tx .scheduledJobs) (Except.ok jobs)))
    (hmanifest : ∀ g l, γ.fact g .managedJobs (Except.ok l) →
      ∀ e ∈ l, ∀ remote, e.job = .ok remote → remote.status ≠ .preparing)
    (hprepare : ∀ job, γ.Within (A []) (Reconciler.expirePreparation job))
    (hbuild : ∀ build, γ.Within (A []) (Reconciler.expireBuild build))
    (hmiss : ∀ ids now id, γ.Within (A ids) (Reconciler.syncMissing cfg now id))
    (hpres : ∀ (ids : List String) (id : String) (remote : RemoteJob), id ∈ ids → remote.status ≠ .preparing →
      γ.Within (A ids) (Reconciler.syncPresent id remote))
    (hrem : ∀ ids id, γ.Still (A ids) (.remove id)) : γ.Within (A []) (reconcilerRun cfg) := by
  have hservice : ∀ (now : Time) (scheduled : List Job) (managed : Option (List RuntimeJob)),
      (∀ l, managed = some l → ∀ e ∈ l, ∀ remote, e.job = .ok remote → remote.status ≠ .preparing) →
      γ.Within (A (scheduled.map Job.id)) (Reconciler.syncServices cfg now scheduled managed) := by
    intro now scheduled managed hm
    refine within_syncServices (F _) (fun job hjob => ?_) (hrem _)
    refine within_syncScheduled (hmiss _ now job.id) fun remote h => ?_
    obtain ⟨l, rfl, hremote⟩ := h
    obtain ⟨e, he, hjob', -⟩ := remoteByID_mem hremote
    exact hpres _ _ remote (List.mem_map_of_mem hjob) (hm l rfl e he remote hjob')
  have hlist : ∀ (now : Time) (scheduled : List Job) (g : G), A (scheduled.map Job.id) g →
      γ.Safe g (Reconciler.listManaged >>= fun managed => Reconciler.syncServices cfg now scheduled managed)
        fun g' _ => A [] g' := by
    intro now scheduled g hg
    have hstill := F _ .managedJobs rfl g hg
    refine safe_bind.mpr (safe_listManaged hstill.1 (fun e he => ?_) fun l hl => ?_)
    · exact (hservice now scheduled none (nofun) _ (hstill.2 _ he)).mono fun _ _ h => hweak _ _ h
    refine (hservice now scheduled (some l) (fun l' h => ?_) _ (hstill.2 _ hl)).mono fun _ _ h => hweak _ _ h
    cases h
    exact hmanifest g l hl
  refine within_bind ?_ fun _ => within_pure _
  refine within_bind (within_quiet (F []) _ rfl) fun now => ?_
  refine within_bind (within_expireLeases (quiet_tx (F [])) hprepare hbuild now) fun _ => ?_
  intro g hg
  have hstill := F [] (.tx .scheduledJobs) rfl g hg
  refine safe_bind.mpr (safe_listed ⟨hstill.1, fun r hr => ?_⟩)
  rcases r with e | scheduled
  · exact hlist now [] _ (hstill.2 _ hr)
  · exact hlist now scheduled _ (hlisted g scheduled hg)

end Reconciler

/-! ## Goroutines -/

section Goroutines

variable {cfg : Config}

theorem within_serverMain (hboot : γ.Still A .boot) (hreconcile : γ.Still A (.go .reconcilerRun))
    (hcap : γ.Still A (.go .capacityWait)) (hservice : γ.Still A .serve)
    (hmain : γ.Within A (Controller.maintain cfg.policy cfg.dryRun .process .manual))
    (hadvance : γ.Within A advance) : γ.Within A (serverMain cfg) := by
  refine within_bind (within_lift hboot) fun new => ?_
  cases new with
  | false => exact within_pure _
  | true =>
    refine within_bind hmain fun _ => ?_
    refine within_bind hadvance fun _ => ?_
    refine within_bind (within_lift hreconcile) fun _ => ?_
    refine within_bind (within_lift hcap) fun _ => ?_
    exact within_bind (within_lift hservice) fun _ => within_pure _

theorem within_shutdown (hdispatcher : γ.Still A .drainDispatcher) (hcoordinator : γ.Still A .drainCoordinator)
    (hstop : γ.Still A .stopProcess) : γ.Within A shutdown := by
  refine within_bind (within_lift hdispatcher) fun _ => ?_
  refine within_bind (within_lift hcoordinator) fun _ => ?_
  exact within_bind (within_lift hstop) fun _ => within_pure _

theorem within_reconcilerWait (F : ∀ c, Call.quiet c = true → γ.Still A c) : γ.Within A reconcilerWait := by
  refine within_bind (within_quiet F _ rfl) fun elapsed => ?_
  cases elapsed <;> exact within_pure _

theorem within_capacityWait (F : ∀ c, Call.quiet c = true → γ.Still A c) : γ.Within A capacityWait := by
  refine within_bind (within_quiet F _ rfl) fun trigger => ?_
  cases trigger <;> exact within_pure _

theorem within_capacityRun {trigger : Trigger}
    (hmain : γ.Within A (Controller.maintain cfg.policy cfg.dryRun .process trigger)) :
    γ.Within A (capacityRun cfg trigger) :=
  within_bind hmain fun _ => within_pure _

theorem within_maintainCommand {dryRun : Bool}
    (hmain : γ.Within A (Controller.maintain cfg.policy dryRun .background .manual)) :
    γ.Within A (maintainCommand cfg dryRun) :=
  within_bind hmain fun _ => within_pure _

/-- The calls that goroutines make for themselves: at their start, between rounds, at the shutdown. -/
def Call.background : Call → Bool
  | .boot | .go .reconcilerRun | .go .capacityWait | .serve | .dispatcherBegin | .dispatcherEnd | .dispatcherFinish | .retryDelay
  | .coordinatorBegin | .coordinatorEnd | .coordinatorFinish | .drainDispatcher | .drainCoordinator | .stopProcess => true
  | _ => false

/-- What the goroutines in the background consist of. -/
structure BackgroundParts (γ : Ghost Call Call.Ret Label G) (A : G → Prop) (cfg : Config) : Prop where
  background : ∀ c, Call.background c = true → γ.Still A c
  advance : γ.Within A advance
  maintain : ∀ dryRun scope trigger, γ.Within A (Controller.maintain cfg.policy dryRun scope trigger)
  dispatcher : γ.Within A (Dispatcher.runOnce cfg .process)
  coordinator : γ.Within A (Coordinator.runOnce .process)

def Label.dryRun (cfg : Config) : Label → Bool
  | .maintain dryRun => dryRun
  | _ => cfg.dryRun

def Label.serves : Label → Bool
  | .request _ | .awaitActive _ _ | .poll _ _ _ => true
  | _ => false

/-- The goroutines that serve no request. -/
theorem within_background {l : Label} (F : ∀ c, Call.quiet c = true → γ.Still A c)
    (hcall : ∀ c, Call.background c = true → γ.Still A c) (hadvance : γ.Within A advance)
    (hmain : ∀ scope trigger, γ.Within A (Controller.maintain cfg.policy (l.dryRun cfg) scope trigger))
    (hdispatcher : l = .dispatcher → γ.Within A (Dispatcher.runOnce cfg .process))
      (hcoordinator : γ.Within A (Coordinator.runOnce .process))
    (hreconcile : l = .reconcilerRun → γ.Within A (reconcilerRun cfg)) (hl : l.serves = false) : γ.Within A (body cfg l) := by
  cases l with
  | main => exact within_serverMain (hcall _ rfl) (hcall _ rfl) (hcall _ rfl) (hcall _ rfl) (hmain _ _) hadvance
  | dispatcher => exact within_dispatcherRound F (hcall _ rfl) (hcall _ rfl) (hcall _ rfl) (hcall _ rfl) (hdispatcher rfl)
  | coordinator => exact within_coordinatorRound F (hcall _ rfl) (hcall _ rfl) (hcall _ rfl) hcoordinator
  | reconcilerWait => exact within_reconcilerWait F
  | reconcilerRun => exact hreconcile rfl
  | capacityWait => exact within_capacityWait F
  | capacityRun trigger => exact within_capacityRun (hmain _ _)
  | maintain dryRun => exact within_maintainCommand (hmain _ _)
  | shutdown => exact within_shutdown (hcall _ rfl) (hcall _ rfl) (hcall _ rfl)
  | _ => cases hl

theorem within_body (P : HandlerParts γ A cfg) (B : BackgroundParts γ A cfg) (hremote : ∀ id, γ.Within A (Api.refreshRemote id))
    {l : Label} (hreconcile : l = .reconcilerRun → γ.Within A (reconcilerRun cfg)) : γ.Within A (body cfg l) := by
  cases l with
  | request r => exact within_handle P r
  | awaitActive offset job => exact within_awaitActive P.quiet P.respond hremote offset job
  | poll offset job following => exact within_poll P.quiet P.respond hremote offset job following
  | _ =>
    exact within_background P.quiet B.background B.advance (B.maintain _) (fun _ => B.dispatcher) B.coordinator hreconcile rfl

end Goroutines

end Frames

end Autback
