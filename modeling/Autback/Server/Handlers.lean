import Autback.Server.Dispatcher

/-!
# The handlers of the control API

The handlers of `internal/control/controlapi/server.go` that create, start, read, cancel and finish jobs and builds. Each
runs in the context of its request, which may end at any call.
-/

namespace Autback

open Conc (Fallible)

namespace Api

def connectError (e : Err) : ApiError :=
  if e.is .unauthenticated then ⟨.unauthenticated, "unauthenticated"⟩
  else if e.is .forbidden then ⟨.permissionDenied, "forbidden"⟩
  else if e.is .notFound then ⟨.notFound, Err.notFound.text⟩
  else if e.is .alreadyExists then ⟨.alreadyExists, "already exists"⟩
  else if e.is .idempotencyConflict then ⟨.alreadyExists, Err.idempotencyConflict.text⟩
  else if e.is .invalidPageToken then ⟨.invalidArgument, "invalid page token"⟩
  else ⟨.internal, "internal autback error"⟩

/-- Code whose error the handler returns through `connectError`. -/
def api {α : Type} (p : Go Err α) : Go ApiError α := Fallible.mapError connectError p

def unavailable {α : Type} (p : Go Err α) : Go ApiError α := Fallible.mapError (fun e => ⟨.unavailable, e.text⟩) p

def ignoring {α : Type} (p : Go Err α) : Go ApiError Unit := do
  let _ ← always p
  pure ()

def authenticate : Go ApiError Principal := perform .authenticate

def authorizeProject (principal : Principal) (selector : String) : Go ApiError Project :=
  api (perform (.authorizeProject principal selector))

def authorizedJob (principal : Principal) (id : String) : Go ApiError Job := do
  let job ← api (Store.job id)
  let _ ← authorizeProject principal job.projectID
  return job

def authorizedBuild (principal : Principal) (id : String) : Go ApiError Build := do
  let build ← api (Store.build id)
  let _ ← authorizeProject principal build.projectID
  return build

def lacks (required : String) (capabilities : List String) : Bool := required ≠ "" && !capabilities.contains required

def unsupported (required clientVersion : String) : ApiError :=
  ⟨.failedPrecondition, "autback client " ++ (if clientVersion = "" then "unknown" else clientVersion) ++
    " does not support " ++ required ++ "; upgrade the autback CLI"⟩

/-! ## Jobs -/

/-- The part of `refreshJob` that asks the runtime. -/
def refreshRemote (id : String) : Go Err Job := do
  let remote : RemoteJob ← perform (.status id)
  let job ← Store.syncJob id remote
  if job.status.terminal then do
    always advance
    return job
  else return job

def refreshJob (job : Job) : Go Err Job :=
  if job.status = .preparing || job.status.terminal then pure job
  else do
    match ← Fallible.attempt (Store.operationState (jobOp job.id)) with
    | .error e => if e.is .notFound then refreshRemote job.id else fail e
    | .ok state => if state = .queued || state = .admitting then pure job else refreshRemote job.id

def jobPreparationConnection (job : Job) : Go ApiError Bool :=
  if job.status = .preparing then do
    let state ← api (Store.operationState (jobOp job.id))
    if state = .admitting then do
      let _ : Unit ← api (perform (.issue (jobOp job.id)))
      return true
    else return false
  else return false

def renewPreparation (job : Job) : Go ApiError Unit :=
  if job.status = .preparing then api (Store.renewOperationLease (jobOp job.id)) else pure ()

variable (cfg : Config)

def resolveImage (project : Project) (message : PrepareJobRequest) : Except ApiError PrepareJobRequest :=
  if message.image = "" then
    if project.activeImage = "" then
      .error ⟨.failedPrecondition,
        "project has no active runner image; activate one or pass --image while overrides are enabled"⟩
    else .ok { message with image := project.activeImage }
  else if project.activeImage ≠ "" && message.image ≠ project.activeImage && !project.allowImageOverrides then
    .error ⟨.permissionDenied, "project image overrides are disabled"⟩
  else .ok message

/-- The part of `PrepareJob` after the job is durable. -/
def answerPrepared (id : String) : Go ApiError Reply := do
  let _ ← always (Dispatcher.runOrAdvance cfg .request)
  let job ← api (Store.job id)
  renewPreparation job
  let connection ← jobPreparationConnection job
  return .job (some job) connection

/-- The part of `PrepareJob` after validation. -/
def createJob (principal : Principal) (project : Project) (input : PrepareJob) (key : String) : Go ApiError Reply := do
  let (job, replayed) ← api (Store.createPreparedJob input ⟨key, cfg.admissionHash input⟩)
  if replayed then answerPrepared cfg job.id
  else do
    match ← always (Store.audit principal project.id "job.prepare" job.id (some [("image", job.image)])) with
    | .ok _ => answerPrepared cfg job.id
    | .error e => do
      ignoring (Store.failJob job.id "record job preparation audit")
      ignoring (Dispatcher.release (jobOp job.id))
      fail (connectError e)

def prepareJob (message : PrepareJobRequest) : Go ApiError Reply := do
  let principal ← authenticate
  let project ← authorizeProject principal message.project
  if lacks cfg.requiredJobCapability message.capabilities then
    fail (unsupported cfg.requiredJobCapability message.clientVersion)
  else do
    let resolved ← Fallible.ofExcept (resolveImage project message)
    match cfg.validateJob project.id resolved with
    | .error e => fail ⟨.invalidArgument, e.text⟩
    | .ok input => createJob cfg principal project input message.idempotencyKey

/-- The part of `StartJob` that queues the job and starts it. -/
def queueAndRun (principal : Principal) (id rootDigest : String) : Go ApiError Reply := do
  let job ← api (Store.queueJob id rootDigest)
  let dispatchErr ← always (Dispatcher.runOrAdvance cfg .request)
  let job ← api (Store.job job.id)
  match dispatchErr, job.status with
  | some e, .failed => fail ⟨.unavailable, e.text⟩
  | _, _ => do
    api (Store.audit principal job.projectID "job.start" job.id (some [("root_digest", job.rootDigest)]))
    return .job (some job) false

def startJob (id rootDigest : String) : Go ApiError Reply := do
  let principal ← authenticate
  let job ← authorizedJob principal id
  if !cfg.validRootDigest rootDigest then fail ⟨.invalidArgument, "root digest must use REAPI hash/size form"⟩
  else if job.status ≠ .preparing then
    if job.rootDigest ≠ rootDigest then
      fail ⟨.failedPrecondition, "job was already started with a different root digest"⟩
    else do
      let _ ← always (Dispatcher.runOrAdvance cfg .request)
      return .job (some job) false
  else do
    let state ← api (Store.operationState (jobOp job.id))
    if state ≠ .admitting then fail ⟨.failedPrecondition, "job is still waiting for worker capacity"⟩
    else queueAndRun cfg principal job.id rootDigest

def getJob (id : String) : Go ApiError Reply := do
  let principal ← authenticate
  let job ← authorizedJob principal id
  let job ← api (refreshJob job)
  renewPreparation job
  let connection ← jobPreparationConnection job
  return .job (some job) connection

def refreshEach : List Job → Go ApiError (List Job)
  | [] => pure []
  | job :: jobs => do
    let refreshed ← always (refreshJob job)
    let rest ← refreshEach jobs
    match refreshed with
    | .ok job => return job :: rest
    | .error _ => return job :: rest

def listJobs (project : String) (pageSize limit : Int) (cursor : Option JobCursor) : Go ApiError Reply := do
  let principal ← authenticate
  let project ← authorizeProject principal project
  let size := if pageSize = 0 then (if limit = 0 then 20 else limit) else pageSize
  if size < 1 || size > 100 then fail ⟨.invalidArgument, "page size must be between 1 and 100"⟩
  else do
    let page ← api (Store.listJobs project.id (size.toNat + 1) cursor)
    return .jobs (← refreshEach (page.take size.toNat))

def refreshOrZero (job : Job) : Go ApiError (Option Job) := do
  match ← always (refreshJob job) with
  | .ok job => return some job
  | .error _ => return none

def idOf (job : Option Job) : String := (job.map Job.id).getD ""

def projectOf (job : Option Job) : String := (job.map Job.projectID).getD ""

/-- The end of `CancelJob`: release the reservation of a job that ended without having run, or give the dispatcher a
chance to admit the next operation. -/
def afterCancel (principal : Principal) (job : Option Job) (state : Option OperationState) : Go ApiError Reply := do
  if (job.any fun j => j.status.terminal) && state ≠ some .active then api (Dispatcher.release (jobOp (idOf job)))
  else ignoring (Dispatcher.runOnce cfg .request)
  api (Store.audit principal (projectOf job) "job.cancel" (idOf job) none)
  return .job job false

/-- The part of `CancelJob` that asks for the cancellation; `state` is what the handler read of the queue row. -/
def requestCancel (principal : Principal) (id : String) (state : Option OperationState) : Go ApiError Reply := do
  let job ← api (Store.requestJobCancellation id)
  if job.status ≠ .cancelled then afterCancel cfg principal (← refreshOrZero job) state
  else afterCancel cfg principal (some job) state

/-- The part of `CancelJob` after the queue row is read. -/
def cancelInState (principal : Principal) (id : String) (state : Option OperationState) : Go ApiError Reply := do
  if state = some .active then do
    let _ : Unit ← unavailable (perform (.cancel id))
    requestCancel cfg principal id state
  else requestCancel cfg principal id state

def cancelJob (id : String) : Go ApiError Reply := do
  let principal ← authenticate
  let job ← authorizedJob principal id
  if job.status.terminal then return .job (some job) false
  else do
    match ← always (Store.operationState (jobOp job.id)) with
    | .ok state => cancelInState cfg principal job.id (some state)
    | .error e => if e.is .notFound then cancelInState cfg principal job.id none else fail (connectError e)

/-! ## Logs -/

def answer (r : Request) (result : Except ApiError Reply) : Srv (Option Label) := do
  let _ : Unit ← perform (.respond r result)
  return none

def answerLogs (offset : Int) (id : String) (result : Except ApiError Job) : Srv (Option Label) :=
  answer (.streamJobLogs id offset) (result.map fun job => .job (some job) false)

/-- `StreamJobLogs` up to `followJob`: the job, and whether it is to be followed. -/
def openLogs (id : String) (offset : Int) : Go ApiError (Job × Bool) := do
  if offset < 0 then fail ⟨.invalidArgument, "log offset cannot be negative"⟩
  else do
    let principal ← authenticate
    let job ← authorizedJob principal id
    if job.status = .preparing then return (job, false)
    else if job.status.terminal then do
      match ← always (perform (.logs job.id)) with
      | Except.ok _ => return (job, false)
      | .error e => do
        let ended : Bool ← always (perform (.ctxErr .request))
        if ended then return (job, false) else fail ⟨.unavailable, e.text⟩
    else return (job, true)

def streamJobLogs (id : String) (offset : Int) : Srv (Option Label) := do
  match ← openLogs id offset with
  | .error e => answerLogs offset id (.error e)
  | .ok (job, follow) => if follow then return some (.awaitActive offset job) else answerLogs offset id (.ok job)

def awaitRefresh (offset : Int) (job : Job) : Srv (Option Label) := do
  match ← refreshJob job with
  | .error e => answerLogs offset job.id (.error (connectError e))
  | .ok refreshed =>
    if refreshed.status.terminal then answerLogs offset job.id (.ok refreshed)
    else do
      let elapsed : Bool ← perform (.wait .request)
      if elapsed then return some (.awaitActive offset refreshed)
      else answerLogs offset job.id (.error ⟨.canceled, Err.canceled.text⟩)

/-- One round of the first loop of `followJob`. -/
def awaitActive (offset : Int) (job : Job) : Srv (Option Label) := do
  match ← Store.operationState (jobOp job.id) with
  | .ok state => if state = .active then return some (.poll offset job true) else awaitRefresh offset job
  | .error e =>
    if e.is .notFound then awaitRefresh offset job else answerLogs offset job.id (.error (connectError e))

/-- What the polling loop does when its `select` returns. -/
def pollWakeup (offset : Int) (job : Job) (following : Bool) : Wakeup → Srv (Option Label)
  | .done => answerLogs offset job.id (.error ⟨.canceled, Err.canceled.text⟩)
  | .tick => return some (.poll offset job following)
  | .logs none => return some (.poll offset job false)
  | .logs (some e) => do
    let ended : Bool ← perform (.ctxErr .request)
    if ended then return some (.poll offset job false)
    else answerLogs offset job.id (.error ⟨.unavailable, e.text⟩)

def poll (offset : Int) (job : Job) (following : Bool) : Srv (Option Label) := do
  match ← refreshJob job with
  | .error e => answerLogs offset job.id (.error (connectError e))
  | .ok refreshed =>
    if refreshed.status.terminal then answerLogs offset job.id (.ok refreshed)
    else do
      let w : Wakeup ← perform .wakeup
      pollWakeup offset refreshed following w

/-! ## Builds -/

def buildConnection (build : Build) (failed : Go ApiError Unit) : Go ApiError Reply :=
  if build.status = .running then do
    match ← always (perform (.issue (buildOp build.id))) with
    | Except.ok _ => return .build build true
    | .error e => do
      failed
      fail (connectError e)
  else return .build build false

/-- What `PrepareBuild` does when credentials cannot be issued. -/
def abandonBuild (id : String) : Go ApiError Unit := do
  ignoring (Store.finishBuild id .failed 1)
  always advance

/-- The part of `PrepareBuild` after the build is durable. -/
def answerBuild (id : String) : Go ApiError Reply := do
  let _ ← always (Dispatcher.runOrAdvance cfg .request)
  let build ← api (Store.build id)
  buildConnection build (abandonBuild build.id)

/-- The part of `PrepareBuild` after validation. -/
def createBuild (principal : Principal) (project : Project) (key : String) : Go ApiError Reply := do
  let (build, replayed) ← api (Store.createBuild project.id ⟨key, cfg.buildHash project.id⟩)
  if replayed then answerBuild cfg build.id
  else do
    match ← always (Store.audit principal project.id "build.prepare" build.id none) with
    | .ok _ => answerBuild cfg build.id
    | .error e => do
      ignoring (Store.finishBuild build.id .failed 1)
      fail (connectError e)

def prepareBuild (project key : String) (capabilities : List String) (clientVersion : String) : Go ApiError Reply := do
  let principal ← authenticate
  let project ← authorizeProject principal project
  if !cfg.validIdempotencyKey key then
    fail ⟨.invalidArgument, "idempotency key must contain 8 to 128 safe characters"⟩
  else if lacks cfg.requiredBuildCapability capabilities then
    fail (unsupported cfg.requiredBuildCapability clientVersion)
  else createBuild cfg principal project key

def getBuild (id : String) : Go ApiError Reply := do
  let principal ← authenticate
  let build ← authorizedBuild principal id
  if build.status = .queued || build.status = .running then do
    api (Store.renewOperationLease (buildOp build.id))
    buildConnection build (pure ())
  else return .build build false

/-- The part that `CancelBuild` and `FinishBuild` share: end the build, record it, admit the next operation. -/
def endBuild (principal : Principal) (id : String) (status : BuildStatus) (exitCode : Int) (action : String)
    (metadata : Option (List (String × String))) : Go ApiError Reply := do
  let build ← api (Store.finishBuild id status exitCode)
  api (Store.audit principal build.projectID action build.id metadata)
  always advance
  return .build build false

def cancelBuild (id : String) : Go ApiError Reply := do
  let principal ← authenticate
  let build ← authorizedBuild principal id
  if build.status.terminal then return .build build false
  else endBuild principal build.id .cancelled 130 "build.cancel" none

def statusText : BuildStatus → String
  | .queued => "queued"
  | .running => "running"
  | .succeeded => "succeeded"
  | .failed => "failed"
  | .cancelled => "cancelled"

def reportedStatus (exitCode : Int) (cancelled : Bool) : BuildStatus :=
  if cancelled then .cancelled else if exitCode ≠ 0 then .failed else .succeeded

def finishBuild (id : String) (exitCode : Int) (cancelled : Bool) : Go ApiError Reply := do
  let principal ← authenticate
  let build ← authorizedBuild principal id
  if build.status ≠ .running then fail ⟨.failedPrecondition, "build is not running"⟩
  else
    let status := reportedStatus exitCode cancelled
    endBuild principal build.id status exitCode "build.finish" (some [("status", statusText status)])

/-! ## Requests -/

def respond (r : Request) (p : Go ApiError Reply) : Srv (Option Label) := do
  let result ← p
  answer r result

def handle (r : Request) : Srv (Option Label) :=
  match r with
  | .prepareJob message => respond r (prepareJob cfg message)
  | .startJob id rootDigest => respond r (startJob cfg id rootDigest)
  | .getJob id => respond r (getJob id)
  | .listJobs project pageSize limit cursor => respond r (listJobs project pageSize limit cursor)
  | .cancelJob id => respond r (cancelJob cfg id)
  | .streamJobLogs id offset => streamJobLogs id offset
  | .prepareBuild project key capabilities version => respond r (prepareBuild cfg project key capabilities version)
  | .getBuild id => respond r (getBuild id)
  | .cancelBuild id => respond r (cancelBuild id)
  | .finishBuild id exitCode cancelled => respond r (finishBuild id exitCode cancelled)

end Api

end Autback
