import Autback.Store.Moves

/-!
# What transactions write

The columns that each transaction sets, where the view keeps only the status. Five transactions update a job
(`Tx.JobUpdate`), three a build (`Tx.BuildUpdate`), and an admission inserts a record; every other transaction leaves the two
tables alone (`Tx.recorded`). What a history does to the records is proved from this.

`AcquireNextOperation` writes the lease of a row, `RenewOperationLease` renews it, and `QueueJob` and
`RequeueAdmittingOperation` take it away; no other transaction writes the lease of a row that exists (`Tx.run_lease`).
-/

namespace Autback

/-- The updates of `control_jobs`: the transaction, the id, the condition on the row and its new value. -/
inductive Tx.JobUpdate (now : Time) (db : DB) : Tx → String → (JobRow → Bool) → (JobRow → JobRow) → Prop
  | queue (id rootDigest : String) : JobUpdate now db (.queueJob id rootDigest) id (fun r => r.status == .preparing)
      fun r => { r with rootDigest := rootDigest, status := .queued }
  | sync (id : String) (remote : RemoteJob) : JobUpdate now db (.syncJob id remote) id (fun r => !r.status.terminal) fun r =>
      { r with
        status := remote.status, startedAt := remote.startedAt, finishedAt := remote.finishedAt,
        exitCode := remote.exitCode, errorMessage := remote.errorMessage, cancelRequested := remote.cancelRequested,
        workerID := remote.workerID }
  | cancel (id : String) : JobUpdate now db (.requestJobCancellation id) id (fun r => !r.status.terminal) fun r =>
      { r with
        cancelRequested := true
        status := if db.cancelsNow id r.status then .cancelled else r.status
        finishedAt := if db.cancelsNow id r.status then some now else r.finishedAt }
  | fail (id message : String) : JobUpdate now db (.failJob id message) id
      (fun r => r.status == .preparing || r.status == .queued) fun r =>
      { r with status := .failed, finishedAt := some now, exitCode := some 1, errorMessage := message }
  | stop (id message : String) : JobUpdate now db (.emergencyStopActiveOperation message) id (fun r => !r.status.terminal)
      fun r =>
      { r with
        status := .failed, finishedAt := some now, exitCode := some 137, errorMessage := message,
        cancelRequested := true }

inductive Tx.BuildUpdate (now : Time) : Tx → String → (BuildRow → Bool) → (BuildRow → BuildRow) → Prop
  | finish (id : String) (status : BuildStatus) (exitCode : Int) : BuildUpdate now (.finishBuild id status exitCode) id
      (fun r => r.status == .queued || r.status == .running) fun r =>
      { r with status := status, finishedAt := some now, exitCode := some exitCode }
  | activate (op : Op) : BuildUpdate now (.activateOperation op) op.id (fun r => r.status == .queued) fun r =>
      { r with status := .running }
  | stop (id message : String) : BuildUpdate now (.emergencyStopActiveOperation message) id
      (fun r => r.status == .queued || r.status == .running) fun r =>
      { r with status := .cancelled, finishedAt := some now, exitCode := some 130 }

/-- The records after a transaction that returned `a`. -/
inductive Tx.Recorded (now : Time) (x : Tx) (a : x.Val) (db db' : DB) : Prop
  | same (hjobs : db'.jobs = db.jobs) (hbuilds : db'.builds = db.builds)
  | job (id : String) (p : JobRow → Bool) (f : JobRow → JobRow) (hx : x.JobUpdate now db id p f)
      (hjobs : db'.jobs = (Table.update db.jobs id p f).2) (hbuilds : db'.builds = db.builds)
  | build (id : String) (p : BuildRow → Bool) (f : BuildRow → BuildRow) (hx : x.BuildUpdate now id p f)
      (hjobs : db'.jobs = db.jobs) (hbuilds : db'.builds = (Table.update db.builds id p f).2)
  | newJob (id : String) (r : JobRow) (hx : x.Creates a (jobOp id)) (hnone : db.jobs.lookup id = none)
      (hjobs : db'.jobs = db.jobs.insert id r) (hbuilds : db'.builds = db.builds)
  | newBuild (id : String) (r : BuildRow) (hx : x.Creates a (buildOp id)) (hnone : db.builds.lookup id = none)
      (hjobs : db'.jobs = db.jobs) (hbuilds : db'.builds = db.builds.insert id r)

/-- The lease of `op` stays, or is written anew at time `now`. -/
def DB.Renews (now : Time) (op : Op) (db db' : DB) : Prop :=
  ∀ r, db.queue.table.lookup op = some r → ∃ r', db'.queue.table.lookup op = some r' ∧
    (r'.leasedAt = r.leasedAt ∨ r'.leasedAt = some now)

/-- The transactions that take away the lease of `op`. -/
def Tx.Unleases (op : Op) : Tx → Prop
  | .queueJob id _ => op = jobOp id
  | .requeueAdmittingOperation op' => op = op'
  | _ => False

/-- The update `f` of the row of `op` in `x`, as to its lease. -/
def Tx.Leases (now : Time) (op : Op) (f : QueueCols → QueueCols) (x : Tx) : Prop :=
  ∀ c, (f c).leasedAt = c.leasedAt ∨ (f c).leasedAt = some now ∨ x.Unleases op

/-- What a transaction that returned `a` does to the records, and to the leases that it does not take away. -/
structure Tx.Ran (now : Time) (x : Tx) (a : x.Val) (db db' : DB) : Prop where
  records : x.Recorded now a db db'
  lease : ∀ op, ¬ x.Unleases op → db.Renews now op db'

theorem Tx.JobUpdate.live {now : Time} {db : DB} {x : Tx} {id : String} {p : JobRow → Bool} {f : JobRow → JobRow}
    (h : x.JobUpdate now db id p f) {r : JobRow} (hp : p r = true) : r.status.terminal = false := by
  cases h with
  | queue _ _ => simp [eq_of_beq hp, Status.terminal]
  | sync _ _ | cancel _ | stop _ _ => simpa using hp
  | fail _ _ => rcases Bool.or_eq_true_iff.mp hp with hs | hs <;> simp [eq_of_beq hs, Status.terminal]

theorem BuildStatus.not_terminal_of {b : BuildStatus} (h : (b == .queued || b == .running) = true) :
    b.terminal = false := by
  cases b <;> first | rfl | cases h

theorem Tx.BuildUpdate.live {now : Time} {x : Tx} {id : String} {p : BuildRow → Bool} {f : BuildRow → BuildRow}
    (h : x.BuildUpdate now id p f) {r : BuildRow} (hp : p r = true) : r.status.terminal = false := by
  cases h with
  | finish _ _ _ | stop _ _ => exact BuildStatus.not_terminal_of hp
  | activate _ => simp [eq_of_beq hp, BuildStatus.terminal]

section Ran

variable {db db' db1 : DB} {now : Time} {fresh : String} {op op' : Op} {n n1 : Nat} {id projectID : String} {x : Tx} {a : x.Val}
  {input : PrepareJob} {idempotency : Idempotency} {u : Unit} {o : Option Operation}

/-! ### Leases -/

theorem renews_of_queue (h : db'.queue = db.queue) : db.Renews now op db' := by
  intro r hr
  exact ⟨r, by rw [h, hr], .inl rfl⟩

theorem DB.Renews.trans (h : db.Renews now op db1) (h' : db1.Renews now op db') : db.Renews now op db' := by
  intro r hr
  obtain ⟨r1, hr1, hlease1⟩ := h r hr
  obtain ⟨r', hr', hlease⟩ := h' r1 hr1
  refine ⟨r', hr', ?_⟩
  rcases hlease with hlease | hlease
  · rw [hlease]
    exact hlease1
  · exact .inr hlease

theorem renews_insert {acceptedAt : Time} {leasedAt : Option Time} {queue : Queue}
    (h : db.queue.insert op' acceptedAt leasedAt = .ok queue) (hdb : db'.queue = queue) : db.Renews now op db' := by
  obtain ⟨hnone, -, htable⟩ := Queue.insert_ok h
  intro r hr
  refine ⟨r, ?_, .inl rfl⟩
  have hne : op ≠ op' := by
    rintro rfl
    rw [hnone] at hr
    cases hr
  rw [hdb, htable, AList.lookup_insert_ne hne, hr]

/-! ### Updates of one table -/

section Update

variable {p : OperationState → Bool} {f : QueueCols → QueueCols}

theorem updateRow_records (h : db.updateRow op p f = .ok (n, db')) : db'.jobs = db.jobs ∧ db'.builds = db.builds := by
  obtain ⟨⟨n', queue⟩, -, h⟩ := bind_eq_ok.mp h
  cases h
  exact ⟨rfl, rfl⟩

theorem renews_updateRow (h : db.updateRow op' p f = .ok (n, db')) (hf : x.Leases now op' f) (hx : ¬ x.Unleases op) :
    db.Renews now op db' := by
  obtain ⟨⟨n', queue⟩, hq, h⟩ := bind_eq_ok.mp h
  cases h
  intro r hr
  rcases Queue.update_ok hq with ⟨r0, hr0, -, -, -, htable⟩ | ⟨-, -, rfl⟩
  · rw [htable, Table.lookup_insert_eq]
    split
    · rename_i hop
      subst hop
      rw [hr] at hr0
      cases hr0
      exact ⟨_, rfl, (hf r.toQueueCols).imp_right fun h => h.resolve_right hx⟩
    · exact ⟨r, hr, .inl rfl⟩
  · exact ⟨r, hr, .inl rfl⟩

theorem ran_updateRow (h : db.updateRow op' p f = .ok (n, db')) (hf : x.Leases now op' f) : x.Ran now a db db' where
  records := .same (updateRow_records h).1 (updateRow_records h).2
  lease _ hx := renews_updateRow h hf hx

theorem ran_job {q : JobRow → Bool} {g : JobRow → JobRow} (hx : x.JobUpdate now db id q g)
    (hu : db.updateJob id q g = (n1, db1)) (hr : db1.updateRow op' p f = .ok (n, db')) (hf : x.Leases now op' f) :
    x.Ran now a db db' := by
  obtain ⟨hjobs, hbuild⟩ := updateRow_records hr
  have hq : db1.queue = db.queue := by cases hu; rfl
  refine ⟨?_, fun _ hop => (renews_of_queue hq).trans (renews_updateRow hr hf hop)⟩
  cases hu
  exact .job id q g hx hjobs hbuild

theorem ran_build {q : BuildRow → Bool} {g : BuildRow → BuildRow} (hx : x.BuildUpdate now id q g)
    (hu : db.updateBuild id q g = (n1, db1)) (hr : db1.updateRow op' p f = .ok (n, db')) (hf : x.Leases now op' f) :
    x.Ran now a db db' := by
  obtain ⟨hjobs, hbuild⟩ := updateRow_records hr
  have hq : db1.queue = db.queue := by cases hu; rfl
  refine ⟨?_, fun _ hop => (renews_of_queue hq).trans (renews_updateRow hr hf hop)⟩
  cases hu
  exact .build id q g hx hjobs hbuild

end Update

theorem Tx.Ran.of_queue (h : x.Recorded now a db db') (hq : db'.queue = db.queue) : x.Ran now a db db' :=
  ⟨h, fun _ _ => renews_of_queue hq⟩

theorem Tx.Ran.refl : x.Ran now a db db := .of_queue (.same rfl rfl) rfl

/-! ### Admissions -/

/-- What `CreatePreparedJob` does to an unused key. -/
theorem createPreparedJob_new {j : Job} (h : db.createPreparedJob now fresh input idempotency = .ok ((j, false), db')) :
    (∀ id r, db.jobs.lookup id = some r →
      (r.projectID, r.idempotencyKey) ≠ (input.projectID, idempotency.key)) ∧
    j.id = "job" ++ fresh ∧ db.jobs.lookup j.id = none ∧
      db'.jobs = db.jobs.insert j.id (DB.preparedRow now input idempotency) ∧ db'.builds = db.builds ∧
      ∀ op, db.Renews now op db' := by
  rw [DB.createPreparedJob] at h
  split at h
  · split at h <;> cases h
  rename_i hf
  simp only [check_eq_ok, bind_eq_ok, pure_eq_ok, Prod.mk.injEq] at h
  obtain ⟨hnone, queue, hq, ⟨rfl, -⟩, rfl⟩ := h
  refine ⟨fun id r hr heq => ?_, rfl, by simpa [DB.preparedJob] using hnone, rfl, rfl, fun _ => renews_insert hq rfl⟩
  have hother := List.find?_eq_none.mp hf (id, r) (Table.mem_rows.mpr hr)
  simp [(Prod.mk.inj heq).1, (Prod.mk.inj heq).2] at hother

/-- What `CreateBuild` does to an unused key. -/
theorem createBuild_new {b : Build} (h : db.createBuild now fresh projectID idempotency = .ok ((b, false), db')) :
    (∀ id r, db.builds.lookup id = some r → (r.projectID, r.idempotencyKey) ≠ (projectID, idempotency.key)) ∧
    b.id = "bld" ++ fresh ∧ db.builds.lookup b.id = none ∧ db'.builds = db.builds.insert b.id
      ⟨projectID, .queued, now, none, none, idempotency.key, idempotency.requestHash⟩ ∧ db'.jobs = db.jobs ∧
      ∀ op, db.Renews now op db' := by
  rw [DB.createBuild] at h
  split at h
  · split at h <;> cases h
  rename_i hf
  simp only [check_eq_ok, bind_eq_ok, pure_eq_ok, Prod.mk.injEq] at h
  obtain ⟨hnone, queue, hq, ⟨rfl, -⟩, rfl⟩ := h
  refine ⟨fun id r hr heq => ?_, rfl, by simpa [scanBuild] using hnone, rfl, rfl, fun _ => renews_insert hq rfl⟩
  have hother := List.find?_eq_none.mp hf (id, r) (Table.mem_rows.mpr hr)
  simp [(Prod.mk.inj heq).1, (Prod.mk.inj heq).2] at hother

theorem createPreparedJob_replayed {j : Job} (h : db.createPreparedJob now fresh input idempotency = .ok ((j, true), db')) :
    db' = db := by
  rw [DB.createPreparedJob] at h
  split at h
  · split at h <;> cases h
    rfl
  simp only [check_eq_ok, bind_eq_ok, pure_eq_ok, Prod.mk.injEq] at h
  obtain ⟨-, queue, -, ⟨-, hf⟩, -⟩ := h
  cases hf

theorem createBuild_replayed {b : Build} (h : db.createBuild now fresh projectID idempotency = .ok ((b, true), db')) :
    db' = db := by
  rw [DB.createBuild] at h
  split at h
  · split at h <;> cases h
    rfl
  simp only [check_eq_ok, bind_eq_ok, pure_eq_ok, Prod.mk.injEq] at h
  obtain ⟨-, queue, -, ⟨-, hf⟩, -⟩ := h
  cases hf

theorem ran_createPreparedJob {a : Job × Bool} (h : db.createPreparedJob now fresh input idempotency = .ok (a, db')) :
    (Tx.createPreparedJob input idempotency).Ran now a db db' := by
  obtain ⟨j, replayed⟩ := a
  cases replayed with
  | true =>
    obtain rfl := createPreparedJob_replayed h
    exact .refl
  | false =>
    obtain ⟨-, -, hnone, hjobs, hbuild, hlease⟩ := createPreparedJob_new h
    exact ⟨.newJob j.id _ ⟨rfl, rfl⟩ hnone hjobs hbuild, fun op _ => hlease op⟩

theorem ran_createBuild {a : Build × Bool} (h : db.createBuild now fresh projectID idempotency = .ok (a, db')) :
    (Tx.createBuild projectID idempotency).Ran now a db db' := by
  obtain ⟨b, replayed⟩ := a
  cases replayed with
  | true =>
    obtain rfl := createBuild_replayed h
    exact .refl
  | false =>
    obtain ⟨-, -, hnone, hbuild, hjobs, hlease⟩ := createBuild_new h
    exact ⟨.newBuild b.id _ ⟨rfl, rfl⟩ hnone hjobs hbuild, fun op _ => hlease op⟩

/-! ### The other transactions -/

theorem ran_queueJob {rootDigest : String} (h : db.queueJob id rootDigest = .ok (u, db')) :
    (Tx.queueJob id rootDigest).Ran now u db db' := by
  rw [DB.queueJob] at h
  split at h
  rename_i n1 db1 hu
  simp only [check_eq_ok, bind_eq_ok, return_eq_ok, Prod.exists] at h
  obtain ⟨-, n, db2, hr, -, -, rfl⟩ := h
  exact ran_job (.queue id rootDigest) hu hr fun _ => .inr (.inr rfl)

theorem ran_syncJob {remote : RemoteJob} (h : db.syncJob now id remote = .ok (u, db')) :
    ∃ p f, (Tx.syncJob id remote).JobUpdate now db id p f ∧ db'.jobs = (Table.update db.jobs id p f).2 ∧
      (Tx.syncJob id remote).Ran now u db db' := by
  rw [DB.syncJob] at h
  split at h
  rename_i n1 db1 hu
  split at h
  · simp only [bind_eq_ok, return_eq_ok, Prod.exists] at h
    obtain ⟨n, db2, hr, -, rfl⟩ := h
    have hran : (Tx.syncJob id remote).Ran now u db db2 := ran_job (.sync id remote) hu hr fun _ => .inl rfl
    obtain ⟨hjobs, -⟩ := updateRow_records hr
    cases hu
    exact ⟨_, _, .sync id remote, hjobs, hran⟩
  · simp only [pure_eq_ok, Prod.mk.injEq] at h
    obtain ⟨-, rfl⟩ := h
    cases hu
    exact ⟨_, _, .sync id remote, rfl, .of_queue (.job id _ _ (.sync id remote) rfl rfl) rfl⟩

theorem ran_requestJobCancellation (h : db.requestJobCancellation now id = .ok (u, db')) :
    (Tx.requestJobCancellation id).Ran now u db db' := by
  rw [DB.requestJobCancellation] at h
  split at h
  rename_i n1 db1 hu
  simp only [check_eq_ok, bind_eq_ok, return_eq_ok, Prod.exists] at h
  obtain ⟨-, n, db2, hr, -, rfl⟩ := h
  exact ran_job (.cancel id) hu hr fun _ => .inl rfl

theorem ran_failJob {message : String} (h : db.failJob now id message = .ok (u, db')) :
    (Tx.failJob id message).Ran now u db db' := by
  rw [DB.failJob] at h
  split at h
  rename_i n1 db1 hu
  simp only [check_eq_ok, bind_eq_ok, return_eq_ok, Prod.exists] at h
  obtain ⟨-, n, db2, hr, -, rfl⟩ := h
  exact ran_job (.fail id message) hu hr fun _ => .inl rfl

theorem ran_finishBuild {status : BuildStatus} {exitCode : Int}
    (h : db.finishBuild now id status exitCode = .ok (u, db')) : (Tx.finishBuild id status exitCode).Ran now u db db' := by
  rw [DB.finishBuild] at h
  obtain ⟨-, h⟩ := check_eq_ok.mp h
  split at h
  rename_i n1 db1 hu
  simp only [check_eq_ok, bind_eq_ok, return_eq_ok, Prod.exists] at h
  obtain ⟨-, n, db2, hr, -, rfl⟩ := h
  exact ran_build (.finish id status exitCode) hu hr fun _ => .inl rfl

theorem ran_activateOperation (h : db.activateOperation op = .ok (u, db')) : (Tx.activateOperation op).Ran now u db db' := by
  simp only [DB.activateOperation, check_eq_ok, bind_eq_ok, Prod.exists] at h
  obtain ⟨n, db1, hr, -, h⟩ := h
  obtain ⟨hjobs, hbuild⟩ := updateRow_records hr
  have hrow : (Tx.activateOperation op).Ran now u db db1 := ran_updateRow hr fun _ => .inl rfl
  split at h
  · obtain ⟨-, h⟩ := check_eq_ok.mp h
    cases h
    exact ⟨.build op.id _ _ (.activate op) hjobs (by rw [← hbuild]; rfl),
      fun op' hop => (hrow.lease op' hop).trans (renews_of_queue rfl)⟩
  simp only [pure_eq_ok, Prod.mk.injEq] at h
  exact h.2 ▸ hrow

/-- The transaction, and the lease of the operation that it returns. -/
theorem ran_acquireNextOperation (h : db.acquireNextOperation now = .ok (o, db')) :
    Tx.acquireNextOperation.Ran now o db db' ∧ ∀ o', o = some o' → o'.leasedAt = some now := by
  rw [DB.acquireNextOperation] at h
  split at h
  · cases h
    exact ⟨.refl, by simp⟩
  split at h
  · cases h
    exact ⟨.refl, by simp⟩
  simp only [check_eq_ok, bind_eq_ok, return_eq_ok, Prod.exists] at h
  obtain ⟨n, db1, hr, -, rfl, rfl⟩ := h
  exact ⟨ran_updateRow hr (fun _ => .inr (.inl rfl)), by rintro o' ⟨⟩; rfl⟩

theorem ran_claimOperationCleanup (h : db.claimOperationCleanup now = .ok (o, db')) :
    Tx.claimOperationCleanup.Ran now o db db' := by
  rw [DB.claimOperationCleanup] at h
  split at h
  · cases h
    exact .refl
  simp only [check_eq_ok, bind_eq_ok, return_eq_ok, Prod.exists] at h
  obtain ⟨n, db1, hr, -, -, rfl⟩ := h
  exact ran_updateRow hr fun _ => .inl rfl

theorem ran_emergencyStopActiveOperation {message : String} (h : db.emergencyStopActiveOperation now message = .ok (o, db')) :
    (Tx.emergencyStopActiveOperation message).Ran now o db db' := by
  rw [DB.emergencyStopActiveOperation] at h
  split at h
  · cases h
    exact .refl
  rename_i op q ho
  split at h
  rename_i n1 db1 hu
  simp only [check_eq_ok, bind_eq_ok, return_eq_ok, Prod.exists] at h
  obtain ⟨-, n, db2, hr, -, rfl⟩ := h
  obtain ⟨kind, id⟩ := op
  cases kind with
  | job => exact ran_job (.stop id message) hu hr fun _ => .inl rfl
  | build => exact ran_build (.stop id message) hu hr fun _ => .inl rfl

theorem ran_saveResourceBaseline (op : Op) (resources : ResourceSet) :
    (Tx.saveResourceBaseline op resources).Ran now () db (db.saveResourceBaseline op resources) := by
  rw [DB.saveResourceBaseline]
  split
  · exact .refl
  · exact .of_queue (.same rfl rfl) rfl

theorem ran_read {p : Except Err x.Val} (h : (do return (← p, db)) = Except.ok (a, db')) : x.Ran now a db db' := by
  obtain ⟨b, -, h⟩ := bind_eq_ok.mp h
  cases h
  exact .refl

theorem Tx.ran (h : x.run now fresh db = .ok (a, db')) : x.Ran now a db db' := by
  cases x with
  | createPreparedJob input idempotency => exact ran_createPreparedJob h
  | createBuild projectID idempotency => exact ran_createBuild h
  | queueJob id rootDigest => exact ran_queueJob h
  | syncJob id remote =>
    obtain ⟨-, -, -, -, hran⟩ := ran_syncJob h
    exact hran
  | requestJobCancellation id => exact ran_requestJobCancellation h
  | failJob id message => exact ran_failJob h
  | finishBuild id status exitCode => exact ran_finishBuild h
  | acquireNextOperation => exact (ran_acquireNextOperation h).1
  | activateOperation op => exact ran_activateOperation h
  | claimOperationCleanup => exact ran_claimOperationCleanup h
  | emergencyStopActiveOperation message => exact ran_emergencyStopActiveOperation h
  | requeueAdmittingOperation op =>
    simp only [Tx.run, DB.requeueAdmittingOperation, check_eq_ok, bind_eq_ok, return_eq_ok, Prod.exists] at h
    obtain ⟨n, db1, hr, -, -, rfl⟩ := h
    exact ran_updateRow hr fun _ => .inr (.inr rfl)
  | renewOperationLease op =>
    simp only [Tx.run, DB.renewOperationLease, check_eq_ok, bind_eq_ok, return_eq_ok, Prod.exists] at h
    obtain ⟨n, db1, hr, -, -, rfl⟩ := h
    exact ran_updateRow hr fun _ => .inr (.inl rfl)
  | recordOperationCleanupFailure op message =>
    simp only [Tx.run, DB.recordOperationCleanupFailure, check_eq_ok, bind_eq_ok, return_eq_ok, Prod.exists] at h
    obtain ⟨n, db1, hr, -, -, rfl⟩ := h
    exact ran_updateRow hr fun _ => .inl rfl
  | cancelQueuedOperation op | beginOperationCleanup op | completeOperationCleanup op =>
    simp only [Tx.run, DB.cancelQueuedOperation, DB.beginOperationCleanup, DB.completeOperationCleanup, bind_eq_ok,
      return_eq_ok, Prod.exists] at h
    obtain ⟨n, db1, hr, -, rfl⟩ := h
    exact ran_updateRow hr fun _ => .inl rfl
  | job id | build id | operationState op | operation op | resourceBaseline op => exact ran_read h
  | saveResourceBaseline op resources =>
    cases h
    exact ran_saveResourceBaseline op resources
  | workerBusy | scheduledJobs | stalePreparingJobs before | staleBuilds before | listJobs projectID limit cursor =>
    cases h
    exact .refl
  | audit principal projectID action targetID metadata =>
    cases h
    exact .of_queue (.same rfl rfl) rfl

theorem Tx.recorded (h : x.run now fresh db = .ok (a, db')) : x.Recorded now a db db' := (Tx.ran h).records

/-- **Leases.** A transaction that does not take the lease of `op` away leaves it or writes it anew. -/
theorem Tx.run_lease (h : x.run now fresh db = .ok (a, db')) (hx : ¬ x.Unleases op) : db.Renews now op db' :=
  (Tx.ran h).lease op hx

/-- A job stays as it was, or has got the update of the transaction. -/
theorem Tx.job_after (h : x.run now fresh db = .ok (a, db')) {r : JobRow} (hr : db.jobs.lookup id = some r) :
    ∃ r', db'.jobs.lookup id = some r' ∧ (r' = r ∨ ∃ p f, x.JobUpdate now db id p f ∧ p r = true ∧ r' = f r) := by
  cases Tx.recorded h with
  | same hjobs _ | build _ _ _ _ hjobs _ | newBuild _ _ _ _ hjobs _ => exact ⟨r, by rw [hjobs, hr], .inl rfl⟩
  | newJob _ _ _ hnone hjobs _ => exact ⟨r, by rw [hjobs, Table.lookup_insert_of_absent hnone hr], .inl rfl⟩
  | job id' p f hupd hjobs _ =>
    rw [hjobs]
    obtain ⟨r', hr', rfl | ⟨rfl, hp, rfl⟩⟩ := Table.lookup_update_of_some hr id' p f
    · exact ⟨r', hr', .inl rfl⟩
    · exact ⟨f r, hr', .inr ⟨p, f, hupd, hp, rfl⟩⟩

theorem Tx.build_after (h : x.run now fresh db = .ok (a, db')) {r : BuildRow} (hr : db.builds.lookup id = some r) :
    ∃ r', db'.builds.lookup id = some r' ∧ (r' = r ∨ ∃ p f, x.BuildUpdate now id p f ∧ p r = true ∧ r' = f r) := by
  cases Tx.recorded h with
  | same _ hbuild | job _ _ _ _ _ hbuild | newJob _ _ _ _ _ hbuild => exact ⟨r, by rw [hbuild, hr], .inl rfl⟩
  | newBuild _ _ _ hnone _ hbuild => exact ⟨r, by rw [hbuild, Table.lookup_insert_of_absent hnone hr], .inl rfl⟩
  | build id' p f hupd _ hbuild =>
    rw [hbuild]
    obtain ⟨r', hr', rfl | ⟨rfl, hp, rfl⟩⟩ := Table.lookup_update_of_some hr id' p f
    · exact ⟨r', hr', .inl rfl⟩
    · exact ⟨f r, hr', .inr ⟨p, f, hupd, hp, rfl⟩⟩

theorem Tx.created_job (h : x.run now fresh db = .ok (a, db')) (hnew : x.Creates a (jobOp id)) :
    id = "job" ++ fresh ∧ ∃ input idempotency, db'.jobs = db.jobs.insert id (DB.preparedRow now input idempotency) := by
  cases x with
  | createPreparedJob input idempotency =>
    obtain ⟨j, replayed⟩ := a
    obtain ⟨rfl, hop⟩ := hnew
    obtain ⟨-, hid, -, hjobs, -⟩ := createPreparedJob_new h
    cases hop
    exact ⟨hid, input, idempotency, hjobs⟩
  | createBuild projectID idempotency => cases hnew.2
  | _ => exact hnew.elim

/-- A job that was not there before is one that the transaction creates. -/
theorem Tx.job_new (h : x.run now fresh db = .ok (a, db')) {r : JobRow} (hr : db'.jobs.lookup id = some r)
    (hn : db.jobs.lookup id = none) : x.Creates a (jobOp id) ∧ id = "job" ++ fresh ∧
      ∃ input idempotency, r = DB.preparedRow now input idempotency := by
  cases Tx.recorded h with
  | same hjobs _ | build _ _ _ _ hjobs _ | newBuild _ _ _ _ hjobs _ => rw [hjobs, hn] at hr; cases hr
  | job _ _ _ _ hjobs _ => rw [hjobs, Table.lookup_update_of_none hn] at hr; cases hr
  | newJob id' r' hnew _ _ _ =>
    obtain ⟨hid, input, idempotency, hjobs⟩ := Tx.created_job h hnew
    rw [hjobs, Table.lookup_insert_eq] at hr
    split at hr
    · cases hr
      subst id
      exact ⟨hnew, hid, input, idempotency, rfl⟩
    · rw [hn] at hr
      cases hr

end Ran

end Autback
