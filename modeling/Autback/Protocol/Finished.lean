import Autback.Server.Reconciler
import Autback.Store.History

/-!
# The end of a job

A job has a time of its end exactly when its status is terminal. Of the five transactions that update a job, `SyncJob` copies both
from the snapshot that it is given, so the invariant rests on where the snapshots come from: the status mapping of the runtime
(`Service.status`), for any service, or the record of a lost job (`lostJob`). Every terminal job is then found by
`TerminalJobIDsBefore`, the query that the job retention of the capacity policy starts from.
-/

namespace Autback

/-! ## Snapshots -/

def RemoteJob.Finished (remote : RemoteJob) : Prop := remote.finishedAt.isSome = true ↔ remote.status.terminal = true

theorem runtimeTaskStatus_cancelled (state : TaskState) (exitCode : Int) :
    runtimeTaskStatus state exitCode true = .cancelled := rfl

theorem taskStatus_finished {job : RemoteJob} (h : job.finishedAt.isSome = true → job.cancelRequested = true) (task : Task) :
    (taskStatus job task).Finished := by
  rw [RemoteJob.Finished, taskStatus]
  split
  · rename_i hterm
    exact ⟨fun _ => hterm, fun _ => rfl⟩
  rename_i hlive
  refine ⟨fun hfin => absurd ?_ hlive, fun hterm => absurd hterm hlive⟩
  rw [h hfin, runtimeTaskStatus_cancelled]
  rfl

def RemoteJob.Labelled (job : RemoteJob) : Prop :=
  (job.status = .cancelled ∧ job.finishedAt.isSome = true ∧ job.cancelRequested = true) ∨
    (job.status = .queued ∧ job.finishedAt = none)

theorem RemoteJob.Labelled.finished {job : RemoteJob} (h : job.Labelled) : job.Finished := by
  rcases h with ⟨hstatus, hfin, -⟩ | ⟨hstatus, hfin⟩ <;> simp [RemoteJob.Finished, hstatus, hfin, Status.terminal]

variable {remote : RemoteJob}

theorem Service.status_cases {s : Service} {fallbackID : String} (h : s.status fallbackID = .ok remote) :
    ∃ job : RemoteJob, job.Labelled ∧ (remote = job ∨ ∃ task, remote = taskStatus job task) := by
  unfold Service.status at h
  have hlabel : ∀ (id : String) (cancelled : Bool), RemoteJob.Labelled {
      id := id, status := if cancelled then .cancelled else .queued, workerID := "", createdAt := s.createdAt,
      startedAt := none, finishedAt := if cancelled then some s.updatedAt else none,
      cancelRequested := cancelled, exitCode := none, errorMessage := "" } := by
    intro id cancelled
    cases cancelled <;> simp [RemoteJob.Labelled]
  grind

theorem Service.status_finished {s : Service} {fallbackID : String}
    (h : s.status fallbackID = .ok remote) : remote.Finished := by
  obtain ⟨job, hlabel, rfl | ⟨task, rfl⟩⟩ := Service.status_cases h
  · exact hlabel.finished
  refine taskStatus_finished (fun hfin => ?_) task
  rcases hlabel with ⟨-, -, hcancel⟩ | ⟨-, hnone⟩
  · exact hcancel
  rw [hnone] at hfin
  cases hfin

/-- Where the callers of `SyncJob` take snapshots from. -/
inductive RemoteJob.Made : RemoteJob → Prop
  | service {remote : RemoteJob} (s : Service) (fallbackID : String) (h : s.status fallbackID = .ok remote) : Made remote
  | lost (id : String) (now : Time) : Made (Reconciler.lostJob id now)

theorem RemoteJob.Made.finished (h : remote.Made) : remote.Finished := by
  cases h with
  | service s fallbackID h => exact Service.status_finished h
  | lost id now => exact ⟨fun _ => rfl, fun _ => rfl⟩

/-! ## Jobs -/

def DB.Finished (db : DB) : Prop := ∀ id r, db.jobs.lookup id = some r → (r.finishedAt.isSome = true ↔ r.status.terminal = true)

def StoreEvent.Made : StoreEvent → Prop
  | call (.syncJob _ remote) _ _ => remote.Made
  | _ => True

section Jobs

variable {db db' : DB} {now : Time} {fresh : String}

theorem Tx.JobUpdate.finished {x : Tx} {id : String} {p : JobRow → Bool} {f : JobRow → JobRow} (h : x.JobUpdate now db id p f)
    (hmade : (StoreEvent.call x now fresh).Made) {r : JobRow} (hp : p r = true)
    (hr : r.finishedAt.isSome = true ↔ r.status.terminal = true) :
    (f r).finishedAt.isSome = true ↔ (f r).status.terminal = true := by
  have hlive := h.live hp
  cases h with
  | queue id rootDigest =>
    rw [hlive] at hr
    exact hr
  | sync id remote => exact RemoteJob.Made.finished hmade
  | cancel id =>
    by_cases hnow : db.cancelsNow id r.status = true
    · simp [hnow, Status.terminal]
    · simpa [hnow] using hr
  | fail id message | stop id message => exact ⟨fun _ => rfl, fun _ => rfl⟩

theorem Tx.finished {x : Tx} {a : x.Val} (hmade : (StoreEvent.call x now fresh).Made) (h : x.run now fresh db = .ok (a, db'))
    (hdb : db.Finished) : db'.Finished := by
  intro id r hr
  cases hbefore : db.jobs.lookup id with
  | none =>
    obtain ⟨-, -, input, idempotency, rfl⟩ := Tx.job_new h hr hbefore
    simp [DB.preparedRow, Status.terminal]
  | some r0 =>
    obtain ⟨r', hr', hcase⟩ := Tx.job_after h hbefore
    rw [hr] at hr'
    cases hr'
    rcases hcase with rfl | ⟨p, f, hupd, hp, rfl⟩
    · exact hdb id r hbefore
    · exact hupd.finished hmade hp (hdb id r0 hbefore)

theorem mem_terminalJobIDsBefore {before : Time} {id : String} : id ∈ db.terminalJobIDsBefore before ↔
    ∃ r t, db.jobs.lookup id = some r ∧ r.status.terminal = true ∧ r.finishedAt = some t ∧ t < before := by
  simp only [DB.terminalJobIDsBefore, List.mem_map, List.mem_insertionSort, List.mem_filterMap, Prod.exists]
  constructor
  · rintro ⟨t, id', ⟨id'', r, hrow, hsome⟩, rfl⟩
    split at hsome
    · rename_i t' ht
      split at hsome
      · rename_i hend
        cases hsome
        obtain ⟨hbefore, hterm⟩ := Bool.and_eq_true_iff.mp hend
        exact ⟨r, t, Table.mem_rows.mp hrow, hterm, ht, of_decide_eq_true hbefore⟩
      · cases hsome
    · cases hsome
  rintro ⟨r, t, hr, hterm, ht, hbefore⟩
  exact ⟨t, id, ⟨id, r, Table.mem_rows.mpr hr, by simp [ht, hterm, hbefore]⟩, rfl⟩

end Jobs

/-- **A job has a finish time exactly when it is terminal.** In every history of the store in which the snapshots given to
`SyncJob` come from the status mapping, for any services, or are the reconciler's record of a lost job: every job has a time of
its end if and only if its status is terminal, and a terminal job is returned by `TerminalJobIDsBefore` for every later time than
that, now and after whatever happens next. -/
theorem finished_exactly (evs : List StoreEvent) (hevs : ∀ e ∈ evs, e.Made) :
    (∀ id r, (runStore evs).jobs.lookup id = some r → (r.finishedAt.isSome = true ↔ r.status.terminal = true)) ∧
    ∀ id r, (runStore evs).jobs.lookup id = some r → r.status.terminal = true →
      ∃ t, r.finishedAt = some t ∧
        ∀ evs' before, t < before → id ∈ (runStore (evs ++ evs')).terminalJobIDsBefore before := by
  have hfinished : (runStore evs).Finished := foldl_keeps hevs Tx.finished fun id r hr => by cases hr
  refine ⟨hfinished, fun id r hr hterminal => ?_⟩
  obtain ⟨t, ht⟩ := Option.isSome_iff_exists.mp ((hfinished id r hr).mpr hterminal)
  refine ⟨t, ht, fun evs' before hbefore => ?_⟩
  have hstands : (runStore evs).Stands (runStore (evs ++ evs')) := runStore_append evs evs' ▸ foldl_stands evs' _
  exact mem_terminalJobIDsBefore.mpr ⟨r, t, hstands.job id r hr hterminal, hterminal, ht, hbefore⟩

def rejectedService : Service where
  id := "service"
  name := "job1"
  labels := [(managedLabel, "true"), ("autback.project", "p"), ("autback.job", "job1"), ("autback.image", "img"),
    ("autback.timeout_seconds", "60"), ("autback.root_digest", "digest")]
  createdAt := 3
  updatedAt := 3
  tasks := [⟨4, 5, "node", .rejected, 6, "no such image", none⟩]

def rejectedJob : RemoteJob := ⟨"job1", .failed, "node", 3, some 4, some 6, false, some 1, "no such image"⟩

def rejectedEvents : List StoreEvent :=
  [.call (.createPreparedJob ⟨"p", "img", none, "", none, 0, none, none⟩ ⟨"key", "hash"⟩) 1 "1",
    .call (.queueJob "job1" "digest") 2 "", .call (.syncJob "job1" rejectedJob) 7 ""]

theorem finished_exactly_rejected :
    rejectedService.status "job1" = .ok rejectedJob ∧
      ∃ r, (runStore rejectedEvents).jobs.lookup "job1" = some r ∧ r.status = .failed ∧
        ∃ t, r.finishedAt = some t ∧
          ∀ evs' before, t < before → "job1" ∈ (runStore (rejectedEvents ++ evs')).terminalJobIDsBefore before := by
  have hstatus : rejectedService.status "job1" = .ok rejectedJob := by decide +kernel
  have hmade : ∀ e ∈ rejectedEvents, e.Made := by
    intro e he
    simp only [rejectedEvents, List.mem_cons, List.not_mem_nil, or_false] at he
    rcases he with rfl | rfl | rfl
    · trivial
    · trivial
    · exact .service rejectedService "job1" hstatus
  have hrow : ∃ r, (runStore rejectedEvents).jobs.lookup "job1" = some r ∧ r.status = .failed := by
    have hfailed : ((runStore rejectedEvents).jobs.lookup "job1").map (·.status) = some .failed := by decide +kernel
    exact Option.map_eq_some_iff.mp hfailed
  obtain ⟨r, hr, hfailed⟩ := hrow
  exact ⟨hstatus, r, hr, hfailed, (finished_exactly rejectedEvents hmade).2 "job1" r hr (by rw [hfailed]; rfl)⟩

end Autback
