import Autback.Store.History

/-!
# The progress of a job

How far a job has come is its status, ranked from `preparing` to a terminal one, whether a start is recorded and whether its
cancellation has been requested.

* Of the five transactions that update a job, four let it only go on (`Tx.JobUpdate.progress`). `SyncJob` does if and only if
  the snapshot that it stores is not behind the record (`syncJob_progress_iff`).
* A transaction that stores no such snapshot lets every job go on (`Tx.progress`).
-/

namespace Autback

/-- How far a status is on the way from `preparing` to a terminal one. -/
def Status.rank : Status → Nat
  | preparing => 0
  | queued => 1
  | running => 2
  | succeeded | failed | cancelled | timedOut | lost => 3

theorem Status.rank_le_of_terminal {s s' : Status} (h : s'.terminal = true) : s.rank ≤ s'.rank := by
  revert h
  cases s <;> cases s' <;> decide

/-- A job has not gone back from `r` to `r'`: its rank is not lower, a recorded start is still recorded, a requested
cancellation is still requested. -/
structure JobRow.Progress (r r' : JobRow) : Prop where
  rank : r.status.rank ≤ r'.status.rank
  started : r.startedAt.isSome = true → r'.startedAt.isSome = true
  cancel : r.cancelRequested = true → r'.cancelRequested = true

theorem JobRow.Progress.refl (r : JobRow) : r.Progress r := ⟨Nat.le_refl _, fun h => h, fun h => h⟩

theorem JobRow.Progress.trans {r r' r'' : JobRow} (h : r.Progress r') (h' : r'.Progress r'') : r.Progress r'' :=
  ⟨Nat.le_trans h.rank h'.rank, fun hs => h'.started (h.started hs), fun hc => h'.cancel (h.cancel hc)⟩

/-! ## One transaction -/

/-- A snapshot is behind a record: it has a lower rank, no start where one is recorded, or no cancellation where one is
requested. -/
def RemoteJob.Behind (remote : RemoteJob) (r : JobRow) : Prop :=
  remote.status.rank < r.status.rank ∨ (r.startedAt.isSome = true ∧ remote.startedAt = none) ∨
    (r.cancelRequested = true ∧ remote.cancelRequested = false)

instance (remote : RemoteJob) (r : JobRow) : Decidable (remote.Behind r) := by
  unfold RemoteJob.Behind
  infer_instance

/-- The transaction stores no snapshot that is behind the record of its job, unless the job is terminal. -/
def Tx.Current (x : Tx) (db : DB) : Prop :=
  ∀ id remote, x = .syncJob id remote → ∀ r, db.jobs.lookup id = some r → r.status.terminal = false → ¬ remote.Behind r

section Transactions

variable {db db' : DB} {now : Time} {fresh : String} {r : JobRow}

theorem progress_sync_iff {remote : RemoteJob} {r' : JobRow} (hs : r'.status = remote.status)
    (hst : r'.startedAt = remote.startedAt) (hc : r'.cancelRequested = remote.cancelRequested) :
    r.Progress r' ↔ ¬ remote.Behind r := by
  constructor
  · rintro ⟨hrank, hstart, hcancel⟩ (h | ⟨h, hnone⟩ | ⟨h, hfalse⟩)
    · rw [hs] at hrank
      omega
    · have := hstart h
      rw [hst, hnone] at this
      cases this
    have := hcancel h
    rw [hc, hfalse] at this
    cases this
  intro h
  refine ⟨?_, fun hr => ?_, fun hr => ?_⟩
  · rw [hs]
    by_contra hlt
    exact h (.inl (by omega))
  · rw [hst]
    by_contra hnone
    exact h (.inr (.inl ⟨hr, by simpa using hnone⟩))
  rw [hc]
  by_contra hfalse
  exact h (.inr (.inr ⟨hr, by simpa using hfalse⟩))

/-- Every update of a job but that of `SyncJob` lets it go on. -/
theorem Tx.JobUpdate.progress {x : Tx} {id : String} {p : JobRow → Bool} {f : JobRow → JobRow}
    (h : x.JobUpdate now db id p f) (hx : x.Current db) (hr : db.jobs.lookup id = some r) (hp : p r = true) :
    r.Progress (f r) := by
  have hlive := h.live hp
  cases h with
  | queue id rootDigest => exact ⟨by simp [eq_of_beq hp, Status.rank], fun h => h, fun h => h⟩
  | sync id remote => exact (progress_sync_iff rfl rfl rfl).mpr (hx id remote rfl r hr hlive)
  | cancel id =>
    refine ⟨?_, fun h => h, fun _ => rfl⟩
    change r.status.rank ≤ (if db.cancelsNow id r.status then Status.cancelled else r.status).rank
    split
    · exact Status.rank_le_of_terminal rfl
    · exact Nat.le_refl _
  | fail id message => exact ⟨Status.rank_le_of_terminal rfl, fun h => h, fun h => h⟩
  | stop id message => exact ⟨Status.rank_le_of_terminal rfl, fun h => h, fun _ => rfl⟩

theorem Tx.progress {x : Tx} {a : x.Val} (h : x.run now fresh db = .ok (a, db')) (hx : x.Current db) {id : String}
    (hr : db.jobs.lookup id = some r) : ∃ r', db'.jobs.lookup id = some r' ∧ r.Progress r' := by
  obtain ⟨r', hr', rfl | ⟨p, f, hupd, hp, rfl⟩⟩ := Tx.job_after h hr
  · exact ⟨r', hr', .refl r'⟩
  · exact ⟨f r, hr', hupd.progress hx hr hp⟩

/-- `SyncJob` lets a job that is not terminal go on if and only if its snapshot is not behind the record. -/
theorem syncJob_progress_iff {id : String} {remote : RemoteJob} {u : Unit} (h : db.syncJob now id remote = .ok (u, db'))
    (hr : db.jobs.lookup id = some r) (hlive : r.status.terminal = false) :
    (∃ r', db'.jobs.lookup id = some r' ∧ r.Progress r') ↔ ¬ remote.Behind r := by
  have hwrite : ∃ r', db'.jobs.lookup id = some r' ∧ r'.status = remote.status ∧ r'.startedAt = remote.startedAt ∧
      r'.cancelRequested = remote.cancelRequested := by
    obtain ⟨p, f, hupd, hjobs, -⟩ := ran_syncJob h
    cases hupd
    rw [hjobs, Table.lookup_update, if_pos rfl, hr, Option.map_some, if_pos (by simp [hlive])]
    exact ⟨_, rfl, rfl, rfl, rfl⟩
  obtain ⟨r', hr', hs, hst, hc⟩ := hwrite
  rw [← progress_sync_iff hs hst hc]
  constructor
  · rintro ⟨r'', hr'', hp⟩
    rw [hr'] at hr''
    cases hr''
    exact hp
  · exact fun hp => ⟨r', hr', hp⟩

end Transactions

end Autback
