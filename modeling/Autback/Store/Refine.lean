import Autback.Store.View

/-!
# The store does what its effects say

One lemma per kind of statement (`view_updateRow`, `view_updateJob`, `view_updateBuild`), one per transaction, and
`Tx.run_effect` for all of them.
-/

namespace Autback

/-! ## Changes that do nothing, changes that agree -/

namespace View

variable {v : View} {f : OperationState → OperationState}

theorem mapRow_congr {op : Op} {g : OperationState → OperationState}
    (h : ∀ r, v.row op = some r → f r.state = g r.state) : v.mapRow op f = v.mapRow op g := by
  ext1
  · rfl
  · rfl
  · funext op'
    simp only [mapRow_row]
    split
    · cases hr : v.row op with
      | none => rfl
      | some r => simp [h r hr]
    · rfl
  · rfl

theorem mapRow_eq_self {op : Op}
    (h : ∀ r, v.row op = some r → f r.state = r.state) : v.mapRow op f = v := by
  rw [mapRow_congr (g := id) (by simpa using h)]
  ext1
  · rfl
  · rfl
  · funext op'
    simp only [mapRow_row, id]
    split
    · rename_i he
      subst he
      cases v.row op' <;> rfl
    · rfl
  · rfl

theorem mapJob_congr {id : String} {f g : JobView → JobView} (h : ∀ j, v.job id = some j → f j = g j) :
    v.mapJob id f = v.mapJob id g := by
  ext1
  · funext id'
    simp only [mapJob_job]
    split
    · cases hj : v.job id with
      | none => rfl
      | some j => simp [h j hj]
    · rfl
  all_goals rfl

theorem mapJob_eq_self {id : String} {f : JobView → JobView} (h : ∀ j, v.job id = some j → f j = j) :
    v.mapJob id f = v := by
  ext1
  · funext id'
    simp only [mapJob_job]
    split
    · rename_i he
      subst he
      cases hj : v.job id' with
      | none => rfl
      | some j => simp [h j hj]
    · rfl
  all_goals rfl

end View

/-! ## Statements -/

variable {q : Queue} {op : Op} {p : OperationState → Bool} {n : Nat} {db db' : DB} {f : QueueCols → QueueCols}
  {g : OperationState → OperationState}

theorem Queue.update_ok {q' : Queue} (h : q.update op p f = .ok (n, q')) :
    (∃ r, q.table.lookup op = some r ∧ p r.state = true ∧ n = 1 ∧ q'.last = q.last ∧
      q'.table = q.table.insert op { f r.toQueueCols with sequence := r.sequence }) ∨
    ((∀ r, q.table.lookup op = some r → p r.state = false) ∧ n = 0 ∧ q' = q) := by
  rw [Queue.update] at h
  split at h
  · rename_i hl
    cases h
    exact .inr ⟨fun r hr => (by rw [hl] at hr; cases hr), rfl, rfl⟩
  rename_i r hl
  split at h
  · rename_i hp
    split at h
    · cases h
      exact .inl ⟨r, hl, hp, rfl, rfl, rfl⟩
    · cases h
  rename_i hp
  cases h
  refine .inr ⟨fun r' hr' => ?_, rfl, rfl⟩
  rw [hl] at hr'
  cases hr'
  simpa using hp

theorem view_updateRow
    (h : db.updateRow op p f = .ok (n, db')) (hg : ∀ c, p c.state = true → (f c).state = g c.state) :
    (db.view.RowIs op p ∧ n = 1 ∧ db'.view = db.view.mapRow op g) ∨
    (¬ db.view.RowIs op p ∧ n = 0 ∧ db'.view = db.view) := by
  rw [DB.updateRow] at h
  obtain ⟨⟨n', q⟩, hq, h⟩ := bind_eq_ok.mp h
  cases h
  rcases Queue.update_ok hq with ⟨r, hl, hp, hn, hlast, ht⟩ | ⟨hno, hn, rfl⟩
  · refine .inl ⟨⟨r.view, by simp [DB.view, hl], hp⟩, hn, ?_⟩
    ext1
    · rfl
    · rfl
    · funext op'
      simp only [DB.view, View.mapRow_row, ht, Table.lookup_insert_eq, hl]
      split
      · simp only [Option.map_some, QueueRow.view, hg _ hp]
      · rfl
    · exact hlast
  refine .inr ⟨?_, hn, rfl⟩
  rintro ⟨r, hr, hp⟩
  obtain ⟨r', hl, rfl⟩ := Option.map_eq_some_iff.mp hr
  have := hno r' hl
  simp [QueueRow.view, this] at hp

/-- The same for an update that changes nothing where its condition does not hold. -/
theorem view_updateRow_eq
    (h : db.updateRow op p f = .ok (n, db')) (hg : ∀ c, p c.state = true → (f c).state = g c.state)
    (hid : ∀ s, p s = false → g s = s) : db'.view = db.view.mapRow op g := by
  rcases view_updateRow h hg with ⟨-, -, hv⟩ | ⟨hno, -, hv⟩
  · exact hv
  rw [hv, View.mapRow_eq_self]
  intro r hr
  refine hid _ ?_
  by_contra hp
  exact hno ⟨r, hr, by simpa using hp⟩

theorem view_updateJob {id : String} {p : JobRow → Bool} {f : JobRow → JobRow} {P : JobView → Bool} {g : JobView → JobView}
    (h : db.updateJob id p f = (n, db')) (hP : ∀ r, p r = P r.view) (hg : ∀ r, p r = true → (f r).view = g r.view) :
    (∃ j, db.view.job id = some j ∧ P j = true ∧ n = 1 ∧ db'.view = db.view.mapJob id g) ∨
    ((∀ j, db.view.job id = some j → P j = false) ∧ n ≠ 1 ∧ db' = db) := by
  have hn : (Table.update db.jobs id p f).1 = n := congrArg Prod.fst h
  have hdb : { db with jobs := (Table.update db.jobs id p f).2 } = db' := congrArg Prod.snd h
  subst hn hdb
  by_cases hc : (Table.update db.jobs id p f).1 = 1
  · obtain ⟨r, hl, hp⟩ := (Table.update_count _ _ _ _).mp hc
    refine .inl ⟨r.view, by simp [DB.view, hl], by rw [← hP, hp], hc, ?_⟩
    ext1
    · funext id'
      simp only [DB.view, View.mapJob_job, Table.lookup_update, hl]
      split
      · simp [hp, hg r hp]
      · rfl
    all_goals rfl
  refine .inr ⟨fun j hj => ?_, hc, ?_⟩
  · obtain ⟨r, hl, rfl⟩ := Option.map_eq_some_iff.mp hj
    rw [← hP]
    by_contra hp
    exact hc ((Table.update_count _ _ _ _).mpr ⟨r, hl, by simpa using hp⟩)
  · simp only [Table.update_of_count_ne _ _ _ _ hc]

theorem view_updateJob_one {id : String} {p : JobRow → Bool} {f : JobRow → JobRow} {P : JobView → Bool} {g : JobView → JobView}
    (h : db.updateJob id p f = (1, db')) (hP : ∀ r, p r = P r.view) (hg : ∀ r, p r = true → (f r).view = g r.view) :
    ∃ j, db.view.job id = some j ∧ P j = true ∧ db'.view = db.view.setJob id (g j) := by
  rcases view_updateJob h hP hg with ⟨j, hj, hs, -, hv⟩ | ⟨-, hne, -⟩
  · refine ⟨j, hj, hs, hv.trans (View.mapJob_congr fun j' h' => ?_)⟩
    rw [hj] at h'
    cases h'
    rfl
  · exact absurd rfl hne

theorem view_updateBuild {id : String} {p : BuildRow → Bool} {f : BuildRow → BuildRow} {P : BuildStatus → Bool}
    {g : BuildStatus → BuildStatus} (h : db.updateBuild id p f = (1, db')) (hP : ∀ r, p r = P r.status)
    (hg : ∀ r, p r = true → (f r).status = g r.status) :
    ∃ b, db.view.build id = some b ∧ P b = true ∧ db'.view = db.view.mapBuild id g := by
  have hn : (Table.update db.builds id p f).1 = 1 := congrArg Prod.fst h
  have hdb : { db with builds := (Table.update db.builds id p f).2 } = db' := congrArg Prod.snd h
  subst hdb
  obtain ⟨r, hl, hp⟩ := (Table.update_count _ _ _ _).mp hn
  refine ⟨r.status, by simp [DB.view, hl], by rw [← hP, hp], ?_⟩
  ext1
  · rfl
  · funext id'
    simp only [DB.view, View.mapBuild_build, Table.lookup_update, hl]
    split
    · simp [hp, hg r hp]
    · rfl
  all_goals rfl

theorem Queue.insert_ok {q' : Queue} {acceptedAt : Time} {leasedAt : Option Time}
    (h : q.insert op acceptedAt leasedAt = .ok q') : q.table.lookup op = none ∧ q'.last = q.last + 1 ∧
      q'.table = q.table.insert op ⟨⟨.queued, acceptedAt, leasedAt, 0, "", 0⟩, q.last + 1⟩ := by
  rw [Queue.insert] at h
  split at h
  · cases h
  rename_i hl
  split at h
  · cases h
    exact ⟨hl, rfl, rfl⟩
  · cases h

theorem Queue.busy_iff : q.busy = true ↔ ∃ op r, q.table.lookup op = some r ∧ r.state.reserved = true := by
  rw [Queue.busy, List.any_eq_true]
  constructor
  · rintro ⟨⟨op, r⟩, hm, hr⟩
    exact ⟨op, r, Table.mem_rows.mp hm, hr⟩
  rintro ⟨op, r, hl, hr⟩
  exact ⟨(op, r), Table.mem_rows.mpr hl, hr⟩

theorem view_row_eq_some {r : RowView} (h : db.view.row op = some r) : ∃ q, db.queue.table.lookup op = some q ∧ q.view = r :=
  Option.map_eq_some_iff.mp h

theorem rowIs_of_lookup {q : QueueRow} (h : db.queue.table.lookup op = some q) (hp : p q.state = true) : db.view.RowIs op p :=
  ⟨q.view, by simp [DB.view, h], hp⟩

theorem oldest_of_eq_some {q : QueueRow} (h : db.queue.oldest p = some (op, q)) :
    db.queue.table.lookup op = some q ∧ db.view.Oldest op p := by
  obtain ⟨hl, hp, hmin⟩ := Table.first_eq_some h
  refine ⟨hl, q.view, by simp [DB.view, hl], hp, fun op' r' hr' hp' => ?_⟩
  obtain ⟨q', hl', rfl⟩ := view_row_eq_some hr'
  exact hmin op' q' hl' hp'

theorem noRow_of_eq_none (h : db.queue.oldest p = none) : db.view.NoRow p := by
  intro op r hr
  obtain ⟨q, hl, rfl⟩ := view_row_eq_some hr
  exact Table.first_eq_none.mp h op q hl

theorem busy_view : db.queue.busy = true ↔ ∃ op, db.view.RowIs op OperationState.reserved := by
  rw [Queue.busy_iff]
  constructor
  · rintro ⟨op, q, hl, hr⟩
    exact ⟨op, rowIs_of_lookup hl hr⟩
  rintro ⟨op, r, hr, hp⟩
  obtain ⟨q, hl, rfl⟩ := view_row_eq_some hr
  exact ⟨op, q, hl, hp⟩

/-! ## Transactions -/

section Effects

variable {db db' : DB} {now : Time}

variable {op : Op} {j : Job} {id message : String} {u : Unit} {o : Option Operation} {done : Bool}
  {le : DB.Scheduled → DB.Scheduled → Bool}

theorem view_endLive {f : QueueCols → QueueCols} (hf : ∀ c, (f c).state = .terminalizing)
    (h : db.updateRow op OperationState.live f = .ok (n, db')) : db'.view = db.view.mapRow op endLive :=
  view_updateRow_eq h (fun c hc => by simp [endLive, hc, hf]) fun s hs => by simp [endLive, hs]

theorem view_terminalize {f : QueueCols → QueueCols} (hf : ∀ c, (f c).state = .terminalizing)
    (h : db.updateRow op (fun _ => true) f = .ok (n, db')) (hrow : ∃ r, db.view.row op = some r) :
    db'.view = db.view.setRow op .terminalizing := by
  rcases view_updateRow h (g := fun _ => .terminalizing) (fun c _ => hf c) with ⟨-, -, hv⟩ | ⟨hno, -, -⟩
  · exact hv
  obtain ⟨r, hr⟩ := hrow
  exact absurd ⟨r, hr, rfl⟩ hno

theorem effect_createPreparedJob {fresh : String} {input : PrepareJob} {idempotency : Idempotency} {replayed : Bool}
    (h : db.createPreparedJob now fresh input idempotency = .ok ((j, replayed), db')) :
    (Tx.createPreparedJob input idempotency).Effect (j, replayed) db.view db'.view := by
  rw [DB.createPreparedJob] at h
  split at h
  · rename_i id r hf
    split at h
    · cases h
    cases h
    have hl : db.jobs.lookup id = some r := Table.mem_rows.mp (List.mem_of_find?_eq_some hf)
    simp [Tx.Effect, DB.view, hl, scanJob, JobRow.view]
  simp only [check_eq_ok, bind_eq_ok, pure_eq_ok, Prod.mk.injEq] at h
  obtain ⟨hnone, queue, hq, ⟨rfl, rfl⟩, rfl⟩ := h
  obtain ⟨hrow, hlast, htable⟩ := Queue.insert_ok hq
  have hj : db.jobs.lookup ("job" ++ fresh) = none := by simpa using hnone
  refine ⟨?_, ?_⟩
  · simp [DB.view, DB.preparedJob, DB.preparedRow, JobRow.view]
  refine ⟨by simp [DB.view, DB.preparedJob, hj], by simp [DB.view, DB.preparedJob, hrow], ?_⟩
  ext1
  · funext id'
    simp only [DB.view, DB.preparedJob, View.addJob_job, Table.lookup_insert_eq]
    split <;> rfl
  · rfl
  · funext op'
    simp only [DB.view, DB.preparedJob, View.addJob_row, htable, Table.lookup_insert_eq]
    split <;> rfl
  · exact hlast

theorem effect_createBuild {fresh projectID : String} {idempotency : Idempotency} {b : Build} {replayed : Bool}
    (h : db.createBuild now fresh projectID idempotency = .ok ((b, replayed), db')) :
    (Tx.createBuild projectID idempotency).Effect (b, replayed) db.view db'.view := by
  rw [DB.createBuild] at h
  split at h
  · rename_i id r hf
    split at h
    · cases h
    cases h
    have hl : db.builds.lookup id = some r := Table.mem_rows.mp (List.mem_of_find?_eq_some hf)
    simp [Tx.Effect, DB.view, hl, scanBuild]
  simp only [check_eq_ok, bind_eq_ok, pure_eq_ok, Prod.mk.injEq] at h
  obtain ⟨hnone, queue, hq, ⟨rfl, rfl⟩, rfl⟩ := h
  obtain ⟨hrow, hlast, htable⟩ := Queue.insert_ok hq
  have hb : db.builds.lookup ("bld" ++ fresh) = none := by simpa using hnone
  refine ⟨?_, ?_⟩
  · simp [DB.view, scanBuild]
  refine ⟨by simp [DB.view, scanBuild, hb], by simp [DB.view, scanBuild, hrow], ?_⟩
  ext1
  · rfl
  · funext id'
    simp only [DB.view, scanBuild, View.addBuild_build, Table.lookup_insert_eq]
    split <;> rfl
  · funext op'
    simp only [DB.view, scanBuild, View.addBuild_row, htable, Table.lookup_insert_eq]
    split <;> rfl
  · exact hlast

theorem effect_queueJob {rootDigest : String} (h : db.queueJob id rootDigest = .ok (u, db')) :
    (Tx.queueJob id rootDigest).Effect u db.view db'.view := by
  rw [DB.queueJob] at h
  split at h
  rename_i n1 db1 hu
  simp only [check_eq_ok, bind_eq_ok, return_eq_ok, not_not, Prod.exists] at h
  obtain ⟨rfl, n, db2, hr, rfl, -, rfl⟩ := h
  obtain ⟨j, hj, hs, hv⟩ := view_updateJob_one hu (P := fun j => j.status == .preparing) (g := fun j => ⟨.queued, j.cancel⟩)
    (fun r => rfl) (fun r _ => rfl)
  rcases view_updateRow hr (g := fun _ => .queued) (fun _ _ => rfl) with ⟨hrow, -, hv2⟩ | ⟨-, hn0, -⟩
  · rw [hv] at hv2 hrow
    have hj' : j = ⟨.preparing, j.cancel⟩ := by
      cases j
      simpa using hs
    exact ⟨⟨j.cancel, by rw [hj, ← hj'], hv2⟩, hrow⟩
  · cases hn0

theorem effect_syncJob {remote : RemoteJob} (h : db.syncJob now id remote = .ok (u, db')) :
    (Tx.syncJob id remote).Effect u db.view db'.view := by
  rw [DB.syncJob] at h
  split at h
  rename_i n1 db1 hu
  have hjob : db1.view =
      db.view.mapJob id fun j => if j.status.terminal then j else ⟨remote.status, remote.cancelRequested⟩ := by
    rcases view_updateJob hu (P := fun j => !j.status.terminal)
      (g := fun _ => ⟨remote.status, remote.cancelRequested⟩) (fun r => rfl) (fun r _ => rfl)
      with ⟨j, hj, hs, -, hv⟩ | ⟨hno, -, hv⟩
    · rw [hv]
      refine View.mapJob_congr fun j' h' => ?_
      rw [hj] at h'
      cases h'
      simp at hs
      simp [hs]
    rw [hv, View.mapJob_eq_self]
    intro j hj
    have := hno j hj
    simp at this
    simp [this]
  cases ht : remote.status.terminal with
  | false =>
    simp only [ht, Bool.false_eq_true, if_false, pure_eq_ok, Prod.mk.injEq] at h
    obtain ⟨-, rfl⟩ := h
    simp only [Tx.Effect, ht, Bool.false_eq_true, if_false]
    rw [hjob, View.mapRow_eq_self fun _ _ => rfl]
  | true =>
    simp only [ht, if_true, bind_eq_ok, return_eq_ok, Prod.exists] at h
    obtain ⟨n, db2, hr, -, rfl⟩ := h
    simp only [Tx.Effect, ht, if_true]
    rw [← hjob]
    exact view_updateRow_eq hr (fun c hc => by simp [endExecuting, hc]) fun s hs => by simp [endExecuting, hs]

theorem cancelsNow_iff {s : Status} : db.cancelsNow id s = true ↔ db.view.CancelsNow id s := by
  have hrow : (db.rowState ⟨.job, id⟩).any OperationState.executing = true ↔
      db.view.RowIs (jobOp id) OperationState.executing := by
    rw [DB.rowState, View.RowIs]
    cases hl : db.queue.table.lookup ⟨.job, id⟩ with
    | none => simp [DB.view, hl]
    | some q => simp [DB.view, hl, QueueRow.view]
  rw [DB.cancelsNow, View.CancelsNow, ← hrow]
  simp

theorem effect_requestJobCancellation (h : db.requestJobCancellation now id = .ok (u, db')) :
    (Tx.requestJobCancellation id).Effect u db.view db'.view := by
  rw [DB.requestJobCancellation] at h
  split at h
  rename_i n1 db1 hu
  simp only [check_eq_ok, bind_eq_ok, return_eq_ok, not_not, Prod.exists] at h
  obtain ⟨rfl, n, db2, hr, -, rfl⟩ := h
  classical
  obtain ⟨j, hj, hs, hv⟩ := view_updateJob_one hu (P := fun j => !j.status.terminal)
    (g := fun j => ⟨if db.view.CancelsNow id j.status then .cancelled else j.status, true⟩) (fun r => rfl)
    (fun r _ => by simp only [JobRow.view, cancelsNow_iff]; congr)
  refine ⟨j, hj, by simpa using hs, ?_⟩
  rw [← hv]
  exact view_updateRow_eq hr (fun c hc => by simp [dropQueued, eq_of_beq hc]) fun s hs => by cases s <;> simp_all [dropQueued]

theorem effect_failJob (h : db.failJob now id message = .ok (u, db')) : (Tx.failJob id message).Effect u db.view db'.view := by
  rw [DB.failJob] at h
  split at h
  rename_i n1 db1 hu
  simp only [check_eq_ok, bind_eq_ok, return_eq_ok, not_not, Prod.exists] at h
  obtain ⟨rfl, n, db2, hr, -, rfl⟩ := h
  obtain ⟨j, hj, hs, hv⟩ := view_updateJob_one hu (P := fun j => j.status == .preparing || j.status == .queued)
    (g := fun j => ⟨.failed, j.cancel⟩) (fun r => rfl) (fun r _ => rfl)
  refine ⟨j, hj, by simpa using hs, ?_⟩
  rw [← hv]
  exact view_endLive (fun _ => rfl) hr

theorem effect_finishBuild {status : BuildStatus} {exitCode : Int} (h : db.finishBuild now id status exitCode = .ok (u, db')) :
    (Tx.finishBuild id status exitCode).Effect u db.view db'.view := by
  rw [DB.finishBuild] at h
  obtain ⟨ht, h⟩ := check_eq_ok.mp h
  split at h
  rename_i n1 db1 hu
  simp only [check_eq_ok, bind_eq_ok, return_eq_ok, not_not, Prod.exists] at h
  obtain ⟨rfl, n, db2, hr, -, rfl⟩ := h
  obtain ⟨b, hb, hs, hv⟩ := view_updateBuild hu (P := fun b => b == .queued || b == .running) (g := fun _ => status)
      (fun r => rfl)
    (fun r _ => rfl)
  refine ⟨by simpa using ht, ?_, ?_⟩
  · rw [hb]
    simpa using hs
  rw [View.setBuild, ← hv]
  exact view_updateRow_eq hr (fun c hc => by simp only [endBuild, endLive, hc, if_true]) fun s hs => by
    cases s <;> simp_all [endBuild, endLive, OperationState.live]

theorem effect_acquireNextOperation (h : db.acquireNextOperation now = .ok (o, db')) :
    Tx.acquireNextOperation.Effect o db.view db'.view := by
  rw [DB.acquireNextOperation] at h
  split at h
  · rename_i hb
    cases h
    exact ⟨rfl, .inl (busy_view.mp hb)⟩
  rename_i hb
  split at h
  · rename_i ho
    cases h
    exact ⟨rfl, .inr (noRow_of_eq_none ho)⟩
  rename_i op q ho
  simp only [check_eq_ok, bind_eq_ok, return_eq_ok, not_not, Prod.exists] at h
  obtain ⟨n, db1, hr, rfl, rfl, rfl⟩ := h
  rcases view_updateRow hr (g := fun _ => .admitting) (fun _ _ => rfl) with ⟨-, -, hv⟩ | ⟨-, hn, -⟩
  · refine ⟨fun op' r' hr' => ?_, (oldest_of_eq_some ho).2, hv⟩
    by_contra hc
    exact hb (busy_view.mpr ⟨op', r', hr', by simpa using hc⟩)
  · cases hn

theorem effect_requeueAdmittingOperation (h : db.requeueAdmittingOperation op = .ok (u, db')) :
    (Tx.requeueAdmittingOperation op).Effect u db.view db'.view := by
  simp only [DB.requeueAdmittingOperation, check_eq_ok, bind_eq_ok, return_eq_ok, not_not, Prod.exists] at h
  obtain ⟨n, db1, hr, rfl, -, rfl⟩ := h
  rcases view_updateRow hr (g := fun _ => .queued) (fun _ _ => rfl) with ⟨hrow, -, hv⟩ | ⟨-, hn, -⟩
  · exact ⟨hrow, hv⟩
  · cases hn

theorem effect_activateOperation (h : db.activateOperation op = .ok (u, db')) :
    (Tx.activateOperation op).Effect u db.view db'.view := by
  simp only [DB.activateOperation, check_eq_ok, bind_eq_ok, not_not, Prod.exists] at h
  obtain ⟨n, db1, hr, rfl, h⟩ := h
  rcases view_updateRow hr (g := fun _ => .active) (fun _ _ => rfl) with ⟨hrow, -, hv⟩ | ⟨-, hn, -⟩
  · refine ⟨hrow, ?_⟩
    cases hk : op.kind with
    | job =>
      rw [if_neg (by rw [hk]; decide)] at h
      cases h
      exact hv
    | build =>
      rw [if_pos hk] at h
      rcases hu : db1.updateBuild op.id (fun r => r.status == .queued) (fun r => { r with status := .running })
        with ⟨n2, db2⟩
      simp only [hu, check_eq_ok, pure_eq_ok, not_not, Prod.mk.injEq] at h
      obtain ⟨rfl, -, rfl⟩ := h
      obtain ⟨b, hb, hs, hv2⟩ := view_updateBuild hu (P := fun b => b == .queued) (g := fun _ => .running) (fun r => rfl)
        (fun r _ => rfl)
      rw [hv] at hb hv2
      refine ⟨?_, hv2⟩
      rw [View.mapRow_build] at hb
      rw [hb, eq_of_beq hs]
  · cases hn

theorem effect_emergencyStopActiveOperation (h : db.emergencyStopActiveOperation now message = .ok (o, db')) :
    (Tx.emergencyStopActiveOperation message).Effect o db.view db'.view := by
  rw [DB.emergencyStopActiveOperation] at h
  split at h
  · rename_i ho
    cases h
    exact ⟨rfl, noRow_of_eq_none ho⟩
  rename_i op q ho
  split at h
  rename_i n1 db1 hu
  simp only [check_eq_ok, bind_eq_ok, return_eq_ok, not_not, Prod.exists] at h
  obtain ⟨rfl, n, db2, hr, rfl, rfl⟩ := h
  obtain ⟨hl, hold⟩ := oldest_of_eq_some ho
  refine ⟨hold, ?_⟩
  obtain ⟨kind, id⟩ := op
  cases kind with
  | job =>
    obtain ⟨j, hj, hs, hv⟩ := view_updateJob_one hu (P := fun j => !j.status.terminal) (g := fun _ => ⟨.failed, true⟩)
        (fun r => rfl)
      (fun r _ => rfl)
    refine ⟨⟨j, hj, by simpa using hs⟩, ?_⟩
    rw [← hv]
    exact view_terminalize (fun _ => rfl) hr (by rw [hv]; exact ⟨q.view, by simp [DB.view, hl]⟩)
  | build =>
    obtain ⟨b, hb, hs, hv⟩ := view_updateBuild hu (P := fun b => b == .queued || b == .running) (g := fun _ => .cancelled)
      (fun r => rfl) (fun r _ => rfl)
    refine ⟨by rw [hb]; simpa using hs, ?_⟩
    rw [View.setBuild, ← hv]
    exact view_terminalize (fun _ => rfl) hr (by rw [hv]; exact ⟨q.view, by simp [DB.view, hl]⟩)

theorem effect_renewOperationLease (h : db.renewOperationLease now op = .ok (u, db')) :
    (Tx.renewOperationLease op).Effect u db.view db'.view := by
  simp only [DB.renewOperationLease, check_eq_ok, bind_eq_ok, return_eq_ok, not_not, Prod.exists] at h
  obtain ⟨n, db1, hr, rfl, -, rfl⟩ := h
  rcases view_updateRow hr (g := id) (fun _ _ => rfl) with ⟨hrow, -, hv⟩ | ⟨-, hn, -⟩
  · refine ⟨?_, hrow⟩
    rw [hv, View.mapRow_eq_self fun _ _ => rfl]
  · cases hn

theorem effect_recordOperationCleanupFailure (h : db.recordOperationCleanupFailure now op message = .ok (u, db')) :
    (Tx.recordOperationCleanupFailure op message).Effect u db.view db'.view := by
  simp only [DB.recordOperationCleanupFailure, check_eq_ok, bind_eq_ok, return_eq_ok, not_not, Prod.exists] at h
  obtain ⟨n, db1, hr, rfl, -, rfl⟩ := h
  rcases view_updateRow hr (g := id) (fun _ _ => rfl) with ⟨hrow, -, hv⟩ | ⟨-, hn, -⟩
  · refine ⟨?_, hrow⟩
    rw [hv, View.mapRow_eq_self fun _ _ => rfl]
  · cases hn

theorem effect_cancelQueuedOperation (h : db.cancelQueuedOperation now op = .ok (done, db')) :
    (Tx.cancelQueuedOperation op).Effect done db.view db'.view := by
  simp only [DB.cancelQueuedOperation, bind_eq_ok, return_eq_ok, Prod.exists] at h
  obtain ⟨n, db1, hr, rfl, rfl⟩ := h
  rcases view_updateRow hr (g := fun _ => .released) (fun _ _ => rfl) with ⟨hrow, rfl, hv⟩ | ⟨-, rfl, hv⟩
  · exact ⟨hrow, hv⟩
  · exact hv

theorem effect_beginOperationCleanup (h : db.beginOperationCleanup now op = .ok (done, db')) :
    (Tx.beginOperationCleanup op).Effect done db.view db'.view := by
  simp only [DB.beginOperationCleanup, bind_eq_ok, return_eq_ok, Prod.exists] at h
  obtain ⟨n, db1, hr, rfl, rfl⟩ := h
  rcases view_updateRow hr (g := fun _ => .terminalizing) (fun _ _ => rfl) with ⟨hrow, rfl, hv⟩ | ⟨hno, rfl, hv⟩
  · exact ⟨hrow, hv⟩
  · exact ⟨hno, hv⟩

theorem effect_completeOperationCleanup (h : db.completeOperationCleanup now op = .ok (done, db')) :
    (Tx.completeOperationCleanup op).Effect done db.view db'.view := by
  simp only [DB.completeOperationCleanup, bind_eq_ok, return_eq_ok, Prod.exists] at h
  obtain ⟨n, db1, hr, rfl, rfl⟩ := h
  rcases view_updateRow hr (g := fun _ => .released) (fun _ _ => rfl) with ⟨hrow, rfl, hv⟩ | ⟨hno, rfl, hv⟩
  · exact ⟨hrow, hv⟩
  · exact ⟨hno, hv⟩

theorem effect_claimOperationCleanup (h : db.claimOperationCleanup now = .ok (o, db')) :
    Tx.claimOperationCleanup.Effect o db.view db'.view := by
  rw [DB.claimOperationCleanup] at h
  split at h
  · rename_i ho
    cases h
    exact ⟨rfl, noRow_of_eq_none ho⟩
  rename_i op q ho
  simp only [check_eq_ok, bind_eq_ok, return_eq_ok, not_not, Prod.exists] at h
  obtain ⟨n, db1, hr, rfl, rfl, rfl⟩ := h
  rcases view_updateRow hr (g := fun _ => .cleaning) (fun _ _ => rfl) with ⟨-, -, hv⟩ | ⟨-, hn, -⟩
  · exact ⟨(oldest_of_eq_some ho).2, hv⟩
  · cases hn

/-! ### Queries -/

theorem mem_jobsWhere {p : JobRow → QueueRow → Bool} (h : j ∈ db.jobsWhere p le) :
    ∃ r q, db.jobs.lookup j.id = some r ∧ db.queue.table.lookup (jobOp j.id) = some q ∧ p r q = true ∧
      j = scanJob j.id r := by
  rw [DB.jobsWhere, List.mem_map] at h
  obtain ⟨e, he, rfl⟩ := h
  rw [List.mem_insertionSort, List.mem_filterMap] at he
  obtain ⟨⟨id, r⟩, hm, he⟩ := he
  cases hq : db.queue.table.lookup ⟨.job, id⟩ with
  | none => simp [hq] at he
  | some q =>
    simp only [hq, Option.ite_none_right_eq_some, Option.some.injEq] at he
    obtain ⟨hp, rfl⟩ := he
    exact ⟨r, q, Table.mem_rows.mp hm, hq, hp, rfl⟩

theorem jobsWhere_nodup {p : JobRow → QueueRow → Bool} :
    ((db.jobsWhere p le).map Job.id).Nodup := by
  rw [DB.jobsWhere, List.map_map]
  refine (((List.perm_insertionSort _ _).map _).nodup_iff).mpr ?_
  refine (Table.rows_nodup db.jobs).sublist ?_
  induction Table.rows db.jobs with
  | nil => exact List.Sublist.refl []
  | cons e rows ih =>
    rw [List.filterMap_cons]
    split
    · exact ih.cons _
    rename_i joined hjoin
    have hid : joined.id = e.1 := by
      cases hq : db.queue.table.lookup ⟨.job, e.1⟩ with
      | none => simp [hq] at hjoin
      | some q =>
        simp only [hq, Option.ite_none_right_eq_some, Option.some.injEq] at hjoin
        rw [← hjoin.2]
    rw [List.map_cons, List.map_cons, ← hid]
    exact ih.cons_cons _

theorem view_job_of_lookup {r : JobRow} (h : db.jobs.lookup id = some r) :
    db.view.job id = some ⟨r.status, r.cancelRequested⟩ := by
  simp [DB.view, h, JobRow.view]

theorem effect_scheduledJobs : Tx.scheduledJobs.Effect db.scheduledJobs db.view db.view := by
  refine ⟨rfl, fun j hj => ?_⟩
  obtain ⟨r, q, hr, hq, hp, hj⟩ := mem_jobsWhere hj
  simp only [Bool.and_eq_true, Bool.or_eq_true, beq_iff_eq] at hp
  rw [view_job_of_lookup hr]
  rw [hj]
  exact ⟨hp.1, rfl, rowIs_of_lookup hq hp.2⟩

theorem effect_stalePreparingJobs {before : Time} :
    (Tx.stalePreparingJobs before).Effect (db.stalePreparingJobs before) db.view db.view := by
  refine ⟨rfl, fun j hj => ?_⟩
  obtain ⟨r, q, hr, hq, hp, hj⟩ := mem_jobsWhere hj
  simp only [Bool.and_eq_true, beq_iff_eq] at hp
  rw [view_job_of_lookup hr, hp.1.1, hj]
  exact ⟨rfl, rowIs_of_lookup hq hp.1.2⟩

theorem effect_staleBuilds {before : Time} :
    (Tx.staleBuilds before).Effect (db.staleBuilds before) db.view db.view := by
  refine ⟨rfl, fun b hb => ?_⟩
  rw [DB.staleBuilds] at hb
  obtain ⟨e, he, rfl⟩ := List.mem_map.mp hb
  rw [List.mem_insertionSort, List.mem_filterMap] at he
  obtain ⟨⟨id, r⟩, hm, he⟩ := he
  cases hq : db.queue.table.lookup ⟨.build, id⟩ with
  | none => simp [hq] at he
  | some q =>
    simp only [hq, Option.ite_none_right_eq_some, Option.some.injEq, Bool.and_eq_true, Bool.or_eq_true,
      beq_iff_eq] at he
    obtain ⟨⟨⟨hs, hlive⟩, -⟩, rfl⟩ := he
    have hl := Table.mem_rows.mp hm
    refine ⟨?_, rowIs_of_lookup hq hlive⟩
    rcases hs with hs | hs
    · exact .inl (by simp [DB.view, scanBuild, hl, hs])
    · exact .inr (by simp [DB.view, scanBuild, hl, hs])

theorem effect_listJobs {projectID : String} {limit : Nat} {cursor : Option JobCursor} :
    (Tx.listJobs projectID limit cursor).Effect (db.listJobs projectID limit cursor) db.view db.view := by
  refine ⟨rfl, fun j hj => ?_⟩
  rw [DB.listJobs] at hj
  obtain ⟨⟨id, r⟩, he, rfl⟩ := List.mem_map.mp hj
  have hm := List.mem_of_mem_take he
  rw [List.mem_insertionSort, List.mem_filter] at hm
  exact view_job_of_lookup (Table.mem_rows.mp hm.1)

theorem effect_job (h : db.job id = .ok j) : (Tx.job id).Effect j db.view db.view := by
  rw [DB.job] at h
  split at h
  · rename_i r hl
    cases h
    exact ⟨rfl, rfl, view_job_of_lookup hl⟩
  · cases h

theorem effect_build {b : Build} (h : db.build id = .ok b) : (Tx.build id).Effect b db.view db.view := by
  rw [DB.build] at h
  split at h
  · rename_i r hl
    cases h
    exact ⟨rfl, rfl, by simp [DB.view, hl, scanBuild]⟩
  · cases h

theorem effect_operationState {s : OperationState} (h : db.operationState op = .ok s) :
    (Tx.operationState op).Effect s db.view db.view := by
  rw [DB.operationState] at h
  split at h
  · rename_i s' hs
    cases h
    obtain ⟨q, hl, rfl⟩ := Option.map_eq_some_iff.mp hs
    exact ⟨rfl, rowIs_of_lookup hl (by simp)⟩
  · cases h

theorem effect_operation {o : Operation} (h : db.operation op = .ok o) : (Tx.operation op).Effect o db.view db.view := by
  rw [DB.operation] at h
  split at h
  · rename_i q hl
    cases h
    exact ⟨rfl, rfl, rowIs_of_lookup hl (by simp [scanOperation])⟩
  · cases h

end Effects

/-- **The store does what its effects say.** -/
theorem Tx.run_effect {now : Time} {fresh : String} {x : Tx} {a : x.Val} (h : x.run now fresh db = .ok (a, db')) :
    x.Effect a db.view db'.view := by
  cases x with
  | createPreparedJob input idempotency => exact effect_createPreparedJob h
  | createBuild projectID idempotency => exact effect_createBuild h
  | queueJob id rootDigest => exact effect_queueJob h
  | syncJob id remote => exact effect_syncJob h
  | requestJobCancellation id => exact effect_requestJobCancellation h
  | failJob id message => exact effect_failJob h
  | finishBuild id status exitCode => exact effect_finishBuild h
  | acquireNextOperation => exact effect_acquireNextOperation h
  | requeueAdmittingOperation op => exact effect_requeueAdmittingOperation h
  | activateOperation op => exact effect_activateOperation h
  | renewOperationLease op => exact effect_renewOperationLease h
  | cancelQueuedOperation op => exact effect_cancelQueuedOperation h
  | beginOperationCleanup op => exact effect_beginOperationCleanup h
  | claimOperationCleanup => exact effect_claimOperationCleanup h
  | recordOperationCleanupFailure op message => exact effect_recordOperationCleanupFailure h
  | completeOperationCleanup op => exact effect_completeOperationCleanup h
  | emergencyStopActiveOperation message => exact effect_emergencyStopActiveOperation h
  | job id =>
    obtain ⟨j, hj, h⟩ := bind_eq_ok.mp h
    cases h
    exact effect_job hj
  | build id =>
    obtain ⟨b, hb, h⟩ := bind_eq_ok.mp h
    cases h
    exact effect_build hb
  | operationState op =>
    obtain ⟨s, hs, h⟩ := bind_eq_ok.mp h
    cases h
    exact effect_operationState hs
  | operation op =>
    obtain ⟨o, ho, h⟩ := bind_eq_ok.mp h
    cases h
    exact effect_operation ho
  | workerBusy =>
    cases h
    exact ⟨rfl, busy_view⟩
  | scheduledJobs =>
    cases h
    exact effect_scheduledJobs
  | stalePreparingJobs before =>
    cases h
    exact effect_stalePreparingJobs
  | staleBuilds before =>
    cases h
    exact effect_staleBuilds
  | listJobs projectID limit cursor =>
    cases h
    exact effect_listJobs
  | resourceBaseline op =>
    obtain ⟨r, hr, h⟩ := bind_eq_ok.mp h
    cases h
    rfl
  | saveResourceBaseline op resources =>
    cases h
    simp only [Tx.Effect, DB.saveResourceBaseline]
    split <;> rfl
  | audit principal projectID action targetID metadata =>
    cases h
    rfl

end Autback
