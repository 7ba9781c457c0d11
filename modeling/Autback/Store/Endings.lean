import Autback.Store.Fifo

/-!
# Ending an operation that waits in the queue

What the four transactions that end an operation do to one whose row is still queued, so that it has never held the worker.
`FinishBuild` and `RequestJobCancellation` release the row, whoever holds the worker (`finishBuild_queued`,
`requestJobCancellation_queued`). `FailJob` and `BeginOperationCleanup` move it to `terminalizing`, which is a reserved state:
they fail on the index if a row is reserved, and take the worker if none is (`failJob_queued`, `beginOperationCleanup_queued`).
-/

namespace Autback

def DB.SameReserved (db db' : DB) : Prop :=
  ∀ op, db'.view.RowIs op OperationState.reserved ↔ db.view.RowIs op OperationState.reserved

def DB.TakenBy (db : DB) (op : Op) : Prop := ∀ op', db.view.RowIs op' OperationState.reserved ↔ op' = op

section Endings

variable {db : DB} {now : Time} {op : Op} {r : QueueRow} {g : OperationState → OperationState}

theorem othersReserved_eq_busy (hl : db.queue.table.lookup op = some r) (hr : r.state.reserved = false) :
    db.queue.othersReserved op = db.queue.busy := by
  have key : ∀ e ∈ Table.rows db.queue.table, (decide (e.1 ≠ op) && e.2.state.reserved) = e.2.state.reserved := by
    intro e he
    by_cases hop : e.1 = op
    · have hlook := Table.mem_rows.mp he
      rw [hop, hl] at hlook
      cases hlook
      simp [hr]
    · simp [hop]
  rw [Queue.othersReserved, Queue.busy, Bool.eq_iff_iff, List.any_eq_true, List.any_eq_true]
  exact exists_congr fun e => and_congr_right fun he => by rw [key e he]

/-! ### The update of the row -/

theorem updateRow_found {p : OperationState → Bool} {f : QueueCols → QueueCols} (hl : db.queue.table.lookup op = some r)
    (hp : p r.state = true) :
    ((f r.toQueueCols).state.reserved = true → db.queue.othersReserved op = true →
      db.updateRow op p f = .error Queue.constraint) ∧
    ((f r.toQueueCols).state.reserved = false ∨ db.queue.othersReserved op = false →
      ∃ db', db.updateRow op p f = .ok (1, db')) := by
  rw [DB.updateRow, Queue.update]
  split
  · rename_i hnone
    rw [hl] at hnone
    cases hnone
  rename_i r' hl'
  rw [hl] at hl'
  cases hl'
  rw [if_pos hp]
  constructor
  · intro hf hother
    rw [dif_neg (by simp [hf, hother])]
    rfl
  intro h
  rw [dif_pos (by rcases h with h | h <;> simp [h])]
  exact ⟨_, rfl⟩

theorem updateRow_reserving {p : OperationState → Bool} {f : QueueCols → QueueCols} (hl : db.queue.table.lookup op = some r)
    (hr : r.state.reserved = false) (hp : p r.state = true) (hf : (f r.toQueueCols).state.reserved = true) :
    (db.queue.busy = true → db.updateRow op p f = .error Queue.constraint) ∧
      (db.queue.busy = false → ∃ db', db.updateRow op p f = .ok (1, db')) := by
  rw [← othersReserved_eq_busy hl hr]
  exact ⟨(updateRow_found hl hp).1 hf, fun h => (updateRow_found hl hp).2 (.inr h)⟩

/-! ### The reserved rows -/

theorem rowIs_reserved_release {v v' : View} {q : RowView}
    (hv : v'.row = (v.mapRow op g).row) (hl : v.row op = some q) (hq : q.state.reserved = false)
    (hg : (g q.state).reserved = false) (op' : Op) :
    v'.RowIs op' OperationState.reserved ↔ v.RowIs op' OperationState.reserved := by
  simp only [View.RowIs, hv, View.mapRow_row]
  by_cases hop : op' = op
  · subst hop
    simp [hl, hq, hg]
  · simp [hop]

theorem rowIs_reserved_take {v v' : View} {q : RowView}
    (hv : v'.row = (v.mapRow op g).row) (hl : v.row op = some q) (hfree : v.NoRow OperationState.reserved)
    (hg : (g q.state).reserved = true) (op' : Op) : v'.RowIs op' OperationState.reserved ↔ op' = op := by
  simp only [View.RowIs, hv, View.mapRow_row]
  by_cases hop : op' = op
  · subst hop
    simp [hl, hg]
  simp only [hop, if_false, iff_false]
  rintro ⟨q', hq', hres⟩
  rw [hfree op' q' hq'] at hres
  cases hres

theorem noRow_of_not_busy (h : db.queue.busy = false) : db.view.NoRow OperationState.reserved := by
  intro op q hq
  by_contra hne
  have hbusy : db.queue.busy = true := busy_view.mpr ⟨op, q, hq, by simpa using hne⟩
  rw [h] at hbusy
  cases hbusy

theorem view_row_of_lookup (hl : db.queue.table.lookup op = some r) : db.view.row op = some r.view := by
  simp [DB.view, hl]

/-! ### The four transactions -/

/-- A transaction that ends with an update of the row of `op`: it succeeds if the update does, and fails with its error. -/
theorem row_then {x : Except Err (Nat × DB)} :
    (∀ n db', x = .ok (n, db') → (x >>= fun a => pure ((), a.2)) = .ok ((), db')) ∧
      ∀ e, x = .error e → (x >>= fun a => pure ((), a.2)) = .error e := by
  constructor
  · rintro n db' rfl
    rfl
  rintro e rfl
  rfl

theorem finishBuild_queued {id : String} {b : BuildRow} {status : BuildStatus} {exitCode : Int}
    (hl : db.queue.table.lookup (buildOp id) = some r) (hq : r.state = .queued) (hb : db.builds.lookup id = some b)
    (hlive : b.status.terminal = false) (hstatus : status.terminal = true) :
    ∃ db', db.finishBuild now id status exitCode = .ok ((), db') ∧ db.SameReserved db' := by
  have hfound : (b.status == .queued || b.status == .running) = true := by
    revert hlive
    cases b.status <;> decide
  obtain ⟨db', hdb'⟩ : ∃ db', db.finishBuild now id status exitCode = .ok ((), db') := by
    rw [DB.finishBuild, if_neg (by simp [hstatus])]
    split
    rename_i n db1 hu
    have hn : n = 1 := (congrArg Prod.fst hu).symm.trans ((Table.update_count _ _ _ _).mpr ⟨b, hb, hfound⟩)
    have hqueue : db1.queue = db.queue := (congrArg (fun x => x.2.queue) hu).symm
    have hl1 : db1.queue.table.lookup (buildOp id) = some r := by rw [hqueue, hl]
    obtain ⟨db', hrow⟩ := (updateRow_found (p := OperationState.live) (f := fun r =>
        { r with state := if r.state = .queued then .released else .terminalizing, cleanupUpdatedAt := now })
      hl1 (by rw [hq]; rfl)).2 (.inl (by simp only [hq]; rfl))
    subst hn
    exact ⟨db', row_then.1 _ _ hrow⟩
  refine ⟨db', hdb', fun op' => ?_⟩
  obtain ⟨-, -, hv⟩ := effect_finishBuild hdb'
  refine rowIs_reserved_release (g := endBuild) (by rw [hv]; rfl) (view_row_of_lookup hl) ?_ ?_ op'
  all_goals rw [QueueRow.view, hq]; rfl

theorem requestJobCancellation_queued {id : String} {j : JobRow} (hl : db.queue.table.lookup (jobOp id) = some r)
    (hq : r.state = .queued) (hj : db.jobs.lookup id = some j) (hlive : j.status.terminal = false) :
    ∃ db', db.requestJobCancellation now id = .ok ((), db') ∧ db.SameReserved db' := by
  obtain ⟨db', hdb'⟩ : ∃ db', db.requestJobCancellation now id = .ok ((), db') := by
    rw [DB.requestJobCancellation]
    split
    rename_i n db1 hu
    have hn : n = 1 := (congrArg Prod.fst hu).symm.trans ((Table.update_count _ _ _ _).mpr ⟨j, hj, by simp [hlive]⟩)
    have hqueue : db1.queue = db.queue := (congrArg (fun x => x.2.queue) hu).symm
    have hl1 : db1.queue.table.lookup (jobOp id) = some r := by rw [hqueue, hl]
    obtain ⟨db', hrow⟩ := (updateRow_found (p := (· == .queued))
      (f := fun r => { r with state := .released, cleanupUpdatedAt := now }) hl1 (by rw [hq]; rfl)).2 (.inl rfl)
    subst hn
    exact ⟨db', row_then.1 _ _ hrow⟩
  refine ⟨db', hdb', fun op' => ?_⟩
  obtain ⟨_, -, -, hv⟩ := effect_requestJobCancellation hdb'
  refine rowIs_reserved_release (g := dropQueued) (by rw [hv]; rfl) (view_row_of_lookup hl) ?_ ?_ op'
  all_goals rw [QueueRow.view, hq]; rfl

/-- `FailJob` of a job that waits fails while the worker is taken, and takes it otherwise. -/
theorem failJob_queued {id message : String} {j : JobRow} (hl : db.queue.table.lookup (jobOp id) = some r)
    (hq : r.state = .queued) (hj : db.jobs.lookup id = some j) (hlive : j.status = .preparing ∨ j.status = .queued) :
    (db.queue.busy = true → db.failJob now id message = .error Queue.constraint) ∧
      (db.queue.busy = false → ∃ db', db.failJob now id message = .ok ((), db') ∧ db'.TakenBy (jobOp id)) := by
  have hfree : r.state.reserved = false := by rw [hq]; rfl
  have hfound : (j.status == .preparing || j.status == .queued) = true := by
    rcases hlive with h | h <;> rw [h] <;> rfl
  have key : (db.queue.busy = true → db.failJob now id message = .error Queue.constraint) ∧
      (db.queue.busy = false → ∃ db', db.failJob now id message = .ok ((), db')) := by
    rw [DB.failJob]
    split
    rename_i n db1 hu
    have hn : n = 1 := (congrArg Prod.fst hu).symm.trans ((Table.update_count _ _ _ _).mpr ⟨j, hj, hfound⟩)
    have hqueue : db1.queue = db.queue := (congrArg (fun x => x.2.queue) hu).symm
    have hl1 : db1.queue.table.lookup (jobOp id) = some r := by rw [hqueue, hl]
    obtain ⟨herr, hok⟩ := updateRow_reserving (p := OperationState.live)
      (f := fun r => { r with state := .terminalizing, cleanupUpdatedAt := now }) hl1 hfree (by rw [hq]; rfl) rfl
    rw [hqueue] at herr hok
    subst hn
    refine ⟨fun hbusy => row_then.2 _ (herr hbusy), fun hbusy => ?_⟩
    obtain ⟨db', hrow⟩ := hok hbusy
    exact ⟨db', row_then.1 _ _ hrow⟩
  refine ⟨key.1, fun hbusy => ?_⟩
  obtain ⟨db', hdb'⟩ := key.2 hbusy
  refine ⟨db', hdb', fun op' => ?_⟩
  obtain ⟨_, -, -, hv⟩ := effect_failJob hdb'
  refine rowIs_reserved_take (g := endLive) (by rw [hv]; rfl) (view_row_of_lookup hl) (noRow_of_not_busy hbusy) ?_ op'
  rw [QueueRow.view, hq]
  rfl

/-- `BeginOperationCleanup` of an operation that waits fails while the worker is taken, and takes it otherwise. -/
theorem beginOperationCleanup_queued (hl : db.queue.table.lookup op = some r) (hq : r.state = .queued) :
    (db.queue.busy = true → db.beginOperationCleanup now op = .error Queue.constraint) ∧
      (db.queue.busy = false → ∃ db', db.beginOperationCleanup now op = .ok (true, db') ∧ db'.TakenBy op) := by
  have hfree : r.state.reserved = false := by rw [hq]; rfl
  obtain ⟨herr, hok⟩ := updateRow_reserving (p := OperationState.live)
    (f := fun r => { r with state := .terminalizing, cleanupUpdatedAt := now }) hl hfree (by rw [hq]; rfl) rfl
  rw [DB.beginOperationCleanup]
  constructor
  · intro hbusy
    rw [herr hbusy]
    rfl
  intro hbusy
  obtain ⟨db', hrow⟩ := hok hbusy
  refine ⟨db', by rw [hrow]; rfl, fun op' => ?_⟩
  rcases view_updateRow hrow (g := fun _ => .terminalizing) (fun _ _ => rfl) with ⟨-, -, hv⟩ | ⟨-, hn, -⟩
  · exact rowIs_reserved_take (g := fun _ => .terminalizing) (by rw [hv]) (view_row_of_lookup hl) (noRow_of_not_busy hbusy)
      rfl op'
  · cases hn

/-- **Ending what was never admitted.** Let the row of an operation be queued, and its record not ended. Whoever holds the
worker, `FinishBuild` and `RequestJobCancellation` succeed and leave the reserved rows as they are. `FailJob` and
`BeginOperationCleanup` fail with a violation of the index if a row is reserved, and otherwise make the operation the one
that holds the worker. The methods on records fail if there is none that they may end. -/
theorem end_queued_operation (db : DB) (now : Time) (op : Op) (r : QueueRow) (hl : db.queue.table.lookup op = some r)
    (hq : r.state = .queued) :
    (∀ id b status exitCode, op = buildOp id → db.builds.lookup id = some b → b.status.terminal = false →
      status.terminal = true → ∃ db', db.finishBuild now id status exitCode = .ok ((), db') ∧ db.SameReserved db') ∧
    (∀ id j, op = jobOp id → db.jobs.lookup id = some j → j.status.terminal = false →
      ∃ db', db.requestJobCancellation now id = .ok ((), db') ∧ db.SameReserved db') ∧
    (∀ id j message, op = jobOp id → db.jobs.lookup id = some j → j.status = .preparing ∨ j.status = .queued →
      (db.queue.busy = true → db.failJob now id message = .error Queue.constraint) ∧
      (db.queue.busy = false → ∃ db', db.failJob now id message = .ok ((), db') ∧ db'.TakenBy op)) ∧
    (db.queue.busy = true → db.beginOperationCleanup now op = .error Queue.constraint) ∧
    (db.queue.busy = false → ∃ db', db.beginOperationCleanup now op = .ok (true, db') ∧ db'.TakenBy op) ∧
    ∀ id, (∀ status exitCode a, db.finishBuild now id status exitCode = .ok a →
        status.terminal = true ∧ (db.view.build id = some .queued ∨ db.view.build id = some .running)) ∧
      (∀ a, db.requestJobCancellation now id = .ok a → ∃ j, db.view.job id = some j ∧ j.status.terminal = false) ∧
      ∀ message a, db.failJob now id message = .ok a →
        ∃ j, db.view.job id = some j ∧ (j.status = .preparing ∨ j.status = .queued) := by
  have hbegin := @beginOperationCleanup_queued db now op r hl hq
  refine ⟨?_, ?_, ?_, hbegin.1, hbegin.2, fun id => ⟨fun _ _ _ h => ?_, fun _ h => ?_, fun _ _ h => ?_⟩⟩
  · rintro id b status exitCode rfl hb hlive hstatus
    exact finishBuild_queued hl hq hb hlive hstatus
  · rintro id j rfl hj hlive
    exact requestJobCancellation_queued hl hq hj hlive
  · rintro id j message rfl hj hlive
    exact failJob_queued hl hq hj hlive
  · obtain ⟨hstatus, hbuild, -⟩ := effect_finishBuild h
    exact ⟨hstatus, hbuild⟩
  · obtain ⟨j, hj, hlive, -⟩ := effect_requestJobCancellation h
    exact ⟨j, hj, hlive⟩
  · obtain ⟨j, hj, hlive, -⟩ := effect_failJob h
    exact ⟨j, hj, hlive⟩

end Endings

def waitingInput : PrepareJob := ⟨"p", "img", none, "", none, 0, none, none⟩

def waitingBehind : DB :=
  runStore [.call (.createBuild "p" ⟨"k1", "h"⟩) 1 "1", .call .acquireNextOperation 2 "",
    .call (.activateOperation (buildOp "bld1")) 3 "", .call (.createPreparedJob waitingInput ⟨"k2", "h"⟩) 4 "2"]

def waitingAlone : DB :=
  runStore [.call (.createPreparedJob waitingInput ⟨"k2", "h"⟩) 1 "2", .call (.createBuild "p" ⟨"k3", "h"⟩) 2 "3"]

def DB.reservedOps (db : DB) : List Op := ((Table.rows db.queue.table).filter fun e => e.2.state.reserved).map Prod.fst

def reservedAfter {α : Type} (x : Except Err (α × DB)) : Except Err (List Op) := x.map fun a => a.2.reservedOps

theorem end_queued_operation_waiting :
    ∃ r, waitingBehind.queue.table.lookup (jobOp "job2") = some r ∧ r.state = .queued ∧
      ∃ db', waitingBehind.requestJobCancellation 5 "job2" = .ok ((), db') ∧ waitingBehind.SameReserved db' := by
  refine ⟨_, rfl, rfl, ?_⟩
  exact (end_queued_operation waitingBehind 5 (jobOp "job2") _ rfl rfl).2.1 "job2" _ rfl rfl rfl

/-- A job that waits behind a build cannot be failed or torn down; a job that waits alone takes the worker when it is failed,
and a build that waits alone when it is torn down. -/
theorem end_queued_operation_reserves :
    waitingBehind.rowState (jobOp "job2") = some .queued ∧ waitingBehind.reservedOps = [buildOp "bld1"] ∧
      reservedAfter (waitingBehind.failJob 5 "job2" "record job preparation audit") = .error Queue.constraint ∧
      reservedAfter (waitingBehind.beginOperationCleanup 5 (jobOp "job2")) = .error Queue.constraint ∧
    waitingAlone.rowState (jobOp "job2") = some .queued ∧ waitingAlone.reservedOps = [] ∧
      reservedAfter (waitingAlone.failJob 5 "job2" "record job preparation audit") = .ok [jobOp "job2"] ∧
      reservedAfter (waitingAlone.beginOperationCleanup 5 (buildOp "bld3")) = .ok [buildOp "bld3"] := by
  decide +kernel

end Autback
