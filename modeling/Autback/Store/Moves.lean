import Autback.Store.Refine

/-!
# How rows and jobs move

`Tx.Moves` lists, for each transaction, the state changes it makes to a queue row; `Tx.Writes` lists the changes to a job.
Every effect has one of six shapes (`Tx.Effect.change`), and the rest follows from the shape: a row keeps its sequence, no row or
job disappears (`Tx.Effect.row`, `Tx.Effect.job`), and what a transaction creates is queued (`Tx.Effect.row_new`,
`Tx.Effect.job_new`).
-/

namespace Autback

/-- A transaction that returned `a` moved the row of `op` from state `s` to state `s'`. -/
def Tx.Moves : (x : Tx) → x.Val → Op → OperationState → OperationState → Prop
  | .queueJob id _, _, op, s, s' => op = jobOp id ∧ s = .admitting ∧ s' = .queued
  | .syncJob id remote, _, op, s, s' =>
    op = jobOp id ∧ remote.status.terminal = true ∧ s.executing = true ∧ s' = .terminalizing
  | .requestJobCancellation id, _, op, s, s' => op = jobOp id ∧ s = .queued ∧ s' = .released
  | .failJob id _, _, op, s, s' => op = jobOp id ∧ s.live = true ∧ s' = .terminalizing
  | .finishBuild id _ _, _, op, s, s' =>
    op = buildOp id ∧ ((s = .queued ∧ s' = .released) ∨ (s.executing = true ∧ s' = .terminalizing))
  | .acquireNextOperation, a, op, s, s' => (∃ o : Operation, a = some o ∧ op = o.op) ∧ s = .queued ∧ s' = .admitting
  | .requeueAdmittingOperation op', _, op, s, s' => op = op' ∧ s = .admitting ∧ s' = .queued
  | .activateOperation op', _, op, s, s' => op = op' ∧ s = .admitting ∧ s' = .active
  | .cancelQueuedOperation op', _, op, s, s' => op = op' ∧ s = .queued ∧ s' = .released
  | .beginOperationCleanup op', (done : Bool), op, s, s' =>
    done = true ∧ op = op' ∧ s.live = true ∧ s' = .terminalizing
  | .claimOperationCleanup, a, op, s, s' => (∃ o : Operation, a = some o ∧ op = o.op) ∧ s.tearing = true ∧ s' = .cleaning
  | .completeOperationCleanup op', (done : Bool), op, s, s' =>
    done = true ∧ op = op' ∧ s.tearing = true ∧ s' = .released
  | .emergencyStopActiveOperation _, a, op, s, s' =>
    (∃ o : Operation, a = some o ∧ op = o.op) ∧ s.executing = true ∧ s' = .terminalizing
  | _, _, _, _, _ => False

/-- A transaction that returned `a` created the row of `op`. -/
def Tx.Creates : (x : Tx) → x.Val → Op → Prop
  | .createPreparedJob _ _, (j, replayed), op => replayed = false ∧ op = jobOp j.id
  | .createBuild _ _, (b, replayed), op => replayed = false ∧ op = buildOp b.id
  | _, _, _ => False

/-- A transaction that returned `a` changed job `id` from `j` to `j'`. -/
def Tx.Writes : (x : Tx) → x.Val → String → JobView → JobView → Prop
  | .queueJob id' _, _, id, j, j' => id = id' ∧ j.status = .preparing ∧ j' = ⟨.queued, j.cancel⟩
  | .syncJob id' remote, _, id, j, j' =>
    id = id' ∧ j.status.terminal = false ∧ j' = ⟨remote.status, remote.cancelRequested⟩
  | .requestJobCancellation id', _, id, j, j' =>
    id = id' ∧ j.status.terminal = false ∧ (j' = ⟨.cancelled, true⟩ ∨ (j.status ≠ .preparing ∧ j' = ⟨j.status, true⟩))
  | .failJob id' _, _, id, j, j' => id = id' ∧ (j.status = .preparing ∨ j.status = .queued) ∧ j' = ⟨.failed, j.cancel⟩
  | .emergencyStopActiveOperation _, a, id, j, j' =>
    (∃ o : Operation, a = some o ∧ o.op = jobOp id) ∧ j.status.terminal = false ∧ j' = ⟨.failed, true⟩
  | _, _, _, _, _ => False

/-- The transactions that may change the record of a build. -/
def Tx.Builds : Tx → Prop
  | .finishBuild _ _ _ | .activateOperation _ | .emergencyStopActiveOperation _ => True
  | _ => False

/-- What a transaction that returned `a` does to the view: nothing, an update of one row, of one job or build with its row, or a
new record with its row. -/
inductive Tx.Change (x : Tx) (a : x.Val) (v : View) : View → Prop
  | same : Change x a v v
  | row (op : Op) (f : OperationState → OperationState)
      (hf : ∀ r, v.row op = some r → f r.state = r.state ∨ x.Moves a op r.state (f r.state)) : Change x a v (v.mapRow op f)
  | job (id : String) (g : JobView → JobView) (f : OperationState → OperationState)
      (hg : ∀ j, v.job id = some j → g j = j ∨ x.Writes a id j (g j))
      (hf : ∀ r, v.row (jobOp id) = some r → f r.state = r.state ∨ x.Moves a (jobOp id) r.state (f r.state)) :
      Change x a v ((v.mapJob id g).mapRow (jobOp id) f)
  | build (id : String) (g : BuildStatus → BuildStatus) (f : OperationState → OperationState) (hx : x.Builds)
      (hf : ∀ r, v.row (buildOp id) = some r → f r.state = r.state ∨ x.Moves a (buildOp id) r.state (f r.state)) :
      Change x a v ((v.mapBuild id g).mapRow (buildOp id) f)
  | newJob (id : String) (hnew : x.Creates a (jobOp id)) (hj : v.job id = none) (hr : v.row (jobOp id) = none) :
      Change x a v (v.addJob id)
  | newBuild (id : String) (hnew : x.Creates a (buildOp id)) (hr : v.row (buildOp id) = none) : Change x a v (v.addBuild id)

section

variable {v v' : View} {x : Tx} {a : x.Val} {op : Op} {r : RowView} {s' : OperationState} {op' : Op}
  {f : OperationState → OperationState}

theorem Tx.Moves.ended {s : OperationState} (h : x.Moves a op s s') (hs : s.live = false) : s'.live = false := by
  cases x <;> simp only [Tx.Moves] at h <;> cases s <;> simp_all [OperationState.executing, OperationState.live]

theorem Tx.Moves.ne_released {s : OperationState} (h : x.Moves a op s s') : s ≠ .released := by
  rintro rfl
  cases x <;> simp_all [Tx.Moves, OperationState.executing, OperationState.live, OperationState.tearing]

theorem row_mapRow (hr : v.row op = some r) :
    (v.mapRow op' f).row op = some { r with state := if op = op' then f r.state else r.state } := by
  rw [View.mapRow_row]
  split
  · rename_i h
    subst h
    simp [hr]
  · simp [hr]

theorem moves_mapRow (hr : v.row op = some r)
    (hf : ∀ r, v.row op' = some r → f r.state = r.state ∨ x.Moves a op' r.state (f r.state)) :
    ∃ r', (v.mapRow op' f).row op = some r' ∧ r'.seq = r.seq ∧ (r'.state = r.state ∨ x.Moves a op r.state r'.state) := by
  refine ⟨{ r with state := if op = op' then f r.state else r.state }, row_mapRow hr, rfl, ?_⟩
  by_cases h : op = op'
  · subst h
    simpa using hf r hr
  · exact .inl (by simp [h])

theorem moves_addRow (hv : v'.row = (v.addRow op').row) (hnone : v.row op' = none) (hr : v.row op = some r) :
    ∃ r', v'.row op = some r' ∧ r'.seq = r.seq ∧ (r'.state = r.state ∨ x.Moves a op r.state r'.state) := by
  refine ⟨r, ?_, rfl, .inl rfl⟩
  rw [hv, View.addRow]
  have hne : op ≠ op' := by
    rintro rfl
    rw [hnone] at hr
    cases hr
  simp [hne, hr]

theorem moved_of_rowIs {p : OperationState → Bool} (hrow : v.RowIs op p)
    (hm : ∀ s, p s = true → x.Moves a op s s') (hr : v.row op = some r) : s' = r.state ∨ x.Moves a op r.state s' := by
  obtain ⟨r', hr', hp⟩ := hrow
  rw [hr] at hr'
  cases hr'
  exact .inr (hm _ hp)

theorem change_setRow {p : OperationState → Bool} (hrow : v.RowIs op p)
    (hm : ∀ s, p s = true → x.Moves a op s s') : x.Change a v (v.setRow op s') :=
  .row op _ fun _ hr => moved_of_rowIs hrow hm hr

theorem Tx.Effect.change (he : x.Effect a v v') : x.Change a v v' := by
  cases x with
  | createPreparedJob input idempotency =>
    obtain ⟨j, replayed⟩ := a
    obtain ⟨-, he⟩ := he
    split at he
    · exact he ▸ .same
    rename_i hnew
    obtain ⟨hj, hr, rfl⟩ := he
    exact .newJob j.id ⟨by simpa using hnew, rfl⟩ hj hr
  | createBuild projectID idempotency =>
    obtain ⟨b, replayed⟩ := a
    obtain ⟨-, he⟩ := he
    split at he
    · exact he ▸ .same
    rename_i hnew
    obtain ⟨-, hr, rfl⟩ := he
    exact .newBuild b.id ⟨by simpa using hnew, rfl⟩ hr
  | queueJob id rootDigest =>
    obtain ⟨⟨c, hj, rfl⟩, r', hr', hs⟩ := he
    refine .job id _ _ (fun j hj' => .inr ?_) fun r hr => ?_
    · rw [hj] at hj'
      cases hj'
      exact ⟨rfl, rfl, rfl⟩
    · rw [hr'] at hr
      cases hr
      cases hstatus : r'.state <;> simp_all [Tx.Moves]
  | syncJob id remote =>
    rw [show v' = _ from he]
    refine .job id _ _ (fun j _ => ?_) fun r _ => ?_
    · cases ht : j.status.terminal
      · exact .inr ⟨rfl, ht, rfl⟩
      · exact .inl rfl
    · cases ht : remote.status.terminal <;> cases hs : r.state <;>
        simp [Tx.Moves, endExecuting, OperationState.executing, ht]
  | requestJobCancellation id =>
    obtain ⟨j0, hj0, ht, rfl⟩ := he
    refine .job id _ _ (fun j hj => .inr ?_) fun r _ => by cases hs : r.state <;> simp [Tx.Moves, dropQueued]
    rw [hj0] at hj
    cases hj
    refine ⟨rfl, ht, ?_⟩
    split
    · exact .inl rfl
    rename_i hc
    exact .inr ⟨fun hp => hc (.inl hp), rfl⟩
  | failJob id message =>
    obtain ⟨j0, hj0, hs, rfl⟩ := he
    refine .job id _ _ (fun j hj => .inr ?_) fun r _ => by cases hs : r.state <;> simp [Tx.Moves, endLive, OperationState.live]
    rw [hj0] at hj
    cases hj
    exact ⟨rfl, hs, rfl⟩
  | finishBuild id status exitCode =>
    obtain ⟨-, -, rfl⟩ := he
    refine .build id _ _ trivial fun r _ => ?_
    cases hs : r.state <;> simp [Tx.Moves, endBuild, endLive, OperationState.live, OperationState.executing]
  | acquireNextOperation =>
    cases a with
    | none => exact he.1 ▸ .same
    | some o => exact he.2.2 ▸ change_setRow he.2.1.rowIs fun s hs => ⟨⟨o, rfl, rfl⟩, eq_of_beq hs, rfl⟩
  | requeueAdmittingOperation op' => exact he.2 ▸ change_setRow he.1 fun s hs => ⟨rfl, eq_of_beq hs, rfl⟩
  | activateOperation op' =>
    obtain ⟨hrow, he⟩ := he
    have hm : ∀ s, (s == .admitting) = true → (Tx.activateOperation op').Moves a op' s .active :=
      fun s hs => ⟨rfl, eq_of_beq hs, rfl⟩
    obtain ⟨kind, id⟩ := op'
    cases kind with
    | job => exact (show v' = _ from he) ▸ change_setRow hrow hm
    | build => exact he.2 ▸ .build id (fun _ => .running) (fun _ => .active) trivial fun _ hr => moved_of_rowIs hrow hm hr
  | cancelQueuedOperation op' =>
    cases a with
    | false => exact (show v' = v from he) ▸ .same
    | true => exact he.2 ▸ change_setRow he.1 fun s hs => ⟨rfl, eq_of_beq hs, rfl⟩
  | beginOperationCleanup op' | completeOperationCleanup op' =>
    cases a with
    | false => exact he.2 ▸ .same
    | true => exact he.2 ▸ change_setRow he.1 fun s hs => ⟨rfl, rfl, hs, rfl⟩
  | claimOperationCleanup =>
    cases a with
    | none => exact he.1 ▸ .same
    | some o => exact he.2 ▸ change_setRow he.1.rowIs fun s hs => ⟨⟨o, rfl, rfl⟩, hs, rfl⟩
  | emergencyStopActiveOperation message =>
    cases a with
    | none => exact he.1 ▸ .same
    | some o =>
      obtain ⟨⟨kind, id⟩, state, acceptedAt, leasedAt, attempts, err⟩ := o
      obtain ⟨hrow, he⟩ := he
      cases kind with
      | job =>
        obtain ⟨⟨j0, hj0, ht⟩, rfl⟩ := he
        refine .job id _ _ (fun j hj => .inr ?_) fun r hr => moved_of_rowIs hrow.rowIs (fun s hs => ⟨⟨_, rfl, rfl⟩, hs, rfl⟩) hr
        rw [hj0] at hj
        cases hj
        exact ⟨⟨_, rfl, rfl⟩, ht, rfl⟩
      | build =>
        exact he.2 ▸ .build id _ _ trivial fun r hr => moved_of_rowIs hrow.rowIs (fun s hs => ⟨⟨_, rfl, rfl⟩, hs, rfl⟩) hr
  | _ => first | exact he ▸ .same | exact he.1 ▸ .same

theorem Tx.Effect.row (he : x.Effect a v v') (hr : v.row op = some r) :
    ∃ r', v'.row op = some r' ∧ r'.seq = r.seq ∧ (r'.state = r.state ∨ x.Moves a op r.state r'.state) := by
  cases he.change with
  | same => exact ⟨r, hr, rfl, .inl rfl⟩
  | row op' f hf => exact moves_mapRow hr hf
  | job id g f _ hf => exact moves_mapRow (v := v.mapJob id g) hr hf
  | build id g f _ hf => exact moves_mapRow (v := v.mapBuild id g) hr hf
  | newJob id _ _ hnone | newBuild id _ hnone => exact moves_addRow rfl hnone hr

/-! ### What appears -/

structure View.SameKeys (v v' : View) : Prop where
  job : ∀ id, (v'.job id).isSome = (v.job id).isSome
  build : ∀ id, (v'.build id).isSome = (v.build id).isSome
  row : ∀ op, (v'.row op).isSome = (v.row op).isSome

theorem sameKeys_refl : v.SameKeys v := ⟨fun _ => rfl, fun _ => rfl, fun _ => rfl⟩

theorem View.SameKeys.mapRow (h : v.SameKeys v') (op : Op) (f : OperationState → OperationState) :
    v.SameKeys (v'.mapRow op f) := by
  refine ⟨h.job, h.build, fun op' => ?_⟩
  rw [View.mapRow_row, ← h.row op']
  split
  · rename_i heq
    rw [heq, Option.isSome_map]
  · rfl

theorem View.SameKeys.mapJob (h : v.SameKeys v') (id : String) (f : JobView → JobView) :
    v.SameKeys (v'.mapJob id f) := by
  refine ⟨fun id' => ?_, h.build, h.row⟩
  rw [View.mapJob_job, ← h.job id']
  split
  · rename_i heq
    rw [heq, Option.isSome_map]
  · rfl

theorem View.SameKeys.mapBuild (h : v.SameKeys v') (id : String) (f : BuildStatus → BuildStatus) :
    v.SameKeys (v'.mapBuild id f) := by
  refine ⟨h.job, fun id' => ?_, h.row⟩
  rw [View.mapBuild_build, ← h.build id']
  split
  · rename_i heq
    rw [heq, Option.isSome_map]
  · rfl

theorem Tx.Effect.appears (he : x.Effect a v v') :
    v.SameKeys v' ∨
      (∃ id, x.Creates a (jobOp id) ∧ v.row (jobOp id) = none ∧ v' = v.addJob id) ∨
      ∃ id, x.Creates a (buildOp id) ∧ v.row (buildOp id) = none ∧ v' = v.addBuild id := by
  cases he.change with
  | same => exact .inl sameKeys_refl
  | row op f _ => exact .inl (sameKeys_refl.mapRow op f)
  | job id g f _ _ => exact .inl ((sameKeys_refl.mapJob id g).mapRow _ f)
  | build id g f _ _ => exact .inl ((sameKeys_refl.mapBuild id g).mapRow _ f)
  | newJob id hnew _ hr => exact .inr (.inl ⟨id, hnew, hr, rfl⟩)
  | newBuild id hnew hr => exact .inr (.inr ⟨id, hnew, hr, rfl⟩)

theorem Tx.Effect.row_new (he : x.Effect a v v') (hnone : v.row op = none) (hr : v'.row op = some r) :
    x.Creates a op ∧ r = ⟨.queued, v.last + 1⟩ := by
  rcases he.appears with h | ⟨id, hc, -, rfl⟩ | ⟨id, hc, -, rfl⟩
  · have hkeys := h.row op
    simp [hnone, hr] at hkeys
  · rw [View.addJob_row] at hr
    split at hr
    · rename_i hop
      cases hr
      exact ⟨hop ▸ hc, rfl⟩
    rw [hnone] at hr
    cases hr
  rw [View.addBuild_row] at hr
  split at hr
  · rename_i hop
    cases hr
    exact ⟨hop ▸ hc, rfl⟩
  rw [hnone] at hr
  cases hr

theorem Tx.Effect.job_new {id : String} {j : JobView} (he : x.Effect a v v') (hnone : v.job id = none)
    (hj : v'.job id = some j) : j = ⟨.preparing, false⟩ ∧ v'.row (jobOp id) = some ⟨.queued, v.last + 1⟩ := by
  rcases he.appears with h | ⟨id', -, -, rfl⟩ | ⟨id', -, -, rfl⟩
  · have hkeys := h.job id
    simp [hnone, hj] at hkeys
  · rw [View.addJob_job] at hj
    split at hj
    · rename_i hid
      cases hj
      exact ⟨rfl, by simp [hid]⟩
    rw [hnone] at hj
    cases hj
  rw [View.addBuild_job, hnone] at hj
  cases hj

structure View.Recorded (v : View) : Prop where
  row : ∀ id, (v.job id).isSome = true → (v.row (jobOp id)).isSome = true
  job : ∀ id, (v.row (jobOp id)).isSome = true → (v.job id).isSome = true
  build : ∀ id, (v.row (buildOp id)).isSome = true → (v.build id).isSome = true

theorem Tx.Effect.recorded (he : x.Effect a v v') (h : v.Recorded) : v'.Recorded := by
  rcases he.appears with hs | ⟨id', -, -, rfl⟩ | ⟨id', -, -, rfl⟩
  · constructor <;> intro id
    · rw [hs.job, hs.row]
      exact h.row id
    · rw [hs.job, hs.row]
      exact h.job id
    · rw [hs.build, hs.row]
      exact h.build id
  · constructor <;> intro id
    · by_cases hid : id = id'
      · simp [hid]
      · simpa [hid, jobOp] using h.row id
    · by_cases hid : id = id'
      · simp [hid]
      · simpa [hid, jobOp] using h.job id
    · simpa [jobOp, buildOp] using h.build id
  constructor <;> intro id
  · simpa [jobOp, buildOp] using h.row id
  · simpa [jobOp, buildOp] using h.job id
  · by_cases hid : id = id'
    · simp [hid]
    · simpa [hid, buildOp] using h.build id

theorem Tx.Effect.live_before {r' : RowView} (he : x.Effect a v v') (hr' : v'.row op = some r')
    (hl : r'.state.live = true) :
    (∃ r, v.row op = some r ∧ r.state.live = true ∧ r.seq = r'.seq) ∨ (v.row op = none ∧ r'.seq = v.last + 1) := by
  cases hr : v.row op with
  | none =>
    obtain ⟨-, rfl⟩ := he.row_new hr hr'
    exact .inr ⟨rfl, rfl⟩
  | some r =>
    obtain ⟨r1, hr1, hseq, hm⟩ := he.row hr
    rw [hr'] at hr1
    cases hr1
    refine .inl ⟨r, rfl, ?_, hseq.symm⟩
    rcases hm with hm | hm
    · rwa [← hm]
    by_contra hn
    rw [hm.ended (by simpa using hn)] at hl
    cases hl

theorem Tx.Effect.released (he : x.Effect a v v') (h : ∃ r, v.row op = some r ∧ r.state = .released) :
    ∃ r, v'.row op = some r ∧ r.state = .released := by
  obtain ⟨r, hr, hs⟩ := h
  obtain ⟨r', hr', -, hm | hm⟩ := he.row hr
  · exact ⟨r', hr', hm ▸ hs⟩
  · exact absurd hs hm.ne_released

/-! ### Jobs -/

variable {id : String} {j : JobView}

theorem job_mapJob {id' : String} {f : JobView → JobView} (hj : v.job id = some j) :
    (v.mapJob id' f).job id = some (if id = id' then f j else j) := by
  rw [View.mapJob_job]
  split
  · rename_i h
    subst h
    simp [hj]
  · exact hj

theorem Tx.Effect.job (he : x.Effect a v v') (hj : v.job id = some j) :
    ∃ j', v'.job id = some j' ∧ (j' = j ∨ x.Writes a id j j') := by
  cases he.change with
  | same | row _ _ _ | build _ _ _ _ | newBuild _ _ _ => exact ⟨j, hj, .inl rfl⟩
  | job id' g f hg _ =>
    refine ⟨if id = id' then g j else j, job_mapJob hj, ?_⟩
    split
    · rename_i h
      subst h
      exact hg j hj
    · exact .inl rfl
  | newJob id' _ hnone _ =>
    have hne : id ≠ id' := by
      rintro rfl
      rw [hnone] at hj
      cases hj
    exact ⟨j, by rw [View.addJob_job, if_neg hne, hj], .inl rfl⟩

theorem Tx.Effect.row_eq (he : x.Effect a v v') (hmove : ∀ s s', ¬ x.Moves a op s s') (hcreate : ¬ x.Creates a op) :
    v'.row op = v.row op := by
  cases hr : v.row op with
  | some r =>
    obtain ⟨r', hr', hseq, hstatus⟩ := he.row hr
    have heq : r' = r := by
      cases r'
      cases r
      cases hseq
      cases hstatus.resolve_right (hmove _ _)
      rfl
    rw [hr', heq]
  | none =>
    cases hr' : v'.row op with
    | none => rfl
    | some r' => exact absurd (he.row_new hr hr').1 hcreate

theorem Tx.Effect.job_eq (he : x.Effect a v v') (hwrite : ∀ j j', ¬ x.Writes a id j j') (hcreate : ¬ x.Creates a (jobOp id)) :
    v'.job id = v.job id := by
  cases hj : v.job id with
  | some j =>
    obtain ⟨j', hj', hsame⟩ := he.job hj
    rw [hj', hsame.resolve_right (hwrite _ _)]
  | none =>
    rcases he.appears with h | ⟨id', hc, -, rfl⟩ | ⟨id', -, -, rfl⟩
    · have hkeys := h.job id
      rw [hj] at hkeys
      simpa using hkeys
    · have hne : id ≠ id' := fun heq => hcreate (heq ▸ hc)
      rw [View.addJob_job, if_neg hne, hj]
    · rw [View.addBuild_job, hj]

end

end Autback
