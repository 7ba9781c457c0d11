import Autback.Store.Moves

/-!
# Records and rows

A build's record and its queue row are written by the same transactions and agree (`View.BuildsAgree`), as long as a
teardown is asked for only once the build has ended. A job's record and its row (`View.JobsAgree`) agree less often: three
transactions can part them, and `Tx.Respects` says when they do not.
-/

namespace Autback

def BuildAgrees (b : BuildStatus) (s : OperationState) : Prop :=
  (b = .queued ↔ s = .queued ∨ s = .admitting) ∧ (b = .running ↔ s = .active) ∧
    (b.terminal = true ↔ s = .terminalizing ∨ s = .cleaning ∨ s = .released)

def JobAgrees (st : Status) (s : OperationState) : Prop :=
  st.terminal = true ↔ s = .terminalizing ∨ s = .cleaning ∨ s = .released

instance (b : BuildStatus) (s : OperationState) : Decidable (BuildAgrees b s) := by
  unfold BuildAgrees
  infer_instance

instance (st : Status) (s : OperationState) : Decidable (JobAgrees st s) := by
  unfold JobAgrees
  infer_instance

namespace View

def BuildsAgree (v : View) : Prop :=
  ∀ id b, v.build id = some b → ∃ r, v.row (buildOp id) = some r ∧ BuildAgrees b r.state

def JobsAgree (v : View) : Prop :=
  ∀ id j, v.job id = some j → ∃ r, v.row (jobOp id) = some r ∧ JobAgrees j.status r.state

end View

section Builds

variable {v v' : View}

theorem buildsAgree_mapRow {op : Op} {f : OperationState → OperationState} (h : v.BuildsAgree)
    (hf : ∀ id b r, op = buildOp id → v.build id = some b → v.row op = some r → BuildAgrees b r.state →
      BuildAgrees b (f r.state)) : (v.mapRow op f).BuildsAgree := by
  intro id b hb
  obtain ⟨r, hr, ha⟩ := h id b hb
  rw [View.mapRow_row]
  split
  · rename_i hop
    rw [← hop, hr]
    exact ⟨_, rfl, hf id b r hop.symm hb (hop ▸ hr) ha⟩
  · exact ⟨r, hr, ha⟩

theorem buildsAgree_mapBuild {id : String} {f : BuildStatus → BuildStatus} {g : OperationState → OperationState}
    (h : v.BuildsAgree) (hf : ∀ b s, v.build id = some b → BuildAgrees b s → BuildAgrees (f b) (g s)) :
    ((v.mapBuild id f).mapRow (buildOp id) g).BuildsAgree := by
  intro id' b hb
  rw [View.mapRow_build, View.mapBuild_build] at hb
  rw [View.mapRow_row, View.mapBuild_row]
  split at hb
  · rename_i hid
    obtain ⟨b0, hb0, rfl⟩ := Option.map_eq_some_iff.mp hb
    obtain ⟨r, hr, ha⟩ := h id b0 hb0
    rw [if_pos (by rw [hid]), hr]
    exact ⟨_, rfl, hf b0 r.state hb0 ha⟩
  rename_i hid
  rw [if_neg fun h => hid (congrArg Op.id h)]
  exact h id' b hb

theorem agrees_endBuild {b b' : BuildStatus} {s : OperationState} (ht : b'.terminal = true) (h : BuildAgrees b s) :
    BuildAgrees b' (endBuild s) := by
  revert h ht
  cases b <;> cases b' <;> cases s <;> decide

theorem Tx.Effect.buildsAgree_of_moves {x : Tx} {a : x.Val} (he : x.Effect a v v') (h : v.BuildsAgree) (hx : ¬ x.Builds)
    (hmove : ∀ id s s' b, x.Moves a (buildOp id) s s' → BuildAgrees b s → BuildAgrees b s') : v'.BuildsAgree := by
  cases he.change with
  | same => exact h
  | row op f hf =>
    refine buildsAgree_mapRow h fun id b r hop _ hr ha => ?_
    subst hop
    rcases hf r hr with hs | hm
    · rwa [hs]
    · exact hmove id _ _ b hm ha
  | job id g f _ _ => exact buildsAgree_mapRow (v := v.mapJob id g) h fun _ _ _ hop => by cases hop
  | build id g f hb _ => exact absurd hb hx
  | newJob id _ _ _ =>
    intro id' b hb
    rw [View.addJob_row, if_neg (by simp)]
    exact h id' b hb
  | newBuild id _ _ =>
    intro id' b hb
    rw [View.addBuild_build] at hb
    rw [View.addBuild_row]
    split at hb
    · rename_i hid
      cases hb
      rw [if_pos (by rw [hid])]
      exact ⟨_, rfl, (by decide : BuildAgrees .queued .queued)⟩
    rename_i hid
    rw [if_neg fun h => hid (congrArg Op.id h)]
    exact h id' b hb

theorem Tx.Effect.buildsAgree {x : Tx} {a : x.Val} (he : x.Effect a v v') (h : v.BuildsAgree)
    (hcancel : ∀ op, x ≠ .cancelQueuedOperation op)
    (hbegun : ∀ id, x = .beginOperationCleanup (buildOp id) → ¬ v.RowIs (buildOp id) OperationState.live) :
    v'.BuildsAgree := by
  cases x with
  | finishBuild id status exitCode =>
    obtain ⟨ht, -, rfl⟩ := he
    exact buildsAgree_mapBuild h fun b s _ ha => agrees_endBuild ht ha
  | activateOperation op =>
    obtain ⟨⟨r, hr, hs⟩, he⟩ := he
    obtain ⟨kind, id⟩ := op
    cases kind with
    | job =>
      rw [show v' = _ from he]
      exact buildsAgree_mapRow h fun _ _ _ hop => by cases hop
    | build =>
      rw [he.2]
      refine buildsAgree_mapBuild (g := fun _ => .active) h fun b s hb ha => ?_
      rw [he.1] at hb
      cases hb
      decide
  | cancelQueuedOperation op => exact absurd rfl (hcancel op)
  | beginOperationCleanup op =>
    cases a with
    | false => exact he.2 ▸ h
    | true =>
      rw [he.2]
      refine buildsAgree_mapRow h fun id b r hop hb hr ha => ?_
      subst hop
      exact absurd he.1 (hbegun id rfl)
  | emergencyStopActiveOperation message =>
    cases a with
    | none => exact he.1 ▸ h
    | some o =>
      obtain ⟨⟨kind, id⟩, _, _, _, _, _⟩ := o
      cases kind with
      | job =>
        rw [he.2.2]
        exact buildsAgree_mapRow (v := v.setJob id _) h fun _ _ _ hop => by cases hop
      | build =>
        obtain ⟨⟨r, hr, hs, -⟩, -, rfl⟩ := he
        exact buildsAgree_mapBuild (g := fun _ => .terminalizing) h fun b s _ _ => by decide
  | _ =>
    refine he.buildsAgree_of_moves h not_false fun id s s' b hm ha => ?_
    first
      | exact False.elim hm
      | cases b <;> cases s <;> simp_all [Tx.Moves, BuildAgrees, OperationState.tearing, BuildStatus.terminal]

end Builds

section Jobs

variable {v v' : View}

/-- The transaction does not part a job from its row. A request for cancellation releases a queued row and ends a job that
is preparing, or queued and not admitted: both or neither must be the case. A terminal snapshot ends the job, but the row
only if it is admitting or active. A request for a teardown ends the row whatever the job. -/
def Tx.Respects (x : Tx) (v : View) : Prop :=
  match x with
  | .requestJobCancellation id => ∀ j r, v.job id = some j → v.row (jobOp id) = some r →
    (r.state = .queued → j.status = .preparing ∨ j.status = .queued) ∧ (r.state.executing = true → j.status ≠ .preparing)
  | .syncJob id remote => ∀ j r, v.job id = some j → v.row (jobOp id) = some r →
    remote.status.terminal = true → j.status.terminal = false → r.state ≠ .queued
  | .beginOperationCleanup ⟨.job, id⟩ => ∀ j r, v.job id = some j → v.row (jobOp id) = some r →
    r.state.live = true → j.status.terminal = true
  | _ => True

theorem jobsAgree_mapRow {op : Op} {f : OperationState → OperationState} (h : v.JobsAgree)
    (hf : ∀ id j r, op = jobOp id → v.job id = some j → v.row op = some r → JobAgrees j.status r.state →
      JobAgrees j.status (f r.state)) : (v.mapRow op f).JobsAgree := by
  intro id j hj
  obtain ⟨r, hr, ha⟩ := h id j hj
  rw [View.mapRow_row]
  split
  · rename_i hop
    rw [← hop, hr]
    exact ⟨_, rfl, hf id j r hop.symm hj (hop ▸ hr) ha⟩
  · exact ⟨r, hr, ha⟩

theorem jobsAgree_mapJob {id : String} {f : JobView → JobView} {g : OperationState → OperationState} (h : v.JobsAgree)
    (hf : ∀ j r, v.job id = some j → v.row (jobOp id) = some r → JobAgrees j.status r.state →
      JobAgrees (f j).status (g r.state)) : ((v.mapJob id f).mapRow (jobOp id) g).JobsAgree := by
  intro id' j hj
  rw [View.mapRow_job, View.mapJob_job] at hj
  rw [View.mapRow_row, View.mapJob_row]
  split at hj
  · rename_i hid
    obtain ⟨j0, hj0, rfl⟩ := Option.map_eq_some_iff.mp hj
    obtain ⟨r, hr, ha⟩ := h id j0 hj0
    rw [if_pos (by rw [hid]), hr]
    exact ⟨_, rfl, hf j0 r hj0 hr ha⟩
  rename_i hid
  rw [if_neg fun h => hid (congrArg Op.id h)]
  exact h id' j hj

theorem agrees_cancel {st : Status} {s : OperationState} {cancels : Prop} {_ : Decidable cancels} (h : JobAgrees st s)
    (hc : cancels ↔ st = .preparing ∨ (st = .queued ∧ s.executing = false)) (ht : st.terminal = false)
    (hqueue : s = .queued → st = .preparing ∨ st = .queued) (hexec : s.executing = true → st ≠ .preparing) :
    JobAgrees (if cancels then .cancelled else st) (dropQueued s) := by
  by_cases h' : cancels
  · have := hc.mp h'
    rw [if_pos h']
    cases st <;> cases s <;> simp_all [JobAgrees, dropQueued, Status.terminal, OperationState.executing]
  have := mt hc.mpr h'
  rw [if_neg h']
  cases st <;> cases s <;> simp_all [JobAgrees, dropQueued, Status.terminal, OperationState.executing]

theorem Tx.Effect.jobsAgree_of_moves {x : Tx} {a : x.Val} (he : x.Effect a v v') (h : v.JobsAgree)
    (hwrite : ∀ id j j', ¬ x.Writes a id j j')
    (hmove : ∀ id s s' st, x.Moves a (jobOp id) s s' → JobAgrees st s → JobAgrees st s') : v'.JobsAgree := by
  intro id j' hj'
  cases hj : v.job id with
  | none =>
    obtain ⟨rfl, hrow⟩ := he.job_new hj hj'
    exact ⟨_, hrow, (by decide : JobAgrees .preparing .queued)⟩
  | some j =>
    obtain ⟨j1, hj1, hsame⟩ := he.job hj
    obtain rfl := hsame.resolve_right (hwrite id j j1)
    rw [hj'] at hj1
    cases hj1
    obtain ⟨r, hr, ha⟩ := h id j' hj
    obtain ⟨r', hr', -, hm⟩ := he.row hr
    refine ⟨r', hr', ?_⟩
    rcases hm with hm | hm
    · rwa [hm]
    · exact hmove id _ _ _ hm ha

theorem Tx.Effect.jobsAgree {x : Tx} {a : x.Val} (he : x.Effect a v v') (h : v.JobsAgree)
    (hcancel : ∀ op, x ≠ .cancelQueuedOperation op) (hx : x.Respects v) : v'.JobsAgree := by
  cases x with
  | queueJob id rootDigest =>
    obtain ⟨⟨c, hj, rfl⟩, -⟩ := he
    exact jobsAgree_mapJob (g := fun _ => .queued) h fun _ _ _ _ _ => by simp [JobAgrees, Status.terminal]
  | syncJob id remote =>
    rw [show v' = _ from he]
    refine jobsAgree_mapJob h fun j r hj hr ha => ?_
    have hx := hx j r hj hr
    cases ht : j.status.terminal <;> cases hm : remote.status.terminal <;> cases hs : r.state <;>
      simp_all [JobAgrees, endExecuting, OperationState.executing]
  | requestJobCancellation id =>
    obtain ⟨j0, hj0, ht, rfl⟩ := he
    refine jobsAgree_mapJob h fun j r hj hr ha => ?_
    rw [hj0] at hj
    cases hj
    obtain ⟨hqueue, hexec⟩ := hx j0 r hj0 hr
    refine agrees_cancel ha ?_ ht hqueue hexec
    simp only [View.CancelsNow, View.RowIs, hr, Option.some.injEq, exists_eq_left']
    simp
  | failJob id message =>
    obtain ⟨j0, hj0, hs, rfl⟩ := he
    refine jobsAgree_mapJob h fun j r hj hr ha => ?_
    rw [hj0] at hj
    cases hj
    have hr' : r.state.live = true := by
      rcases hs with hs | hs <;> cases hr : r.state <;> simp_all [JobAgrees, Status.terminal, OperationState.live]
    simp [JobAgrees, endLive, hr', Status.terminal]
  | cancelQueuedOperation op => exact absurd rfl (hcancel op)
  | beginOperationCleanup op =>
    cases a with
    | false => exact he.2 ▸ h
    | true =>
      obtain ⟨⟨r, hr, hs⟩, rfl⟩ := he
      refine jobsAgree_mapRow h fun id j r' hop hj hr' ha => ?_
      subst hop
      rw [hr] at hr'
      cases hr'
      have ht := hx j r hj hr hs
      simp [JobAgrees, ht]
  | emergencyStopActiveOperation message =>
    cases a with
    | none => exact he.1 ▸ h
    | some o =>
      obtain ⟨⟨kind, id⟩, _, _, _, _, _⟩ := o
      cases kind with
      | job =>
        rw [he.2.2]
        exact jobsAgree_mapJob (g := fun _ => .terminalizing) h fun _ _ _ _ _ => by simp [JobAgrees, Status.terminal]
      | build =>
        rw [he.2.2]
        exact jobsAgree_mapRow (v := v.setBuild id _) h fun _ _ _ hop => by cases hop
  | _ =>
    refine he.jobsAgree_of_moves h (fun _ _ _ hw => hw) fun id s s' st hm ha => ?_
    cases s <;> simp_all [Tx.Moves, JobAgrees, OperationState.executing, OperationState.tearing]

end Jobs

end Autback
