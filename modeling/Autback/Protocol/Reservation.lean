import Autback.Conc.Cover
import Autback.Protocol.Records

/-!
# Reservations without an owner

An operation is loose (`View.loose`) if its row can hold the worker and nothing but the goroutine at work on it will let go: a
job that has ended while its row has not, or a build whose row is admitting. What a goroutine has still to settle is its debt
(`Debts.owes`), and every loose operation is somebody's debt.

A debt is lost if the call that would settle it fails, or if the process ends (`reservation_orphaned`). As long as that does
not happen to a loose operation (`settling`), no reservation is left without an owner (`reservation_owned`).
-/

namespace Autback

open Conc Ghost
open Prog (returns_bind)

def View.loose (v : View) (op : Op) : Bool :=
  match op.kind with
  | .job => ((v.job op.id).any fun j => j.status.terminal) && (v.row op).any fun r => r.state.live
  | .build => (v.row op).any fun r => r.state == .admitting

section Loose

variable {v v' : View} {x : Tx} {a : x.Val} {id : String} {op : Op}

theorem loose_job_iff : v.loose (jobOp id) = true ↔
    (∃ j, v.job id = some j ∧ j.status.terminal = true) ∧ ∃ r, v.row (jobOp id) = some r ∧ r.state.live = true := by
  simp [View.loose, jobOp, Option.any_eq_true]

theorem loose_build_iff : v.loose (buildOp id) = true ↔ ∃ r, v.row (buildOp id) = some r ∧ r.state = .admitting := by
  simp [View.loose, buildOp, Option.any_eq_true]

def Tx.Loosens : (x : Tx) → x.Val → Op → Prop
  | .requestJobCancellation id, _, op => op = jobOp id
  | .syncJob id remote, _, op => op = jobOp id ∧ remote.status.terminal = true
  | .acquireNextOperation, a, op => ∃ o, a = some o ∧ op = o.op ∧ op.kind = .build
  | _, _, _ => False

theorem row_live_of_endLive {w : View} {r : RowView} (hr : (w.mapRow op endLive).row op = some r) :
    r.state.live = false := by
  simp only [View.mapRow_row, if_true, Option.map_eq_some_iff] at hr
  obtain ⟨r0, -, rfl⟩ := hr
  cases r0.state <;> simp [endLive, OperationState.live]

theorem Tx.Effect.loose_job (he : x.Effect a v v') (hrecord : v.Recorded) (h : v'.loose (jobOp id) = true) :
    v.loose (jobOp id) = true ∨ x.Loosens a (jobOp id) := by
  obtain ⟨⟨j', hj', ht⟩, r', hr', hl⟩ := loose_job_iff.mp h
  cases hj : v.job id with
  | none =>
    obtain ⟨rfl, -⟩ := he.job_new hj hj'
    cases ht
  | some j =>
    have hlive : ∃ r, v.row (jobOp id) = some r ∧ r.state.live = true := by
      rcases he.live_before hr' hl with ⟨r, hr, hl, -⟩ | ⟨hnone, -⟩
      · exact ⟨r, hr, hl⟩
      have := hrecord.row id (by simp [hj])
      simp [hnone] at this
    obtain ⟨j1, hj1, hw⟩ := he.job hj
    rw [hj'] at hj1
    cases hj1
    rcases hw with rfl | hw
    · exact .inl (loose_job_iff.mpr ⟨⟨j', hj, ht⟩, hlive⟩)
    -- what ends a job ends its row with it, or loosens the operation
    cases x <;> simp only [Tx.Writes] at hw
    case queueJob => simp [hw.2.2, Status.terminal] at ht
    case syncJob id' remote =>
      obtain ⟨rfl, -, rfl⟩ := hw
      exact .inr ⟨rfl, ht⟩
    case requestJobCancellation id' => exact .inr (by rw [hw.1]; rfl)
    case failJob id' message =>
      obtain ⟨rfl, -⟩ := hw
      obtain ⟨j0, -, -, rfl⟩ := he
      rw [row_live_of_endLive hr'] at hl
      cases hl
    case emergencyStopActiveOperation message =>
      obtain ⟨⟨o, rfl, ho⟩, -⟩ := hw
      obtain ⟨-, he⟩ := he
      rw [ho] at he
      obtain ⟨-, rfl⟩ := he
      simp only [View.setRow_row, if_true, Option.map_eq_some_iff] at hr'
      obtain ⟨r, -, rfl⟩ := hr'
      cases hl

theorem Tx.Effect.loose_build (he : x.Effect a v v') (h : v'.loose (buildOp id) = true) :
    v.loose (buildOp id) = true ∨ x.Loosens a (buildOp id) := by
  obtain ⟨r', hr', hs⟩ := loose_build_iff.mp h
  cases hr : v.row (buildOp id) with
  | none =>
    obtain ⟨-, rfl⟩ := he.row_new hr hr'
    cases hs
  | some r =>
    obtain ⟨r1, hr1, -, hm⟩ := he.row hr
    rw [hr'] at hr1
    cases hr1
    rcases hm with hm | hm
    · exact .inl (loose_build_iff.mpr ⟨r, hr, hm ▸ hs⟩)
    -- only an admission makes a row admitting
    cases x <;> simp only [Tx.Moves, hs] at hm <;> try simp at hm
    obtain ⟨⟨o, ha, ho⟩, -⟩ := hm
    exact .inr ⟨o, ha, ho, rfl⟩

theorem Tx.Effect.loose (he : x.Effect a v v') (hrecord : v.Recorded) (h : v'.loose op = true) :
    v.loose op = true ∨ x.Loosens a op := by
  obtain ⟨kind, id⟩ := op
  cases kind with
  | job => exact he.loose_job hrecord h
  | build => exact he.loose_build h

end Loose

/-! ## Debts -/

/-- What a goroutine knows and owes: the jobs that it has read, those whose row it has seen past admission, and the operation
that it has still to settle. -/
structure Debts where
  mayOwe : Bool
  (known past : List String)
  owes : Option Op

namespace Debts

def settle (g : Debts) (op : Op) : Debts := if g.owes = some op then { g with owes := none } else g

def incur (g : Debts) (id : String) : Debts := if id ∈ g.past then g else { g with owes := some (jobOp id) }

/-- What an answer changes. A job that is read back is settled if the read fails or shows that the job has not ended. -/
def after (g : Debts) (c : Call) (r : c.Ret) : Debts :=
  match c, r with
  | .tx (.job id), Except.ok (job : Job) =>
    let g := if job.status.terminal then g else g.settle (jobOp id)
    { g with known := id :: g.known }
  | .tx (.job id), Except.error _ => g.settle (jobOp id)
  | .tx (.listJobs _ _ _), Except.ok (jobs : List Job) => { g with known := jobs.map Job.id ++ g.known }
  | .tx (.operationState ⟨.job, id⟩), Except.ok (state : OperationState) =>
    if state = .queued ∨ state = .admitting then g else { g with past := id :: g.past }
  | .tx (.requestJobCancellation id), Except.ok _ => g.incur id
  | .tx (.syncJob id remote), Except.ok _ => if remote.status.terminal then g.incur id else g
  | .tx .acquireNextOperation, Except.ok (some (o : Operation)) =>
    if o.op.kind = .build then { g with owes := some o.op } else g
  | .tx (.activateOperation op), _ => if op.kind = .build then g.settle op else g
  | .tx (.requeueAdmittingOperation op), _ => if op.kind = .build then g.settle op else g
  | .tx (.beginOperationCleanup op), _ => g.settle op
  | _, _ => g

end Debts

def Label.mayOwe : Label → Bool
  | .request _ | .awaitActive _ _ | .poll _ _ _ | .dispatcher | .reconcilerRun => true
  | _ => false

def Label.known : Label → List String
  | .awaitActive _ job | .poll _ job _ => [job.id]
  | _ => []

/-- The calls of the dispatcher's worker outside `RunOnce`. -/
def Call.betweenRuns : Call → Bool
  | .dispatcherBegin | .dispatcherEnd | .dispatcherFinish | .retryDelay | .ctxErr .process => true
  | _ => false

def debts : Ghost Call Call.Ret Label Debts where
  start l := ⟨l.mayOwe, l.known, [], none⟩
  next := Debts.after
  guard g c := match c with
    | .tx (.requestJobCancellation _) | .tx (.syncJob _ _) | .tx .acquireNextOperation => g.mayOwe = true ∧ g.owes = none
    | .go l => l.known = []
    | c => c.betweenRuns = true → g.owes = none
  fact g c r := match c, r with
    | .tx (.job id), Except.ok (job : Job) => job.id = id
    | .tx (.operationState ⟨.job, id⟩), Except.error e => e.is .notFound = true → id ∉ g.known
    | _, _ => True
  exit g l := g.owes = none ∧ ∀ l', l = some l' → ∀ id ∈ l'.known, id ∈ g.known

/-- The goroutine owes nothing and has read the jobs of `ids`. -/
structure Clear (may : Bool) (ids : List String) (g : Debts) : Prop where
  mayOwe : g.mayOwe = may
  owes : g.owes = none
  known : ∀ id ∈ ids, id ∈ g.known

section Walk

variable {may : Bool} {ids : List String} {g : Debts} {op : Op} {id : String} {c : Call} {job : Job}

def Call.free : Call → Bool
  | .tx (.requestJobCancellation _) | .tx (.syncJob _ _) | .tx .acquireNextOperation => false
  | .go l => l.known.isEmpty
  | _ => true

theorem Clear.settle (h : Clear may ids g) (op : Op) : g.settle op = g := by
  simp [Debts.settle, h.owes]

theorem Clear.after (h : Clear may ids g) (hc : c.free = true) (r : c.Ret) : Clear may ids (g.after c r) := by
  unfold Debts.after
  split
  · rw [h.settle, ite_self]
    exact ⟨h.mayOwe, h.owes, fun id hid => List.mem_cons_of_mem _ (h.known id hid)⟩
  · rwa [h.settle]
  · exact ⟨h.mayOwe, h.owes, fun id hid => List.mem_append_right _ (h.known id hid)⟩
  · split
    · exact h
    · exact ⟨h.mayOwe, h.owes, h.known⟩
  · cases hc
  · cases hc
  · cases hc
  · rwa [h.settle, ite_self]
  · rwa [h.settle, ite_self]
  · rwa [h.settle]
  · exact h

theorem debts_still (hc : c.free = true) : debts.Still (Clear may ids) c := by
  intro g hg
  refine ⟨?_, fun r _ => hg.after hc r⟩
  simp only [debts]
  split
  · cases hc
  · cases hc
  · cases hc
  · exact List.isEmpty_iff.mp hc
  · exact fun _ => hg.owes

theorem free_of_quiet (hc : c.quiet = true) : c.free = true := by
  cases c with
  | tx x => cases x <;> first | rfl | cases hc
  | _ => first | rfl | cases hc

theorem debts_quiet (c : Call) (hc : c.quiet = true) : debts.Still (Clear may ids) c := debts_still (free_of_quiet hc)

theorem debts_advance : debts.Within (Clear may ids) advance :=
  within_advance debts_quiet (debts_still rfl) (debts_still rfl)

theorem debts_clearing (c : Call) (hc : c.clearing = true) : debts.Still (Clear may ids) c := by
  refine debts_still ?_
  cases c with
  | tx x => cases x <;> first | rfl | cases hc
  | _ => first | rfl | cases hc

theorem debts_connection (job : Job) : debts.Within (Clear may ids) (Api.jobPreparationConnection job) :=
  within_jobPreparationConnection debts_quiet (fun _ => debts_still rfl) job

/-! ### Settling -/

/-- The goroutine owes `op` at most. -/
structure Near (op : Op) (ids : List String) (g : Debts) : Prop where
  mayOwe : g.mayOwe = true
  owes : g.owes = none ∨ g.owes = some op
  known : ∀ id ∈ ids, id ∈ g.known

theorem Clear.near (h : Clear true ids g) (op : Op) : Near op ids g := ⟨h.mayOwe, .inl h.owes, h.known⟩

theorem Clear.weaken (h : Clear may (id :: ids) g) : Clear may ids g :=
  ⟨h.mayOwe, h.owes, fun id' hid => h.known id' (List.mem_cons_of_mem _ hid)⟩

theorem Near.weaken (h : Near op (id :: ids) g) : Near op ids g :=
  ⟨h.mayOwe, h.owes, fun id' hid => h.known id' (List.mem_cons_of_mem _ hid)⟩

theorem Near.know (h : Near op ids g) (id : String) : Near op (id :: ids) { g with known := id :: g.known } := by
  refine ⟨h.mayOwe, h.owes, fun id' hid => ?_⟩
  rcases List.mem_cons.mp hid with rfl | hid
  · exact List.mem_cons_self ..
  · exact List.mem_cons_of_mem _ (h.known id' hid)

theorem Near.clear (h : Near op ids g) (hg : g.owes = none) : Clear true ids g := ⟨h.mayOwe, hg, h.known⟩

theorem Near.settle (h : Near op ids g) : Clear true ids (g.settle op) := by
  unfold Debts.settle
  split
  · exact ⟨h.mayOwe, rfl, h.known⟩
  · exact ⟨h.mayOwe, h.owes.resolve_right ‹_›, h.known⟩

theorem Near.settle_other (h : Near op ids g) (op' : Op) : Near op ids (g.settle op') := by
  unfold Debts.settle
  split
  · exact ⟨h.mayOwe, .inl rfl, h.known⟩
  · exact h

theorem Clear.incur (h : Clear true ids g) (id : String) : Near (jobOp id) ids (g.incur id) := by
  unfold Debts.incur
  split
  · exact h.near _
  · exact ⟨h.mayOwe, .inr rfl, h.known⟩

theorem near_lifecycle (c : Call) (hc : c.lifecycle = true) : debts.Still (Near op ids) c := by
  intro g hg
  cases c with
  | tx x =>
    cases x with
    | job id =>
      refine ⟨fun h => (by cases h), fun r _ => ?_⟩
      rcases r with e | (job : Job)
      · exact hg.settle_other _
      change Near op ids (g.after (.tx (.job id)) (Except.ok job))
      simp only [Debts.after]
      split
      · exact (hg.know id).weaken
      · exact ((hg.settle_other _).know id).weaken
    | resourceBaseline _ | saveResourceBaseline _ _ | audit _ _ _ _ _ => exact ⟨fun h => (by cases h), fun _ _ => hg⟩
    | _ => cases hc
  | list _ | resolveSecret _ _ | writeSecret _ _ | publishSecrets _ | removeSecrets _ | wait _ =>
    exact ⟨fun h => (by cases h), fun _ _ => hg⟩
  | _ => cases hc

theorem debts_request (hg : Near op ids g) : debts.Safe g (Coordinator.request op) fun g' _ => Clear true ids g' := by
  refine safe_try.mpr (safe_try.mpr ⟨fun h => (by cases h), fun r _ => ?_⟩)
  have hclean : Clear true ids (g.settle op) := hg.settle
  have hadvance : debts.Within (Clear true ids) (always (perform .coordinatorAdvance) : Go Err Unit) :=
    within_ofProg (within_lift (debts_still rfl))
  rcases r with e | (done : Bool)
  · exact hclean
  cases done with
  | true => exact hadvance _ hclean
  | false =>
    refine safe_try.mpr (((within_quiet debts_quiet (.tx (.operationState op)) rfl) _ hclean).mono ?_)
    rintro g' (e | (state : OperationState)) hg'
    · exact hg'
    simp only []
    split
    · exact hadvance g' hg'
    · exact hg'

theorem debts_read (hg : Clear true ids g) (id : String) :
    debts.Safe g (Store.job id) fun g' r => match r with
      | .ok job => Clear true (job.id :: ids) g'
      | .error _ => Clear true ids g' := by
  refine ⟨fun h => (by cases h), fun r hr => ?_⟩
  rcases r with e | (job : Job)
  · exact hg.after (c := .tx (.job id)) rfl (Except.error e)
  change job.id = id at hr
  change Clear true (job.id :: ids) (g.after (.tx (.job id)) (Except.ok job))
  simp only [Debts.after, hg.settle, ite_self, hr]
  exact ((hg.near (jobOp id)).know id).clear hg.owes

theorem debts_readBack (hg : Near (jobOp id) ids g) :
    debts.Safe g (Store.job id) fun g' r => match r with
      | .ok job => job.id = id ∧ Near (jobOp id) (id :: ids) g' ∧
          (job.status.terminal = false → Clear true (id :: ids) g')
      | .error _ => Clear true ids g' := by
  refine ⟨fun h => (by cases h), fun r hr => ?_⟩
  rcases r with e | (job : Job)
  · exact hg.settle
  refine ⟨hr, ?_, fun ht => ?_⟩
  · change Near (jobOp id) (id :: ids) (g.after (.tx (.job id)) (Except.ok job))
    simp only [Debts.after]
    split
    · exact hg.know id
    · exact (hg.settle.near _).know id
  change Clear true (id :: ids) (g.after (.tx (.job id)) (Except.ok job))
  simp only [Debts.after, ht, Bool.false_eq_true, if_false]
  exact ((hg.settle.near (jobOp id)).know id).clear hg.settle.owes

/-! ### The dispatcher -/

theorem debts_requestClear (op : Op) : debts.Within (Clear true ids) (Coordinator.request op) :=
  fun _ hg => debts_request (hg.near op)

theorem debts_rejectJob (context id : String) (e : Err) :
    debts.Within (Clear true ids) (Dispatcher.rejectJob context id e) :=
  within_rejectJob debts_quiet (fun _ => debts_still rfl) (debts_requestClear _) context e

theorem debts_admitBuild (scope : Scope) (hg : Near (buildOp id) ids g) :
    debts.Safe g (Dispatcher.admitOperation scope (buildOp id)) fun g' _ => Clear true ids g' := by
  refine safe_try.mpr (safe_attempt.mpr ((within_prepare near_lifecycle (buildOp id) g hg).mono ?_))
  rintro g' (e | u) hg'
  · change debts.Safe g' (Dispatcher.prepareFailed (buildOp id) e) _
    rw [Dispatcher.prepareFailed, if_neg (by simp)]
    refine safe_try.mpr (safe_attempt.mpr ⟨fun h => (by cases h), fun r _ => ?_⟩)
    have hclean : Clear true ids (g'.settle (buildOp id)) := hg'.settle
    rcases r with e' | u
    · exact hclean
    · exact hclean
  refine safe_mapError.mpr ⟨fun h => (by cases h), fun r _ => ?_⟩
  exact hg'.settle

variable (cfg : Config) (principal : Principal) (scope : Scope)

theorem debts_admitJob (id : String) : debts.Within (Clear true ids) (Dispatcher.admitOperation scope (jobOp id)) :=
  within_admits debts_quiet (fun context e => debts_rejectJob context id e) (debts_still rfl) (fun _ => debts_still rfl)
    (fun _ => debts_still rfl) (debts_still rfl)

theorem debts_reserve : debts.Within (Clear true ids) (Dispatcher.reserve scope) := by
  refine within_try (within_ofProg (within_quiet debts_quiet _ rfl)) fun draining => ?_
  split
  · exact within_throw _
  intro g hg
  refine safe_try.mpr ⟨⟨hg.mayOwe, hg.owes⟩, fun r _ => ?_⟩
  rcases r with e | (_ | (o : Operation))
  · exact hg
  · exact hg
  change debts.Safe (g.after (.tx .acquireNextOperation) (Except.ok (some o))) (Dispatcher.admitOperation scope o.op) _
  simp only [Debts.after]
  generalize o.op = op
  obtain ⟨kind, id⟩ := op
  cases kind with
  | build => exact debts_admitBuild scope ⟨hg.mayOwe, .inr rfl, hg.known⟩
  | job => exact debts_admitJob scope id g hg

theorem debts_runOnce : debts.Within (Clear true ids) (Dispatcher.runOnce cfg scope) :=
  within_runOnce_of_reserve debts_quiet debts_clearing (debts_reserve scope)

theorem debts_runOrAdvance : debts.Within (Clear true ids) (Dispatcher.runOrAdvance cfg scope) :=
  within_runOrAdvance (debts_runOnce cfg scope) debts_advance

/-! ### Refreshing a job -/

def Seen (id : String) (ids : List String) (g : Debts) : Prop := Clear true ids g ∧ id ∈ g.past

theorem past_after (r : c.Ret) (h : id ∈ g.past) : id ∈ (g.after c r).past := by
  have hsettled : ∀ op, (g.settle op).past = g.past := fun op => by unfold Debts.settle; split <;> rfl
  have hinc : ∀ id, (g.incur id).past = g.past := fun id => by unfold Debts.incur; split <;> rfl
  unfold Debts.after
  split
  · split
    · exact h
    rw [← hsettled] at h
    exact h
  · rwa [hsettled]
  · exact h
  · split
    · exact h
    · exact List.mem_cons_of_mem _ h
  · rwa [hinc]
  · split
    · rwa [hinc]
    · exact h
  · split <;> exact h
  · split
    · rwa [hsettled]
    · exact h
  · split
    · rwa [hsettled]
    · exact h
  · rwa [hsettled]
  · exact h

theorem Clear.seen (h : Clear true ids g) {state : OperationState} (hs : state ≠ .queued ∧ state ≠ .admitting) :
    Seen id ids (g.after (.tx (.operationState (jobOp id))) (Except.ok state)) := by
  refine ⟨h.after rfl _, ?_⟩
  simp [Debts.after, hs.1, hs.2]

theorem seen_still (hc : c.free = true) : debts.Still (Seen id ids) c :=
  fun g hg => ⟨(debts_still hc g hg.1).1, fun r hr => ⟨(debts_still hc g hg.1).2 r hr, past_after r hg.2⟩⟩

theorem seen_quiet (c : Call) (hc : c.quiet = true) : debts.Still (Seen id ids) c := seen_still (free_of_quiet hc)

def Refreshed (ids : List String) (g : Debts) (r : Except Err Job) : Prop :=
  Clear true ids g ∧ ∀ job, r = .ok job → job.id ∈ g.known

theorem debts_refreshRemote (hg : Seen id ids g) : debts.Safe g (Api.refreshRemote id) (Refreshed ids) := by
  refine safe_try.mpr (((within_quiet seen_quiet (.status id) rfl) g hg).mono ?_)
  rintro g' (e | (remote : RemoteJob)) hg'
  · exact ⟨hg'.1, fun _ h => (by cases h)⟩
  refine safe_try.mpr (safe_try.mpr ⟨⟨hg'.1.mayOwe, hg'.1.owes⟩, fun r _ => ?_⟩)
  have hsame : g'.after (.tx (.syncJob id remote)) r = g' := by
    rcases r with e | u
    · rfl
    · simp only [Debts.after, Debts.incur, if_pos hg'.2, ite_self]
  rw [show debts.next g' (.tx (.syncJob id remote)) r = g' from hsame]
  rcases r with e | u
  · exact ⟨hg'.1, fun _ h => (by cases h)⟩
  refine (debts_read hg'.1 id).mono ?_
  rintro g'' (e | job) hread
  · exact ⟨hread, fun _ h => (by cases h)⟩
  have hdone : ∀ {g}, Clear true (job.id :: ids) g → Refreshed ids g (.ok job) := by
    refine fun h => ⟨h.weaken, fun job' hjob => ?_⟩
    cases hjob
    exact h.known _ (List.mem_cons_self ..)
  refine safe_ite (fun _ => ?_) fun _ => hdone hread
  exact safe_try.mpr (safe_ofProg.mpr ((debts_advance g'' hread).mono fun _ _ h => hdone h))

theorem debts_refreshJob (hjob : job.id ∈ ids) (hg : Clear true ids g) :
    debts.Safe g (Api.refreshJob job) (Refreshed ids) := by
  have hsame : ∀ {g}, Clear true ids g → Refreshed ids g (.ok job) := by
    refine fun h => ⟨h, fun job' heq => ?_⟩
    cases heq
    exact h.known _ hjob
  rw [Api.refreshJob]
  refine safe_ite (fun _ => hsame hg) fun _ => ?_
  refine safe_try.mpr (safe_attempt.mpr ⟨fun h => (by cases h), fun r hr => ?_⟩)
  rcases r with e | (state : OperationState)
  · -- the row of a job that has been read exists
    refine safe_ite (fun hnone => ?_) fun _ => ⟨hg, fun _ h => (by cases h)⟩
    exact absurd (hg.known _ hjob) (hr hnone)
  refine safe_ite (fun hs => ?_) fun hs => ?_
  · exact (hsame (hg.after (c := .tx (.operationState (jobOp job.id))) rfl (Except.ok state)))
  · exact debts_refreshRemote (hg.seen (by simpa using hs))

/-! ### Handlers -/

theorem debts_authorizedJob (id : String) (hg : Clear true ids g) :
    debts.Safe g (Api.authorizedJob principal id) fun g' r => match r with
      | .ok job => Clear true (job.id :: ids) g'
      | .error _ => Clear true ids g' := by
  refine safe_try.mpr (safe_mapError.mpr ((debts_read hg id).mono ?_))
  rintro g' (e | job) hg'
  · exact hg'
  refine safe_try.mpr ((within_authorizeProject debts_quiet principal job.projectID g' hg').mono ?_)
  rintro g'' (e | project) hg''
  · exact hg''.weaken
  · exact hg''

theorem debts_getJob (id : String) : debts.Within (Clear true ids) (Api.getJob id) := by
  refine within_try (within_quiet debts_quiet _ rfl) fun principal => ?_
  intro g hg
  refine safe_try.mpr ((debts_authorizedJob principal id hg).mono ?_)
  rintro g' (e | job) hg'
  · exact hg'
  refine safe_try.mpr (safe_mapError.mpr ((debts_refreshJob (List.mem_cons_self ..) hg').mono ?_))
  rintro g'' (e | refreshed) hg''
  · exact hg''.1.weaken
  refine (within_try (within_renewPreparation debts_quiet refreshed) fun _ => ?_) g'' hg''.1.weaken
  exact within_try (debts_connection refreshed) fun _ => within_ok _

theorem debts_refreshEach : ∀ {jobs : List Job}, (∀ job ∈ jobs, job.id ∈ ids) →
    debts.Within (Clear true ids) (Api.refreshEach jobs)
  | [], _ => within_ok _
  | job :: jobs, h => by
    have hrefresh : debts.Within (Clear true ids) (Api.refreshJob job) := fun g hg =>
      (debts_refreshJob (h job (List.mem_cons_self ..)) hg).mono fun _ _ h => h.1
    refine within_try (within_ofProg hrefresh) fun refreshed => ?_
    refine within_try (debts_refreshEach fun job' hjob => h job' (List.mem_cons_of_mem _ hjob)) fun rest => ?_
    split <;> exact within_ok _

theorem debts_listJobs (project : String) (pageSize limit : Int) (cursor : Option JobCursor) :
    debts.Within (Clear true ids) (Api.listJobs project pageSize limit cursor) := by
  refine within_try (within_quiet debts_quiet _ rfl) fun principal => ?_
  refine within_try (within_authorizeProject debts_quiet _ _) fun project => ?_
  extract_lets size
  split
  · exact within_throw _
  intro g hg
  refine safe_try.mpr (safe_mapError.mpr ⟨fun h => (by cases h), fun r _ => ?_⟩)
  rcases r with e | (page : List Job)
  · exact hg
  have hpage : Clear true (page.map Job.id ++ ids) { g with known := page.map Job.id ++ g.known } := by
    refine ⟨hg.mayOwe, hg.owes, fun id hid => ?_⟩
    rcases List.mem_append.mp hid with hid | hid
    · exact List.mem_append_left _ hid
    · exact List.mem_append_right _ (hg.known id hid)
  have hmem : ∀ job ∈ page.take size.toNat, job.id ∈ page.map Job.id ++ ids := fun job hjob =>
    List.mem_append_left _ (List.mem_map_of_mem (List.mem_of_mem_take hjob))
  refine (within_try (debts_refreshEach hmem) (fun _ => within_ok _) _ hpage).mono fun g' _ hg' => ?_
  exact ⟨hg'.mayOwe, hg'.owes, fun id hid => hg'.known id (List.mem_append_right _ hid)⟩

theorem debts_afterCancel (job : Option Job) (state : Option OperationState) :
    debts.Within (Clear true ids) (Api.afterCancel cfg principal job state) :=
  within_afterCancel (fun _ => debts_requestClear _) (debts_runOnce cfg .request) fun _ _ => debts_still rfl

/-- The end of `CancelJob` for a job that was read back, when nothing is owed. -/
theorem debts_cancelled (job : Job) (state : Option OperationState) (hg : Clear true (job.id :: ids) g) :
    debts.Safe g (if job.status ≠ .cancelled then
        (Api.refreshOrZero job >>= fun job => Api.afterCancel cfg principal job state : Go ApiError Reply)
      else Api.afterCancel cfg principal (some job) state) fun g' _ => Clear true ids g' := by
  refine safe_ite (fun _ => ?_) fun _ => (debts_afterCancel cfg principal _ state g hg).mono fun _ _ h => h.weaken
  refine safe_try.mpr (safe_try.mpr (safe_ofProg.mpr ((debts_refreshJob (List.mem_cons_self ..) hg).mono ?_)))
  rintro g' (e | job') hg'
  · exact (debts_afterCancel cfg principal _ state g' hg'.1).mono fun _ _ h => h.weaken
  · exact (debts_afterCancel cfg principal _ state g' hg'.1).mono fun _ _ h => h.weaken

theorem debts_requestCancel_seen (state : Option OperationState) (hg : Seen id ids g) :
    debts.Safe g (Api.requestCancel cfg principal id state) fun g' _ => Clear true ids g' := by
  refine safe_try.mpr (safe_mapError.mpr (safe_try.mpr ⟨⟨hg.1.mayOwe, hg.1.owes⟩, fun r _ => ?_⟩))
  have hsame : g.after (.tx (.requestJobCancellation id)) r = g := by
    rcases r with e | u
    · rfl
    · simp only [Debts.after, Debts.incur, if_pos hg.2]
  rw [show debts.next g (.tx (.requestJobCancellation id)) r = g from hsame]
  rcases r with e | u
  · exact hg.1
  refine (debts_read hg.1 id).mono ?_
  rintro g' (e | job) hg'
  · exact hg'
  · exact debts_cancelled cfg principal job state hg'

theorem debts_requestCancel_early {state : Option OperationState} (hstatus : state ≠ some .active) (hg : Clear true ids g) :
    debts.Safe g (Api.requestCancel cfg principal id state) fun g' _ => Clear true ids g' := by
  refine safe_try.mpr (safe_mapError.mpr (safe_try.mpr ⟨⟨hg.mayOwe, hg.owes⟩, fun r _ => ?_⟩))
  rcases r with e | u
  · exact hg
  refine (debts_readBack (hg.incur id)).mono ?_
  rintro g' (e | job) hg'
  · exact hg'
  obtain ⟨rfl, hnear, hclean⟩ := hg'
  cases ht : job.status.terminal with
  | false => exact debts_cancelled cfg principal job state (hclean ht)
  | true =>
    have hafter : debts.Safe g' (Api.afterCancel cfg principal (some job) state) fun g' _ => Clear true ids g' := by
      rw [Api.afterCancel, if_pos (by simp [ht, hstatus])]
      refine safe_try.mpr (safe_mapError.mpr ((debts_request hnear).mono ?_))
      rintro g'' (e | u) hg''
      · exact hg''.weaken
      · exact within_try (within_mapError (within_lift (debts_still rfl))) (fun _ => within_ok _) _ hg''.weaken
    refine safe_ite (fun _ => ?_) fun _ => hafter
    refine safe_try.mpr (safe_try.mpr (safe_ofProg.mpr ?_))
    rw [Api.refreshJob, if_pos (by simp [ht])]
    exact hafter

theorem debts_cancelInState (cfg : Config) (principal : Principal) {state : OperationState} (hg : Clear true ids g) :
    debts.Safe (g.after (.tx (.operationState (jobOp id))) (Except.ok state))
      (Api.cancelInState cfg principal id (some state)) fun g' _ => Clear true ids g' := by
  rw [Api.cancelInState]
  refine safe_ite (fun hs => ?_) fun hs => ?_
  · cases hs
    have hseen : Seen id ids (g.after (.tx (.operationState (jobOp id))) (Except.ok .active)) := hg.seen (by simp)
    refine safe_try.mpr (safe_mapError.mpr ((within_lift (seen_still (c := .cancel id) rfl) _ hseen).mono ?_))
    rintro g' (e | u) hg'
    · exact hg'.1
    · exact debts_requestCancel_seen cfg principal (some .active) hg'
  · exact debts_requestCancel_early cfg principal hs (hg.after rfl _)

theorem debts_cancelJob (id : String) : debts.Within (Clear true ids) (Api.cancelJob cfg id) := by
  refine within_try (within_quiet debts_quiet _ rfl) fun principal => ?_
  intro g hg
  refine safe_try.mpr ((debts_authorizedJob principal id hg).mono ?_)
  rintro g' (e | job) hg'
  · exact hg'
  refine safe_ite (fun _ => hg'.weaken) fun _ => ?_
  refine safe_try.mpr (safe_ofProg.mpr ⟨fun h => (by cases h), fun r hr => ?_⟩)
  rcases r with e | (state : OperationState)
  · refine safe_ite (fun hnone => ?_) fun _ => hg'.weaken
    exact absurd (hg'.known _ (List.mem_cons_self ..)) (hr hnone)
  · exact (debts_cancelInState cfg principal hg').mono fun _ _ h => h.weaken

theorem debts_handlers : HandlerParts debts (Clear true ids) cfg where
  quiet := debts_quiet
  respond _ _ := debts_still rfl
  run := debts_runOrAdvance cfg .request
  createJob _ _ _ _ := within_createJobHandler debts_quiet (fun _ => debts_still rfl) (fun _ _ => debts_still rfl)
    (fun _ => debts_requestClear _) (within_answerPrepared debts_quiet (debts_runOrAdvance cfg .request) debts_connection)
  queueAndRun _ _ _ := within_queueAndRun debts_quiet (debts_still rfl) (debts_runOrAdvance cfg .request)
  getJob := debts_getJob
  listJobs := debts_listJobs
  cancelJob := debts_cancelJob cfg
  createBuild _ _ _ := within_createBuildHandler debts_quiet (fun _ => debts_still rfl) (fun _ => debts_still rfl)
    (within_answerBuild debts_quiet (debts_runOrAdvance cfg .request) (fun _ => debts_still rfl) fun _ =>
      within_abandonBuild debts_quiet (debts_still rfl) debts_advance)
  getBuild := within_getBuild debts_quiet fun _ => debts_still rfl
  endBuild _ _ _ _ _ _ := within_endBuild debts_quiet (debts_still rfl) debts_advance fun _ _ => debts_still rfl

/-! ### Logs -/

theorem debts_answer (r : Request) (result : Except ApiError Reply) (hg : Clear true ids g) :
    debts.Safe g (Api.answer r result) debts.exit :=
  safe_bind.mpr ⟨fun h => (by cases h), fun _ _ => ⟨hg.owes, fun _ h => (by cases h)⟩⟩

theorem debts_openLogs (id : String) (offset : Int) (hg : Clear true ids g) :
    debts.Safe g (Api.openLogs id offset) fun g' r => match r with
      | .ok (job, _) => Clear true (job.id :: ids) g'
      | .error _ => Clear true ids g' := by
  rw [Api.openLogs]
  refine safe_ite (fun _ => hg) fun _ => ?_
  refine safe_try.mpr ((within_quiet debts_quiet .authenticate rfl g hg).mono ?_)
  rintro g1 (e | principal) hg1
  · exact hg1
  refine safe_try.mpr ((debts_authorizedJob principal id hg1).mono ?_)
  rintro g2 (e | job) hg2
  · exact hg2
  refine safe_ite (fun _ => hg2) fun _ => safe_ite (fun _ => ?_) fun _ => hg2
  refine safe_try.mpr (safe_ofProg.mpr ((within_quiet debts_quiet (.logs job.id) rfl g2 hg2).mono ?_))
  rintro g3 (e | u) hg3
  · refine safe_try.mpr (safe_ofProg.mpr ((within_quiet debts_quiet (.ctxErr .request) rfl g3 hg3).mono ?_))
    rintro g4 (_ | _) hg4
    · exact hg4.weaken
    · exact hg4
  · exact hg3

theorem debts_streamJobLogs (id : String) (offset : Int) (hg : Clear true ids g) :
    debts.Safe g (Api.streamJobLogs id offset) debts.exit := by
  refine safe_bind.mpr ((debts_openLogs id offset hg).mono ?_)
  rintro g' (e | ⟨job, follow⟩) hg'
  · exact debts_answer _ _ hg'
  refine safe_ite (fun _ => ⟨hg'.owes, fun l hl => ?_⟩) fun _ => debts_answer _ _ hg'
  cases hl
  intro id hid
  cases List.mem_singleton.mp hid
  exact hg'.known _ (List.mem_cons_self ..)

theorem exit_known (job : Job) {l : Label} (hl : l.known = [job.id]) (hg : g.owes = none) (hjob : job.id ∈ g.known) :
    debts.exit g (some l) := by
  refine ⟨hg, fun l' hl' id hid => ?_⟩
  cases hl'
  rw [hl] at hid
  rwa [List.mem_singleton.mp hid]

theorem debts_awaitRefresh (offset : Int) (hjob : job.id ∈ ids) (hg : Clear true ids g) :
    debts.Safe g (Api.awaitRefresh offset job) debts.exit := by
  refine safe_bind.mpr ((debts_refreshJob hjob hg).mono ?_)
  rintro g' (e | refreshed) ⟨hg', hknow⟩
  · exact debts_answer _ _ hg'
  refine safe_ite (fun _ => debts_answer _ _ hg') fun _ => ?_
  have hknow := hknow refreshed rfl
  refine safe_bind.mpr ⟨fun h => (by cases h), fun elapsed _ => ?_⟩
  cases (elapsed : Bool) with
  | true => exact exit_known _ rfl hg'.owes hknow
  | false => exact debts_answer _ _ hg'

theorem debts_awaitActive (offset : Int) (hjob : job.id ∈ ids) (hg : Clear true ids g) :
    debts.Safe g (Api.awaitActive offset job) debts.exit := by
  refine safe_bind.mpr ⟨fun h => (by cases h), fun r hr => ?_⟩
  rcases r with e | (state : OperationState)
  · refine safe_ite (fun hnone => ?_) fun _ => debts_answer _ _ hg
    exact absurd (hg.known _ hjob) (hr hnone)
  have hg' : Clear true ids (g.after (.tx (.operationState (jobOp job.id))) (Except.ok state)) := hg.after rfl _
  refine safe_ite (fun _ => ?_) fun _ => debts_awaitRefresh offset hjob hg'
  exact exit_known job rfl hg'.owes (hg'.known _ hjob)

theorem debts_poll (offset : Int) (following : Bool) (hjob : job.id ∈ ids) (hg : Clear true ids g) :
    debts.Safe g (Api.poll offset job following) debts.exit := by
  refine safe_bind.mpr ((debts_refreshJob hjob hg).mono ?_)
  rintro g' (e | refreshed) ⟨hg', hknow⟩
  · exact debts_answer _ _ hg'
  refine safe_ite (fun _ => debts_answer _ _ hg') fun _ => ?_
  have hgo : ∀ following, debts.exit g' (some (.poll offset refreshed following)) := fun _ =>
    exit_known refreshed rfl hg'.owes (hknow refreshed rfl)
  refine safe_bind.mpr ⟨fun h => (by cases h), fun w _ => ?_⟩
  cases (w : Wakeup) with
  | done => exact debts_answer _ _ hg'
  | tick => exact hgo _
  | logs err =>
    cases err with
    | none => exact hgo _
    | some e =>
      refine safe_bind.mpr ⟨fun h => (by cases h), fun ended _ => ?_⟩
      cases (ended : Bool) with
      | true => exact hgo _
      | false => exact debts_answer _ _ hg'

/-! ### The reconciler -/

theorem debts_expirePreparation (job : Job) : debts.Within (Clear true ids) (Reconciler.expirePreparation job) := by
  intro g hg
  refine safe_bind.mpr (safe_try.mpr ⟨⟨hg.mayOwe, hg.owes⟩, fun r _ => ?_⟩)
  rcases r with e | u
  · exact hg
  refine (debts_readBack (hg.incur job.id)).mono ?_
  rintro g' (e | j) hg'
  · exact hg'
  · exact safe_bind.mpr ((debts_request hg'.2.1).mono fun _ _ h => h.weaken)

theorem debts_syncAndRelease (id : String) (remote : RemoteJob) :
    debts.Within (Clear true ids) (Reconciler.syncAndRelease id remote) := by
  intro g hg
  refine safe_bind.mpr (safe_try.mpr ⟨⟨hg.mayOwe, hg.owes⟩, fun r _ => ?_⟩)
  rcases r with e | u
  · exact hg
  have hnear : Near (jobOp id) ids (g.after (.tx (.syncJob id remote)) (Except.ok u)) := by
    simp only [Debts.after]
    split
    · exact hg.incur id
    · exact hg.near _
  refine (debts_readBack hnear).mono ?_
  rintro g' (e | stored) hg'
  · exact hg'
  refine safe_ite (fun _ => ?_) fun ht => (hg'.2.2 (by simpa using ht)).weaken
  exact safe_bind.mpr ((debts_request hg'.2.1).mono fun _ _ h => h.weaken)

theorem debts_reconcilerRun : debts.Within (Clear true ids) (reconcilerRun cfg) := by
  refine within_reconcilerRun debts_quiet debts_expirePreparation ?_ (fun _ => debts_still rfl) debts_syncAndRelease
    fun _ => debts_still rfl
  exact within_expireBuild (quiet_tx debts_quiet) (fun _ => debts_still rfl) fun _ => debts_requestClear _

/-! ### Goroutines -/

def Plain (o : Option Label) : Prop := ∀ l, o = some l → l.known = []

theorem plain_none : Plain none := fun _ h => by cases h

theorem returns_none : (pure none : Srv (Option Label)).Returns Plain := plain_none

theorem returns_some {l : Label} (h : l.known = []) : (pure (some l) : Srv (Option Label)).Returns Plain := by
  intro l' hl
  cases hl
  exact h

theorem body_plain (l : Label) (hl : l.serves = false) : (body cfg l).Returns Plain := by
  cases l with
  | request r => cases hl
  | awaitActive offset job => cases hl
  | poll offset job following => cases hl
  | main =>
    refine returns_bind (fun new => ?_) _
    cases (new : Bool) with
    | false => exact returns_none
    | true =>
      refine returns_bind (fun _ => returns_bind (fun _ => ?_) _) _
      exact returns_bind (fun _ => returns_bind (fun _ => returns_bind (fun _ => returns_none) _) _) _
  | dispatcher =>
    have hfin : Dispatcher.finish.Returns Plain := returns_bind (fun _ => returns_none) _
    refine returns_bind (fun _ => returns_bind (fun result => ?_) _) _
    split
    · split
      · exact hfin
      refine returns_bind (fun cancelled => ?_) _
      split
      · exact hfin
      refine returns_bind (fun elapsed => ?_) _
      cases (elapsed : Bool) with
      | true => exact returns_some rfl
      | false => exact hfin
    refine returns_bind (fun again => ?_) _
    cases (again : Bool) with
    | true => exact returns_some rfl
    | false => exact returns_none
  | coordinator =>
    have hfin : Coordinator.finish.Returns Plain := returns_bind (fun _ => returns_none) _
    refine returns_bind (fun _ => returns_bind (fun result => ?_) _) _
    obtain ⟨claimed, err⟩ := result
    simp only []
    split
    · refine returns_bind (fun cancelled => ?_) _
      split
      · exact hfin
      refine returns_bind (fun elapsed => ?_) _
      cases (elapsed : Bool) with
      | true => exact returns_some rfl
      | false => exact hfin
    split
    · exact returns_some rfl
    refine returns_bind (fun again => ?_) _
    cases (again : Bool) with
    | true => exact returns_some rfl
    | false => exact returns_none
  | reconcilerWait =>
    refine returns_bind (fun elapsed => ?_) _
    cases (elapsed : Bool) with
    | true => exact returns_some rfl
    | false => exact returns_none
  | reconcilerRun | capacityRun trigger => exact returns_bind (fun _ => returns_some rfl) _
  | capacityWait =>
    refine returns_bind (fun trigger => ?_) _
    cases trigger with
    | none => exact returns_none
    | some trigger => exact returns_some rfl
  | maintain dryRun => exact returns_bind (fun _ => returns_none) _
  | shutdown =>
    exact returns_bind (fun _ => returns_bind (fun _ => returns_bind (fun _ => returns_none) _) _) _

theorem debts_exit (h : Clear may ids g) {o : Option Label} (ho : Plain o) : debts.exit g o := by
  refine ⟨h.owes, fun l hl id hid => ?_⟩
  rw [ho l hl] at hid
  cases hid

theorem debts_background (l : Label) (hl : l.serves = false) : debts.Within (Clear l.mayOwe []) (body cfg l) := by
  refine within_background debts_quiet (fun c hc => debts_still ?_) debts_advance (within_maintain debts_quiet debts_clearing _ _)
    (fun h => ?_) (within_coordinatorRunOnce debts_quiet (debts_still rfl) (fun _ _ _ => debts_still rfl)
      (fun _ _ => debts_still rfl) (fun _ => debts_still rfl) debts_advance) (fun h => ?_) hl
  · cases c with
    | go l => cases l <;> first | rfl | cases hc
    | _ => first | rfl | cases hc
  · exact h ▸ debts_runOnce cfg .process
  · exact h ▸ debts_reconcilerRun cfg

theorem debts_body (cfg : Config) (l : Label) : debts.Safe (debts.start l) (body cfg l) debts.exit := by
  have hstart : Clear l.mayOwe l.known (debts.start l) := ⟨rfl, rfl, fun _ h => h⟩
  cases l with
  | request r =>
    exact safe_handle (debts_handlers cfg) (fun g hg => debts_exit hg plain_none)
      (fun id offset g hg => debts_streamJobLogs id offset hg) hstart r
  | awaitActive offset job => exact debts_awaitActive offset (List.mem_singleton.mpr rfl) hstart
  | poll offset job following => exact debts_poll offset following (List.mem_singleton.mpr rfl) hstart
  | _ =>
    exact ((debts_background cfg _ rfl _ hstart).and_returns (body_plain cfg _ rfl)).mono fun g o h => debts_exit h.1 h.2

end Walk

/-! ## Loose operations are owed -/

structure Debts.Sound (g : Debts) (v : View) : Prop where
  owes : g.owes ≠ none → g.mayOwe = true
  known : ∀ id ∈ g.known, (v.job id).isSome = true
  past : ∀ id ∈ g.past, ∃ r, v.row (jobOp id) = some r ∧ r.state ≠ .queued ∧ r.state ≠ .admitting

section Effects

variable {v v' : View} {x : Tx} {a : x.Val} {g : Debts} {id : String} {op : Op}

theorem Tx.Moves.past {s s' : OperationState} (h : x.Moves a op s s') (hs : s ≠ .queued ∧ s ≠ .admitting) :
    s' ≠ .queued ∧ s' ≠ .admitting := by
  cases x <;> simp only [Tx.Moves] at h <;> cases s <;> simp_all [OperationState.executing, OperationState.live]

theorem Debts.Sound.effect (h : g.Sound v) (he : x.Effect a v v') : g.Sound v' := by
  refine ⟨h.owes, fun id hid => ?_, fun id hid => ?_⟩
  · obtain ⟨j, hj⟩ := Option.isSome_iff_exists.mp (h.known id hid)
    obtain ⟨j', hj', -⟩ := he.job hj
    simp [hj']
  obtain ⟨r, hr, hs⟩ := h.past id hid
  obtain ⟨r', hr', -, hm | hm⟩ := he.row hr
  · exact ⟨r', hr', hm ▸ hs⟩
  · exact ⟨r', hr', hm.past hs⟩

theorem Debts.Sound.settle (h : g.Sound v) (op : Op) : (g.settle op).Sound v := by
  unfold Debts.settle
  split
  · exact ⟨fun hn => absurd rfl hn, h.known, h.past⟩
  · exact h

theorem Debts.Sound.incur (h : g.Sound v) (hmay : g.mayOwe = true) (id : String) : (g.incur id).Sound v := by
  unfold Debts.incur
  split
  · exact h
  · exact ⟨fun _ => hmay, h.known, h.past⟩

theorem Debts.Sound.after (h : g.Sound v') (he : x.Effect a v v') (hguard : debts.guard g (.tx x)) :
    (g.after (.tx x) (Except.ok a)).Sound v' := by
  cases x with
  | job id =>
    obtain ⟨rfl, -, hj⟩ := he
    simp only [Debts.after]
    have hsettled : (if Job.status a |>.terminal then g else g.settle (jobOp id)).Sound v' := by
      split
      · exact h
      · exact h.settle _
    refine ⟨hsettled.owes, fun id' hid => ?_, hsettled.past⟩
    rcases List.mem_cons.mp hid with rfl | hid
    · simp [hj]
    · exact hsettled.known id' hid
  | listJobs projectID limit cursor =>
    obtain ⟨rfl, hjobs⟩ := he
    refine ⟨h.owes, fun id hid => ?_, h.past⟩
    rcases List.mem_append.mp hid with hid | hid
    · obtain ⟨j, hj, rfl⟩ := List.mem_map.mp hid
      simp [hjobs j hj]
    · exact h.known id hid
  | operationState op =>
    obtain ⟨rfl, r, hr, hs⟩ := he
    obtain ⟨kind, id⟩ := op
    cases kind with
    | build => exact h
    | job =>
      simp only [Debts.after]
      split
      · exact h
      rename_i hn
      refine ⟨h.owes, h.known, fun id' hid => ?_⟩
      rcases List.mem_cons.mp hid with rfl | hid
      · exact ⟨r, hr, by rw [eq_of_beq hs]; exact not_or.mp hn⟩
      · exact h.past id' hid
  | requestJobCancellation id => exact h.incur hguard.1 id
  | syncJob id remote =>
    simp only [Debts.after]
    split
    · exact h.incur hguard.1 id
    · exact h
  | acquireNextOperation =>
    cases a with
    | none => exact h
    | some o =>
      simp only [Debts.after]
      split
      · exact ⟨fun _ => hguard.1, h.known, h.past⟩
      · exact h
  | activateOperation op | requeueAdmittingOperation op =>
    simp only [Debts.after]
    split
    · exact h.settle _
    · exact h
  | beginOperationCleanup op => exact h.settle _
  | _ => exact h

def Tx.settles (x : Tx) (op : Op) : Bool :=
  match x with
  | .job id => jobOp id == op
  | .beginOperationCleanup op' => op' == op
  | .activateOperation op' | .requeueAdmittingOperation op' => op' == op && op.kind == .build
  | _ => false

theorem settle_owes (h : g.owes = some op) {op' : Op} (hne : op' ≠ op) : (g.settle op').owes = some op := by
  rw [Debts.settle, if_neg (fun heq => hne (Option.some.inj (heq.symm.trans h)))]
  exact h

theorem after_owes {c : Call} (hg : g.owes = some op) (hguard : debts.guard g c) (r : c.Ret) :
    (g.after c r).owes = some op ∨ ∃ x, c = .tx x ∧ x.settles op = true := by
  have hnone : ¬ (g.mayOwe = true ∧ g.owes = none) := by simp [hg]
  have hsettled : ∀ op', (op' = op → ∃ x, c = .tx x ∧ x.settles op = true) →
      (g.settle op').owes = some op ∨ ∃ x, c = .tx x ∧ x.settles op = true := by
    intro op' hx
    by_cases hop : op' = op
    · exact .inr (hx hop)
    · exact .inl (settle_owes hg hop)
  unfold Debts.after
  split
  · split
    · exact .inl hg
    · exact hsettled _ fun h => ⟨_, rfl, by simp [Tx.settles, h]⟩
  · exact hsettled _ fun h => ⟨_, rfl, by simp [Tx.settles, h]⟩
  · exact .inl hg
  · split <;> exact .inl hg
  · exact absurd hguard hnone
  · exact absurd hguard hnone
  · exact absurd hguard hnone
  · split
    · rename_i hkind
      exact hsettled _ fun h => ⟨_, rfl, by subst h; simp [Tx.settles, hkind]⟩
    · exact .inl hg
  · split
    · rename_i hkind
      exact hsettled _ fun h => ⟨_, rfl, by subst h; simp [Tx.settles, hkind]⟩
    · exact .inl hg
  · exact hsettled _ fun h => ⟨_, rfl, by simp [Tx.settles, h]⟩
  · exact .inl hg

theorem loose_eq_false_of_row (h : ∀ r, v.row op = some r → r.state.live = false) : v.loose op = false := by
  by_contra hn
  rw [Bool.not_eq_false] at hn
  obtain ⟨kind, id⟩ := op
  cases kind with
  | job =>
    obtain ⟨-, r, hr, hl⟩ := loose_job_iff.mp hn
    rw [h r hr] at hl
    cases hl
  | build =>
    obtain ⟨r, hr, hs⟩ := loose_build_iff.mp hn
    have hl := h r hr
    rw [hs] at hl
    cases hl

theorem loose_setRow {s : OperationState} (hkind : op.kind = .build) (hs : s ≠ .admitting) :
    (v.setRow op s).loose op = false := by
  simp only [View.loose, hkind, View.setRow_row, if_true]
  cases v.row op <;> simp [hs]

theorem Tx.Effect.settled (he : x.Effect a v v') (hg : g.owes = some op) (hx : x.settles op = true)
    (hdrop : (g.after (.tx x) (Except.ok a)).owes ≠ some op) : v'.loose op = false := by
  cases x with
  | job id =>
    cases eq_of_beq hx
    obtain ⟨rfl, -, hj⟩ := he
    by_contra hn
    rw [Bool.not_eq_false] at hn
    obtain ⟨⟨j, hj', ht⟩, -⟩ := loose_job_iff.mp hn
    rw [hj] at hj'
    cases hj'
    exact hdrop (by simp [Debts.after, show (Job.status a).terminal = true from ht, hg])
  | beginOperationCleanup op' =>
    cases eq_of_beq hx
    refine loose_eq_false_of_row fun r hr => ?_
    cases a with
    | false =>
      obtain ⟨hn, rfl⟩ := he
      by_contra hl
      exact hn ⟨r, hr, by simpa using hl⟩
    | true =>
      obtain ⟨-, rfl⟩ := he
      simp only [View.setRow_row, if_true, Option.map_eq_some_iff] at hr
      obtain ⟨r0, -, rfl⟩ := hr
      rfl
  | activateOperation op' =>
    simp only [Tx.settles, Bool.and_eq_true, beq_iff_eq] at hx
    obtain ⟨rfl, hkind⟩ := hx
    obtain ⟨-, he⟩ := he
    rw [hkind] at he
    obtain ⟨-, rfl⟩ := he
    exact loose_setRow (v := v) (s := .active) hkind (by decide)
  | requeueAdmittingOperation op' =>
    simp only [Tx.settles, Bool.and_eq_true, beq_iff_eq] at hx
    obtain ⟨rfl, hkind⟩ := hx
    obtain ⟨-, rfl⟩ := he
    exact loose_setRow hkind (by decide)
  | _ => cases hx

theorem Tx.Effect.loosened (he : x.Effect a v v') (hkept : v.Kept) (hg : g.Sound v) (hx : x.Loosens a op)
    (hl : v'.loose op = true) : (g.after (.tx x) (Except.ok a)).owes = some op := by
  cases x with
  | requestJobCancellation id =>
    cases (show op = jobOp id from hx)
    by_cases hid : id ∈ g.past
    · -- a row past admission is active, so the job has been started and is only marked
      exfalso
      obtain ⟨r, hr, hs⟩ := hg.past id hid
      obtain ⟨j, hj, ht, rfl⟩ := he
      obtain ⟨⟨j', hj', ht'⟩, r', hr', hlive⟩ := loose_job_iff.mp hl
      rw [row_mapRow (v := v.setJob id _) hr] at hr'
      cases hr'
      have hactive : r.state = .active := by
        cases hstatus : r.state <;> simp_all [dropQueued, OperationState.live]
      have hstart := hkept.prepares id j r hj hr hactive
      have hexec : v.RowIs (jobOp id) OperationState.executing := ⟨r, hr, by rw [hactive]; rfl⟩
      rw [View.mapRow_job, View.setJob_job, if_pos rfl, hj] at hj'
      cases hj'
      rw [if_neg (by simp [View.CancelsNow, hstart, hexec]), ht] at ht'
      cases ht'
    · simp [Debts.after, Debts.incur, hid]
  | syncJob id remote =>
    obtain ⟨rfl, hterm⟩ := hx
    by_cases hid : id ∈ g.past
    · exfalso
      obtain ⟨r, hr, hs⟩ := hg.past id hid
      obtain ⟨-, r', hr', hlive⟩ := loose_job_iff.mp hl
      rw [show v' = _ from he, row_mapRow (v := v.mapJob id _) hr] at hr'
      cases hr'
      cases hstatus : r.state <;> simp_all [endExecuting, OperationState.live, OperationState.executing]
    · simp [Debts.after, Debts.incur, hid, hterm]
  | acquireNextOperation =>
    obtain ⟨o, rfl, rfl, hkind⟩ := hx
    simp [Debts.after, hkind]
  | _ => exact hx.elim

end Effects

/-! ## Runs -/

variable {g : Debts} {c : Call}

theorem debts_fact {t : Nat} {ch : Choice} {s s' : Sys} {sp : Option Label} {r : c.Ret}
    (hrecord : s.db.view.Recorded) (hg : g.Sound s.db.view) (h : exec t ch s c = some (r, s', sp)) : debts.fact g c r := by
  simp only [debts]
  split
  · rename_i id job
    obtain ⟨-, ⟨e, hr, -⟩ | ⟨a, db, hr, -, he⟩⟩ := exec_tx h
    · cases hr
    cases hr
    exact he.2.1
  · rename_i id e
    intro hnone hid
    have hrow := hrecord.row id (hg.known id hid)
    rw [show jobOp id = ⟨.job, id⟩ from rfl, exec_operationState h hnone] at hrow
    cases hrow
  · trivial

theorem after_error {x : Tx} {v : View} {e : Err} (h : g.Sound v) :
    (g.after (.tx x) (Except.error e)).Sound v := by
  have hite : ∀ (c : Prop) [Decidable c] (op : Op), (if c then g.settle op else g).Sound v := by
    intro c _ op
    split
    · exact h.settle op
    · exact h
  cases x with
  | job id | beginOperationCleanup op => exact h.settle _
  | activateOperation op | requeueAdmittingOperation op => exact hite _ op
  | operationState op =>
    obtain ⟨kind, id⟩ := op
    cases kind <;> exact h
  | _ => exact h

theorem after_of_ne_tx (hc : ∀ x, c ≠ .tx x) (r : c.Ret) : g.after c r = g := by
  cases c with
  | tx x => exact absurd rfl (hc x)
  | _ => rfl

def settlingCall (w : World) (t : Nat) (c : Call) (r : c.Ret) : Bool :=
  match c, r with
  | .tx x, Except.error _ => ((debts.ghosts w t).bind Debts.owes).all fun op => !(x.settles op && w.st.db.view.loose op)
  | _, _ => true

def settling : Rules :=
  { Conc.Rules.all with
    call := fun w t c r => settlingCall w t c r = true
    crash := fun w => ∀ op, w.st.db.view.loose op = false }

theorem debts_local (cfg : Config) (now : Time) :
    Local (machine cfg) settling debts (Sys.fresh now) (fun w => w.st.db.view.Kept) (fun _ => True)
      (fun g s => g.Sound s.db.view) where
  init := trivial
  start s l _ hl := by
    have hknow : l.known = [] := by cases l <;> first | rfl | cases hl
    exact ⟨fun h => absurd rfl h, by simp [debts, hknow], fun _ h => (by cases h)⟩
  spawn t g c ch r s s' l hguard hexec := by
    have hknow : l.known = [] := by
      rcases exec_spawns hexec with ⟨-, rfl⟩ | ⟨-, rfl⟩ | rfl
      · rfl
      · rfl
      · exact hguard
    exact ⟨fun h => absurd rfl h, by simp [debts, hknow], fun _ h => (by cases h)⟩
  jump s g l _ hg hexit := ⟨fun h => absurd rfl h, fun id hid => hg.known id (hexit.2 l rfl id hid), fun _ h => (by cases h)⟩
  call w t g c ch r s sp hkept _ hg hguard hexec _ := by
    change exec t ch w.st c = some (r, s, sp) at hexec
    refine ⟨debts_fact hkept.recorded hg hexec, trivial, ?_⟩
    by_cases hc : ∃ x, c = .tx x
    · obtain ⟨x, rfl⟩ := hc
      obtain ⟨-, ⟨e, rfl, rfl⟩ | ⟨a, db, rfl, rfl, he⟩⟩ := exec_tx hexec
      · exact ⟨after_error hg, fun _ h => h⟩
      · exact ⟨(hg.effect he).after he hguard, fun _ h => h.effect he⟩
    have hne : ∀ x, c ≠ .tx x := fun x h => hc ⟨x, h⟩
    rw [show debts.next g c r = g from after_of_ne_tx hne r, exec_db hne hexec]
    exact ⟨hg, fun _ h => h⟩
  env w e s _ _ he _ := by
    rw [env_db he]
    exact ⟨trivial, fun _ h => h⟩
  crash _ _ _ _ := trivial

theorem owes_of_loose {w : World} {t : Nat} {ch : Choice} {r : c.Ret} {s : Sys} {sp : Option Label}
    {op : Op} (hg : debts.ghosts w t = some g) (hguard : debts.guard g c) (hexec : exec t ch w.st c = some (r, s, sp))
    (hK : settlingCall w t c r = true) (hown : g.owes = some op) (hl : s.db.view.loose op = true) :
    (g.after c r).owes = some op := by
  rcases after_owes hown hguard r with h | ⟨x, rfl, hx⟩
  · exact h
  obtain ⟨-, ⟨e, rfl, rfl⟩ | ⟨a, db, rfl, rfl, he⟩⟩ := exec_tx hexec
  · simp [settlingCall, hg, hown, hx, hl] at hK
  by_contra hdrop
  rw [show db.view.loose op = false from he.settled hown hx hdrop] at hl
  cases hl

theorem debts_cover (cfg : Config) (now : Time) :
    Cover (machine cfg) settling debts (Sys.fresh now) (fun w => w.st.db.view.Kept) (fun _ => True)
      (fun g s => g.Sound s.db.view) (fun s op => s.db.view.loose op = true) (fun g _ op => g.owes = some op) where
  toLocal := debts_local cfg now
  idle op := by
    obtain ⟨kind, id⟩ := op
    cases kind <;> simp [View.loose, DB.view, Sys.fresh, DB.empty, Queue.empty]
  duty w t g c ch r s sp op hkept _ hsound hg hguard hexec hK hl := by
    change exec t ch w.st c = some (r, s, sp) at hexec
    by_cases hown : g.owes = some op
    · exact .inl (owes_of_loose hg hguard hexec hK hown hl)
    by_cases hc : ∃ x, c = .tx x
    · obtain ⟨x, rfl⟩ := hc
      obtain ⟨-, ⟨e, rfl, rfl⟩ | ⟨a, db, rfl, rfl, he⟩⟩ := exec_tx hexec
      · exact .inr (.inr ⟨op, hl, hown, fun _ _ h => h⟩)
      rcases he.loose hkept.recorded hl with hbefore | hnew
      · exact .inr (.inr ⟨op, hbefore, hown, fun _ _ h => h⟩)
      · exact .inl (he.loosened hkept hsound hnew hl)
    rw [exec_db (fun x h => hc ⟨x, h⟩) hexec] at hl
    exact .inr (.inr ⟨op, hl, hown, fun _ _ h => h⟩)
  leave s g op _ _ hexit _ h := by
    rw [hexit.1] at h
    cases h
  goOn s g l op _ _ hexit _ h := by
    rw [hexit.1] at h
    cases h
  around w e s op _ _ he _ hl := by
    rw [env_db he] at hl
    exact ⟨hl, fun _ _ h => h⟩
  gone w op _ _ hK h := by
    change w.st.db.view.loose op = true at h
    rw [hK op] at h
    cases h

theorem after_mayOwe (g : Debts) (c : Call) (r : c.Ret) : (g.after c r).mayOwe = g.mayOwe := by
  have hsettled : ∀ op, (g.settle op).mayOwe = g.mayOwe := fun op => by unfold Debts.settle; split <;> rfl
  have hinc : ∀ id, (g.incur id).mayOwe = g.mayOwe := fun id => by unfold Debts.incur; split <;> rfl
  unfold Debts.after
  split <;> (try split) <;> simp only [hsettled, hinc]

/-- Whether a goroutine at the label, with `p` still to do, is outside all handlers and passes. -/
def Label.rests (l : Label) (p : Srv (Option Label)) : Bool :=
  match l with
  | .request _ | .awaitActive _ _ | .poll _ _ _ | .reconcilerRun => false
  | .dispatcher =>
    match p with
    | .call c _ => c.betweenRuns
    | .ret _ => true
  | _ => true

/-- No call of a handler, of `Dispatcher.RunOnce` or of `Reconciler.RunOnce` is in flight. -/
def Resting (σ : Conf) : Prop := ∀ t l, σ.procs t = some l → l.rests (σ.code t) = true

def resting (σ : Conf) : Bool := (List.range σ.next).all fun t => (σ.procs t).all fun l => l.rests (σ.code t)

theorem resting_of_test {σ : Conf} (h : resting σ = true) : Resting σ := by
  intro t l hl
  have := List.all_eq_true.mp h t (List.mem_range.mpr (World.lt_next hl))
  rwa [hl] at this

theorem owes_of_rests {l : Label} {p : Srv (Option Label)} (hsafe : debts.Safe g p debts.exit)
    (hmay : l.mayOwe = true) (hl : l.rests p = true) : g.owes = none := by
  cases l with
  | dispatcher =>
    cases p with
    | ret o => exact hsafe.1
    | call c k =>
      have hguard := hsafe.1
      simp only [debts] at hguard
      split at hguard
      · exact hguard.2
      · exact hguard.2
      · exact hguard.2
      · cases hl
      · exact hguard hl
  | request _ | awaitActive _ _ | poll _ _ _ | reconcilerRun => cases hl
  | _ => cases hmay

/-- Every reservation is one that will be let go of: its row is in teardown, or it belongs to a job that has not ended or to
a build that runs. -/
def DB.NoOrphan (db : DB) : Prop :=
  ∀ op q, db.queue.table.lookup op = some q → q.state.reserved = true →
    (q.state = .terminalizing ∨ q.state = .cleaning) ∨
    (op.kind = .job ∧ ∃ j, db.jobs.lookup op.id = some j ∧
      (j.status = .preparing ∨ j.status = .queued ∨ j.status = .running)) ∨
    (op.kind = .build ∧ ∃ b, db.builds.lookup op.id = some b ∧ b.status = .running)

theorem noOrphan_of_not_loose {db : DB} (hkept : db.view.Kept) (h : ∀ op, db.view.loose op = false) : db.NoOrphan := by
  intro op q hq hres
  have hrow : db.view.row op = some q.view := by simp [DB.view, hq]
  by_cases htear : q.state.tearing = true
  · refine .inl ?_
    cases hs : q.state <;> simp_all [OperationState.tearing]
  have hexec : q.state = .admitting ∨ q.state = .active := by
    cases hs : q.state <;> simp_all [OperationState.tearing, OperationState.reserved]
  obtain ⟨kind, id⟩ := op
  cases kind with
  | job =>
    obtain ⟨j, hj⟩ := Option.isSome_iff_exists.mp (hkept.recorded.job id (by simp [jobOp, hrow]))
    obtain ⟨row, hlook, rfl⟩ := Option.map_eq_some_iff.mp (show (db.jobs.lookup id).map JobRow.view = some j from hj)
    refine .inr (.inl ⟨rfl, row, hlook, ?_⟩)
    have hlive : q.view.state.live = true := by
      change q.state.live = true
      rcases hexec with hs | hs <;> rw [hs] <;> rfl
    have hterm : row.status.terminal = false := by
      by_contra ht
      rw [Bool.not_eq_false] at ht
      have := loose_job_iff.mpr ⟨⟨_, hj, ht⟩, _, hrow, hlive⟩
      rw [h] at this
      cases this
    cases hs : row.status <;> simp_all [Status.terminal]
  | build =>
    obtain ⟨b, hb⟩ := Option.isSome_iff_exists.mp (hkept.recorded.build id (by simp [buildOp, hrow]))
    obtain ⟨row, hlook, rfl⟩ := Option.map_eq_some_iff.mp
      (show (db.builds.lookup id).map BuildRow.status = some b from hb)
    refine .inr (.inr ⟨rfl, row, hlook, ?_⟩)
    have hactive : q.state = .active := by
      refine hexec.resolve_left fun hs => ?_
      have := loose_build_iff.mpr ⟨_, hrow, hs⟩
      rw [h] at this
      cases this
    obtain ⟨r, hr, hagree⟩ := hkept.builds id _ hb
    rw [show buildOp id = ⟨.build, id⟩ from rfl, hrow] at hr
    cases hr
    rw [show q.view.state = .active from hactive] at hagree
    cases hs : row.status <;> simp_all [BuildAgrees]

/-- **No orphaned reservation.** In every configuration that the server reaches, if the goroutine that has left an operation
loose does not fail in settling it and the process does not end before: once no call is in flight, every reservation has an
owner. -/
theorem reservation_owned {cfg : Config} {σ : Conf} (h : Reaches cfg settling σ) (hrest : Resting σ) : σ.st.db.NoOrphan := by
  obtain ⟨now, hr⟩ := h
  obtain ⟨hfollows, hholds, hcovered⟩ :=
    run_invariant (debts_body cfg) (fun _ h => kept_of_reach h) (debts_cover cfg now).keeps hr
  refine noOrphan_of_not_loose (kept_of_reach hr) fun op => ?_
  by_contra hl
  obtain ⟨t, g, hg, hown⟩ := hcovered op (by simpa using hl)
  have hlive : (σ.procs t).isSome = true := by rw [← hfollows.fits t, hg]; rfl
  obtain ⟨l, hlabel⟩ := Option.isSome_iff_exists.mp hlive
  obtain ⟨g', hg', hsafe⟩ := (hlabel ▸ hfollows t).eq_some
  rw [hg] at hg'
  cases hg'
  have hmay : g.mayOwe = l.mayOwe := Ghost.part_eq_start after_mayOwe hr hg hlabel
  have hnone := owes_of_rests hsafe (hmay ▸ (hholds.2 t g hg).owes (by simp [hown])) (hrest t l hlabel)
  rw [hnone] at hown
  cases hown

/-- The cancellation of a prepared job goes through, and the job is left to the coordinator. -/
theorem reservation_owned_cancelled : ∃ σ, Reaches sampleConfig settling σ ∧ Resting σ ∧
    (σ.st.db.queue.table.lookup (jobOp "job1")).map (fun q => q.state) = some .terminalizing ∧ σ.st.db.NoOrphan := by
  obtain ⟨σ, hr, hp⟩ := reaches_of_stepsIf sampleConfig (K := settling) (cancelsPrepared ++ goes 6 6) (p := fun σ => resting σ &&
    (σ.st.db.queue.table.lookup (jobOp "job1")).map (fun q => q.state) == some .terminalizing) (q := settlingCall)
    (fun _ _ => trivial) (fun _ _ => trivial) (fun _ _ _ _ h => h) (by decide +kernel)
  rw [Bool.and_eq_true] at hp
  exact ⟨σ, hr, resting_of_test hp.1, eq_of_beq hp.2, reservation_owned hr (resting_of_test hp.1)⟩

/-! ## A reservation without an owner -/

def restarts : List Event :=
  cancelsPrepared ++ .crash :: .env (.tick 1000000000000000) :: .start .main :: goes 7 2 ++ .run 7 (.snapshot roomy) ::
    goes 7 2 ++ .run 7 (.snapshot roomy) :: goes 7 6

def passes : List Event :=
  goes 8 4 ++ goes 9 3 ++ .run 9 (.snapshot roomy) :: goes 9 5 ++ goes 10 4 ++ .run 10 (.managed []) :: goes 10 1

/-- The job has ended, its row still reserves the worker, and nobody is left to let go of it. -/
theorem reservation_orphaned : ∃ σ, Reaches sampleConfig Conc.Rules.all σ ∧ Resting σ ∧
    (σ.st.db.jobs.lookup "job1").map JobRow.status = some .cancelled ∧
    (σ.st.db.queue.table.lookup (jobOp "job1")).map (fun q => q.state) = some .admitting ∧ ¬ σ.st.db.NoOrphan := by
  obtain ⟨σ, hr, hp⟩ := reaches_of_steps sampleConfig (restarts ++ passes) (p := fun σ => resting σ &&
    (σ.st.db.jobs.lookup "job1").map JobRow.status == some .cancelled &&
    (σ.st.db.queue.table.lookup (jobOp "job1")).map (fun q => q.state) == some .admitting) (by decide +kernel)
  simp only [Bool.and_eq_true, beq_iff_eq] at hp
  obtain ⟨⟨hrest, hjob⟩, hrow⟩ := hp
  refine ⟨σ, hr, resting_of_test hrest, hjob, hrow, fun h => ?_⟩
  obtain ⟨q, hq, hs⟩ := Option.map_eq_some_iff.mp hrow
  obtain ⟨j, hj, hstatus⟩ := Option.map_eq_some_iff.mp hjob
  rcases h _ q hq (by rw [hs]; rfl) with htear | ⟨-, j', hj', hlive⟩ | ⟨hkind, -⟩
  · simp [hs] at htear
  · rw [show (jobOp "job1").id = "job1" from rfl, hj] at hj'
    cases hj'
    simp [hstatus] at hlive
  · cases hkind

end Autback
