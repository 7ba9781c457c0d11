import Autback.Protocol.Watch

/-!
# Exclusive use of the worker

A task runs from the return of `Scheduler.Create` until it exits, which may be long after its job has been cancelled or its
service removed. If the task of a job has ended, and nobody is admitting the job, when its row is released, and no job is queued
while it is being admitted, then only the task of the active operation runs (`runtime_exclusive`). But a cancelled job is reported
as terminal at once: the next operation becomes active while its task still runs (`runtime_overlaps`).
-/

namespace Autback

open Conc Ghost

/-! ## The condition -/

/-- Nobody is admitting job `id`. -/
def unadmitted (cfg : Config) (w : World) (id : String) : Bool :=
  everyone cfg w fun g => g.admission.all fun a => a.id != id

/-- The row of a job is released when its task has ended and nobody is admitting it, and no job is queued in its admission. -/
def vacatedCall (cfg : Config) (w : World) (c : Call) (r : c.Ret) : Bool :=
  match c, r with
  | .tx (.completeOperationCleanup ⟨.job, id⟩), Except.ok (done : Bool) =>
    !done || (!w.st.running.contains id && unadmitted cfg w id)
  | .tx (.queueJob id _), Except.ok _ => unadmitted cfg w id
  | _, _ => true

def vacating (cfg : Config) : Rules where
  call w _ c r := vacatedCall cfg w c r = true
  start _ _ := True
  env _ _ := True
  crash _ := True

theorem unadmitted_apply {cfg : Config} {w : World} {id : String} {t : Nat} {g : Watch} {a : Admission}
    (h : unadmitted cfg w id = true) (hfits : (watch cfg).Fits w) (hg : (watch cfg).ghosts w t = some g)
    (ha : g.admission = some a) : a.id ≠ id := by
  have hall := everyone_apply (show everyone cfg w _ = true from h) hfits hg
  simpa [ha] using hall

/-! ## Reservations -/

/-- The transactions that can end the reservation of `op`. -/
def Tx.Frees (op : Op) : (x : Tx) → x.Val → Prop
  | .completeOperationCleanup op', (done : Bool) => done = true ∧ op = op'
  | .queueJob id _, _ => op = jobOp id
  | .requeueAdmittingOperation op', _ => op = op'
  | _, _ => False

section Reserved

variable {x : Tx} {a : x.Val} {v v' : View} {op : Op}

theorem Tx.Moves.reserved {s s' : OperationState} (h : x.Moves a op s s') (hs : s.reserved = true) (hx : ¬ x.Frees op a) :
    s'.reserved = true := by
  cases x <;> simp only [Tx.Moves, Tx.Frees] at h hx <;> grind [OperationState.reserved]

theorem Tx.Effect.reserved (he : x.Effect a v v') (h : v.RowIs op OperationState.reserved) (hx : ¬ x.Frees op a) :
    v'.RowIs op OperationState.reserved := by
  obtain ⟨r, hr, hs⟩ := h
  obtain ⟨r', hr', -, hsame | hmove⟩ := he.row hr
  · exact ⟨r', hr', hsame ▸ hs⟩
  · exact ⟨r', hr', hmove.reserved hs hx⟩

end Reserved

/-! ## The invariant -/

def Sys.Occupied (s : Sys) : Prop :=
  ∀ id ∈ s.running, s.Started id ∧ s.db.view.RowIs (jobOp id) OperationState.reserved

structure Watch.Reserves (g : Watch) (s : Sys) : Prop where
  idle : ∀ a, g.admission = some a → a.id ∉ s.running
  row : ∀ a, g.admission = some a → s.db.view.RowIs (jobOp a.id) OperationState.reserved
  ready : ∀ a, g.admission = some a → a.ready = true → s.Started a.id

section Steps

variable {cfg : Config} {w : World} {t t' : Nat} {g g' : Watch} {ch : Choice} {s s' : Sys} {sp : Option Label} {x : Tx}
  {a : x.Val}

theorem Watch.Reserves.of_none (h : g.admission = none) : g.Reserves s := by
  refine ⟨fun a ha => ?_, fun a ha => ?_, fun a ha => ?_⟩ <;>
  · rw [h] at ha
    cases ha

theorem Watch.Reserves.step (h : g.Reserves s) (hrunning : ∀ a, g.admission = some a → a.id ∈ s'.running → a.id ∈ s.running)
    (hrow : ∀ a, g.admission = some a → s'.db.view.RowIs (jobOp a.id) OperationState.reserved)
    (hstart : ∀ a, g.admission = some a → s.Started a.id → s'.Started a.id) : g.Reserves s' :=
  ⟨fun a ha hid => h.idle a ha (hrunning a ha hid), hrow, fun a ha hr => hstart a ha (h.ready a ha hr)⟩

theorem Watch.Reserves.frame (h : g.Reserves s) (hdb : s'.db = s.db) (hrunning : ∀ id ∈ s'.running, id ∈ s.running) :
    g.Reserves s' :=
  h.step (fun a _ hid => hrunning a.id hid) (fun a ha => hdb ▸ h.row a ha) fun _ _ hs => (spares_of_db hdb).started hs

theorem Sys.Occupied.frame (h : s.Occupied) (hdb : s'.db = s.db) (hrunning : ∀ id ∈ s'.running, id ∈ s.running) :
    s'.Occupied := by
  intro id hid
  obtain ⟨hstart, hrow⟩ := h id (hrunning id hid)
  exact ⟨(spares_of_db hdb).started hstart, hdb ▸ hrow⟩

theorem Watch.Reserves.read {id : String} {job : Job} {c : Bool} (h : g.Reserves s)
    (hj : s.db.view.job id = some ⟨job.status, c⟩) :
    Watch.Reserves { g with admission := g.admission.bind fun a => a.read id job } s := by
  refine ⟨fun a' ha' => ?_, fun a' ha' => ?_, fun a' ha' hr => ?_⟩ <;>
    obtain ⟨a, ha, hread⟩ := Option.bind_eq_some_iff.mp ha' <;>
    obtain ⟨hid, -, hready⟩ := Admission.read_eq_some hread <;>
    rw [hid]
  · exact h.idle a ha
  · exact h.row a ha
  rcases hready hr with hr | ⟨rfl, hne⟩
  · exact h.ready a ha hr
  · exact ⟨_, hj, hne⟩

theorem Watch.Reserves.acquire {o : Operation} {db : DB} (hV : s.Occupied)
    (he : Tx.acquireNextOperation.Effect (some o) s.db.view db.view) :
    Watch.Reserves { g with admission := o.begins } { s with db := db } := by
  obtain ⟨-, ⟨r, hr, hqueue, -⟩, hv⟩ := he
  refine ⟨fun a ha hid => ?_, fun a ha => ?_, fun a ha hr => ?_⟩ <;> obtain ⟨hop, hread⟩ := begins_jobOp ha
  · obtain ⟨r', hr', hres⟩ := (hV a.id hid).2
    rw [← hop, hr] at hr'
    cases hr'
    rw [eq_of_beq hqueue] at hres
    cases hres
  · refine ⟨⟨.admitting, r.seq⟩, ?_, rfl⟩
    rw [hv, ← hop]
    simp [hr]
  · rw [hread] at hr
    cases hr

theorem occupied_kept {v' : View} {id : String} (hV : w.st.Occupied) (h : g.Reserves w.st)
    (hguard : (watch cfg).guard g (.tx x)) (he : x.Effect a w.st.db.view v')
    (hK : vacatedCall cfg w (.tx x) (Except.ok a) = true) (hid : id ∈ w.st.running) : ¬ x.Frees (jobOp id) a := by
  intro hx
  cases x <;> simp only [Tx.Frees] at hx
  case completeOperationCleanup op =>
    obtain ⟨rfl, rfl⟩ := hx
    simp [vacatedCall, hid] at hK
  case queueJob id' rootDigest =>
    cases hx
    obtain ⟨⟨c, hj, -⟩, -⟩ := he
    obtain ⟨j, hj', hne⟩ := (hV id hid).1
    rw [hj] at hj'
    cases hj'
    exact hne rfl
  case requeueAdmittingOperation op =>
    subst hx
    obtain ⟨adm, hadm, rfl⟩ := hguard
    exact h.idle adm hadm hid

theorem admission_kept {adm : Admission} (hfits : (watch cfg).Fits w)
    (hg' : (watch cfg).ghosts w t' = some g') (hadm : g'.admission = some adm)
    (hK : vacatedCall cfg w (.tx x) (Except.ok a) = true) (hreq : x ≠ .requeueAdmittingOperation (jobOp adm.id)) :
    ¬ x.Frees (jobOp adm.id) a := by
  intro hx
  cases x <;> simp only [Tx.Frees] at hx
  case completeOperationCleanup op =>
    obtain ⟨rfl, rfl⟩ := hx
    simp only [vacatedCall, Bool.not_true, Bool.false_or, Bool.and_eq_true] at hK
    exact unadmitted_apply hK.2 hfits hg' hadm rfl
  case queueJob id rootDigest =>
    cases hx
    exact unadmitted_apply hK hfits hg' hadm rfl
  case requeueAdmittingOperation op =>
    subst hx
    exact hreq rfl

theorem Watch.Reserves.commit {db : DB} (h : g.Reserves s) (he : x.Effect a s.db.view db.view)
    (hsync : ∀ id remote, x = .syncJob id remote → remote.status ≠ .preparing)
    (hfree : ∀ adm, g.admission = some adm → ¬ x.Frees (jobOp adm.id) a) : g.Reserves { s with db := db } :=
  h.step (fun _ _ hid => hid) (fun adm hadm => he.reserved (h.row adm hadm) (hfree adm hadm)) fun _ _ hs =>
    he.started hsync hs

def Leaves (cfg : Config) (w : World) (t : Nat) (s : Sys) (g : Watch) : Prop :=
  s.Occupied ∧ g.Reserves s ∧ ∀ t' g', t' ≠ t → (watch cfg).ghosts w t' = some g' → g'.Reserves w.st → g'.Reserves s

theorem leaves_tx {r : Except Err x.Val} (hfits : (watch cfg).Fits w) (hJ : Guarded cfg w) (hV : w.st.Occupied)
    (hg : (watch cfg).ghosts w t = some g) (h : g.Reserves w.st) (hguard : (watch cfg).guard g (.tx x))
    (hexec : exec t ch w.st (.tx x) = some (r, s, sp)) (hK : vacatedCall cfg w (.tx x) r = true) :
    Leaves cfg w t s (g.after cfg (.tx x) r) := by
  obtain ⟨-, ⟨e, rfl, rfl⟩ | ⟨a, db, rfl, rfl, he⟩⟩ := exec_tx hexec
  · refine ⟨hV, ?_, fun _ _ _ _ h' => h'⟩
    cases x <;> first | exact h | exact .of_none rfl | exact ⟨h.idle, h.row, h.ready⟩
  have hsync : ∀ id remote, x = .syncJob id remote → remote.status ≠ .preparing := by
    rintro id remote rfl
    exact hguard.2.1
  refine ⟨fun id hid => ?_, ?_, fun t' g' hne hg' h' => ?_⟩
  · obtain ⟨hstart, hrow⟩ := hV id hid
    exact ⟨he.started hsync hstart, he.reserved hrow (occupied_kept hV h hguard he hK hid)⟩
  · have hcomm : (∀ op, x ≠ .requeueAdmittingOperation op) → g.Reserves { w.st with db := db } :=
      fun hx => h.commit he hsync fun adm hadm => admission_kept hfits hg hadm hK (hx _)
    cases x with
    | acquireNextOperation =>
      cases a with
      | none => exact hcomm nofun
      | some o => exact .acquire hV he
    | requeueAdmittingOperation op => exact .of_none rfl
    | failJob id message => exact .of_none rfl
    | job id =>
      have hj : db.view.job id = some ⟨a.status, a.cancelRequested⟩ := by
        rw [he.1]
        exact he.2.2
      exact (hcomm nofun).read hj
    | operation op | syncJob id remote =>
      have hg' := hcomm nofun
      exact ⟨hg'.idle, hg'.row, hg'.ready⟩
    | _ => exact hcomm nofun
  refine h'.commit he hsync fun adm hadm => admission_kept hfits hg' hadm hK ?_
  rintro rfl
  -- a requeue belongs to an admission of its own, under the lock
  obtain ⟨own, hown, -⟩ := hguard
  have hhold := hJ.2 t g hg
  rw [(hhold.alone (hJ.2 t' g' hg') hne (hhold.locked own hown)).2] at hadm
  cases hadm

/-- `Scheduler.Create` starts a task in the admission of its job. -/
theorem leaves_create {job : Job} {r : Except Err Unit} (hJ : Guarded cfg w) (hV : w.st.Occupied)
    (hg : (watch cfg).ghosts w t = some g) (h : g.Reserves w.st) (hguard : (watch cfg).guard g (.create job))
    (hexec : exec t ch w.st (.create job) = some (r, s, sp)) : Leaves cfg w t s { g with admission := none } := by
  obtain ⟨adm, hadm, hid, hread⟩ := hguard
  have hdb := exec_db (fun x hx => by cases hx) hexec
  refine ⟨fun id hrunning => ?_, .of_none rfl, fun t' g' hne hg' _ => .of_none ?_⟩
  · rcases (exec_framed hexec).running _ hrunning with hold | ⟨job', hc, rfl⟩
    · exact ⟨(spares_of_db hdb).started (hV id hold).1, hdb ▸ (hV id hold).2⟩
    cases hc
    rw [← hid]
    exact ⟨(spares_of_db hdb).started (h.ready adm hadm hread), hdb ▸ h.row adm hadm⟩
  have hhold := hJ.2 t g hg
  exact (hhold.alone (hJ.2 t' g' hg') hne (hhold.locked adm hadm)).2

theorem exclusive_local (cfg : Config) (now : Time) :
    LocalAt (machine cfg) (vacating cfg) (watch cfg) (Sys.fresh now) (Guarded cfg) Sys.Occupied fun _ => Watch.Reserves where
  init id hid := by cases hid
  start _ _ _ _ _ := .of_none rfl
  spawn _ _ _ _ _ _ _ _ _ _ _ := .of_none rfl
  jump _ _ _ _ _ _ _ := .of_none rfl
  crash w _ hV _ := hV.frame rfl fun _ hid => hid
  env w e s _ hV he _ := by
    cases e with
    | tasks id ts =>
      simp only [machine, Env.apply] at he
      split at he <;> cases he
      exact ⟨hV.frame rfl fun _ hid => hid, fun _ _ h => h.frame rfl fun _ hid => hid⟩
    | exit id =>
      cases he
      exact ⟨hV.frame rfl fun _ hid => (List.mem_filter.mp hid).1, fun _ _ h => h.frame rfl fun _ hid =>
          (List.mem_filter.mp hid).1⟩
    | _ =>
      cases he
      exact ⟨hV.frame rfl fun _ hid => hid, fun _ _ h => h.frame rfl fun _ hid => hid⟩
  call w t g c ch r s sp hfits hJ hV hg h hguard hexec hK := by
    replace hexec : exec t ch w.st c = some (r, s, sp) := hexec
    refine ⟨watch_fact hexec, ?_⟩
    have hother : (∀ x, c ≠ .tx x) → (∀ job, c ≠ .create job) → Leaves cfg w t s (g.after cfg c r) := by
      intro htx hcreate
      have hdb := exec_db htx hexec
      have hrunning : ∀ id ∈ s.running, id ∈ w.st.running := by
        intro id hid
        rcases (exec_framed hexec).running _ hid with hold | ⟨job, hc, -⟩
        · exact hold
        · exact absurd hc (hcreate job)
      refine ⟨hV.frame hdb hrunning, ?_, fun _ _ _ _ h' => h'.frame hdb hrunning⟩
      rcases Watch.after_other htx with hnone | hsame
      · exact .of_none hnone
      have hg' := h.frame hdb hrunning
      exact ⟨hsame ▸ hg'.idle, hsame ▸ hg'.row, hsame ▸ hg'.ready⟩
    cases c with
    | tx x => exact leaves_tx hfits hJ hV hg h hguard hexec hK
    | create job => exact leaves_create hJ hV hg h hguard hexec
    | _ => exact hother (by simp) (by simp)

end Steps

/-- **The active operation has the worker for itself**, in every configuration that the server reaches while every row of a job
is released after its task has ended and its admission is over, and no job is queued in its admission. -/
theorem runtime_exclusive {cfg : Config} {σ : Conf} (h : Reaches cfg (vacating cfg) σ) {op : Op} {r : QueueRow} {id : String}
    (hrow : σ.st.db.queue.table.lookup op = some r) (hactive : r.state = .active) (hid : id ∈ σ.st.running) :
    op = jobOp id := by
  obtain ⟨now, hreach⟩ := h
  obtain ⟨-, hoccupied, -⟩ :=
    run_invariant (watch_body cfg) (fun _ hr => guarded hr) (exclusive_local cfg now).keeps hreach
  obtain ⟨r', hr', hreserved⟩ := (hoccupied id hid).2
  obtain ⟨q, hq, rfl⟩ := Option.map_eq_some_iff.mp hr'
  exact σ.st.db.queue.oneReserved op (jobOp id) r q hrow hq (by rw [hactive]; rfl) hreserved

def runs : List Event :=
  starting ++ .run 6 (.fresh "svc1") ::
    .env (.tasks "job1" [⟨sampleTime, sampleTime, "node", .running, sampleTime, "", none⟩]) :: goes 6 7

theorem runtime_exclusive_started : ∃ σ, Reaches sampleConfig (vacating sampleConfig) σ ∧
    ∃ r, σ.st.db.queue.table.lookup (jobOp "job1") = some r ∧ r.state = .active ∧ "job1" ∈ σ.st.running ∧
      ∀ id ∈ σ.st.running, jobOp "job1" = jobOp id := by
  obtain ⟨σ, hr, hp⟩ := reaches_of_stepsIf sampleConfig (K := vacating sampleConfig) runs
    (p := fun σ => (σ.st.db.queue.table.lookup (jobOp "job1")).any (fun q => q.state == .active) &&
      σ.st.running.contains "job1") (q := fun w _ c r => vacatedCall sampleConfig w c r)
    (fun _ _ => trivial) (fun _ _ => trivial) (fun _ _ _ _ h => h) (by decide +kernel)
  simp only [Bool.and_eq_true, Option.any_eq_true, beq_iff_eq, List.contains_iff_mem] at hp
  obtain ⟨⟨r, hrow, hactive⟩, hid⟩ := hp
  exact ⟨σ, hr, r, hrow, hactive, hid, fun _ hid => runtime_exclusive hr hrow hactive hid⟩

def cancelsRunning : List Event :=
  runs ++ asks 7 (.cancelJob "job1") ++ [.run 7 .go, authorized 7] ++ goes 7 11 ++ goes 8 22

def buildsNext : List Event :=
  asks 10 (.prepareBuild "project" "second" [] "") ++ [authorized 10, .run 10 (.fresh "2")] ++ goes 10 3 ++
    .run 10 (.snapshot roomy) :: goes 10 9

/-- A build is active while the task of a cancelled job still runs. -/
theorem runtime_overlaps : ∃ σ, Reaches sampleConfig Conc.Rules.all σ ∧
    (σ.st.db.queue.table.lookup (buildOp "bld2")).map (fun q => q.state) = some .active ∧ "job1" ∈ σ.st.running := by
  obtain ⟨σ, hr, hp⟩ := reaches_of_steps sampleConfig (cancelsRunning ++ buildsNext)
    (p := fun σ => (σ.st.db.queue.table.lookup (buildOp "bld2")).map (fun q => q.state) == some .active &&
      σ.st.running.contains "job1") (by decide +kernel)
  simp only [Bool.and_eq_true, beq_iff_eq, List.contains_iff_mem] at hp
  exact ⟨σ, hr, hp⟩

end Autback
