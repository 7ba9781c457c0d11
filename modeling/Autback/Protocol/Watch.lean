import Autback.Protocol.Gateway
import Autback.Store.Lease

/-!
# Admissions and passes

The ghost `Watch` of a goroutine keeps what it does about the services of jobs: the capacity lock, the admission that a dispatcher
is carrying out, and the clock, the listings and the verdict of a pass of the reconciler. The walk shows that a service is created
only in the admission of its job and under the lock, that a row returns to the queue only in its admission, and that the
reconciler stores a loss only after its verdict or from a listing (`watch_body`).
-/

namespace Autback

open Conc Ghost

/-! ## The ghost -/

def TaskState.strays : TaskState → Bool
  | .orphaned | .shutdown | .remove | .other _ => true
  | _ => false

def Reconciler.missing (managed : List RuntimeJob) (id : String) : Bool :=
  !poisoned managed id && (remoteByID managed id).isNone

/-- What the reconciler concludes from the row of a job that a listing lacks: whether the job is lost. -/
def Reconciler.gone (cfg : Config) (now : Time) : Except Err Operation → Bool
  | .error e => e.is .notFound
  | .ok operation => !(operation.leasedAt.any fun t => decide (t > now - admissionGrace cfg))

/-- The admission of a job, from the acquisition of its row to the end of `Scheduler.Create`. -/
structure Admission where
  id : String
  since : Time
  /-- The job has been read and is not in preparation. -/
  ready : Bool
  deriving DecidableEq

def Admission.read (a : Admission) (id : String) (job : Job) : Option Admission :=
  if a.ready || a.id != id then some a
  else if job.status = .preparing then none
  else some { a with ready := true }

def Operation.begins (o : Operation) : Option Admission :=
  match o.op.kind with
  | .job => some ⟨o.op.id, o.leasedAt.getD zeroTime, false⟩
  | .build => none

structure Watch where
  reconciler : Bool
  /-- It has the capacity lock. -/
  held : Bool
  admission : Option Admission
  /-- The time at which the pass of the reconciler has begun. -/
  clock : Option Time
  /-- The listings since then. -/
  listings : List (List RuntimeJob)
  /-- The job that it has found lost. -/
  doomed : Option String

/-- The job that is lost by the listings and the row of `op`. -/
def Watch.verdict (cfg : Config) (g : Watch) (op : Op) (r : Except Err Operation) : Option String :=
  if op.kind == .job && g.listings.any (fun m => Reconciler.missing m op.id) &&
      g.clock.any (fun now => Reconciler.gone cfg now r) then some op.id
  else none

def Watch.after (cfg : Config) (g : Watch) (c : Call) (r : c.Ret) : Watch :=
  match c, r with
  | .lock, Except.ok _ => { g with held := true }
  | .unlock, _ => { g with held := false, admission := none }
  | .create _, _ => { g with admission := none }
  | .now, (now : Time) => if g.clock.isNone then { g with clock := some now } else g
  | .managedJobs, Except.ok (managed : List RuntimeJob) =>
    if g.clock.isSome then { g with listings := managed :: g.listings } else g
  | .tx .acquireNextOperation, Except.ok (some (o : Operation)) => { g with admission := o.begins }
  | .tx (.requeueAdmittingOperation _), _ | .tx (.failJob _ _), _ => { g with admission := none }
  | .tx (.job id), Except.ok (job : Job) => { g with admission := g.admission.bind fun a => a.read id job }
  | .tx (.operation op), r => { g with doomed := g.verdict cfg op r }
  | .tx (.syncJob _ _), _ => { g with doomed := none }
  | _, _ => g

def Watch.Idle (b h : Bool) (g : Watch) : Prop := g.reconciler = b ∧ g.held = h ∧ g.admission = none

def Watch.Lists (g : Watch) (id : String) : Prop := ∃ m ∈ g.listings, ∃ e ∈ m, ∃ remote, e.job = .ok remote ∧ remote.id = id

/-- A service is created in the admission of its job, under the capacity lock; a job is activated after that or when its
service is listed; the reconciler stores a loss that it has found or that the runtime reports. -/
def watch (cfg : Config) : Ghost Call Call.Ret Label Watch where
  start l := ⟨l == .reconcilerRun, false, none, none, [], none⟩
  next g c r := g.after cfg c r
  guard g c := match c with
    | .unlock => g.held = true
    | .create job => ∃ a, g.admission = some a ∧ a.id = job.id ∧ a.ready = true
    | .tx .acquireNextOperation => g.held = true ∧ g.admission = none
    | .tx (.requeueAdmittingOperation ⟨.job, id⟩) => ∃ a, g.admission = some a ∧ a.id = id
    | .tx (.activateOperation ⟨.job, id⟩) => g.Idle g.reconciler true ∨ g.Lists id
    | .tx (.emergencyStopActiveOperation _) => g.Idle g.reconciler true
    | .tx (.queueJob _ _) | .tx (.requestJobCancellation _) | .tx (.beginOperationCleanup ⟨.job, _⟩) => g.admission = none
    | .tx (.syncJob id remote) => g.admission = none ∧ remote.status ≠ .preparing ∧ (g.reconciler = true → remote.status = .lost →
        g.doomed = some id ∨ ∃ m ∈ g.listings, ∃ e ∈ m, e.job = .ok remote)
    | _ => True
  fact _ c r := match c, r with
    | .tx (.job id), Except.ok (job : Job) => job.id = id
    | .status _, Except.ok (remote : RemoteJob) => remote.status ≠ .preparing
    | .managedJobs, Except.ok (managed : List RuntimeJob) =>
      ∀ e ∈ managed, ∀ remote, e.job = .ok remote → remote.status ≠ .preparing
    | _, _ => True
  exit _ _ := True

/-! ## The walk -/

def Watch.Locked (b : Bool) (g : Watch) : Prop := g.reconciler = b ∧ g.held = true

def Watch.Admits (b : Bool) (id : String) (g : Watch) : Prop :=
  g.Locked b ∧ ∃ a, g.admission = some a ∧ a.id = id ∧ a.ready = true

def Call.plain : Call → Bool
  | .lock | .unlock | .create _ | .tx .acquireNextOperation | .tx (.requeueAdmittingOperation ⟨.job, _⟩)
  | .tx (.syncJob _ _) | .tx (.activateOperation ⟨.job, _⟩) | .tx (.emergencyStopActiveOperation _) => false
  | _ => true

def Call.yields : Call → Bool
  | .tx (.queueJob _ _) | .tx (.requestJobCancellation _) | .tx (.beginOperationCleanup ⟨.job, _⟩) => true
  | _ => false

variable {c : Call} {cfg : Config} {t : Nat} {g : Watch} {a : Admission}

theorem Call.yields_of_quiet (h : c.quiet = true) : c.yields = false := by
  cases c with
  | tx x => cases x <;> first | rfl | cases h
  | _ => rfl

theorem Call.plain_of_quiet (h : c.quiet = true) : c.plain = true := by
  cases c with
  | tx x => cases x <;> first | rfl | cases h
  | _ => first | rfl | cases h

inductive Watch.Move (g : Watch) : Call → Watch → Prop
  | stay (c : Call) : g.Move c g
  | lock : g.Move .lock { g with held := true }
  | unlock : g.Move .unlock { g with held := false, admission := none }
  | clock (now : Time) (h : g.clock = none) : g.Move .now { g with clock := some now }
  | list (m : List RuntimeJob) : g.Move .managedJobs { g with listings := m :: g.listings }
  | acquire (o : Operation) : g.Move (.tx .acquireNextOperation) { g with admission := o.begins }
  | drop (c : Call) : g.Move c { g with admission := none }
  | read (id : String) (job : Job) :
    g.Move (.tx (.job id)) { g with admission := g.admission.bind fun a => a.read id job }
  | judge (op : Op) (d : Option String) : g.Move (.tx (.operation op)) { g with doomed := d }
  | sync (id : String) (remote : RemoteJob) : g.Move (.tx (.syncJob id remote)) { g with doomed := none }

section After

variable {cfg : Config} {g : Watch} {c : Call} {r : c.Ret}

theorem Watch.after_move (cfg : Config) (g : Watch) {c : Call} (r : c.Ret) : g.Move c (g.after cfg c r) := by
  unfold Watch.after
  split
  · exact .lock
  · exact .unlock
  · exact .drop _
  · split
    · exact .clock _ (Option.isNone_iff_eq_none.mp ‹_›)
    · exact .stay _
  · split
    · exact .list _
    · exact .stay _
  · exact .acquire _
  · exact .drop _
  · exact .drop _
  · exact .read _ _
  · exact .judge _ _
  · exact .sync _ _
  · exact .stay _

theorem Watch.after_reconciler : (g.after cfg c r).reconciler = g.reconciler := by
  have hmove := Watch.after_move cfg g r
  generalize g.after cfg c r = g' at hmove
  cases hmove <;> rfl

theorem Watch.after_held (hl : c ≠ .lock) (hu : c ≠ .unlock) : (g.after cfg c r).held = g.held := by
  have hmove := Watch.after_move cfg g r
  generalize g.after cfg c r = g' at hmove
  cases hmove <;> first | rfl | contradiction

theorem Admission.read_eq_some {a a' : Admission} {id : String} {job : Job} (h : a.read id job = some a') :
    a'.id = a.id ∧ a'.since = a.since ∧
      (a'.ready = true → a.ready = true ∨ (a.id = id ∧ job.status ≠ .preparing)) := by
  unfold Admission.read at h
  split at h
  · cases h
    exact ⟨rfl, rfl, fun hr => .inl hr⟩
  rename_i hread
  split at h
  · cases h
  rename_i hs
  cases h
  simp only [Bool.or_eq_true, bne_iff_ne, not_or, not_not] at hread
  exact ⟨rfl, rfl, fun _ => .inr ⟨hread.2, hs⟩⟩

theorem Watch.after_admission {a' : Admission} (hc : c ≠ .tx .acquireNextOperation)
    (h : (g.after cfg c r).admission = some a') :
    ∃ a, g.admission = some a ∧ a'.id = a.id ∧ a'.since = a.since := by
  have hmove := Watch.after_move cfg g r
  generalize g.after cfg c r = g' at hmove h
  cases hmove
  case acquire o => exact absurd rfl hc
  case read id job =>
    obtain ⟨a, ha, hread⟩ := Option.bind_eq_some_iff.mp h
    exact ⟨a, ha, (Admission.read_eq_some hread).1, (Admission.read_eq_some hread).2.1⟩
  all_goals first | exact ⟨a', h, rfl, rfl⟩ | cases h

theorem Watch.after_other (hc : ∀ x, c ≠ .tx x) :
    (g.after cfg c r).admission = none ∨ (g.after cfg c r).admission = g.admission := by
  have hmove := Watch.after_move cfg g r
  generalize g.after cfg c r = g' at hmove
  cases hmove <;> first | exact .inr rfl | exact .inl rfl | exact absurd rfl (hc _)

/-- Only `Scheduler.ManagedJobs` adds a listing. -/
theorem Watch.after_unlisted (hc : c ≠ .managedJobs) : (g.after cfg c r).listings = g.listings := by
  have hmove := Watch.after_move cfg g r
  generalize g.after cfg c r = g' at hmove
  cases hmove <;> first | rfl | contradiction

end After

section Walk

variable {cfg : Config} {b h : Bool} {g : Watch}

variable {c : Call} {id : String}

theorem watch_guard (hc : c.plain = true) (h : g.admission = none ∨ c.yields = false) : (watch cfg).guard g c := by
  simp only [watch]
  split <;> first | trivial | exact h.resolve_right (by simp [Call.yields])

theorem watch_still (hc : c.plain = true) : (watch cfg).Still (Watch.Idle b h) c := by
  rintro g ⟨rfl, rfl, hnone⟩
  refine ⟨watch_guard hc (.inl hnone), fun r _ => ⟨Watch.after_reconciler, Watch.after_held ?_ ?_, ?_⟩⟩
  · rintro rfl
    cases hc
  · rintro rfl
    cases hc
  by_contra hne
  obtain ⟨a', ha'⟩ := Option.ne_none_iff_exists'.mp hne
  obtain ⟨a, ha, -⟩ := Watch.after_admission (by rintro rfl; cases hc) ha'
  rw [hnone] at ha
  cases ha

theorem watch_quiet (c : Call) (hc : c.quiet = true) : (watch cfg).Still (Watch.Idle b h) c :=
  watch_still (Call.plain_of_quiet hc)

theorem watch_locked_still (hc : c.plain = true) (hy : c.yields = false) : (watch cfg).Still (Watch.Locked b) c := by
  rintro g ⟨rfl, hheld⟩
  refine ⟨watch_guard hc (.inr hy), fun r _ => ⟨Watch.after_reconciler, ?_⟩⟩
  change (g.after cfg c r).held = true
  rw [Watch.after_held, hheld]
  · rintro rfl
    cases hc
  rintro rfl
  cases hc

theorem watch_locked_quiet (c : Call) (hc : c.quiet = true) : (watch cfg).Still (Watch.Locked b) c :=
  watch_locked_still (Call.plain_of_quiet hc) (Call.yields_of_quiet hc)

theorem watch_admits_lifecycle (c : Call) (hc : c.lifecycle = true) : (watch cfg).Still (Watch.Admits b id) c := by
  rintro g ⟨hlock, a, ha, hid, hread⟩
  have hstill : (watch cfg).Still (Watch.Locked b) c := watch_locked_quiet c (Call.quiet_of_lifecycle hc)
  refine ⟨(hstill g hlock).1, fun r hr => ⟨(hstill g hlock).2 r hr, a, ?_, hid, hread⟩⟩
  cases c with
  | tx x =>
    cases x with
    | job id' =>
      rcases r with e | (job : Job)
      · exact ha
      change (g.admission.bind fun a => a.read id' job) = some a
      simp [ha, Admission.read, hread]
    | _ => first | exact ha | cases hc
  | _ => first | exact ha | cases hc

theorem watch_advance : (watch cfg).Within (Watch.Idle b h) advance :=
  within_advance watch_quiet (watch_still rfl) (watch_still rfl)

theorem watch_request (op : Op) : (watch cfg).Within (Watch.Idle b h) (Coordinator.request op) :=
  within_request (quiet_tx watch_quiet) (watch_still rfl) (watch_still rfl)

theorem watch_rejectJob (context id : String) (e : Err) :
    (watch cfg).Within (Watch.Locked b) (Dispatcher.rejectJob context id e) := by
  rintro g ⟨hb, hheld⟩
  -- `FailJob` ends the admission
  have hlock : ∀ {g'}, Watch.Idle b true g' → g'.Locked b := fun hg' => ⟨hg'.1, hg'.2.1⟩
  refine safe_try.mpr (safe_attempt.mpr (safe_try.mpr ⟨trivial, fun r _ => ?_⟩))
  have hg1 : Watch.Idle b true { g with admission := none } := ⟨hb, hheld, rfl⟩
  rcases r with e' | u
  · exact hlock hg1
  refine (within_quiet watch_quiet (.tx (.job id)) rfl _ hg1).mono ?_
  rintro g2 (e' | job) hg2
  · exact hlock hg2
  refine safe_try.mpr (safe_attempt.mpr ((watch_request (jobOp id) g2 hg2).mono ?_))
  rintro g3 (e' | u') hg3 <;> exact hlock hg3

theorem watch_idle_activate : (watch cfg).Still (Watch.Idle b true) (.tx (.activateOperation (jobOp id))) := by
  rintro g ⟨rfl, hheld, hnone⟩
  exact ⟨.inl ⟨rfl, hheld, hnone⟩, fun _ _ => ⟨rfl, hheld, hnone⟩⟩

/-- `Scheduler.Create` ends the admission; what follows keeps the lock. -/
theorem watch_createJob (scope : Scope) (job : Job) (hjob : job.id = id) (hg : g.Admits b id) :
    (watch cfg).Safe g (Dispatcher.createJob scope job id) fun g' _ => g'.Locked b := by
  obtain ⟨hlock, a, ha, hid, hread⟩ := hg
  refine safe_try.mpr (safe_attempt.mpr ⟨⟨a, ha, hid.trans hjob.symm, hread⟩, fun r _ => ?_⟩)
  have hg1 : Watch.Locked b { g with admission := none } := hlock
  rcases r with e | u
  · refine safe_try.mpr (safe_ofProg.mpr ((within_isContextCancellation watch_locked_quiet e scope _ hg1).mono ?_))
    intro g' cancelled hg'
    refine safe_ite (fun _ => hg') fun _ => watch_rejectJob _ _ _ g' hg'
  have hidle : Watch.Idle b true { g with admission := none } := ⟨hg1.1, hg1.2, rfl⟩
  exact (within_activateJob watch_quiet watch_idle_activate (watch_still rfl) _ hidle).mono fun _ _ hg' => ⟨hg'.1, hg'.2.1⟩

theorem watch_prepareFailed (e : Err) (hg : g.Admits b id) :
    (watch cfg).Safe g (Dispatcher.prepareFailed (jobOp id) e) fun g' _ => g'.Locked b := by
  obtain ⟨hlock, a, ha, hid, -⟩ := hg
  refine safe_ite (fun _ => watch_rejectJob _ _ _ g hlock) fun _ => ?_
  refine safe_try.mpr (safe_attempt.mpr ⟨⟨a, ha, hid⟩, fun r _ => ?_⟩)
  rcases r with e | u <;> exact hlock

theorem watch_admitJob {since : Time} (scope : Scope) (hlock : g.Locked b) (ha : g.admission = some ⟨id, since, false⟩) :
    (watch cfg).Safe g (Dispatcher.admitOperation scope (jobOp id)) fun g' _ => g'.Locked b := by
  refine safe_try.mpr (safe_mapError.mpr ⟨trivial, fun r hr => ?_⟩)
  rcases r with e | (job : Job)
  · exact hlock
  refine safe_ite (fun _ => hlock) fun hs => ?_
  have hadm : Watch.Admits b id ((watch cfg).next g (.tx (.job id)) (Except.ok job)) := by
    refine ⟨hlock, ⟨id, since, true⟩, ?_, rfl, rfl⟩
    change (g.admission.bind fun a => a.read id job) = _
    simp [ha, Admission.read, hs]
  refine safe_try.mpr (safe_attempt.mpr ((within_prepare watch_admits_lifecycle (jobOp id) _ hadm).mono ?_))
  rintro g' (e | u) hg'
  · exact watch_prepareFailed e hg'
  · exact watch_createJob scope job hr hg'

theorem watch_admitBuild (id : String) (scope : Scope) :
    (watch cfg).Within (Watch.Locked b) (Dispatcher.admitOperation scope (buildOp id)) :=
  within_admitPrepared watch_locked_quiet (fun context e => watch_rejectJob context id e) (watch_locked_still rfl rfl)
    (within_mapError (within_lift (watch_locked_still rfl rfl)))

theorem watch_emergency (dryRun : Bool) (scope : Scope) :
    (watch cfg).Within (Watch.Idle b true) (emergency dryRun scope) := by
  refine within_emergency watch_quiet (fun message => ?_) (fun _ => watch_still rfl) (fun _ => watch_still rfl)
    (watch_still rfl) (fun _ _ _ => watch_still rfl) (fun _ => watch_still rfl)
  rintro g ⟨rfl, hheld, hnone⟩
  exact ⟨⟨rfl, hheld, hnone⟩, fun _ _ => ⟨rfl, hheld, hnone⟩⟩

theorem watch_runLocked (policy : Policy) (dryRun : Bool) (scope : Scope) (trigger : Trigger) :
    (watch cfg).Within (Watch.Idle b true) (Controller.runLocked policy dryRun scope trigger) :=
  within_runLocked watch_quiet (fun _ => watch_still rfl) (watch_emergency dryRun scope) trigger

theorem watch_locked {p : Go Err Unit}
    (hp : ∀ g, Watch.Idle b true g → (watch cfg).Safe g p fun g' _ => g'.Locked b) :
    (watch cfg).Within (Watch.Idle b false) (Controller.locked p) := by
  rintro g ⟨hb, hheld, hnone⟩
  refine safe_try.mpr (safe_mapError.mpr ⟨trivial, fun r _ => ?_⟩)
  rcases r with e | u
  · exact ⟨hb, hheld, hnone⟩
  have hg : Watch.Idle b true ((watch cfg).next g .lock (Except.ok u)) := ⟨hb, rfl, hnone⟩
  refine safe_try.mpr (safe_attempt.mpr ((hp _ hg).mono fun g' result hg' => ?_))
  exact safe_try.mpr (safe_ofProg.mpr ⟨hg'.2, fun _ _ => ⟨hg'.1, rfl, rfl⟩⟩)

theorem watch_maintain (policy : Policy) (dryRun : Bool) (scope : Scope) (trigger : Trigger) :
    (watch cfg).Within (Watch.Idle b false) (Controller.maintain policy dryRun scope trigger) :=
  watch_locked fun g hg => (watch_runLocked _ _ _ _ g hg).mono fun _ _ hg' => ⟨hg'.1, hg'.2.1⟩

theorem watch_runOnce (scope : Scope) : (watch cfg).Within (Watch.Idle b false) (Dispatcher.runOnce cfg scope) := by
  refine within_runOnce watch_quiet (watch_locked fun g hg => safe_try.mpr ((watch_runLocked _ _ _ _ g hg).mono ?_))
  rintro g1 (e | u) ⟨hb, hheld, hnone⟩
  · exact ⟨hb, hheld⟩
  refine safe_try.mpr (safe_ofProg.mpr ⟨trivial, fun draining _ => ?_⟩)
  refine safe_ite (fun _ => ⟨hb, hheld⟩) fun _ => ?_
  refine safe_try.mpr ⟨⟨hheld, hnone⟩, fun r _ => ?_⟩
  rcases r with e | (_ | ⟨⟨_ | _, id⟩, state, acceptedAt, leasedAt, attempts, err, updatedAt⟩)
  · exact ⟨hb, hheld⟩
  · exact ⟨hb, hheld⟩
  · exact watch_admitJob scope ⟨hb, hheld⟩ rfl
  · exact watch_admitBuild id scope _ ⟨hb, hheld⟩

theorem watch_refreshRemote (id : String) : (watch cfg).Within (Watch.Idle false h) (Api.refreshRemote id) := by
  intro g hg
  refine safe_try.mpr ⟨trivial, fun r hr => ?_⟩
  rcases r with e | (remote : RemoteJob)
  · exact hg
  have hsync : (watch cfg).Still (Watch.Idle false h) (.tx (.syncJob id remote)) := by
    rintro g ⟨hb, hheld, hnone⟩
    refine ⟨⟨hnone, hr, fun hrecord => ?_⟩, fun r _ => ⟨hb, hheld, hnone⟩⟩
    rw [hb] at hrecord
    cases hrecord
  refine within_try (within_try (within_lift hsync) fun _ => within_quiet watch_quiet _ rfl) (fun job => ?_) _ hg
  split
  · exact within_try (within_ofProg watch_advance) fun _ => within_ok _
  · exact within_ok _

theorem watch_handlers : HandlerParts (watch cfg) (Watch.Idle false false) cfg := by
  refine handlerParts watch_quiet (fun c hc => watch_still ?_) (watch_runOnce .request) (fun _ => watch_request _)
    watch_refreshRemote
  cases c with
  | tx x => cases x <;> first | rfl | cases hc
  | _ => first | rfl | cases hc

/-! ### The reconciler -/

/-- A pass of the reconciler that began at `now` and has taken the listings `ms`. -/
def Watch.Passes (now : Time) (ms : List (List RuntimeJob)) (g : Watch) : Prop :=
  g.Idle true false ∧ g.clock = some now ∧ ∀ m ∈ ms, m ∈ g.listings

theorem Watch.after_clock {r : c.Ret} {now : Time} (hg : g.clock = some now) : (g.after cfg c r).clock = some now := by
  have hmove := Watch.after_move cfg g r
  generalize g.after cfg c r = g' at hmove
  cases hmove
  case clock now' hnone =>
    rw [hg] at hnone
    cases hnone
  all_goals exact hg

theorem Watch.after_listings {r : c.Ret} {m : List RuntimeJob} (hm : m ∈ g.listings) : m ∈ (g.after cfg c r).listings := by
  have hmove := Watch.after_move cfg g r
  generalize g.after cfg c r = g' at hmove
  cases hmove
  case list m' => exact List.mem_cons_of_mem _ hm
  all_goals exact hm

variable {now : Time} {ms : List (List RuntimeJob)}

theorem watch_passes_still (hc : c.plain = true) : (watch cfg).Still (Watch.Passes now ms) c := by
  rintro g ⟨hidle, hclock, hms⟩
  have hstill : (watch cfg).Still (Watch.Idle true false) c := watch_still hc
  replace hstill := hstill g hidle
  exact ⟨hstill.1, fun r hr => ⟨hstill.2 r hr, Watch.after_clock hclock, fun m hm => Watch.after_listings (hms m hm)⟩⟩

theorem watch_passes_quiet (c : Call) (hc : c.quiet = true) : (watch cfg).Still (Watch.Passes now ms) c :=
  watch_passes_still (Call.plain_of_quiet hc)

theorem watch_passes_request (op : Op) : (watch cfg).Within (Watch.Passes now ms) (Coordinator.request op) :=
  within_request (quiet_tx watch_passes_quiet) (watch_passes_still rfl) (watch_passes_still rfl)

theorem watch_syncAndRelease {remote : RemoteJob} (hg : g.Passes now ms)
    (hguard : (watch cfg).guard g (.tx (.syncJob id remote))) :
    (watch cfg).Safe g (Reconciler.syncAndRelease id remote) fun g' _ => g'.Passes now ms := by
  refine safe_bind.mpr (safe_try.mpr ⟨hguard, fun r _ => ?_⟩)
  rcases r with e | u
  · exact hg
  have hg1 : Watch.Passes now ms { g with doomed := none } := hg
  refine (within_quiet watch_passes_quiet (.tx (.job id)) rfl _ hg1).mono ?_
  rintro g' (e | job) hg'
  · exact hg'
  · exact safe_ite (fun _ => within_reported (watch_passes_request _) g' hg') fun _ => hg'

theorem watch_syncMissing {m : List RuntimeJob} (hm : m ∈ ms) (hmiss : Reconciler.missing m id = true) :
    (watch cfg).Within (Watch.Passes now ms) (Reconciler.syncMissing cfg now id) := by
  intro g hg
  refine safe_bind.mpr ⟨trivial, fun r hr => ?_⟩
  have hstill : (watch cfg).Still (Watch.Passes now ms) (.tx (.operation (jobOp id))) := watch_passes_still rfl
  have hg1 := (hstill g hg).2 r hr
  have hlost : Reconciler.gone cfg now r = true → (watch cfg).Safe ((watch cfg).next g (.tx (.operation (jobOp id))) r)
      (Reconciler.syncAndRelease id (Reconciler.lostJob id now)) fun g' _ => g'.Passes now ms := by
    intro hgone
    refine watch_syncAndRelease hg1 ⟨hg1.1.2.2, by simp [Reconciler.lostJob], fun _ _ => .inl ?_⟩
    change g.verdict cfg (jobOp id) r = some id
    have hany : g.listings.any (fun m => Reconciler.missing m id) = true :=
      List.any_eq_true.mpr ⟨m, hg.2.2 m hm, hmiss⟩
    simp [Watch.verdict, hany, hg.2.1, hgone]
  rcases r with e | (operation : Operation)
  · exact safe_ite (fun he => hlost he) fun _ => hg1
  refine safe_ite (fun _ => hg1) fun hold => hlost ?_
  simpa [Reconciler.gone] using hold

theorem watch_syncScheduled {managed : Option (List RuntimeJob)} (hms : ∀ m, managed = some m → m ∈ ms)
    (hstatus : ∀ m, managed = some m → ∀ e ∈ m, ∀ remote, e.job = .ok remote → remote.status ≠ .preparing) (job : Job) :
    (watch cfg).Within (Watch.Passes now ms) (Reconciler.syncScheduled cfg now managed job) := by
  cases managed with
  | none => exact within_pure _
  | some m =>
    rw [Reconciler.syncScheduled]
    split
    · exact within_pure _
    rename_i hpoison
    split
    · rename_i hnone
      refine watch_syncMissing (hms m rfl) ?_
      simpa [Reconciler.missing, hnone] using hpoison
    rename_i remote hremote
    obtain ⟨e, he, hjob, hid⟩ := remoteByID_mem hremote
    refine within_syncPresent (quiet_tx watch_passes_quiet) (fun g hg => ?_) fun g hg => ?_
    · exact ⟨.inr ⟨m, hg.2.2 m (hms m rfl), e, he, remote, hjob, hid⟩, fun _ _ => hg⟩
    exact watch_syncAndRelease hg ⟨hg.1.2.2, hstatus m rfl e he remote hjob,
      fun _ _ => .inr ⟨m, hg.2.2 m (hms m rfl), e, he, hjob⟩⟩

theorem watch_syncServices {managed : Option (List RuntimeJob)} (hms : ∀ m, managed = some m → m ∈ ms)
    (hstatus : ∀ m, managed = some m → ∀ e ∈ m, ∀ remote, e.job = .ok remote → remote.status ≠ .preparing)
    (scheduled : List Job) :
    (watch cfg).Within (Watch.Passes now ms) (Reconciler.syncServices cfg now scheduled managed) :=
  within_syncServices watch_passes_quiet (fun job _ => watch_syncScheduled hms hstatus job) fun _ => watch_passes_still rfl

theorem watch_reconcilerRun : (watch cfg).Safe ((watch cfg).start .reconcilerRun) (reconcilerRun cfg) fun _ _ => True := by
  refine safe_bind.mpr (safe_bind.mpr ⟨trivial, fun (now : Time) _ => ?_⟩)
  have hg : Watch.Passes now [] ((watch cfg).next ((watch cfg).start .reconcilerRun) .now now) :=
    ⟨⟨rfl, rfl, rfl⟩, rfl, nofun⟩
  have hexpiry : (watch cfg).Within (Watch.Passes now []) (Reconciler.expireLeases cfg now) := by
    refine within_expireLeases (quiet_tx watch_passes_quiet) ?_ ?_ now
    · exact within_expirePreparation (quiet_tx watch_passes_quiet) (fun _ => watch_passes_still rfl) fun _ =>
        watch_passes_request _
    · exact within_expireBuild (quiet_tx watch_passes_quiet) (fun _ => watch_passes_still rfl) fun _ => watch_passes_request _
  refine safe_bind.mpr ((hexpiry _ hg).mono fun g1 _ hg1 => ?_)
  have hsch : (watch cfg).Within (Watch.Passes now []) (Reconciler.listed Store.scheduledJobs) :=
    within_listed (within_quiet watch_passes_quiet _ rfl)
  refine safe_bind.mpr ((hsch g1 hg1).mono fun g2 scheduled hg2 => ?_)
  -- the listing, from which the loop over the scheduled jobs takes its verdicts
  refine safe_bind.mpr (safe_listManaged trivial (fun e he => ?_) fun m hm => ?_)
  · have hnone : (watch cfg).Within (Watch.Passes now []) (Reconciler.syncServices cfg now scheduled none) :=
      watch_syncServices (fun m h => by cases h) (fun m h => by cases h) scheduled
    exact (hnone _ hg2).mono fun _ _ _ => trivial
  have hg3 : Watch.Passes now [m] ((watch cfg).next g2 .managedJobs (Except.ok m)) := by
    refine ⟨(watch_quiet .managedJobs rfl g2 hg2.1).2 _ hm, Watch.after_clock hg2.2.1, fun m' hm' => ?_⟩
    rw [List.mem_singleton.mp hm']
    change m ∈ (if g2.clock.isSome then { g2 with listings := m :: g2.listings } else g2 : Watch).listings
    rw [hg2.2.1]
    exact List.mem_cons_self ..
  refine (watch_syncServices ?_ ?_ scheduled _ hg3).mono fun _ _ _ => trivial
  · rintro m' h
    cases h
    exact List.mem_singleton.mpr rfl
  rintro m' h
  cases h
  exact hm

theorem watch_background : BackgroundParts (watch cfg) (Watch.Idle false false) cfg where
  background := fun c hc => watch_still (by cases c <;> first | rfl | cases hc)
  advance := watch_advance
  maintain := watch_maintain _
  dispatcher := watch_runOnce .process
  coordinator := within_coordinatorRunOnce watch_quiet (watch_still rfl) (fun _ _ _ => watch_still rfl)
    (fun _ _ => watch_still rfl) (fun _ => watch_still rfl) watch_advance

theorem watch_body (cfg : Config) (l : Label) : (watch cfg).Safe ((watch cfg).start l) (body cfg l) (watch cfg).exit := by
  by_cases hl : l = .reconcilerRun
  · subst hl
    exact watch_reconcilerRun
  have hstart : Watch.Idle false false ((watch cfg).start l) := ⟨beq_false_of_ne hl, rfl, rfl⟩
  have h : (watch cfg).Within (Watch.Idle false false) (body cfg l) :=
    within_body watch_handlers watch_background watch_refreshRemote fun heq => absurd heq hl
  exact (h _ hstart).mono fun _ _ _ => trivial

end Walk

theorem watch_fact {ch : Choice} {s s' : Sys} {r : c.Ret} {sp : Option Label} (h : exec t ch s c = some (r, s', sp)) :
    (watch cfg).fact g c r := leases_fact (g := ⟨[], [], []⟩) h

/-! ## The lock -/

/-- What a goroutine takes for granted about the capacity lock: it has it, and keeps it through an admission. -/
structure Watch.Holder (t : Nat) (g : Watch) (s : Sys) : Prop where
  held : g.held = true → s.lock = some t
  locked : ∀ a, g.admission = some a → g.held = true

section Lock

variable {cfg : Config} {t t' : Nat} {g g' : Watch} {s s' : Sys} {ch : Choice} {sp : Option Label}

theorem Watch.Holder.alone (h : g.Holder t s) (h' : g'.Holder t' s) (hne : t' ≠ t) (hheld : g.held = true) :
    g'.held = false ∧ g'.admission = none := by
  have hfree : g'.held = false := by
    by_contra hh
    have hlock := h.held hheld
    rw [h'.held (by simpa using hh)] at hlock
    exact hne (Option.some.inj hlock)
  refine ⟨hfree, ?_⟩
  by_contra hsome
  obtain ⟨a, ha⟩ := Option.ne_none_iff_exists'.mp hsome
  rw [h'.locked a ha] at hfree
  cases hfree

theorem Watch.Holder.call {c : Call} {r : c.Ret} (h : g.Holder t s) (hguard : (watch cfg).guard g c)
    (hl : c ≠ .lock) (hu : c ≠ .unlock) (hexec : exec t ch s c = some (r, s', sp)) : (g.after cfg c r).Holder t s' := by
  have hheld : (g.after cfg c r).held = g.held := Watch.after_held hl hu
  refine ⟨fun hh => ?_, fun a ha => ?_⟩
  · rw [(exec_framed hexec).lock hl hu]
    exact h.held (hheld ▸ hh)
  rw [hheld]
  by_cases hc : c = .tx .acquireNextOperation
  · subst hc
    exact hguard.1
  obtain ⟨a0, ha0, -⟩ := Watch.after_admission hc ha
  exact h.locked a0 ha0

theorem holder_local (cfg : Config) (K : Rules) (now : Time) :
    LocalAt (machine cfg) K (watch cfg) (Sys.fresh now) (fun _ => True) (fun _ => True) Watch.Holder where
  init := trivial
  start _ _ _ _ _ := ⟨fun h => (by cases h), fun _ h => (by cases h)⟩
  spawn _ _ _ _ _ _ _ _ _ _ _ := ⟨fun h => (by cases h), fun _ h => (by cases h)⟩
  jump _ _ _ _ _ _ _ := ⟨fun h => (by cases h), fun _ h => (by cases h)⟩
  env w e s _ _ he _ := by
    refine ⟨trivial, fun t g h => ⟨fun hh => ?_, h.locked⟩⟩
    rw [← h.held hh]
    cases e with
    | tasks id ts =>
      simp only [machine, Env.apply] at he
      split at he <;> cases he
      rfl
    | _ =>
      cases he
      rfl
  crash _ _ _ _ := trivial
  call w t g c ch r s sp _ _ _ hg h hguard hexec _ := by
    replace hexec : exec t ch w.st c = some (r, s, sp) := hexec
    refine ⟨watch_fact hexec, trivial, ?_⟩
    by_cases hl : c = .lock
    · -- the lock was free, so nobody else had it
      subst hl
      obtain ⟨hfree, hexec⟩ := Option.ite_none_right_eq_some.mp hexec
      split at hexec
      · cases hexec
        refine ⟨⟨fun _ => rfl, fun _ _ => rfl⟩, fun t' g' _ _ h' => ⟨fun hh => ?_, h'.locked⟩⟩
        have hlock := h'.held hh
        rw [hfree] at hlock
        cases hlock
      · cases hexec
        exact ⟨h, fun _ _ _ _ h' => h'⟩
      · cases hexec
    by_cases hu : c = .unlock
    · subst hu
      cases hexec
      refine ⟨⟨fun hh => (by cases hh), fun _ ha => (by cases ha)⟩, fun t' g' hne _ h' => ⟨fun hh => ?_, h'.locked⟩⟩
      rw [(h.alone h' hne hguard).1] at hh
      cases hh
    · exact ⟨h.call hguard hl hu hexec, fun t' g' _ _ h' => ⟨fun hh => ((exec_framed hexec).lock hl hu).trans
        (h'.held hh), h'.locked⟩⟩

def Guarded (cfg : Config) (w : World) : Prop := (watch cfg).HoldsAt (fun _ => True) Watch.Holder w

theorem guarded {K : Rules} {now : Time} {σ : Conf} (h : (machine cfg).Reach K (Sys.fresh now) σ) : Guarded cfg σ.toWorld :=
  (run_invariant (watch_body cfg) (fun _ _ => trivial) (holder_local cfg K now).keeps h).2

end Lock

/-! ## What conditions and invariants are about -/

/-- Every live goroutine satisfies `p`. -/
def everyone (cfg : Config) (w : World) (p : Watch → Bool) : Bool :=
  (List.range w.next).all fun t => ((watch cfg).ghosts w t).all p

theorem everyone_apply {w : World} {p : Watch → Bool} (h : everyone cfg w p = true) (hfits : (watch cfg).Fits w)
    (hg : (watch cfg).ghosts w t = some g) : p g = true := by
  have hall := List.all_eq_true.mp h t (List.mem_range.mpr (hfits.lt_next hg))
  rwa [hg] at hall

theorem begins_jobOp {o : Operation} (h : o.begins = some a) : o.op = jobOp a.id ∧ a.ready = false := by
  obtain ⟨⟨kind, id⟩, state, acceptedAt, leasedAt, attempts, err, updatedAt⟩ := o
  cases kind <;> cases h
  exact ⟨rfl, rfl⟩

theorem begins_since {o : Operation} {now : Time} (h : o.begins = some a) (hl : o.leasedAt = some now) :
    a.since = now := by
  obtain ⟨⟨kind, id⟩, state, acceptedAt, leasedAt, attempts, err, updatedAt⟩ := o
  cases hl
  cases kind <;> cases h
  rfl

theorem exec_begins {ch : Choice} {s s' : Sys} {r : Except Err (Option Operation)} {sp : Option Label}
    (h : exec t ch s (.tx .acquireNextOperation) = some (r, s', sp))
    (ha : (g.after cfg (.tx .acquireNextOperation) r).admission = some a) (hnone : g.admission = none) :
    a.since = s.now ∧ a.ready = false ∧ ∃ o db, r = .ok (some o) ∧ o.op = jobOp a.id ∧ s' = { s with db := db } ∧
      s.db.acquireNextOperation s.now = .ok (some o, db) := by
  obtain ⟨-, ⟨e, rfl, -, -⟩ | ⟨o, db, fresh, rfl, hs, hrun⟩⟩ := exec_run h
  · rw [show g.admission = _ from ha] at hnone
    cases hnone
  cases o with
  | none =>
    rw [show g.admission = _ from ha] at hnone
    cases hnone
  | some o =>
    obtain ⟨hop, hread⟩ := begins_jobOp ha
    have hsince := begins_since ha ((ran_acquireNextOperation hrun).2 _ rfl)
    exact ⟨hsince, hread, o, db, rfl, hop, hs, hrun⟩

def Sys.Started (s : Sys) (id : String) : Prop := ∃ j, s.db.view.job id = some j ∧ j.status ≠ .preparing

structure Sys.Backs (s : Sys) (id : String) : Prop where
  started : s.Started id
  row : ∃ q, s.db.queue.table.lookup (jobOp id) = some q ∧ q.state ≠ .queued

/-- A step from `s` to `s'` keeps what the invariant needs of job `id`. -/
structure Sys.Spares (s s' : Sys) (id : String) : Prop where
  started : s.Started id → s'.Started id
  row : ∀ q, s.db.queue.table.lookup (jobOp id) = some q → ∃ q', s'.db.queue.table.lookup (jobOp id) = some q' ∧
    (q.state ≠ .queued → q'.state ≠ .queued) ∧ (q'.leasedAt = q.leasedAt ∨ q'.leasedAt = some s.now)

section Spares

variable {s s' : Sys} {id : String}

theorem spares_of_db (h : s'.db = s.db) : s.Spares s' id := by
  refine ⟨fun hs => ?_, fun q hq => ⟨q, by rw [h, hq], fun hs => hs, .inl rfl⟩⟩
  rw [Sys.Started, h]
  exact hs

theorem Tx.Moves.unleases {x : Tx} {a : x.Val} {op : Op} {s : OperationState} (h : x.Moves a op s .queued) :
    x.Unleases op := by
  cases x <;> simp only [Tx.Moves] at h <;> simp_all [Tx.Unleases]

theorem spares_commit {x : Tx} {fresh : String} {a : x.Val} {db : DB} (h : x.run s.now fresh s.db = .ok (a, db))
    (hx : ¬ x.Unleases (jobOp id)) (hsync : ∀ id remote, x = .syncJob id remote → remote.status ≠ .preparing) :
    s.Spares { s with db := db } id := by
  have he := Tx.run_effect h
  refine ⟨fun hs => he.started hsync hs, fun q hq => ?_⟩
  obtain ⟨q', hq', hlease⟩ := Tx.run_lease h hx q hq
  refine ⟨q', hq', fun hne hs => ?_, hlease⟩
  have hrow : s.db.view.row (jobOp id) = some q.view := by simp [DB.view, hq]
  obtain ⟨r', hr', -, hstatus⟩ := he.row hrow
  have hview : q'.view = r' := by simpa [DB.view, hq'] using hr'
  subst hview
  rcases hstatus with hstatus | hmove
  · exact hne ((show q'.state = q.state from hstatus) ▸ hs)
  rw [show q'.view.state = .queued from hs] at hmove
  exact hx hmove.unleases

theorem Sys.Spares.backs (h : s.Spares s' id) (hb : s.Backs id) : s'.Backs id := by
  obtain ⟨q, hq, hs⟩ := hb.row
  obtain ⟨q', hq', hs', -⟩ := h.row q hq
  exact ⟨h.started hb.started, q', hq', hs' hs⟩

end Spares

/-- `Scheduler.Create` is in flight for job `id`, in goroutine `t`. -/
def Creates (σ : Conf) (t : Nat) (id : String) : Prop :=
  σ.procs t ≠ none ∧ ∃ job k, σ.code t = .call (.create job) k ∧ job.id = id

/-- Whether `Scheduler.Create` is in flight for job `id` in goroutine `t`. -/
def creates (σ : Conf) (t : Nat) (id : String) : Bool :=
  match σ.procs t, σ.code t with
  | some _, .call (.create job) _ => job.id == id
  | _, _ => false

theorem creates_of_test {σ : Conf} {id : String} (h : creates σ t id = true) : Creates σ t id := by
  unfold creates at h
  split at h
  · rename_i l job k hl hcode
    exact ⟨by rw [hl]; simp, job, k, hcode, eq_of_beq h⟩
  · cases h

def starting : List Event :=
  prepared ++ asks 6 (.startJob "job1" "digest") ++ [.run 6 .go, authorized 6] ++ goes 6 5 ++ .run 6
    (.snapshot roomy) :: goes 6 10

end Autback
