import Autback.Server.ApiFrames
import Autback.Server.Steps
import Autback.Store.Fifo
import Autback.Store.Moves

/-!
# The capacity lock

An admission and a maintenance of the capacity controller run under one lock. The ghost `Gate` of a goroutine keeps what it has
learnt there. Nobody else reserves the worker meanwhile, but teardowns complete and jobs are queued without the lock.

Space is reclaimed only while no operation is being executed, except by a controller that deletes nothing
(`reclaim_exclusive`). An operation is admitted only if the last measurement has shown enough space, as long as nobody frees the
worker while an admission is put off (`admission_gated`, `admission_under_pressure`).
-/

namespace Autback

open Conc Ghost

/-! ## Measurements -/

/-- Space is short by the measurements of a call, newest first: the last one is under pressure, with the floor that the first
one sets. -/
def Policy.short (p : Policy) (taken : List Snapshot) : Bool :=
  match taken.head?, taken.getLast? with
  | some last, some first => p.pressure (p.thresholds first.totalBytes) last
  | _, _ => true

theorem Policy.minimum_le_soft (p : Policy) (total : UInt64) :
    p.softFreeMinimumBytes ≤ (p.thresholds total).softFreeBytes := by
  change _ ≤ if _ ≤ p.softFreeMinimumBytes then p.softFreeMinimumBytes else _
  split
  · exact UInt64.le_refl _
  · exact UInt64.le_of_lt (UInt64.not_le.mp ‹_›)

def Policy.spent (p : Policy) : List Snapshot → Bool
  | [s] => p.hardPressure (p.thresholds s.totalBytes) s
  | _ => false

/-- A measurement has room above the soft floor and less than the hard floor. With the floors of `defaultPolicy` this takes
a file system so large that a fifth of its size is miscounted. -/
def Policy.Inverted (p : Policy) (taken : List Snapshot) : Prop :=
  ∃ s ∈ taken, p.pressure (p.thresholds s.totalBytes) s = false ∧ p.hardPressure (p.thresholds s.totalBytes) s = true

def Call.measured (taken : List Snapshot) (c : Call) (r : c.Ret) : List Snapshot :=
  match c, r with
  | .lock, Except.ok _ => []
  | .snapshot, Except.ok (s : Snapshot) => s :: taken
  | _, _ => taken

/-- The measurements of goroutine `t` since it took the lock, newest first. -/
def measurements (t : Nat) : List (Entry Call Call.Ret Label) → List Snapshot
  | [] => []
  | .call t' c r :: log => if t' = t then c.measured (measurements t log) r else measurements t log
  | .start t' _ :: log => if t' = t then [] else measurements t log
  | .jump t' _ :: log => if t' = t then [] else measurements t log
  | .finish t' :: log => if t' = t then [] else measurements t log
  | .crash :: _ => []

/-! ## The ghost -/

structure Gate where
  /-- Its controller deletes nothing. -/
  dry : Bool
  /-- It admits operations. -/
  (admits held : Bool)
  taken : List Snapshot
  /-- It has found the worker busy and has put its admission off. -/
  deferred : Bool
  /-- It has found that no operation is being executed. -/
  clear : Bool

def Label.admits : Label → Bool
  | .request _ | .dispatcher => true
  | _ => false

def Tx.mayFree : Tx → Bool
  | .queueJob _ _ | .requeueAdmittingOperation _ | .completeOperationCleanup _ => true
  | _ => false

def Gate.after (p : Policy) (g : Gate) (c : Call) (r : c.Ret) : Gate :=
  match c, r with
  | .lock, Except.ok _ => ⟨g.dry, g.admits, true, [], false, false⟩
  | .unlock, _ => ⟨g.dry, g.admits, false, g.taken, false, false⟩
  | .snapshot, Except.ok (s : Snapshot) => { g with taken := s :: g.taken }
  | .tx .workerBusy, Except.ok (busy : Bool) =>
    { g with deferred := g.held && g.admits && busy && !p.spent g.taken, clear := g.held && !busy }
  | .tx (.emergencyStopActiveOperation _), Except.ok _ => { g with deferred := false, clear := g.held }
  | .tx .acquireNextOperation, _ => { g with deferred := false, clear := false }
  | .tx (.queueJob _ _), _ | .tx (.requeueAdmittingOperation _), _ | .tx (.completeOperationCleanup _), _ =>
    { g with deferred := false }
  | _, _ => g

/-- Space is reclaimed and the worker is reserved under the lock: the one when nothing is being executed, the other when
space is not short or the admission has been put off. -/
def gate (cfg : Config) : Ghost Call Call.Ret Label Gate where
  start l := ⟨l.dryRun cfg, l.admits, false, [], false, false⟩
  next g c r := g.after cfg.policy c r
  guard g c := match c with
    | .reclaim _ => g.held = true ∧ (g.clear = true ∨ (g.dry = true ∧ cfg.policy.Inverted g.taken))
    | .tx .acquireNextOperation => g.held = true ∧
        (g.deferred = true ∨ cfg.policy.short g.taken = false ∨ cfg.policy.softFreeMinimumBytes = 0)
    | .unlock => g.held = true
    | _ => True
  fact _ _ _ := True
  exit g _ := g.held = false

def Call.lockless : Call → Bool
  | .reclaim _ | .tx .acquireNextOperation | .lock | .unlock => false
  | _ => true

def Call.steady : Call → Bool
  | .tx x => match x with
    | .workerBusy | .emergencyStopActiveOperation _ | .acquireNextOperation => false
    | x => !x.mayFree
  | .reclaim _ | .lock | .unlock | .snapshot => false
  | _ => true

section Walk

variable {cfg : Config} {d a h : Bool} {g0 : Gate}

def Holding (d a h : Bool) (g : Gate) : Prop := g.dry = d ∧ g.admits = a ∧ g.held = h

theorem gate_still {c : Call} (hc : c.lockless = true) : (gate cfg).Still (Holding d a h) c := by
  rintro g ⟨rfl, rfl, rfl⟩
  refine ⟨?_, fun r _ => ?_⟩
  · simp only [gate]
    split <;> trivial
  change Holding _ _ _ (g.after cfg.policy c r)
  unfold Gate.after
  split <;> first | exact ⟨rfl, rfl, rfl⟩ | cases hc

theorem gate_same {c : Call} (hc : c.steady = true) : (gate cfg).Still (· = g0) c := by
  rintro g rfl
  refine ⟨?_, fun r _ => ?_⟩
  · simp only [gate]
    split <;> trivial
  change g.after cfg.policy c r = g
  unfold Gate.after
  split <;> first | rfl | cases hc

theorem gate_quiet (c : Call) (hc : c.quiet = true) : (gate cfg).Still (Holding d a h) c := by
  refine gate_still ?_
  cases c with
  | tx x => cases x <;> first | rfl | cases hc
  | _ => first | rfl | cases hc

theorem gate_lifecycle (c : Call) (hc : c.lifecycle = true) : (gate cfg).Still (· = g0) c := by
  refine gate_same ?_
  cases c with
  | tx x => cases x <;> first | rfl | cases hc
  | _ => first | rfl | cases hc

/-! ### Under the lock

The walk through `runLocked`. With `before` as its first measurement, the goroutine may reclaim if it knows that nothing is
being executed or if the worker was not asked for, because space was not short. -/

/-- The goroutine holds the lock and has taken the measurements `taken`. -/
structure Measured (d a : Bool) (taken : List Snapshot) (g : Gate) : Prop where
  holding : Holding d a true g
  taken : g.taken = taken

def MayReclaim (cfg : Config) (trigger : Trigger) (before : Snapshot) (g : Gate) : Prop :=
  g.clear = true ∨ (trigger = .admission ∧ cfg.policy.pressure (cfg.policy.thresholds before.totalBytes) before = false)

/-- The ghosts with which `runLocked` ends: after an admission the worker may be reserved. -/
def Decided (cfg : Config) (d a : Bool) (trigger : Trigger) (g : Gate) (r : Except Err Unit) : Prop :=
  Holding d a true g ∧ (r = .ok () → trigger = .admission → a = true →
    g.deferred = true ∨ cfg.policy.short g.taken = false ∨ cfg.policy.softFreeMinimumBytes = 0)

section Locked

variable {scope : Scope} {trigger : Trigger} {g : Gate}

theorem decided_error {e : Err} (hg : Holding d a true g) : Decided cfg d a trigger g (.error e) :=
  ⟨hg, nofun⟩

variable {taken : List Snapshot} {before : Snapshot}

theorem gate_emergency (hg : Measured d a taken g) : (gate cfg).Safe g (emergency d scope) fun g' r => Measured d a taken g' ∧
      (r = .ok () → (d = true ∧ g' = g) ∨ g'.clear = true) := by
  cases d with
  | true => exact ⟨hg, fun _ => .inl ⟨rfl, rfl⟩⟩
  | false =>
    refine safe_try.mpr ⟨trivial, fun r _ => ?_⟩
    rcases r with e | operation
    · exact ⟨hg, nofun⟩
    -- the answer to the stop leaves the goroutine with the ghost `g1`, and nothing that follows changes it
    let g1 : Gate := { g with deferred := false, clear := g.held }
    have hg1 : Measured false a taken g1 ∧ g1.clear = true := ⟨⟨hg.holding, hg.taken⟩, hg.holding.2.2⟩
    have hend : ∀ g' : Gate, g' = g1 → ∀ r : Except Err Unit, Measured false a taken g' ∧
        (r = .ok () → (false = true ∧ g' = g) ∨ g'.clear = true) := by
      rintro g' rfl r
      exact ⟨hg1.1, fun _ => .inr hg1.2⟩
    have hcomp : ∀ op, (gate cfg).Within (· = g1) (Store.completeOperationCleanup op) := by
      intro op
      refine within_try (within_lift ?_) fun done => ?_
      · rintro g' rfl
        exact ⟨trivial, fun _ _ => rfl⟩
      cases done with
      | true => exact within_ok _
      | false =>
        refine within_try (within_lift (gate_same rfl)) fun state => ?_
        split
        · exact within_ok _
        · exact within_throw _
    cases operation with
    | none => exact hend g1 rfl _
    | some operation =>
      have hrest : (gate cfg).Within (· = g1)
          (stopRuntime operation.op >>= fun _ => emergencyTeardown scope operation.op : Go Err Unit) := by
        refine within_try (within_stopRuntime (fun _ => gate_same rfl) (fun _ => gate_same rfl) _) fun _ => ?_
        refine within_try (within_lift (gate_same rfl)) fun claimed => ?_
        split
        · exact within_throw _
        split
        · refine within_try (within_mapError ?_) fun _ => hcomp _
          exact within_cleanup gate_lifecycle (fun _ _ => gate_same rfl) scope
        · exact within_throw _
      exact (hrest g1 rfl).mono fun g' r hg' => hend g' hg' r

theorem gate_conclude {thresholds : Thresholds} {after : Snapshot}
    (hthr : thresholds = cfg.policy.thresholds before.totalBytes) (hg : Measured d a taken g)
    (hhead : taken.head? = some after) (hlast : taken.getLast? = some before) :
    (gate cfg).Safe g (Controller.conclude cfg.policy thresholds after) (Decided cfg d a trigger) := by
  rw [Controller.conclude]
  refine safe_ite (fun _ => decided_error hg.holding) fun hp => ⟨hg.holding, fun _ _ _ => .inr (.inl ?_)⟩
  subst hthr
  rw [hg.taken, Policy.short, hhead, hlast]
  simpa using hp

theorem gate_concludeZero {thresholds : Thresholds} (hthr : thresholds = cfg.policy.thresholds before.totalBytes)
    (hg : Holding d a true g) :
    (gate cfg).Safe g (Controller.conclude cfg.policy thresholds ⟨0, 0, 0, 0⟩) (Decided cfg d a trigger) := by
  rw [Controller.conclude]
  refine safe_ite (fun _ => decided_error hg) fun hp => ⟨hg, fun _ _ _ => .inr (.inr ?_)⟩
  subst hthr
  simp only [Policy.pressure, Bool.or_eq_true, decide_eq_true_eq, not_or, UInt64.not_lt] at hp
  exact UInt64.le_antisymm (UInt64.le_trans (cfg.policy.minimum_le_soft _) hp.1) UInt64.zero_le

theorem gate_afterReclaim {after : Snapshot} (hg : Measured d a taken g) (hhead : taken.head? = some after)
    (hlast : taken.getLast? = some before)
    (hmay : g.clear = true ∨ (after = before ∧ cfg.policy.pressure (cfg.policy.thresholds before.totalBytes) before = false)) :
    (gate cfg).Safe g
      (Controller.afterReclaim cfg.policy d scope trigger (cfg.policy.thresholds before.totalBytes) before after)
      (Decided cfg d a trigger) := by
  rw [Controller.afterReclaim]
  refine safe_ite (fun hhard => ?_) fun _ => gate_conclude rfl hg hhead hlast
  refine safe_try.mpr (safe_attempt.mpr ((gate_emergency hg).mono ?_))
  rintro g1 (e | u) ⟨hg1, hstop⟩
  · exact gate_conclude rfl hg1 hhead hlast
  -- the second reclaim: nothing is being executed, or the dry run goes on from a measurement between the floors
  have hguard : (gate cfg).guard g1 (.reclaim (cfg.policy.reclaimRequest trigger true before)) := by
    refine ⟨hg1.holding.2.2, ?_⟩
    rcases hstop rfl with ⟨hd, rfl⟩ | hclean
    · rcases hmay with hclean | ⟨rfl, hp⟩
      · exact .inl hclean
      refine .inr ⟨hg.holding.1.trans hd, after, ?_, hp, hhard⟩
      rw [hg.taken]
      exact List.mem_of_getLast? hlast
    · exact .inl hclean
  refine safe_try.mpr (safe_attempt.mpr ⟨hguard, fun r _ => ?_⟩)
  refine safe_try.mpr (safe_try.mpr (safe_attempt.mpr ⟨trivial, fun r _ => ?_⟩))
  rcases r with e | last
  · exact gate_concludeZero rfl hg1.holding
  have hlast' : (last :: taken).getLast? = some before := by
    cases taken with
    | nil => cases hlast
    | cons s rest => simpa using hlast
  refine gate_conclude rfl ⟨hg1.holding, ?_⟩ rfl hlast'
  change last :: g1.taken = _
  rw [hg1.taken]

theorem gate_reclaimStage (hg : Measured d a [before] g) (hmay : MayReclaim cfg trigger before g) : (gate cfg).Safe g
      (Controller.reclaimStage cfg.policy d scope trigger (cfg.policy.thresholds before.totalBytes) before
        (cfg.policy.pressure (cfg.policy.thresholds before.totalBytes) before)) (Decided cfg d a trigger) := by
  rw [Controller.reclaimStage]
  refine safe_ite (fun hreclaim => ?_) fun hskip => ?_
  · have hclean : g.clear = true := by
      rcases hmay with h | ⟨rfl, h⟩
      · exact h
      · simp [h] at hreclaim
    refine safe_try.mpr (safe_mapError.mpr ⟨⟨hg.holding.2.2, .inl hclean⟩, fun r _ => ?_⟩)
    rcases r with e | u
    · exact decided_error hg.holding
    refine safe_try.mpr (safe_mapError.mpr ⟨trivial, fun r _ => ?_⟩)
    rcases r with e | after
    · exact decided_error hg.holding
    have hlast : [after, before].getLast? = some before := rfl
    refine gate_afterReclaim ⟨hg.holding, ?_⟩ rfl hlast (.inl hclean)
    change after :: g.taken = _
    rw [hg.taken]
  refine gate_afterReclaim hg rfl rfl (.inr ⟨rfl, ?_⟩)
  simp only [Bool.or_eq_true, not_or, Bool.not_eq_true] at hskip
  exact hskip.1

theorem gate_idleStage (hg : Measured d a [before] g) (hmay : MayReclaim cfg trigger before g) : (gate cfg).Safe g
      (Controller.idleStage cfg.policy d scope trigger (cfg.policy.thresholds before.totalBytes) before
        (cfg.policy.pressure (cfg.policy.thresholds before.totalBytes) before)) (Decided cfg d a trigger) := by
  have hthr : (gate cfg).Safe g (Controller.throttle cfg.policy trigger) fun g' r =>
      g' = g ∧ (r = .ok false → trigger = .pressure) := by
    rw [Controller.throttle]
    refine safe_ite (fun hp => ?_) fun _ => ⟨rfl, by simp⟩
    refine safe_try.mpr (safe_ofProg.mpr ⟨trivial, fun now _ => ?_⟩)
    refine safe_try.mpr (safe_ofProg.mpr ⟨trivial, fun last _ => ?_⟩)
    refine safe_ite (fun _ => ⟨rfl, fun _ => hp⟩) fun _ => ?_
    exact safe_try.mpr (safe_ofProg.mpr ⟨trivial, fun _ _ => ⟨rfl, fun _ => hp⟩⟩)
  refine safe_try.mpr (hthr.mono ?_)
  rintro g' (e | goOn) ⟨rfl, hp⟩
  · exact decided_error hg.holding
  refine safe_ite (fun _ => gate_reclaimStage hg hmay) fun hstop => ⟨hg.holding, fun _ ha => ?_⟩
  have hfalse : goOn = false := by simpa using hstop
  rw [hp (by rw [hfalse])] at ha
  cases ha

theorem gate_emergencyStage (hg : Measured d a [before] g) : (gate cfg).Safe g
      (Controller.emergencyStage cfg.policy d scope trigger (cfg.policy.thresholds before.totalBytes) before
        (cfg.policy.pressure (cfg.policy.thresholds before.totalBytes) before)) (Decided cfg d a trigger) := by
  refine safe_try.mpr (safe_mapError.mpr ((gate_emergency hg).mono ?_))
  rintro g1 (e | u) ⟨hg1, -⟩
  · exact decided_error hg1.holding
  refine safe_try.mpr (safe_mapError.mpr ⟨trivial, fun r _ => ?_⟩)
  rcases r with e | busy
  · exact decided_error hg1.holding
  refine safe_ite (fun _ => decided_error ?_) fun hidle => ?_
  · exact hg1.holding
  refine gate_idleStage ⟨hg1.holding, hg1.taken⟩ (.inl ?_)
  change (g1.held && !busy) = true
  rw [hg1.holding.2.2]
  simpa using hidle

theorem gate_busyStage (hg : Measured d a [before] g) : (gate cfg).Safe g
      (Controller.busyStage cfg.policy d scope trigger (cfg.policy.thresholds before.totalBytes) before
        (cfg.policy.pressure (cfg.policy.thresholds before.totalBytes) before)) (Decided cfg d a trigger) := by
  refine safe_try.mpr (safe_mapError.mpr ⟨trivial, fun r _ => ?_⟩)
  rcases r with e | busy
  · exact decided_error hg.holding
  refine safe_ite (fun hbusy => safe_ite (fun _ => ?_) fun hsoft => ?_) fun hidle => ?_
  · exact gate_emergencyStage ⟨hg.holding, hg.taken⟩
  · refine ⟨hg.holding, fun _ _ ha => .inl ?_⟩
    change (g.held && g.admits && busy && !cfg.policy.spent g.taken) = true
    rw [hg.holding.2.2, hg.holding.2.1, ha, hbusy, hg.taken]
    simpa [Policy.spent] using hsoft
  refine gate_idleStage ⟨hg.holding, hg.taken⟩ (.inl ?_)
  change (g.held && !busy) = true
  rw [hg.holding.2.2]
  simpa using hidle

/-- `runLocked` reclaims only when it may, and lets an admission go on only if space is not short or the worker is busy. -/
theorem gate_runLocked (hg : Measured d a [] g) :
    (gate cfg).Safe g (Controller.runLocked cfg.policy d scope trigger) (Decided cfg d a trigger) := by
  refine safe_try.mpr (safe_mapError.mpr ⟨trivial, fun r _ => ?_⟩)
  rcases r with e | before
  · exact decided_error hg.holding
  have hg1 : Measured d a [before] ((gate cfg).next g .snapshot (Except.ok before)) := by
    refine ⟨hg.holding, ?_⟩
    change before :: g.taken = _
    rw [hg.taken]
  refine safe_ite (fun hp => ⟨hg1.holding, fun _ ha => ?_⟩) fun _ => ?_
  · simp [ha] at hp
  refine safe_ite (fun _ => gate_busyStage hg1) fun hskip => gate_idleStage hg1 (.inr ?_)
  simpa [and_comm] using hskip

end Locked

theorem gate_locked {p : Go Err Unit}
    (hp : ∀ g, Measured d a [] g → (gate cfg).Safe g p fun g' _ => Holding d a true g') :
    (gate cfg).Within (Holding d a false) (Controller.locked p) := by
  rintro g ⟨hd, ha, hh⟩
  refine safe_try.mpr (safe_mapError.mpr ⟨trivial, fun r _ => ?_⟩)
  rcases r with e | u
  · exact ⟨hd, ha, hh⟩
  have hg : Measured d a [] ((gate cfg).next g .lock (Except.ok u)) := ⟨⟨hd, ha, rfl⟩, rfl⟩
  refine safe_try.mpr (safe_attempt.mpr ((hp _ hg).mono fun g' result hg' => ?_))
  exact safe_try.mpr (safe_ofProg.mpr ⟨hg'.2.2, fun _ _ => ⟨hg'.1, hg'.2.1, rfl⟩⟩)

theorem gate_maintain (scope : Scope) (trigger : Trigger) :
    (gate cfg).Within (Holding d a false) (Controller.maintain cfg.policy d scope trigger) :=
  gate_locked fun _ hg => (gate_runLocked hg).mono fun _ _ h => h.1

theorem gate_advance : (gate cfg).Within (Holding d a h) advance :=
  within_advance gate_quiet (gate_still rfl) (gate_still rfl)

theorem gate_request (op : Op) : (gate cfg).Within (Holding d a h) (Coordinator.request op) :=
  within_request (quiet_tx gate_quiet) (gate_still rfl) (gate_still rfl)

theorem gate_admitOperation (scope : Scope) (op : Op) :
    (gate cfg).Within (Holding d a h) (Dispatcher.admitOperation scope op) :=
  within_admits gate_quiet (within_rejectJob gate_quiet (fun _ => gate_still rfl) (gate_request _)) (gate_still rfl)
    (fun _ => gate_still rfl) (fun _ => gate_still rfl) (gate_still rfl)

theorem gate_runOnce (scope : Scope) :
    (gate cfg).Within (Holding cfg.dryRun true false) (Dispatcher.runOnce cfg scope) := by
  refine within_runOnce gate_quiet (gate_locked fun g hg => safe_try.mpr ((gate_runLocked hg).mono ?_))
  rintro g1 (e | u) ⟨hg1, hdec⟩
  · exact hg1
  refine safe_try.mpr (safe_ofProg.mpr ⟨trivial, fun draining _ => ?_⟩)
  refine safe_ite (fun _ => hg1) fun _ => ?_
  refine safe_try.mpr ⟨⟨hg1.2.2, hdec rfl rfl rfl⟩, fun r _ => ?_⟩
  rcases r with e | (_ | operation)
  · exact hg1
  · exact hg1
  · exact gate_admitOperation scope operation.op _ hg1

theorem gate_refreshRemote (id : String) : (gate cfg).Within (Holding d a h) (Api.refreshRemote id) :=
  within_refreshRemote gate_quiet (fun _ => gate_still rfl) gate_advance

theorem gate_handlers : HandlerParts (gate cfg) (Holding cfg.dryRun true false) cfg := by
  refine handlerParts gate_quiet (fun c hc => gate_still ?_) (gate_runOnce .request) (fun _ => gate_request _)
    gate_refreshRemote
  cases c with
  | tx x => cases x <;> first | rfl | cases hc
  | _ => first | rfl | cases hc

theorem gate_reconcilerRun : (gate cfg).Within (Holding d a h) (reconcilerRun cfg) := by
  refine within_reconcilerRun gate_quiet ?_ ?_ (fun _ => gate_still rfl) (fun id remote => ?_) fun _ => gate_still rfl
  · exact within_expirePreparation (quiet_tx gate_quiet) (fun _ => gate_still rfl) fun _ => gate_request _
  · exact within_expireBuild (quiet_tx gate_quiet) (fun _ => gate_still rfl) fun _ => gate_request _
  exact within_syncAndRelease (quiet_tx gate_quiet) (gate_still rfl) (gate_request _)

theorem gate_body (cfg : Config) (l : Label) : (gate cfg).Safe ((gate cfg).start l) (body cfg l) (gate cfg).exit := by
  have h : (gate cfg).Within (Holding (l.dryRun cfg) l.admits false) (body cfg l) := by
    cases l with
    | request r => exact within_handle gate_handlers r
    | awaitActive offset job =>
      exact within_awaitActive gate_quiet (fun _ _ => gate_still rfl) gate_refreshRemote offset job
    | poll offset job following =>
      exact within_poll gate_quiet (fun _ _ => gate_still rfl) gate_refreshRemote offset job following
    | _ =>
      refine within_background gate_quiet (fun c hc => gate_still ?_) gate_advance gate_maintain (fun hl => ?_)
        (within_coordinatorRunOnce gate_quiet (gate_still rfl) (fun _ _ _ => gate_still rfl)
          (fun _ _ => gate_still rfl) (fun _ => gate_still rfl) gate_advance) (fun _ => gate_reconcilerRun) rfl
      · cases c <;> first | rfl | cases hc
      · cases hl <;> exact gate_runOnce .process
  exact (h _ ⟨rfl, rfl, rfl⟩).mono fun _ _ hg => hg.2.2

end Walk

/-! ## What transactions do to the worker -/

section Effects

variable {v v' : View} {x : Tx} {a : x.Val}

theorem Tx.Effect.noExecuting (he : x.Effect a v v') (hx : x ≠ .acquireNextOperation)
    (h : v.NoRow OperationState.executing) : v'.NoRow OperationState.executing := by
  intro op r' hr'
  cases hr : v.row op with
  | none =>
    obtain ⟨-, rfl⟩ := he.row_new hr hr'
    rfl
  | some r =>
    have hidle := h op r hr
    obtain ⟨r1, hr1, -, hs | hm⟩ := he.row hr
    · rw [hr'] at hr1
      cases hr1
      rwa [hs]
    rw [hr'] at hr1
    cases hr1
    cases x <;> simp only [Tx.Moves] at hm <;> grind [OperationState.executing]

theorem Tx.Effect.stopped {message : String} {o : Option Operation}
    (he : (Tx.emergencyStopActiveOperation message).Effect o v v') (hone : v.OneReserved) :
    v'.NoRow OperationState.executing := by
  cases o with
  | none =>
    obtain ⟨rfl, hno⟩ := he
    exact hno
  | some o =>
    obtain ⟨⟨r, hr, hexec, -⟩, hv⟩ := he
    have hrow : v'.row = (v.setRow o.op .terminalizing).row := by
      split at hv <;> rw [hv.2] <;> rfl
    intro op r' hr'
    rw [hrow, View.setRow_row] at hr'
    split at hr'
    · rw [hr] at *
      simp only [Option.map_some, Option.some.injEq] at hr'
      rw [← hr']
      rfl
    by_contra hne
    have hne : r'.state.executing = true := by simpa using hne
    have := hone op o.op r' r hr' hr (reserved_of_executing hne) (reserved_of_executing hexec)
    contradiction

def Tx.frees (v : View) : Tx → Bool
  | .queueJob id _ => (v.row (jobOp id)).any fun r => r.state == .admitting
  | .requeueAdmittingOperation op => (v.row op).any fun r => r.state == .admitting
  | .completeOperationCleanup op => (v.row op).any fun r => r.state.tearing
  | _ => false

theorem Tx.Effect.keepsReserved (he : x.Effect a v v') (hx : x.frees v = false)
    (h : ∃ op, v.RowIs op OperationState.reserved) : ∃ op, v'.RowIs op OperationState.reserved := by
  obtain ⟨op, r, hr, hs⟩ := h
  obtain ⟨r', hr', -, hm | hm⟩ := he.row hr
  · exact ⟨op, r', hr', by rwa [hm]⟩
  refine ⟨op, r', hr', ?_⟩
  cases x <;> simp only [Tx.Moves] at hm <;> grind [Tx.frees, OperationState.reserved, OperationState.tearing]

end Effects

/-! ## What the ghost says holds -/

section After

variable {p : Policy} {g : Gate} {c : Call} {r : c.Ret}

theorem Gate.after_held (hl : c ≠ .lock) (hu : c ≠ .unlock) : (g.after p c r).held = g.held := by
  unfold Gate.after
  split <;> first | rfl | contradiction

theorem Gate.after_taken : (g.after p c r).taken = c.measured g.taken r := by
  unfold Gate.after
  split
  case h_10 =>
    unfold Call.measured
    split <;> first | rfl | simp_all
  all_goals rfl

def Call.clears : Call → Bool
  | .tx .workerBusy | .tx (.emergencyStopActiveOperation _) => true
  | _ => false

theorem Gate.after_clear (hc : c.clears = false) (h : (g.after p c r).clear = true) : g.clear = true := by
  revert h
  unfold Gate.after
  split <;> first | exact id | (intro h; cases h) | cases hc

theorem Gate.after_error {x : Tx} {e : Err} (h : (g.after p (.tx x) (Except.error e)).clear = true) : g.clear = true := by
  cases x <;> first | exact h | cases h

theorem Gate.after_deferred (hc : c ≠ .tx .workerBusy) (h : (g.after p c r).deferred = true) :
    g.deferred = true ∧ (g.after p c r).held = g.held ∧ ∀ x, c = .tx x → x.mayFree = false := by
  revert h
  unfold Gate.after
  split
  all_goals first | contradiction | (intro h; cases h) | skip
  · exact fun h => ⟨h, rfl, by simp⟩
  · refine fun h => ⟨h, rfl, ?_⟩
    rintro x rfl
    cases x <;> first | rfl | simp_all

end After

structure Gate.Locks (t : Nat) (g : Gate) (s : Sys) : Prop where
  held : g.held = true → s.lock = some t
  clear : g.clear = true → g.held = true ∧ s.db.view.NoRow OperationState.executing

section Locks

variable {cfg : Config} {t t' : Nat} {ch : Choice} {g g' : Gate} {s s' : Sys} {sp : Option Label}

theorem Gate.Locks.excludes (hg : g.Locks t s) (hg' : g'.Locks t' s) (hne : t' ≠ t) (hheld : g.held = true) :
    g'.held = false := by
  by_contra h
  have h1 := hg.held hheld
  rw [hg'.held (by simpa using h)] at h1
  exact hne (Option.some.inj h1)

theorem Gate.Locks.of_free (hh : g.held = false) (hg : g.Locks t s) : g.Locks t s' :=
  ⟨fun h => absurd h (by simp [hh]), fun h => absurd (hg.clear h).1 (by simp [hh])⟩

theorem Gate.Locks.tx {x : Tx} {a : x.Val} {db : DB} (hg : g.Locks t s) (he : x.Effect a s.db.view db.view) :
    (g.after cfg.policy (.tx x) (Except.ok a)).Locks t { s with db := db } := by
  have hheld := Gate.after_held (p := cfg.policy) (g := g) (c := .tx x) (r := Except.ok a) (by simp) (by simp)
  refine ⟨fun h => hg.held (hheld ▸ h), fun h => ?_⟩
  rw [hheld]
  by_cases hc : (Call.tx x).clears = true
  · cases x
    case workerBusy =>
      obtain ⟨hv, hbusy⟩ := he
      simp only [Gate.after, Bool.and_eq_true, Bool.not_eq_true'] at h
      refine ⟨h.1, fun op r hr => ?_⟩
      rw [hv] at hr
      by_contra hexec
      have := hbusy.mpr ⟨op, r, hr, reserved_of_executing (by simpa using hexec)⟩
      rw [h.2] at this
      cases this
    case emergencyStopActiveOperation message => exact ⟨h, he.stopped s.db.oneReserved⟩
    all_goals cases hc
  have hclean := hg.clear (Gate.after_clear (by simpa using hc) h)
  refine ⟨hclean.1, he.noExecuting ?_ hclean.2⟩
  rintro rfl
  cases h

theorem gate_locks (cfg : Config) (now : Time) :
    LocalAt (machine cfg) Conc.Rules.all (gate cfg) (Sys.fresh now) (fun _ => True) (fun _ => True) Gate.Locks where
  init := trivial
  start _ _ _ _ _ := ⟨fun h => (by cases h), fun h => (by cases h)⟩
  spawn _ _ _ _ _ _ _ _ _ _ _ := ⟨fun h => (by cases h), fun h => (by cases h)⟩
  jump _ _ _ _ _ _ _ := ⟨fun h => (by cases h), fun h => (by cases h)⟩
  env w e s _ _ he _ := ⟨trivial, fun t g hg => ⟨by rw [env_lock he]; exact hg.held, by rw [env_db he]; exact hg.clear⟩⟩
  crash _ _ _ _ := trivial
  call w t g c ch r s sp _ _ _ _ hg hguard hexec _ := by
    change exec t ch w.st c = some (r, s, sp) at hexec
    refine ⟨trivial, trivial, ?_⟩
    change (g.after cfg.policy c r).Locks t s ∧ _
    by_cases hl : c = .lock
    · subst hl
      obtain ⟨hfree, hexec⟩ := Option.ite_none_right_eq_some.mp hexec
      split at hexec
      · -- the lock was free, so no other goroutine held it
        cases hexec
        refine ⟨⟨fun _ => rfl, fun h => (by cases h)⟩, fun t' g' _ _ hg' => hg'.of_free ?_⟩
        by_contra h
        have := hg'.held (by simpa using h)
        rw [hfree] at this
        cases this
      · cases hexec
        exact ⟨hg, fun _ _ _ _ h => h⟩
      · cases hexec
    by_cases hu : c = .unlock
    · subst hu
      cases hexec
      refine ⟨⟨fun h => (by cases h), fun h => (by cases h)⟩, fun t' g' hne _ hg' => hg'.of_free ?_⟩
      exact hg.excludes hg' hne hguard
    have hlock := (exec_framed hexec).lock hl hu
    by_cases hc : ∃ x, c = .tx x
    · obtain ⟨x, rfl⟩ := hc
      obtain ⟨-, ⟨e, rfl, rfl⟩ | ⟨a, db, rfl, rfl, he⟩⟩ := exec_tx hexec
      · refine ⟨⟨?_, fun h => ?_⟩, fun _ _ _ _ h => h⟩
        · rw [Gate.after_held hl hu]
          exact hg.held
        rw [Gate.after_held hl hu]
        exact hg.clear (Gate.after_error h)
      refine ⟨hg.tx he, fun t' g' hne _ hg' => ?_⟩
      by_cases hx : x = .acquireNextOperation
      · subst hx
        exact hg'.of_free (hg.excludes hg' hne hguard.1)
      · exact ⟨hg'.held, fun h => ⟨(hg'.clear h).1, he.noExecuting hx (hg'.clear h).2⟩⟩
    have hdb := exec_db (fun x h => hc ⟨x, h⟩) hexec
    have hother : ∀ t' (g' : Gate), g'.Locks t' w.st → g'.Locks t' s :=
      fun t' g' h => ⟨by rw [hlock]; exact h.held, by rw [hdb]; exact h.clear⟩
    refine ⟨⟨?_, fun h => ?_⟩, fun t' g' _ _ h => hother t' g' h⟩
    · rw [Gate.after_held hl hu, hlock]
      exact hg.held
    rw [Gate.after_held hl hu, hdb]
    refine hg.clear (Gate.after_clear ?_ h)
    cases c <;> first | rfl | exact absurd ⟨_, rfl⟩ hc

theorem gate_of_reach {cfg : Config} {K : Rules} {now : Time} {σ : Conf}
    (h : (machine cfg).Reach K (Sys.fresh now) σ) :
    (gate cfg).Follows σ ∧ ∀ t g, (gate cfg).ghosts σ.toWorld t = some g → g.Locks t σ.st := by
  obtain ⟨hfollows, hI⟩ := run_invariant (gate_body cfg) (fun _ _ => trivial) (gate_locks cfg now).keeps h.all
  exact ⟨hfollows, hI.2⟩

end Locks

/-! ## Reclaim -/

variable {t : Nat}

theorem measurements_of_ghost {cfg : Config} : ∀ {log : List (Entry Call Call.Ret Label)} {g : Gate},
    (gate cfg).of t log = some g → g.taken = measurements t log
  | [], _, h => by cases h
  | .call t' c r :: log, g, h => by
    simp only [Ghost.of] at h
    split at h
    · obtain ⟨g0, hg0, rfl⟩ := Option.map_eq_some_iff.mp h
      have ih := measurements_of_ghost hg0
      rw [measurements, if_pos ‹_›, ← ih]
      exact Gate.after_taken
    rw [measurements, if_neg ‹_›]
    exact measurements_of_ghost h
  | .start t' l :: log, g, h | .jump t' l :: log, g, h => by
    simp only [Ghost.of] at h
    split at h
    · cases h
      rw [measurements, if_pos ‹_›]
      rfl
    rw [measurements, if_neg ‹_›]
    exact measurements_of_ghost h
  | .finish t' :: log, g, h => by
    simp only [Ghost.of] at h
    split at h
    · cases h
    rw [measurements, if_neg ‹_›]
    exact measurements_of_ghost h
  | .crash :: _, _, h => by cases h

def Reclaims (σ : Conf) (t : Nat) : Prop := ∃ request k, σ.code t = .call (.reclaim request) k

/-- **Space is reclaimed while nothing is being executed.** While a goroutine reclaims, no row is admitting or active; the one
exception is a controller that deletes nothing and has measured more than the soft and less than the hard floor. -/
theorem reclaim_exclusive {cfg : Config} {σ : Conf} (h : Reaches cfg Conc.Rules.all σ) {t : Nat} {l : Label}
    (hl : σ.procs t = some l) (hr : Reclaims σ t) {op : Op} {q : QueueRow} (hq : σ.st.db.queue.table.lookup op = some q)
    (hs : q.state = .admitting ∨ q.state = .active) :
    l.dryRun cfg = true ∧ cfg.policy.Inverted (measurements t σ.log) := by
  obtain ⟨now, hreach⟩ := h
  obtain ⟨hfollows, hlocks⟩ := gate_of_reach hreach
  obtain ⟨request, k, hcode⟩ := hr
  obtain ⟨g, hg, hsafe⟩ := (hl ▸ hfollows t).eq_some
  rw [hcode] at hsafe
  have hdry : g.dry = l.dryRun cfg :=
    part_eq_start (γ := gate cfg) (π := Gate.dry) (fun g c r => by
      change (g.after cfg.policy c r).dry = g.dry
      unfold Gate.after
      split <;> rfl) hreach hg hl
  obtain ⟨-, hclear | ⟨hd, hinverted⟩⟩ := hsafe.1
  · have hexec : q.state.executing = true := by rcases hs with hs | hs <;> rw [hs] <;> rfl
    have hidle := ((hlocks t g hg).clear hclear).2 op q.view (by simp [DB.view, hq])
    rw [show q.view.state = q.state from rfl, hexec] at hidle
    cases hidle
  · exact ⟨hdry ▸ hd, measurements_of_ghost hg ▸ hinverted⟩

/-- Whether goroutine `t` is in `Backend.Reclaim`. -/
def reclaims (σ : Conf) (t : Nat) : Bool :=
  match σ.code t with
  | .call (.reclaim _) _ => true
  | _ => false

theorem reclaims_of_test {σ : Conf} (h : reclaims σ t = true) : Reclaims σ t := by
  unfold reclaims at h
  split at h
  · exact ⟨_, _, ‹_›⟩
  · cases h

def dryConfig : Config := { sampleConfig with dryRun := true }

def vast : Snapshot := ⟨922337203685477581, 30 * gib, 1000000000, 1000000000⟩

def reclaimsBeside : List Event :=
  prepared ++ asks 6 (prepareRequest "second") ++ [authorized 6, .run 6 (.fresh "2")] ++ goes 6 3 ++ [.run 6 (.snapshot vast)]

theorem reclaimsBeside_reaches : ∃ σ, Reaches dryConfig Conc.Rules.all σ ∧
    (∃ r, σ.procs 6 = some (.request r)) ∧ Reclaims σ 6 ∧
    ∃ q, σ.st.db.queue.table.lookup (jobOp "job1") = some q ∧ q.state = .admitting := by
  obtain ⟨σ, hr, hp⟩ := reaches_of_steps dryConfig reclaimsBeside (p := fun σ =>
    (σ.procs 6 == some (.request (prepareRequest "second"))) && reclaims σ 6 &&
      (σ.st.db.queue.table.lookup (jobOp "job1")).map (fun q => q.state) == some .admitting) (by decide +kernel)
  simp only [Bool.and_eq_true] at hp
  exact ⟨σ, hr, ⟨_, eq_of_beq hp.1.1⟩, reclaims_of_test hp.1.2, Option.map_eq_some_iff.mp (eq_of_beq hp.2)⟩

theorem reclaim_beside_operation : ∃ σ t op q, Reaches dryConfig Conc.Rules.all σ ∧ Reclaims σ t ∧
    σ.st.db.queue.table.lookup op = some q ∧ q.state = .admitting := by
  obtain ⟨σ, hr, -, hreclaims, q, hq, hs⟩ := reclaimsBeside_reaches
  exact ⟨σ, 6, _, q, hr, hreclaims, hq, hs⟩

theorem reclaim_exclusive_dry : ∃ σ, Reaches dryConfig Conc.Rules.all σ ∧ Reclaims σ 6 ∧
    dryConfig.policy.Inverted (measurements 6 σ.log) := by
  obtain ⟨σ, hr, ⟨r, hl⟩, hreclaims, q, hq, hs⟩ := reclaimsBeside_reaches
  exact ⟨σ, hr, hreclaims, (reclaim_exclusive hr hl hreclaims hq (.inl hs)).2⟩

/-! ## Admission -/

def Gated (cfg : Config) (σ : Conf) : Prop :=
  ∀ (t : Nat) (l : Label) (c : Call) (k : c.Ret → Srv (Option Label)) (ch : Choice) (r : c.Ret) (s : Sys)
    (sp : Option Label) (op : Op) (q q' : QueueRow), σ.procs t = some l → σ.code t = .call c k →
    exec t ch σ.st c = some (r, s, sp) → σ.st.db.queue.table.lookup op = some q → q.state = .queued →
    s.db.queue.table.lookup op = some q' → q'.state = .admitting → cfg.policy.short (measurements t σ.log) = false

def Undisturbed (cfg : Config) (w : World) (t : Nat) (c : Call) (r : c.Ret) : Prop :=
  match c, r with
  | .tx x, Except.ok _ => x.frees w.st.db.view = true → ∀ t' < w.next, t' ≠ t →
      ((gate cfg).ghosts w t').all (fun g => !g.deferred) = true
  | _, _ => True

instance (cfg : Config) (w : World) (t : Nat) (c : Call) (r : c.Ret) : Decidable (Undisturbed cfg w t c r) := by
  unfold Undisturbed
  split <;> infer_instance

def undisturbed (cfg : Config) : Rules := { Conc.Rules.all with call := Undisturbed cfg }

def Gate.Defers (g : Gate) (s : Sys) : Prop := g.deferred = true → ∃ op, s.db.view.RowIs op OperationState.reserved

theorem Tx.frees_of_not_mayFree {x : Tx} {v : View} (h : x.mayFree = false) : x.frees v = false := by
  cases x <;> first | rfl | cases h

theorem gate_defers (cfg : Config) (now : Time) :
    LocalAt (machine cfg) (undisturbed cfg) (gate cfg) (Sys.fresh now) (fun _ => True) (fun _ => True)
      (fun _ => Gate.Defers) where
  init := trivial
  start _ _ _ _ _ h := by cases h
  spawn _ _ _ _ _ _ _ _ _ _ _ h := by cases h
  jump _ _ _ _ _ _ _ h := by cases h
  env w e s _ _ he _ := ⟨trivial, fun _ g hg => by rw [Gate.Defers, env_db he]; exact hg⟩
  crash _ _ _ _ := trivial
  call w t g c ch r s sp hfits _ _ _ hg hguard hexec hK := by
    change exec t ch w.st c = some (r, s, sp) at hexec
    refine ⟨trivial, trivial, ?_⟩
    change (g.after cfg.policy c r).Defers s ∧ _
    by_cases hc : ∃ x, c = .tx x
    · obtain ⟨x, rfl⟩ := hc
      obtain ⟨-, ⟨e, rfl, rfl⟩ | ⟨a, db, rfl, rfl, he⟩⟩ := exec_tx hexec
      · refine ⟨fun h => hg ?_, fun _ _ _ _ h => h⟩
        cases x <;> first | exact h | cases h
      refine ⟨fun h => ?_, fun t' g' hne hg' hd h => he.keepsReserved ?_ (hd h)⟩
      · by_cases hx : x = .workerBusy
        · subst hx
          simp only [Gate.after, Bool.and_eq_true] at h
          rw [he.1]
          exact he.2.mp h.1.2
        obtain ⟨hd, -, hfree⟩ := Gate.after_deferred (by simpa using hx) h
        exact he.keepsReserved (Tx.frees_of_not_mayFree (hfree x rfl)) (hg hd)
      -- the condition: while `t'` has put its admission off, `x` does not free the worker
      by_contra hfre
      have := hK (by simpa using hfre) t' (hfits.lt_next hg') hne
      rw [hg'] at this
      simp [h] at this
    have hdb := exec_db (fun x h => hc ⟨x, h⟩) hexec
    refine ⟨fun h => ?_, fun _ g' _ _ hd => by rw [Gate.Defers, hdb]; exact hd⟩
    rw [hdb]
    exact hg (Gate.after_deferred (fun h => hc ⟨_, h⟩) h).1

/-- Only `AcquireNextOperation` admits an operation, and only if nobody holds the worker. -/
theorem exec_admits {ch : Choice} {s s' : Sys} {c : Call} {r : c.Ret} {sp : Option Label} {op : Op} {q q' : QueueRow}
    (h : exec t ch s c = some (r, s', sp)) (hq : s.db.queue.table.lookup op = some q) (hs : q.state = .queued)
    (hq' : s'.db.queue.table.lookup op = some q') (hs' : q'.state = .admitting) :
    c = .tx .acquireNextOperation ∧ s.db.view.NoRow OperationState.reserved := by
  have hv : s.db.view.row op = some q.view := by simp [DB.view, hq]
  have hv' : s'.db.view.row op = some q'.view := by simp [DB.view, hq']
  have hne : q'.view.state ≠ q.view.state := by
    change q'.state ≠ q.state
    rw [hs, hs']
    decide
  by_cases hc : ∃ x, c = .tx x
  · obtain ⟨x, rfl⟩ := hc
    obtain ⟨-, ⟨e, rfl, rfl⟩ | ⟨a, db, rfl, rfl, he⟩⟩ := exec_tx h
    · rw [hv] at hv'
      exact absurd (congrArg RowView.state (Option.some.inj hv')).symm hne
    obtain ⟨r', hr', -, hsame | hm⟩ := he.row hv
    · rw [hv'] at hr'
      cases hr'
      exact absurd hsame hne
    rw [hv'] at hr'
    cases hr'
    have hto : q'.view.state = .admitting := hs'
    cases x <;> simp only [Tx.Moves, hto] at hm <;> simp at hm
    obtain ⟨⟨o, rfl, -⟩, -⟩ := hm
    exact ⟨rfl, he.1⟩
  rw [exec_db (fun x h => hc ⟨x, h⟩) h, hv] at hv'
  exact absurd (congrArg RowView.state (Option.some.inj hv')).symm hne

/-- **Admissions are gated by capacity**, in every configuration that the server reaches without a transaction that frees the
worker while an admission is put off. -/
theorem admission_gated {cfg : Config} (hmin : cfg.policy.softFreeMinimumBytes ≠ 0) {σ : Conf}
    (h : Reaches cfg (undisturbed cfg) σ) : Gated cfg σ := by
  intro t l c k ch r s sp op q q' hl hcode hexec hq hs hq' hs'
  obtain ⟨now, hreach⟩ := h
  obtain ⟨hfollows, hI⟩ := run_invariant (gate_body cfg) (fun _ _ => trivial) (gate_defers cfg now).keeps hreach
  obtain ⟨rfl, hfree⟩ := exec_admits hexec hq hs hq' hs'
  obtain ⟨g, hg, hsafe⟩ := (hl ▸ hfollows t).eq_some
  rw [hcode] at hsafe
  obtain ⟨-, hdeferred | hroom | hzero⟩ := hsafe.1
  · obtain ⟨op', r', hr', hreserved⟩ := hI.2 t g hg hdeferred
    rw [hfree op' r' hr'] at hreserved
    cases hreserved
  · rw [← measurements_of_ghost hg]
    exact hroom
  · exact absurd hzero hmin

def Admits (σ : Conf) (t : Nat) (op : Op) : Prop :=
  ∃ l k r s sp q q', σ.procs t = some l ∧ σ.code t = .call (.tx .acquireNextOperation) k ∧
    exec t .go σ.st (.tx .acquireNextOperation) = some (r, s, sp) ∧ σ.st.db.queue.table.lookup op = some q ∧
    q.state = .queued ∧ s.db.queue.table.lookup op = some q' ∧ q'.state = .admitting

def admits (σ : Conf) (t : Nat) (op : Op) : Bool :=
  match σ.procs t, σ.code t with
  | some _, .call (.tx .acquireNextOperation) _ =>
    (σ.st.db.queue.table.lookup op).any (fun q => q.state == .queued) &&
      (exec t .go σ.st (.tx .acquireNextOperation)).any fun a =>
        (a.2.1.db.queue.table.lookup op).any fun q => q.state == .admitting
  | _, _ => false

theorem admits_of_test {σ : Conf} {op : Op} (h : admits σ t op = true) : Admits σ t op := by
  unfold admits at h
  split at h
  · rename_i l k hl hcode
    rw [Bool.and_eq_true] at h
    obtain ⟨q, hq, hs⟩ := (Option.any_eq_true ..).mp h.1
    obtain ⟨⟨r, s, sp⟩, hexec, ha⟩ := (Option.any_eq_true ..).mp h.2
    obtain ⟨q', hq', hs'⟩ := (Option.any_eq_true ..).mp ha
    exact ⟨l, k, r, s, sp, q, q', hl, hcode, hexec, hq, eq_of_beq hs, hq', eq_of_beq hs'⟩
  · cases h

theorem admission_gated_prepared : ∃ σ, Reaches sampleConfig (undisturbed sampleConfig) σ ∧ Admits σ 5 (jobOp "job1") ∧
    Gated sampleConfig σ := by
  obtain ⟨σ, hr, hp⟩ := reaches_of_stepsIf sampleConfig (K := undisturbed sampleConfig)
    (settled ++ asks 5 (prepareRequest "first") ++ [authorized 5, .run 5 (.fresh "1")] ++ goes 5 3 ++
      .run 5 (.snapshot roomy) :: goes 5 1)
    (p := fun σ => admits σ 5 (jobOp "job1")) (q := fun w t c r => decide (Undisturbed sampleConfig w t c r))
    (fun _ _ => trivial) (fun _ _ => trivial) (fun _ _ _ _ => of_decide_eq_true) (by decide +kernel)
  exact ⟨σ, hr, admits_of_test hp, admission_gated (by decide) hr⟩

def low : Snapshot := ⟨1024 * gib, 100 * gib, 1000000000, 1000000000⟩

/-- A build runs, and the admission of the next one is put off; then the first is cancelled and its teardown completes. -/
def freedMeanwhile : List Event :=
  building ++ asks 6 (.prepareBuild "project" "second" [] "") ++ [authorized 6, .run 6 (.fresh "2")] ++ goes 6 3 ++
    .run 6 (.snapshot low) :: goes 6 1 ++ asks 7 (.cancelBuild "bld1") ++ [.run 7 .go, authorized 7] ++ goes 7 5 ++
    goes 8 14 ++ goes 6 1

/-- The second build is admitted although space is short. -/
theorem admission_under_pressure : ∃ σ, Reaches sampleConfig Conc.Rules.all σ ∧ Admits σ 6 (buildOp "bld2") ∧
    sampleConfig.policy.short (measurements 6 σ.log) = true ∧ ¬ Gated sampleConfig σ := by
  obtain ⟨σ, hr, hp⟩ := reaches_of_steps sampleConfig freedMeanwhile
    (p := fun σ => admits σ 6 (buildOp "bld2") && sampleConfig.policy.short (measurements 6 σ.log)) (by decide +kernel)
  rw [Bool.and_eq_true] at hp
  have hadmits := admits_of_test hp.1
  refine ⟨σ, hr, hadmits, hp.2, fun h => ?_⟩
  obtain ⟨l, k, r, s, sp, q, q', hl, hcode, hexec, hq, hs, hq', hs'⟩ := hadmits
  have hroom := h 6 l _ k .go r s sp _ q q' hl hcode hexec hq hs hq' hs'
  rw [hp.2] at hroom
  cases hroom

end Autback
