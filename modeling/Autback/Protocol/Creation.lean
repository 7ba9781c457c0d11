import Autback.Protocol.Watch

/-!
# Creation of services

The dispatcher acquires a row, reads the job, prepares resources and calls `Scheduler.Create`, each in a step of its own, and the
capacity lock keeps only other dispatchers away. If no other goroutine takes a job out of its admission meanwhile, and none writes
the status of a job whose row is queued, then `Scheduler.Create` is called with the row admitting and the job queued, and once per
job (`creation_reserved`). `StartJob` can return the row to the queue in the admission that was begun for its preparation
(`creation_unreserved`).
-/

namespace Autback

open Conc Ghost

/-! ## The condition -/

def Tx.interrupts (db : DB) : Tx → Option String
  | .queueJob id _ | .failJob id _ | .beginOperationCleanup ⟨.job, id⟩ => some id
  | .syncJob id remote => if remote.status = .queued then none else some id
  | .requestJobCancellation id => if (db.jobs.lookup id).any fun j => j.status == .preparing then some id else none
  | _ => none

def Tx.overwrites (db : DB) : Tx → Bool
  | .syncJob id remote => remote.status != .queued && (db.queue.table.lookup (jobOp id)).any fun q => q.state == .queued
  | _ => false

/-- No other goroutine than `t` is admitting job `id`. -/
def unattended (cfg : Config) (w : World) (t : Nat) (id : String) : Bool :=
  (List.range w.next).all fun t' => t' == t ||
    ((watch cfg).ghosts w t').all fun g => g.admission.all fun a => a.id != id

/-- No transaction takes a job out of the admission of another goroutine, or overwrites the status of a queued job. -/
def uninterruptedCall (cfg : Config) (w : World) (t : Nat) (c : Call) (r : c.Ret) : Bool :=
  match c, r with
  | .tx x, Except.ok _ => (x.interrupts w.st.db).all (unattended cfg w t) && !x.overwrites w.st.db
  | _, _ => true

def uninterrupted (cfg : Config) : Rules where
  call w t c r := uninterruptedCall cfg w t c r = true
  start _ _ := True
  env _ _ := True
  crash _ := True

variable {w : World} {id : String}

theorem unattended_apply {cfg : Config} {t t' : Nat} {g : Watch} {a : Admission} (h : unattended cfg w t id = true)
    (hfits : (watch cfg).Fits w) (hne : t' ≠ t) (hg : (watch cfg).ghosts w t' = some g) (ha : g.admission = some a) :
    a.id ≠ id := by
  have hall := List.all_eq_true.mp h t' (List.mem_range.mpr (hfits.lt_next hg))
  simpa [hne, hg, ha] using hall

/-! ## Jobs in their admission -/

/-- Job `id` is being admitted: its row is admitting, and it is queued, or in preparation if nobody has seen otherwise. -/
structure View.Admits (v : View) (id : String) (ready : Bool) : Prop where
  row : v.RowIs (jobOp id) (· == .admitting)
  job : ∃ j, v.job id = some j ∧ (j.status = .queued ∨ (j.status = .preparing ∧ ready = false))

def View.Waits (v : View) : Prop :=
  ∀ id, v.RowIs (jobOp id) (· == .queued) → ∃ j, v.job id = some j ∧ (j.status = .queued ∨ j.status = .preparing)

section Effects

variable {x : Tx} {a : x.Val} {db : DB} {v' : View} {id : String} {ready : Bool}

theorem Tx.Moves.admitted {s : OperationState} (h : x.Moves a (jobOp id) .admitting s) : x.interrupts db = some id ∨
    x = .requeueAdmittingOperation (jobOp id) ∨ x = .activateOperation (jobOp id) ∨
      ∃ message, x = .emergencyStopActiveOperation message := by
  cases x <;> simp only [Tx.Moves] at h
  case queueJob id' rootDigest =>
    cases h.1
    exact .inl rfl
  case syncJob id' remote =>
    obtain ⟨hop, hterm, -⟩ := h
    cases hop
    refine .inl (if_neg fun hs => ?_)
    rw [hs] at hterm
    cases hterm
  case failJob id' message =>
    cases h.1
    exact .inl rfl
  case beginOperationCleanup op =>
    obtain ⟨-, rfl, -⟩ := h
    exact .inl rfl
  case requeueAdmittingOperation op => exact .inr (.inl (by rw [h.1]))
  case activateOperation op => exact .inr (.inr (.inl (by rw [h.1])))
  case emergencyStopActiveOperation message => exact .inr (.inr (.inr ⟨message, rfl⟩))
  all_goals simp_all [OperationState.tearing]

theorem Tx.Effect.status_admitting {j j' : JobView} (he : x.Effect a db.view v')
    (hrow : db.view.RowIs (jobOp id) (· == .admitting)) (hj : db.view.job id = some j) (hj' : v'.job id = some j')
    (hw : x.Writes a id j j') : x.interrupts db = some id ∨ (∃ message, x = .emergencyStopActiveOperation message) ∨
      j'.status = .queued ∨ j'.status = j.status := by
  cases x <;> simp only [Tx.Writes] at hw
  case queueJob id' rootDigest =>
    cases hw.1
    exact .inl rfl
  case syncJob id' remote =>
    obtain ⟨rfl, -, rfl⟩ := hw
    by_cases hs : remote.status = .queued
    · exact .inr (.inr (.inl hs))
    · exact .inl (if_neg hs)
  case requestJobCancellation id' =>
    obtain ⟨rfl, -, -⟩ := hw
    obtain ⟨j0, hj0, -, rfl⟩ := he
    rw [hj] at hj0
    cases hj0
    by_cases hs : j.status = .preparing
    · refine .inl (if_pos ?_)
      obtain ⟨q, hq, rfl⟩ := Option.map_eq_some_iff.mp hj
      rw [hq]
      exact beq_iff_eq.mpr hs
    -- an executing row: the request only sets the flag
    obtain ⟨r, hr, hstatus⟩ := hrow
    have hnow : ¬ db.view.CancelsNow id j.status := by
      rintro (hp | ⟨-, hexec⟩)
      · exact hs hp
      · exact hexec ⟨r, hr, by rw [eq_of_beq hstatus]; rfl⟩
    rw [View.mapRow_job, View.setJob_job, if_pos rfl, hj, if_neg hnow] at hj'
    cases hj'
    exact .inr (.inr (.inr rfl))
  case failJob id' message =>
    cases hw.1
    exact .inl rfl
  case emergencyStopActiveOperation message => exact .inr (.inl ⟨message, rfl⟩)

theorem Tx.Effect.admits (he : x.Effect a db.view v') (h : db.view.Admits id ready) (hx : x.interrupts db ≠ some id)
    (hreq : x ≠ .requeueAdmittingOperation (jobOp id)) (hactive : x ≠ .activateOperation (jobOp id))
    (hstop : ∀ message, x ≠ .emergencyStopActiveOperation message) : v'.Admits id ready := by
  obtain ⟨r, hr, hs⟩ := h.row
  obtain ⟨j, hj, hstatus⟩ := h.job
  obtain ⟨r', hr', -, hrow⟩ := he.row hr
  obtain ⟨j', hj', hjob⟩ := he.job hj
  refine ⟨⟨r', hr', ?_⟩, j', hj', ?_⟩
  · rcases hrow with hsame | hmove
    · rw [hsame, hs]
    rw [eq_of_beq hs] at hmove
    rcases hmove.admitted with h | h | h | ⟨message, h⟩
    · exact absurd h hx
    · exact absurd h hreq
    · exact absurd h hactive
    · exact absurd h (hstop message)
  rcases hjob with rfl | hw
  · exact hstatus
  rcases he.status_admitting h.row hj hj' hw with h | ⟨message, h⟩ | h | h
  · exact absurd h hx
  · exact absurd h (hstop message)
  · exact .inl h
  · rw [h]
    exact hstatus

theorem Tx.Effect.status_queued {j j' : JobView} {r r' : RowView} (he : x.Effect a db.view v')
    (hx : x.overwrites db = false) (hr : db.view.row (jobOp id) = some r) (hqueue : r.state = .queued)
    (hr' : v'.row (jobOp id) = some r') (hqueue' : r'.state = .queued) (hw : x.Writes a id j j') : j'.status = .queued := by
  cases x <;> simp only [Tx.Writes] at hw
  case queueJob id' rootDigest => rw [hw.2.2]
  case syncJob id' remote =>
    obtain ⟨rfl, -, rfl⟩ := hw
    obtain ⟨q, hq, rfl⟩ := Option.map_eq_some_iff.mp hr
    have hstatus : q.state = .queued := hqueue
    by_contra hne
    simp [Tx.overwrites, hq, hstatus, hne] at hx
  case requestJobCancellation id' =>
    obtain ⟨rfl, -, -⟩ := hw
    obtain ⟨j0, -, -, rfl⟩ := he
    rw [row_mapRow (by simpa using hr)] at hr'
    cases hr'
    simp [dropQueued, hqueue] at hqueue'
  case failJob id' message =>
    obtain ⟨rfl, -, -⟩ := hw
    obtain ⟨j0, -, -, rfl⟩ := he
    rw [row_mapRow (by simpa using hr)] at hr'
    cases hr'
    simp [endLive, hqueue, OperationState.live] at hqueue'
  case emergencyStopActiveOperation message =>
    obtain ⟨⟨o, rfl, hop⟩, -, -⟩ := hw
    obtain ⟨⟨r0, hr0, hexec, -⟩, -⟩ := he
    rw [hop, hr] at hr0
    cases hr0
    rw [hqueue] at hexec
    cases hexec

theorem Tx.Effect.waits (he : x.Effect a db.view v') (h : db.view.Waits) (hx : x.overwrites db = false)
    (hreq : ∀ id, x = .requeueAdmittingOperation (jobOp id) →
      ∃ j, db.view.job id = some j ∧ (j.status = .queued ∨ j.status = .preparing)) : v'.Waits := by
  rintro id ⟨r', hr', hs'⟩
  have hqueue' : r'.state = .queued := eq_of_beq hs'
  cases hr : db.view.row (jobOp id) with
  | none =>
    rcases he.appears with hsame | ⟨id', -, -, rfl⟩ | ⟨id', -, -, rfl⟩
    · have hkeys := hsame.row (jobOp id)
      simp [hr, hr'] at hkeys
    · rw [View.addJob_row] at hr'
      split at hr'
      · rename_i hop
        cases hop
        exact ⟨⟨.preparing, false⟩, by simp, .inr rfl⟩
      rw [hr] at hr'
      cases hr'
    rw [View.addBuild_row, if_neg (by simp), hr] at hr'
    cases hr'
  | some r =>
    obtain ⟨r1, hr1, -, hmove⟩ := he.row hr
    rw [hr'] at hr1
    cases hr1
    rcases hmove with hsame | hmove
    · have hqueue : r.state = .queued := hsame ▸ hqueue'
      obtain ⟨j, hj, hstatus⟩ := h id ⟨r, hr, beq_iff_eq.mpr hqueue⟩
      obtain ⟨j', hj', rfl | hw⟩ := he.job hj
      · exact ⟨j', hj', hstatus⟩
      · exact ⟨j', hj', .inl (he.status_queued hx hr hqueue hr' hqueue' hw)⟩
    rw [hqueue'] at hmove
    rcases hmove.unleases.cases with ⟨id', rootDigest, rfl, hop⟩ | rfl
    · cases hop
      obtain ⟨⟨c, hj, rfl⟩, -⟩ := he
      exact ⟨⟨.queued, c⟩, by simp [hj], .inl rfl⟩
    obtain ⟨j, hj, hstatus⟩ := hreq id rfl
    exact ⟨j, by rw [he.2]; exact hj, hstatus⟩

end Effects

/-! ## The invariant -/

def Created (w : World) (id : String) : Prop := ∃ t job r, Entry.call t (.create job) r ∈ w.log ∧ job.id = id

/-- A goroutine admits only a job without a service, and lists only services that were created. -/
structure Watch.Minds (g : Watch) (w : World) : Prop where
  admits : ∀ a, g.admission = some a → w.st.db.view.Admits a.id a.ready
  fresh : ∀ a, g.admission = some a → ¬ Created w a.id
  listed : ∀ id, g.Lists id → Created w id

structure Accounted (cfg : Config) (w : World) : Prop where
  waits : w.st.db.view.Waits
  backs : ∀ id, Created w id → w.st.Backs id
  served : ∀ id service, w.st.services.lookup id = some service → service.name = id ∧ Created w id
  each : ∀ t g, (watch cfg).ghosts w t = some g → g.Minds w

section Steps

variable {cfg : Config} {w w' : World} {t t' : Nat} {g g' : Watch} {ch : Choice} {s : Sys} {sp : Option Label}

variable {c : Call} {r : c.Ret} {id : String} {x : Tx} {a : x.Val} {adm : Admission}

theorem created_answer : Created (w.answer t c r s sp) id ↔ Created w id ∨ ∃ job, c = .create job ∧ job.id = id := by
  have hlog : ∀ t' job r', Entry.call t' (.create job) r' ∈ (w.answer t c r s sp).log ↔
      Entry.call t' (.create job) r' ∈ w.log ∨ (Entry.call t' (.create job) r' : Entry Call Call.Ret Label) = .call t c r := by
    intro t' job r'
    cases sp <;> simp [World.answer, World.spawn?, World.called, or_comm]
  constructor
  · rintro ⟨t', job, r', hm, rfl⟩
    rcases (hlog t' job r').mp hm with hm | hm
    · exact .inl ⟨t', job, r', hm, rfl⟩
    cases hm
    exact .inr ⟨job, rfl, rfl⟩
  rintro (⟨t', job, r', hm, rfl⟩ | ⟨job, rfl, rfl⟩)
  · exact ⟨t', job, r', (hlog t' job r').mpr (.inl hm), rfl⟩
  · exact ⟨t, job, r, (hlog t job r).mpr (.inr rfl), rfl⟩

theorem Watch.Minds.of_none (h : g.admission = none) (hlist : ∀ id, g.Lists id → Created w id) : g.Minds w := by
  refine ⟨fun a ha => ?_, fun a ha => ?_, hlist⟩ <;>
  · rw [h] at ha
    cases ha

theorem Watch.Minds.frame (h : g.Minds w) (hdb : w'.st.db = w.st.db) (hcreate : ∀ id, Created w' id ↔ Created w id) :
    g.Minds w' :=
  ⟨fun a ha => hdb ▸ h.admits a ha, fun a ha hc => h.fresh a ha ((hcreate _).mp hc),
    fun id hl => (hcreate id).mpr (h.listed id hl)⟩

theorem created_kept {v' : View} (hI : Accounted cfg w) (h : g.Minds w) (hguard : (watch cfg).guard g (.tx x))
    (he : x.Effect a w.st.db.view v') (hc : Created w id) : ¬ x.Unleases (jobOp id) := by
  intro hx
  rcases hx.cases with ⟨id', rootDigest, rfl, hop⟩ | rfl
  · cases hop
    obtain ⟨⟨c, hj, -⟩, -⟩ := he
    obtain ⟨j, hj', hne⟩ := (hI.backs id hc).started
    rw [hj] at hj'
    cases hj'
    exact hne rfl
  obtain ⟨adm, hadm, rfl⟩ := hguard
  exact h.fresh adm hadm hc

theorem activates_created (hJ : Guarded cfg w) (hg : (watch cfg).ghosts w t = some g) (h : g.Minds w)
    (hguard : (watch cfg).guard g (.tx (.activateOperation (jobOp adm.id)))) (hg' : (watch cfg).ghosts w t' = some g')
    (hadm : g'.admission = some adm) : Created w adm.id := by
  rcases hguard with ⟨-, hheld, hnone⟩ | hlist
  · by_cases ht : t' = t
    · subst ht
      rw [hg] at hg'
      cases hg'
      rw [hnone] at hadm
      cases hadm
    rw [((hJ.2 t g hg).alone (hJ.2 t' g' hg') ht hheld).2] at hadm
    cases hadm
  · exact h.listed _ hlist

theorem Watch.Minds.other {db : DB} (hfits : (watch cfg).Fits w) (hJ : Guarded cfg w) (hg : (watch cfg).ghosts w t = some g)
    (h : g.Minds w) (hguard : (watch cfg).guard g (.tx x)) (he : x.Effect a w.st.db.view db.view)
    (hK : uninterruptedCall cfg w t (.tx x) (Except.ok a) = true) (hne : t' ≠ t) (hg' : (watch cfg).ghosts w t' = some g')
    (h' : g'.Minds w) (hadm : g'.admission = some adm) : db.view.Admits adm.id adm.ready := by
  have hfree : g.held = false := by
    by_contra hheld
    rw [((hJ.2 t g hg).alone (hJ.2 t' g' hg') hne (by simpa using hheld)).2] at hadm
    cases hadm
  refine he.admits (h'.admits adm hadm) (fun hx => ?_) ?_ ?_ ?_
  · simp only [uninterruptedCall, Bool.and_eq_true, hx, Option.all_some] at hK
    exact unattended_apply hK.1 hfits hne hg' hadm rfl
  · rintro rfl
    obtain ⟨own, hown, -⟩ := hguard
    rw [(hJ.2 t g hg).locked own hown] at hfree
    cases hfree
  · rintro rfl
    exact h'.fresh adm hadm (activates_created hJ hg h hguard hg' hadm)
  · rintro message rfl
    rw [hguard.2.1] at hfree
    cases hfree

theorem Watch.Minds.own {db : DB} (hJ : Guarded cfg w) (hg : (watch cfg).ghosts w t = some g) (h : g.Minds w)
    (hguard : (watch cfg).guard g (.tx x)) (he : x.Effect a w.st.db.view db.view)
    (hreq : ∀ op, x ≠ .requeueAdmittingOperation op) (hfail : ∀ id message, x ≠ .failJob id message)
    (hadm : g.admission = some adm) : db.view.Admits adm.id adm.ready := by
  have hsome : g.admission ≠ none := by simp [hadm]
  refine he.admits (h.admits adm hadm) (fun hx => ?_) (hreq _) ?_ ?_
  · cases x <;> simp only [Tx.interrupts] at hx
    case queueJob id rootDigest => exact hsome hguard
    case failJob id message => exact hfail id message rfl
    case syncJob id remote => exact hsome hguard.1
    case requestJobCancellation id => exact hsome hguard
    case beginOperationCleanup op =>
      obtain ⟨kind, id⟩ := op
      cases kind
      · exact hsome hguard
      · cases hx
    all_goals cases hx
  · rintro rfl
    exact h.fresh adm hadm (activates_created hJ hg h hguard hg hadm)
  rintro message rfl
  exact hsome hguard.2.2

theorem Watch.Minds.acquire {o : Operation} (h : g.Minds w') (hwait : w.st.db.view.Waits)
    (hback : ∀ id, Created w' id → w.st.Backs id)
    (he : Tx.acquireNextOperation.Effect (some o) w.st.db.view w'.st.db.view) :
    Watch.Minds { g with admission := o.begins } w' := by
  obtain ⟨-, ⟨r, hr, hqueue, -⟩, hv⟩ := he
  refine ⟨fun a ha => ?_, fun a ha hc => ?_, h.listed⟩ <;> obtain ⟨hop, hread⟩ := begins_jobOp ha <;> rw [hop] at hr hv
  · obtain ⟨j, hj, hstatus⟩ := hwait a.id ⟨r, hr, hqueue⟩
    refine ⟨⟨⟨.admitting, r.seq⟩, by rw [hv]; simp [hr], rfl⟩, j, by rw [hv]; exact hj, ?_⟩
    exact hstatus.imp_right fun hs => ⟨hs, hread⟩
  · obtain ⟨q, hq, hne⟩ := (hback a.id hc).row
    have hview : r = q.view := by simpa [DB.view, hq] using hr.symm
    subst hview
    exact hne (eq_of_beq hqueue)

theorem Watch.Minds.read {job : Job} {c : Bool} (h : g.Minds w) (hj : w.st.db.view.job id = some ⟨job.status, c⟩) :
    Watch.Minds { g with admission := g.admission.bind fun a => a.read id job } w := by
  refine ⟨fun a' ha' => ?_, fun a' ha' => ?_, h.listed⟩ <;>
    obtain ⟨a, ha, hread⟩ := Option.bind_eq_some_iff.mp ha' <;>
    obtain ⟨hid, -, hready⟩ := Admission.read_eq_some hread <;>
    rw [hid]
  · obtain ⟨j, hj', hstatus⟩ := (h.admits a ha).job
    refine ⟨(h.admits a ha).row, j, hj', ?_⟩
    rcases hstatus with hqueue | ⟨hprepare, hnot⟩
    · exact .inl hqueue
    refine .inr ⟨hprepare, ?_⟩
    by_contra hr
    rcases hready (by simpa using hr) with hr | ⟨rfl, hne⟩
    · rw [hnot] at hr
      cases hr
    rw [hj] at hj'
    cases hj'
    exact hne hprepare
  · exact h.fresh a ha

theorem minds_start (l : Label) : ((watch cfg).start l).Minds w := by
  refine .of_none rfl ?_
  rintro id ⟨m, hm, -⟩
  cases hm

theorem accounted_answer (hg : (watch cfg).ghosts w t = some g) (hwait : s.db.view.Waits)
    (hback : ∀ id, Created (w.answer t c r s sp) id → s.Backs id)
    (hservice : ∀ id service, s.services.lookup id = some service → service.name = id ∧ Created (w.answer t c r s sp) id)
    (hown : (g.after cfg c r).Minds (w.answer t c r s sp))
    (hother : ∀ t' g', t' ≠ t → (watch cfg).ghosts w t' = some g' → g'.Minds (w.answer t c r s sp)) :
    Accounted cfg (w.answer t c r s sp) := by
  refine ⟨by rw [World.answer_st]; exact hwait, fun id hc => by rw [World.answer_st]; exact hback id hc,
    fun id service hs => hservice id service (by rwa [World.answer_st] at hs), fun t' g' hg' => ?_⟩
  rcases ghosts_answer_cases hg hg' with ⟨-, rfl⟩ | ⟨hne, hg'⟩ | ⟨l, -, rfl⟩
  · exact hown
  · exact hother t' g' hne hg'
  · exact minds_start l

theorem accounted_tx {r : Except Err x.Val} (hfits : (watch cfg).Fits w) (hJ : Guarded cfg w) (hI : Accounted cfg w)
    (hg : (watch cfg).ghosts w t = some g) (hguard : (watch cfg).guard g (.tx x))
    (hexec : exec t ch w.st (.tx x) = some (r, s, sp)) (hK : uninterruptedCall cfg w t (.tx x) r = true) :
    Accounted cfg (w.answer t (.tx x) r s sp) := by
  have h := hI.each t g hg
  have hcreate : ∀ id, Created (w.answer t (.tx x) r s sp) id ↔ Created w id := by
    intro id
    rw [created_answer]
    simp
  have hlist : ∀ id, (g.after cfg (.tx x) r).Lists id → Created (w.answer t (.tx x) r s sp) id := by
    intro id hl
    rw [Watch.Lists, Watch.after_unlisted (by simp)] at hl
    exact (hcreate id).mpr (h.listed id hl)
  have hservice : s.services = w.st.services → ∀ id service, s.services.lookup id = some service →
      service.name = id ∧ Created (w.answer t (.tx x) r s sp) id := by
    intro hsame id service hs
    rw [hsame] at hs
    exact ⟨(hI.served id service hs).1, (hcreate id).mpr (hI.served id service hs).2⟩
  obtain ⟨-, ⟨e, rfl, rfl, -⟩ | ⟨a, db, fresh, rfl, rfl, hrun⟩⟩ := exec_run hexec
  · -- a transaction that fails can end an admission
    have hsame : g.Minds (w.answer t (.tx x) (Except.error e) w.st sp) := h.frame (by rw [World.answer_st]) hcreate
    refine accounted_answer hg hI.waits (fun id hc => hI.backs id ((hcreate id).mp hc)) (hservice rfl) ?_ fun t' g' _ hg' =>
      (hI.each t' g' hg').frame (by rw [World.answer_st]) hcreate
    cases x <;> first | exact hsame | exact .of_none rfl hlist | exact ⟨hsame.admits, hsame.fresh, hsame.listed⟩
  have he := Tx.run_effect hrun
  have hsync : ∀ id remote, x = .syncJob id remote → remote.status ≠ .preparing := by
    rintro id remote rfl
    exact hguard.2.1
  have hkept : ∀ {g' : Watch}, g'.Minds w → (∀ adm, g'.admission = some adm → db.view.Admits adm.id adm.ready) →
      g'.Minds (w.answer t (.tx x) (Except.ok a) { w.st with db := db } sp) := by
    intro g' h' hadmits
    refine ⟨fun adm hadm => ?_, fun adm hadm hc => h'.fresh adm hadm ((hcreate _).mp hc),
      fun id hl => (hcreate id).mpr (h'.listed id hl)⟩
    rw [World.answer_st]
    exact hadmits adm hadm
  refine accounted_answer hg ?_ (fun id hc => ?_) (hservice rfl) ?_ fun t' g' hne hg' =>
    hkept (hI.each t' g' hg') fun adm hadm => h.other hfits hJ hg hguard he hK hne hg' (hI.each t' g' hg') hadm
  · simp only [uninterruptedCall, Bool.and_eq_true, Bool.not_eq_true'] at hK
    refine he.waits hI.waits hK.2 ?_
    rintro id rfl
    obtain ⟨adm, hadm, rfl⟩ := hguard
    obtain ⟨j, hj, hstatus⟩ := (h.admits adm hadm).job
    exact ⟨j, hj, hstatus.imp_right And.left⟩
  · have hc' := (hcreate id).mp hc
    exact (spares_commit hrun (created_kept hI h hguard he hc') hsync).backs (hI.backs id hc')
  have hgo : (∀ op, x ≠ .requeueAdmittingOperation op) → (∀ id message, x ≠ .failJob id message) →
      g.Minds (w.answer t (.tx x) (Except.ok a) { w.st with db := db } sp) :=
    fun hreq hfail => hkept h fun adm hadm => h.own hJ hg hguard he hreq hfail hadm
  cases x with
  | acquireNextOperation =>
    have hg' := hgo (by simp) (by simp)
    cases a with
    | none => exact hg'
    | some o => exact hg'.acquire hI.waits (fun id hc => hI.backs id ((hcreate id).mp hc)) (by rw [World.answer_st]; exact he)
  | requeueAdmittingOperation op => exact .of_none rfl hlist
  | failJob id message => exact .of_none rfl hlist
  | job id =>
    have hj : db.view.job id = some ⟨a.status, a.cancelRequested⟩ := by
      rw [he.1]
      exact he.2.2
    exact (hgo (by simp) (by simp)).read (by rw [World.answer_st]; exact hj)
  | operation op | syncJob id remote =>
    have hg' := hgo (by simp) (by simp)
    exact ⟨hg'.admits, hg'.fresh, hg'.listed⟩
  | _ => exact hgo (by simp) (by simp)

/-- `Scheduler.Create` is called in the admission of its job. -/
theorem accounted_create {job : Job} {r : Except Err Unit} (hJ : Guarded cfg w) (hI : Accounted cfg w)
    (hg : (watch cfg).ghosts w t = some g) (hguard : (watch cfg).guard g (.create job))
    (hexec : exec t ch w.st (.create job) = some (r, s, sp)) : Accounted cfg (w.answer t (.create job) r s sp) := by
  obtain ⟨adm, hadm, hid, hread⟩ := hguard
  have h := hI.each t g hg
  have hdb := exec_db (fun x hx => by cases hx) hexec
  have hmono : ∀ id, Created w id → Created (w.answer t (.create job) r s sp) id :=
    fun id hc => created_answer.mpr (.inl hc)
  refine accounted_answer hg (hdb ▸ hI.waits) (fun id hc => ?_) (fun id service hs => ?_) ?_ fun t' g' hne hg' => ?_
  · refine (spares_of_db hdb).backs ?_
    rcases created_answer.mp hc with hold | ⟨job', hnew, rfl⟩
    · exact hI.backs id hold
    cases hnew
    obtain ⟨⟨r, hr, hs⟩, j, hj, hstatus⟩ := h.admits adm hadm
    obtain ⟨q, hq, rfl⟩ := Option.map_eq_some_iff.mp hr
    rw [hid] at hq hj
    refine ⟨⟨j, hj, ?_⟩, q, hq, ?_⟩
    · rcases hstatus with hs | ⟨-, hnot⟩
      · rw [hs]
        decide
      rw [hread] at hnot
      cases hnot
    rw [show q.state = .admitting from eq_of_beq hs]
    decide
  · rcases exec_service hexec hs with ⟨before, hbefore, rfl | rfl⟩ | ⟨job', serviceID, hc, rfl, -, rfl⟩
    · exact ⟨(hI.served id service hbefore).1, hmono id (hI.served id service hbefore).2⟩
    · exact ⟨(hI.served id before hbefore).1, hmono id (hI.served id before hbefore).2⟩
    cases hc
    exact ⟨rfl, created_answer.mpr (.inr ⟨job, rfl, rfl⟩)⟩
  · exact .of_none rfl fun id hl => hmono id (h.listed id hl)
  · -- the caller has the lock, so nobody else is in an admission
    have hhold := hJ.2 t g hg
    exact .of_none (hhold.alone (hJ.2 t' g' hg') hne (hhold.locked adm hadm)).2
      fun id hl => hmono id ((hI.each t' g' hg').listed id hl)

theorem accounted_other (hI : Accounted cfg w) (hg : (watch cfg).ghosts w t = some g)
    (hexec : exec t ch w.st c = some (r, s, sp)) (htx : ∀ x, c ≠ .tx x) (hcreate : ∀ job, c ≠ .create job)
    (hlists : ∀ id, (g.after cfg c r).Lists id → Created w id) : Accounted cfg (w.answer t c r s sp) := by
  have hdb := exec_db htx hexec
  have hcre : ∀ id, Created (w.answer t c r s sp) id ↔ Created w id := by
    intro id
    rw [created_answer, or_iff_left]
    rintro ⟨job, hc, -⟩
    exact hcreate job hc
  have hframes : ∀ {g' : Watch}, g'.Minds w → g'.Minds (w.answer t c r s sp) :=
    fun h' => h'.frame (by rw [World.answer_st, hdb]) hcre
  refine accounted_answer hg (hdb ▸ hI.waits) (fun id hc => ?_) (fun id service hs => ?_) ?_ fun t' g' _ hg' =>
    hframes (hI.each t' g' hg')
  · exact (spares_of_db hdb).backs (hI.backs id ((hcre id).mp hc))
  · rw [hcre]
    rcases exec_service hexec hs with ⟨before, hbefore, rfl | rfl⟩ | ⟨job, -, hc, -⟩
    · exact hI.served id service hbefore
    · exact hI.served id before hbefore
    · exact absurd hc (hcreate job)
  have hlist : ∀ id, (g.after cfg c r).Lists id → Created (w.answer t c r s sp) id :=
    fun id hl => (hcre id).mpr (hlists id hl)
  rcases Watch.after_other htx with hnone | hsame
  · exact .of_none hnone hlist
  have hg' := hframes (hI.each t g hg)
  exact ⟨hsame ▸ hg'.admits, hsame ▸ hg'.fresh, hlist⟩

theorem listed_created {r : Except Err (List RuntimeJob)} (hI : Accounted cfg w) (hg : (watch cfg).ghosts w t = some g)
    (hexec : exec t ch w.st .managedJobs = some (r, s, sp)) (hl : (g.after cfg .managedJobs r).Lists id) : Created w id := by
  obtain ⟨m, hm, e, he, remote, hjob, rfl⟩ := hl
  have hold : m ∈ g.listings → Created w remote.id :=
    fun hm => (hI.each t g hg).listed _ ⟨m, hm, e, he, remote, hjob, rfl⟩
  rcases r with err | managed
  · exact hold hm
  obtain ⟨broken, rfl⟩ := exec_managedJobs hexec
  simp only [Watch.after] at hm
  split at hm
  · rcases List.mem_cons.mp hm with rfl | hm
    · obtain ⟨service, hs, hstatus⟩ := mem_managedJobs he hjob
      obtain ⟨hname, hc⟩ := hI.served e.id service hs
      rwa [Service.status_id hname hstatus]
    · exact hold hm
  · exact hold hm

end Steps

theorem created_cons {w' : World} {e : Entry Call Call.Ret Label} (hlog : w'.log = e :: w.log) (he : ∀ t c r, e ≠ .call t c r) :
    Created w' id ↔ Created w id := by
  simp only [Created, hlog, List.mem_cons]
  constructor
  · rintro ⟨t, job, r, rfl | hm, hid⟩
    · exact absurd rfl (he t _ r)
    · exact ⟨t, job, r, hm, hid⟩
  rintro ⟨t, job, r, hm, hid⟩
  exact ⟨t, job, r, .inr hm, hid⟩

theorem Accounted.frame {cfg : Config} {w' : World} (h : Accounted cfg w) (hdb : w'.st.db = w.st.db)
    (hservice : ∀ id service, w'.st.services.lookup id = some service → ∃ before, w.st.services.lookup id = some before ∧
      service.name = before.name)
    (hcreate : ∀ id, Created w' id ↔ Created w id) (heach : ∀ t g, (watch cfg).ghosts w' t = some g → g.Minds w) :
    Accounted cfg w' where
  waits := hdb ▸ h.waits
  backs id hc := (spares_of_db hdb).backs (h.backs id ((hcreate id).mp hc))
  served id service hs := by
    obtain ⟨before, hbefore, hname⟩ := hservice id service hs
    obtain ⟨hid, hc⟩ := h.served id before hbefore
    exact ⟨hname.trans hid, (hcreate id).mpr hc⟩
  each t g hg := (heach t g hg).frame hdb hcreate

theorem accounted_keeps (cfg : Config) (now : Time) :
    Keeps (machine cfg) (uninterrupted cfg) (watch cfg) (Sys.fresh now) (Guarded cfg) (Accounted cfg) where
  init := by
    refine ⟨?_, ?_, ?_, nofun⟩
    · rintro id ⟨r, hr, -⟩
      simp [World.init, Sys.fresh, DB.empty, DB.view, Queue.empty] at hr
    · rintro id ⟨t, job, r, hm, -⟩
      cases hm
    intro id service hs
    simp [World.init, Sys.fresh] at hs
  start w l _ hI _ _ _ := by
    refine hI.frame rfl (fun _ service hs => ⟨service, hs, rfl⟩) (fun _ => created_cons rfl fun _ _ _ h => by cases h) ?_
    intro t g hg
    rcases ghosts_spawn_cases hg with rfl | hg
    · exact minds_start l
    · exact hI.each t g hg
  call w t g c ch r s sp hJ hI hfits hg hguard hexec hK := by
    replace hexec : exec t ch w.st c = some (r, s, sp) := hexec
    refine ⟨watch_fact hexec, ?_⟩
    cases c with
    | tx x => exact accounted_tx hfits hJ hI hg hguard hexec hK
    | create job => exact accounted_create hJ hI hg hguard hexec
    | managedJobs => exact accounted_other hI hg hexec (by simp) (by simp) fun id hl => listed_created hI hg hexec hl
    | _ =>
      refine accounted_other hI hg hexec (by simp) (by simp) fun id hl => ?_
      rw [Watch.Lists, Watch.after_unlisted (by simp)] at hl
      exact (hI.each t g hg).listed id hl
  finish w t g _ hI _ _ _ := by
    refine hI.frame rfl (fun _ service hs => ⟨service, hs, rfl⟩) (fun _ => created_cons rfl fun _ _ _ h => by cases h) ?_
    exact fun t' g' hg' => hI.each t' g' (ghosts_finish_cases hg').2
  jump w t g l hlt _ hI _ _ _ := by
    refine hI.frame rfl (fun _ service hs => ⟨service, hs, rfl⟩) (fun _ => created_cons rfl fun _ _ _ h => by cases h) ?_
    intro t' g' hg'
    rcases ghosts_jump_cases hg' with ⟨-, rfl⟩ | ⟨-, hg'⟩
    · exact minds_start l
    · exact hI.each t' g' hg'
  env w e s _ hI _ he _ := by
    have hstep : s.db = w.st.db ∧ ∀ id service, s.services.lookup id = some service →
        ∃ before, w.st.services.lookup id = some before ∧ service.name = before.name := by
      cases e with
      | tasks id ts =>
        simp only [machine, Env.apply] at he
        split at he
        · rename_i service hs
          cases he
          refine ⟨rfl, fun id' service' hs' => ?_⟩
          rw [Table.lookup_insert_eq] at hs'
          split at hs'
          · rename_i hid
            subst hid
            cases hs'
            exact ⟨service, hs, rfl⟩
          · exact ⟨service', hs', rfl⟩
        · cases he
      | _ =>
        cases he
        exact ⟨rfl, fun _ service hs => ⟨service, hs, rfl⟩⟩
    exact hI.frame hstep.1 hstep.2 (fun _ => Iff.rfl) hI.each
  crash w _ hI _ _ :=
    hI.frame rfl (fun _ service hs => ⟨service, hs, rfl⟩) (fun _ => created_cons rfl fun _ _ _ h => by cases h)
      nofun

/-! ## The theorem -/

/-- **Services are created by the holder of the reservation, once per job**, in every configuration that the server reaches
while no other goroutine takes a job out of its admission and none writes the status of a job that waits in the queue: when
`Scheduler.Create` is called for a job, its row is admitting, it is queued, and `Scheduler.Create` was not called for it
before, nor is in flight elsewhere. -/
theorem creation_reserved {cfg : Config} {σ : Conf} (h : Reaches cfg (uninterrupted cfg) σ) {t : Nat} {id : String}
    (hcreates : Creates σ t id) :
    (∃ q, σ.st.db.queue.table.lookup (jobOp id) = some q ∧ q.state = .admitting) ∧
    (∃ j, σ.st.db.jobs.lookup id = some j ∧ j.status = .queued) ∧
    ¬ Created σ.toWorld id ∧ ∀ t', t' ≠ t → ¬ Creates σ t' id := by
  obtain ⟨now, hreach⟩ := h
  obtain ⟨hfollows, hI⟩ := run_invariant (watch_body cfg) (fun _ hr => guarded hr) (accounted_keeps cfg now) hreach
  have hJ := guarded hreach
  have hadmission : ∀ {t'}, Creates σ t' id → ∃ g a, (watch cfg).ghosts σ.toWorld t' = some g ∧ g.admission = some a ∧
      a.id = id ∧ a.ready = true := by
    rintro t' ⟨hlive, job, k, hcode, hid⟩
    obtain ⟨l, hl⟩ := Option.ne_none_iff_exists'.mp hlive
    obtain ⟨g, hg, hsafe⟩ := (hl ▸ hfollows t').eq_some
    rw [hcode] at hsafe
    obtain ⟨a, ha, haid, hready⟩ := hsafe.1
    exact ⟨g, a, hg, ha, haid.trans hid, hready⟩
  obtain ⟨g, a, hg, ha, rfl, hready⟩ := hadmission hcreates
  obtain ⟨⟨r, hr, hs⟩, j, hj, hstatus⟩ := (hI.each t g hg).admits a ha
  obtain ⟨q, hq, rfl⟩ := Option.map_eq_some_iff.mp hr
  obtain ⟨row, hrow, rfl⟩ := Option.map_eq_some_iff.mp hj
  refine ⟨⟨q, hq, eq_of_beq hs⟩, ⟨row, hrow, ?_⟩, (hI.each t g hg).fresh a ha, fun t' hne hcreates' => ?_⟩
  · rcases hstatus with hs | ⟨-, hnot⟩
    · exact hs
    rw [hready] at hnot
    cases hnot
  obtain ⟨g', a', hg', ha', -⟩ := hadmission hcreates'
  have hholder := hJ.2 t g hg
  rw [(hholder.alone (hJ.2 t' g' hg') hne (hholder.locked a ha)).2] at ha'
  cases ha'

theorem creation_reserved_started : ∃ σ, Reaches sampleConfig (uninterrupted sampleConfig) σ ∧ Creates σ 6 "job1" ∧
    ((∃ q, σ.st.db.queue.table.lookup (jobOp "job1") = some q ∧ q.state = .admitting) ∧
    (∃ j, σ.st.db.jobs.lookup "job1" = some j ∧ j.status = .queued) ∧
    ¬ Created σ.toWorld "job1" ∧ ∀ t', t' ≠ 6 → ¬ Creates σ t' "job1") := by
  obtain ⟨σ, hr, hp⟩ := reaches_of_stepsIf sampleConfig (K := uninterrupted sampleConfig) starting
    (p := fun σ => creates σ 6 "job1") (q := fun w t c r => uninterruptedCall sampleConfig w t c r)
    (fun _ _ => trivial) (fun _ _ => trivial) (fun _ _ _ _ h => h) (by decide +kernel)
  exact ⟨σ, hr, creates_of_test hp, creation_reserved hr (creates_of_test hp)⟩

def isCreate (id : String) : Entry Call Call.Ret Label → Bool
  | .call _ (.create job) _ => job.id == id
  | _ => false

theorem created_of_test (h : w.log.any (isCreate id) = true) : Created w id := by
  obtain ⟨e, he, htest⟩ := List.any_eq_true.mp h
  unfold isCreate at htest
  split at htest
  · exact ⟨_, _, _, he, eq_of_beq htest⟩
  · cases htest

/-- Goroutine 5 acquires the row of a job that is being prepared, goroutine 6 starts the job before goroutine 5 has read it,
and goroutine 5 goes on. -/
def startsEarly : List Event :=
  settled ++ asks 5 (prepareRequest "first") ++ [authorized 5, .run 5 (.fresh "1")] ++ goes 5 3 ++
    .run 5 (.snapshot roomy) :: goes 5 2 ++ asks 6 (.startJob "job1" "digest") ++ [.run 6 .go, authorized 6] ++ goes 6 2 ++
    goes 5 8

def startsAgain : List Event :=
  startsEarly ++ .run 5 (.fresh "svc1") :: goes 5 3 ++ goes 6 3 ++ .run 6 (.snapshot roomy) :: goes 6 5

/-- `Scheduler.Create` is called for a job whose row is queued, and then once more. -/
theorem creation_unreserved :
    (∃ σ, Reaches sampleConfig Conc.Rules.all σ ∧ Creates σ 5 "job1" ∧
      (σ.st.db.queue.table.lookup (jobOp "job1")).map (fun q => q.state) = some .queued) ∧
    ∃ σ, Reaches sampleConfig Conc.Rules.all σ ∧ Created σ.toWorld "job1" ∧ Creates σ 6 "job1" := by
  obtain ⟨σ, hr, hp⟩ := reaches_of_steps sampleConfig startsEarly (p := fun σ => creates σ 5 "job1" &&
    (σ.st.db.queue.table.lookup (jobOp "job1")).map (fun q => q.state) == some .queued) (by decide +kernel)
  obtain ⟨σ', hr', hp'⟩ := reaches_of_steps sampleConfig startsAgain
    (p := fun σ => σ.log.any (isCreate "job1") && creates σ 6 "job1") (by decide +kernel)
  rw [Bool.and_eq_true] at hp hp'
  exact ⟨⟨σ, hr, creates_of_test hp.1, eq_of_beq hp.2⟩, σ', hr', created_of_test hp'.1, creates_of_test hp'.2⟩

end Autback
