import Autback.Server.ApiFrames
import Autback.Server.Steps
import Autback.Store.History

/-!
# Repeated admissions

A client that does not learn whether its `PrepareJob` was accepted sends the same request again. The handler completes the request
from the project, whose runner image may have changed in between, and computes the request hash from the result. The repetition is
accepted as the job of the first one if it resolves to the same image (`prepareJob_repeats`); if the project's image or its policy
has changed, it is refused (`prepareJob_conflicts`).
-/

namespace Autback

open Conc Ghost

/-! ## What the handler checks -/

def ApiError.refuses (e : ApiError) : Bool :=
  e.code == .alreadyExists || e.code == .permissionDenied || e.code == .failedPrecondition

def Api.admission (cfg : Config) (project : Project) (message : PrepareJobRequest) :
    Except ApiError (PrepareJob × Idempotency) :=
  if lacks cfg.requiredJobCapability message.capabilities then
    .error (unsupported cfg.requiredJobCapability message.clientVersion)
  else
    match resolveImage project message with
    | .error e => .error e
    | .ok resolved => match cfg.validateJob project.id resolved with
      | .error e => .error ⟨.invalidArgument, e.text⟩
      | .ok input => .ok (input, ⟨message.idempotencyKey, cfg.admissionHash input⟩)

/-- The request resolves to the same image for the project as it was, `p`, and as it is, `p'`: it names no image and the
project's is the same, or it names one that the project accepts. -/
def Api.ResolvesAlike (message : PrepareJobRequest) (p p' : Project) : Prop :=
  if message.image = "" then p'.activeImage = p.activeImage
  else p'.activeImage = "" ∨ p'.activeImage = message.image ∨ p'.allowImageOverrides = true

variable {message : PrepareJobRequest}

theorem resolveImage_alike {resolved : PrepareJobRequest} {p p' : Project}
    (h : Api.resolveImage p message = .ok resolved) (halike : Api.ResolvesAlike message p p') :
    Api.resolveImage p' message = .ok resolved := by
  unfold Api.resolveImage Api.ResolvesAlike at *
  by_cases himage : message.image = ""
  · simp only [himage, if_true] at h halike ⊢
    rwa [halike]
  simp only [himage, if_false] at h halike ⊢
  split at h
  · cases h
  rw [if_neg ?_]
  · exact h
  · rcases halike with halike | halike | halike <;> simp [halike]

theorem admission_alike {cfg : Config} {p p' : Project} {input : PrepareJob}
    {idempotency : Idempotency} (h : Api.admission cfg p message = .ok (input, idempotency)) (hid : p'.id = p.id)
    (halike : Api.ResolvesAlike message p p') : Api.admission cfg p' message = .ok (input, idempotency) := by
  unfold Api.admission at *
  split at h
  · cases h
  rename_i hlack
  rw [if_neg hlack]
  cases hres : Api.resolveImage p message with
  | error e =>
    rw [hres] at h
    cases h
  | ok resolved =>
    rw [hres] at h
    rw [resolveImage_alike hres halike, hid]
    exact h

/-! ## Preparations -/

/-- What a goroutine has done for a `PrepareJob` request: the request, the project it was found to be for, the job that it
was accepted as, whether its key was taken by another request, and the answer. -/
structure Preparation where
  message : Option PrepareJobRequest
  project : Option Project
  job : Option String
  conflict : Bool
  answer : Option (Except ApiError Reply)

def Preparation.learn (g : Preparation) (c : Call) (r : c.Ret) : Preparation :=
  match c, r with
  | .authorizeProject _ _, Except.ok (p : Project) => { g with project := g.project.or (some p) }
  | .tx (.createPreparedJob _ _), Except.ok ((job, _) : Job × Bool) => { g with job := some job.id }
  | .tx (.createPreparedJob _ _), Except.error e => { g with conflict := e.is .idempotencyConflict }
  | .respond _ answer, _ => { g with answer := some answer }
  | _, _ => g

def Preparation.Refused (cfg : Config) (g : Preparation) (message : PrepareJobRequest) : Prop :=
  g.conflict = true ∨ ∀ p, g.project = some p → ∀ a, Api.admission cfg p message ≠ .ok a

def Preparation.Answers (cfg : Config) (g : Preparation) (message : PrepareJobRequest) : Except ApiError Reply → Prop
  | .ok reply => ∃ job connection, reply = .job (some job) connection ∧ g.job = some job.id
  | .error e => e.refuses = true → g.Refused cfg message

def Preparation.Calls (cfg : Config) (g : Preparation) (message : PrepareJobRequest) : Call → Prop
  | .authorizeProject _ _ => g.project = none → g.answer = none
  | .tx (.createPreparedJob input idempotency) => g.job = none ∧ g.conflict = false ∧ g.answer = none ∧
    ∃ p, g.project = some p ∧ Api.admission cfg p message = .ok (input, idempotency)
  | .respond _ answer => g.answer = none ∧ g.Answers cfg message answer
  | _ => True

def Call.Fails (c : Call) (e : Err) : Prop :=
  match c with
  | .tx (.createPreparedJob _ _) => (Api.connectError e).refuses = true → e.is .idempotencyConflict = true
  | .tx (.audit _ _ _ _ _) | .tx (.job _) | .tx (.renewOperationLease _) | .tx (.operationState _) | .issue _ =>
    (Api.connectError e).refuses = false
  | _ => True

def preparations (cfg : Config) : Ghost Call Call.Ret Label Preparation where
  start l := ⟨match l with | .request (.prepareJob message) => some message | _ => none, none, none, false, none⟩
  next := Preparation.learn
  guard g c := ∀ message, g.message = some message → g.Calls cfg message c
  fact _ c r := match c, r with
    | .tx x, Except.error e => Call.Fails (.tx x) e
    | .issue op, Except.error e => Call.Fails (.issue op) e
    | .tx (.job id), Except.ok (job : Job) => job.id = id
    | _, _ => True
  exit _ _ := True

/-! ## The handler -/

section Walk

variable {cfg : Config} {g0 : Preparation}

def Call.aside : Call → Bool
  | .authorizeProject _ _ | .tx (.createPreparedJob _ _) | .respond _ _ => false
  | _ => true

theorem preparations_still {c : Call} (hc : c.aside = true) : (preparations cfg).Still (· = g0) c := by
  rintro g rfl
  refine ⟨fun message _ => ?_, fun r _ => ?_⟩
  · cases c with
    | tx x => cases x <;> trivial
    | _ => trivial
  simp only [preparations, Preparation.learn]
  split <;> first | rfl | cases hc

theorem preparations_quiet (hp : g0.project.isSome = true) (c : Call) (hc : c.quiet = true) :
    (preparations cfg).Still (· = g0) c := by
  cases c with
  | tx x => exact preparations_still (by cases x <;> first | rfl | cases hc)
  | authorizeProject principal selector =>
    obtain ⟨p, hp⟩ := Option.isSome_iff_exists.mp hp
    rintro g rfl
    refine ⟨fun message _ hnone => absurd hp (by simp [hnone]), fun r _ => ?_⟩
    rcases r with e | p'
    · rfl
    change { g with project := g.project.or (some p') } = g
    rw [hp, Option.some_or, ← hp]
  | respond r answer => cases hc
  | _ => exact preparations_still rfl

theorem preparations_advance (hp : g0.project.isSome = true) : (preparations cfg).Within (· = g0) advance :=
  within_advance (preparations_quiet hp) (preparations_still rfl) (preparations_still rfl)

theorem preparations_request (hp : g0.project.isSome = true) (op : Op) :
    (preparations cfg).Within (· = g0) (Coordinator.request op) :=
  within_request (quiet_tx (preparations_quiet hp)) (preparations_still rfl) (preparations_still rfl)

theorem preparations_runOrAdvance (hp : g0.project.isSome = true) (scope : Scope) :
    (preparations cfg).Within (· = g0) (Dispatcher.runOrAdvance cfg scope) := by
  have F : ∀ c, Call.quiet c = true → (preparations cfg).Still (· = g0) c := preparations_quiet hp
  refine within_runOrAdvance (within_runOnce_of_reserve F (fun c hc => preparations_still ?_)
    (within_reserve F (preparations_still rfl) fun op => ?_)) (preparations_advance hp)
  · cases c with
    | tx x => cases x <;> first | rfl | cases hc
    | _ => first | rfl | cases hc
  exact within_admits F (within_rejectJob F (fun _ => preparations_still rfl) (preparations_request hp _))
      (preparations_still rfl)
    (fun _ => preparations_still rfl) (fun _ => preparations_still rfl) (preparations_still rfl)

/-- An answer that is the job `id`, or an error that does not refuse the request. -/
def Accepted (id : String) : Except ApiError Reply → Prop
  | .ok reply => ∃ job connection, reply = .job (some job) connection ∧ job.id = id
  | .error e => e.refuses = false

/-- A part of the handler that leaves the preparation and whose errors do not refuse the request. -/
def Assents {α : Type} (cfg : Config) (g0 : Preparation) (p : Go ApiError α) : Prop :=
  (preparations cfg).Safe g0 p fun g r => g = g0 ∧ ∀ e, r = .error e → e.refuses = false

theorem assents_renewPreparation (job : Job) : Assents cfg g0 (Api.renewPreparation job) := by
  refine safe_ite (fun _ => ?_) fun _ => ⟨rfl, nofun⟩
  refine safe_mapError.mpr ⟨(preparations_still rfl g0 rfl).1, fun r hr => ?_⟩
  rcases r with e | u
  · exact ⟨rfl, fun _ h => by cases h; exact hr⟩
  · exact ⟨rfl, nofun⟩

theorem assents_connection (job : Job) : Assents cfg g0 (Api.jobPreparationConnection job) := by
  refine safe_ite (fun _ => ?_) fun _ => ⟨rfl, nofun⟩
  refine safe_try.mpr (safe_mapError.mpr ⟨(preparations_still rfl g0 rfl).1, fun r hr => ?_⟩)
  rcases r with e | (state : OperationState)
  · exact ⟨rfl, fun _ h => by cases h; exact hr⟩
  refine safe_ite (fun _ => ?_) fun _ => ⟨rfl, nofun⟩
  refine safe_try.mpr (safe_mapError.mpr ⟨(preparations_still rfl g0 rfl).1, fun r hr => ?_⟩)
  rcases r with e | u
  · exact ⟨rfl, fun _ h => by cases h; exact hr⟩
  · exact ⟨rfl, nofun⟩

theorem preparations_answerPrepared (hp : g0.project.isSome = true) (id : String) :
    (preparations cfg).Safe g0 (Api.answerPrepared cfg id) fun g r => g = g0 ∧ Accepted id r := by
  refine safe_try.mpr (safe_ofProg.mpr ((preparations_runOrAdvance hp .request g0 rfl).mono ?_))
  rintro g _ rfl
  refine safe_try.mpr (safe_mapError.mpr ⟨(preparations_still rfl g rfl).1, fun r hr => ?_⟩)
  rcases r with e | (job : Job)
  · exact ⟨rfl, hr⟩
  refine safe_try.mpr ((show Assents cfg g _ from assents_renewPreparation job).mono ?_)
  rintro _ (e | u) ⟨rfl, he⟩
  · exact ⟨rfl, he e rfl⟩
  refine safe_try.mpr ((assents_connection job).mono ?_)
  rintro _ (e | connection) ⟨rfl, he⟩
  · exact ⟨rfl, he e rfl⟩
  · exact ⟨rfl, job, connection, rfl, hr⟩

variable {message : PrepareJobRequest} {project : Project}

def Preparation.begun (message : PrepareJobRequest) (project : Project) : Preparation :=
  ⟨some message, some project, none, false, none⟩

def Preparation.accepted (message : PrepareJobRequest) (project : Project) (id : String) : Preparation :=
  ⟨some message, some project, some id, false, none⟩

def Fitting (cfg : Config) (message : PrepareJobRequest) (g : Preparation) (r : Except ApiError Reply) : Prop :=
  g.answer = none ∧ g.message = some message ∧ g.Answers cfg message r

theorem fitting_accepted {id : String} (g : Preparation) (r : Except ApiError Reply)
    (h : g = .accepted message project id ∧ Accepted id r) : Fitting cfg message g r := by
  obtain ⟨rfl, hr⟩ := h
  rcases r with e | reply
  · refine ⟨rfl, rfl, fun href => ?_⟩
    rw [show e.refuses = false from hr] at href
    cases href
  obtain ⟨job, connection, rfl, rfl⟩ := hr
  exact ⟨rfl, rfl, job, connection, rfl, rfl⟩

theorem preparations_createJob {principal : Principal} {input : PrepareJob}
    (h : Api.admission cfg project message = .ok (input, ⟨message.idempotencyKey, cfg.admissionHash input⟩)) :
    (preparations cfg).Safe (.begun message project) (Api.createJob cfg principal project input message.idempotencyKey)
      (Fitting cfg message) := by
  refine safe_try.mpr (safe_mapError.mpr ⟨?_, fun r hr => ?_⟩)
  · intro message' hmessage
    cases hmessage
    exact ⟨rfl, rfl, rfl, project, rfl, h⟩
  rcases r with e | ⟨job, replayed⟩
  · exact ⟨rfl, rfl, fun href => .inl (hr href)⟩
  have hanswer : (preparations cfg).Safe (.accepted message project job.id) (Api.answerPrepared cfg job.id)
      fun g r => g = .accepted message project job.id ∧ Accepted job.id r := preparations_answerPrepared rfl job.id
  refine safe_ite (fun _ => hanswer.mono fitting_accepted) fun _ => ?_
  refine safe_try.mpr (safe_ofProg.mpr ⟨(preparations_still rfl _ rfl).1, fun r hr => ?_⟩)
  rcases r with e | u
  · -- the rollback
    refine safe_try.mpr (safe_ignoring (A := (· = Preparation.accepted message project job.id)) ?_ rfl ?_)
    · exact within_try (within_lift (preparations_still rfl)) fun _ => within_quiet (preparations_quiet rfl) _ rfl
    rintro _ rfl
    refine safe_try.mpr (safe_ignoring (preparations_request rfl _) rfl ?_)
    rintro _ rfl
    exact fitting_accepted _ _ ⟨rfl, hr⟩
  · exact hanswer.mono fitting_accepted

/-- `PrepareJob` answers with the job that it was accepted as, and refuses only what its checks or the key refuse. -/
theorem preparations_prepareJob (message : PrepareJobRequest) :
    (preparations cfg).Safe ⟨some message, none, none, false, none⟩ (Api.prepareJob cfg message) (Fitting cfg message) := by
  refine safe_try.mpr ⟨fun _ _ => trivial, fun r _ => ?_⟩
  rcases r with e | principal
  · exact ⟨rfl, rfl, fun _ => .inr nofun⟩
  refine safe_try.mpr (safe_mapError.mpr ⟨fun _ _ _ => rfl, fun r _ => ?_⟩)
  rcases r with e | (project : Project)
  · exact ⟨rfl, rfl, fun _ => .inr nofun⟩
  have href : ∀ e, (∀ a, Api.admission cfg project message ≠ .ok a) →
      Fitting cfg message (.begun message project) (.error e) := by
    refine fun e h => ⟨rfl, rfl, fun _ => .inr fun p hp => ?_⟩
    cases hp
    exact h
  refine safe_ite (fun hlack => ?_) fun hlack => ?_
  · exact href _ fun a h => by rw [Api.admission, if_pos hlack] at h; cases h
  cases hres : Api.resolveImage project message with
  | error e => exact href _ fun a h => by rw [Api.admission, if_neg hlack, hres] at h; cases h
  | ok resolved =>
    change (preparations cfg).Safe (.begun message project) (match cfg.validateJob project.id resolved with
      | .error e => fail ⟨.invalidArgument, e.text⟩
      | .ok input => Api.createJob cfg principal project input message.idempotencyKey) _
    cases hvalue : cfg.validateJob project.id resolved with
    | error e => exact href _ fun a h => by rw [Api.admission, if_neg hlack, hres] at h; simp [hvalue] at h
    | ok input =>
      refine preparations_createJob ?_
      rw [Api.admission, if_neg hlack, hres]
      simp [hvalue]

theorem preparations_body (cfg : Config) (l : Label) :
    (preparations cfg).Safe ((preparations cfg).start l) (body cfg l) (preparations cfg).exit := by
  by_cases h : ∃ message, l = .request (.prepareJob message)
  · obtain ⟨message, rfl⟩ := h
    refine safe_bind.mpr ((preparations_prepareJob message).mono fun g r hg => safe_bind.mpr ?_)
    refine ⟨fun message' hmessage => ?_, fun _ _ => trivial⟩
    rw [hg.2.1] at hmessage
    cases hmessage
    exact ⟨hg.1, hg.2.2⟩
  -- no other goroutine has a message to prepare
  have hstill : ∀ c, (preparations cfg).Still (fun g => g.message = none) c := by
    refine fun c g hg => ⟨fun message hmessage => ?_, fun r _ => ?_⟩
    · rw [hg] at hmessage
      cases hmessage
    simp only [preparations, Preparation.learn]
    split <;> exact hg
  refine (within_of_forall_still hstill _ _ ?_).mono fun _ _ _ => trivial
  simp only [preparations]
  split
  · exact absurd ⟨_, rfl⟩ h
  · rfl

end Walk

/-! ## The transaction -/

section Store

variable {db db' : DB} {now : Time} {fresh : String} {input : PrepareJob} {idempotency : Idempotency} {e : Err}

theorem refuses_of_plain (h : ofControl e = false) : (Api.connectError e).refuses = false := by
  simp only [ofControl, List.any_cons, List.any_nil, Bool.or_false, Bool.or_eq_false_iff] at h
  simp [Api.connectError, h, ApiError.refuses]

theorem refuses_of_chain_nil (h : e.chain = []) : (Api.connectError e).refuses = false :=
  refuses_of_plain (by simp [ofControl, Err.is, h])

theorem createPreparedJob_error (h : db.createPreparedJob now fresh input idempotency = .error e) :
    (e = .idempotencyConflict ∧ ∃ id r, db.jobs.lookup id = some r ∧ r.projectID = input.projectID ∧
      r.idempotencyKey = idempotency.key ∧ r.requestHash ≠ idempotency.requestHash) ∨ e.chain = [] := by
  rw [DB.createPreparedJob] at h
  split at h
  · rename_i id r hf
    have hr := Table.mem_rows.mp (List.mem_of_find?_eq_some hf)
    have hp := List.find?_some hf
    simp only [Bool.and_eq_true, beq_iff_eq] at hp
    split at h
    · cases h
      exact .inl ⟨rfl, id, r, hr, hp.1, hp.2, ‹_›⟩
    · cases h
  by_cases hid : (db.jobs.lookup ("job" ++ fresh)).isSome = true
  · simp only [hid, if_true] at h
    cases Except.error.inj h
    exact .inr rfl
  simp only [hid] at h
  rcases bind_eq_error h with h | ⟨queue, -, h⟩
  · exact .inr (Queue.insert_error h)
  · cases h

theorem createPreparedJob_admission {j : Job} {replayed : Bool}
    (h : db.createPreparedJob now fresh input idempotency = .ok ((j, replayed), db')) :
    ∃ r, db'.jobs.lookup j.id = some r ∧ r.admission = (input.projectID, idempotency.key, idempotency.requestHash) := by
  cases replayed with
  | false =>
    obtain ⟨-, -, -, hjobs, -⟩ := createPreparedJob_new h
    exact ⟨_, by rw [hjobs, AList.lookup_insert], rfl⟩
  | true =>
    obtain rfl := createPreparedJob_replayed h
    rw [DB.createPreparedJob] at h
    split at h
    · rename_i id r hf
      have hr := Table.mem_rows.mp (List.mem_of_find?_eq_some hf)
      have hp := List.find?_some hf
      simp only [Bool.and_eq_true, beq_iff_eq] at hp
      split at h
      · cases h
      rename_i hhash
      cases h
      exact ⟨r, hr, by simp [JobRow.admission, hp, not_not.mp hhash]⟩
    simp only [check_eq_ok, bind_eq_ok, pure_eq_ok, Prod.mk.injEq] at h
    obtain ⟨-, queue, -, ⟨-, hf⟩, -⟩ := h
    cases hf

theorem Tx.fails {x : Tx} (h : x.run now fresh db = .error e) : Call.Fails (.tx x) e := by
  cases x with
  | createPreparedJob input idempotency =>
    rcases createPreparedJob_error h with ⟨rfl, -⟩ | hcha
    · exact fun _ => rfl
    · exact fun href => by rw [refuses_of_chain_nil hcha] at href; cases href
  | job id =>
    rcases bind_eq_error h with h | ⟨_, -, h⟩
    · rw [DB.job] at h
      split at h <;> cases h
      rfl
    · cases h
  | operationState op =>
    rcases bind_eq_error h with h | ⟨_, -, h⟩
    · rw [DB.operationState] at h
      split at h <;> cases h
      rfl
    · cases h
  | renewOperationLease op =>
    rcases bind_eq_error h with h | ⟨⟨count, db1⟩, -, h⟩
    · rcases bind_eq_error h with h | ⟨_, -, h⟩
      · rw [Queue.update] at h
        split at h
        · cases h
        split at h
        · split at h <;> cases h
          rfl
        · cases h
      · cases h
    simp only [] at h
    split at h
    · cases Except.error.inj h
      rfl
    · cases h
  | audit principal projectID action targetID metadata => cases h
  | _ => trivial

theorem Tx.admission_kept {x : Tx} {a : x.Val} (h : x.run now fresh db = .ok (a, db')) {id : String} {r : JobRow}
    (hr : db.jobs.lookup id = some r) : ∃ r', db'.jobs.lookup id = some r' ∧ r'.admission = r.admission := by
  obtain ⟨r', hr', rfl | ⟨p, f, hupd, -, rfl⟩⟩ := Tx.job_after h hr
  · exact ⟨r', hr', rfl⟩
  · exact ⟨f r, hr', by cases hupd <;> rfl⟩

end Store

/-! ## Runs -/

structure Preparation.Sound (cfg : Config) (g : Preparation) (db : DB) : Prop where
  job : ∀ message id, g.message = some message → g.job = some id → ∃ p input idempotency r, g.project = some p ∧
    Api.admission cfg p message = .ok (input, idempotency) ∧ db.jobs.lookup id = some r ∧
    r.admission = (input.projectID, idempotency.key, idempotency.requestHash)
  conflict : ∀ message, g.message = some message → g.conflict = true → ∃ p input idempotency id r, g.project = some p ∧
    Api.admission cfg p message = .ok (input, idempotency) ∧ db.jobs.lookup id = some r ∧
    r.projectID = input.projectID ∧ r.idempotencyKey = idempotency.key ∧ r.requestHash ≠ idempotency.requestHash
  answer : ∀ message a, g.message = some message → g.answer = some a → g.Answers cfg message a

section Runs

variable {cfg : Config} {t : Nat} {ch : Choice} {s s' : Sys} {sp : Option Label} {g : Preparation} {c : Call}

theorem preparations_fact {r : c.Ret} (h : exec t ch s c = some (r, s', sp)) :
    (preparations cfg).fact g c r := by
  cases c with
  | tx x =>
    obtain ⟨-, ⟨e, rfl, -, hpla | ⟨fresh, hrun⟩⟩ | ⟨a, db, fresh, rfl, -, ha⟩⟩ := exec_run h
    · cases x
      case createPreparedJob input idempotency => exact fun href => by rw [refuses_of_plain hpla] at href; cases href
      all_goals first | exact refuses_of_plain hpla | trivial
    · exact Tx.fails hrun
    cases x with
    | job id => exact (Tx.run_effect ha).2.1
    | _ => trivial
  | issue op =>
    rcases r with e | u
    · simp only [exec] at h
      split at h
      · cases h
      · obtain ⟨hpla, heq⟩ := Option.ite_none_left_eq_some.mp h
        cases heq
        exact refuses_of_plain (Bool.eq_false_iff.mpr hpla)
      · cases h
    · trivial
  | _ => trivial

theorem Preparation.Sound.mono {db db' : DB} (h : g.Sound cfg db)
    (hkept : ∀ id r, db.jobs.lookup id = some r → ∃ r', db'.jobs.lookup id = some r' ∧ r'.admission = r.admission) :
    g.Sound cfg db' where
  job message id hm hj := by
    obtain ⟨p, input, idempotency, r, hp, hadm, hr, hrow⟩ := h.job message id hm hj
    obtain ⟨r', hr', hsame⟩ := hkept id r hr
    exact ⟨p, input, idempotency, r', hp, hadm, hr', hsame.trans hrow⟩
  conflict message hm hc := by
    obtain ⟨p, input, idempotency, id, r, hp, hadm, hr, h1, h2, h3⟩ := h.conflict message hm hc
    obtain ⟨r', hr', hsame⟩ := hkept id r hr
    simp only [JobRow.admission, Prod.mk.injEq] at hsame
    exact ⟨p, input, idempotency, id, r', hp, hadm, hr', by rw [hsame.1, h1], by rw [hsame.2.1, h2], by rwa [hsame.2.2]⟩
  answer := h.answer

theorem learn_of_aside (hc : c.aside = true) (r : c.Ret) : g.learn c r = g := by
  unfold Preparation.learn
  split <;> first | rfl | cases hc

theorem Preparation.Sound.found (h : g.Sound cfg s'.db) {principal : Principal} {selector : String}
    (hguard : (preparations cfg).guard g (.authorizeProject principal selector)) (p : Project) :
    ({ g with project := g.project.or (some p) } : Preparation).Sound cfg s'.db := by
  cases hproject : g.project with
  | some p' =>
    rw [Option.some_or, ← hproject]
    exact h
  | none =>
    refine ⟨fun message id hm hj => ?_, fun message hm hc => ?_, fun message a hm ha => ?_⟩
    · obtain ⟨p', -, -, -, hp', -⟩ := h.job message id hm hj
      rw [hproject] at hp'
      cases hp'
    · obtain ⟨p', -, -, -, -, hp', -⟩ := h.conflict message hm hc
      rw [hproject] at hp'
      cases hp'
    have hnone := hguard message hm hproject
    rw [show g.answer = some a from ha] at hnone
    cases hnone

theorem Preparation.Sound.created {input : PrepareJob} {idempotency : Idempotency}
    {r : Except Err (Job × Bool)} (h : g.Sound cfg s'.db)
    (hguard : (preparations cfg).guard g (.tx (.createPreparedJob input idempotency)))
    (hexec : exec t ch s (.tx (.createPreparedJob input idempotency)) = some (r, s', sp)) :
    (g.learn (.tx (.createPreparedJob input idempotency)) r).Sound cfg s'.db := by
  have hnone : ∀ message a, g.message = some message → g.answer = some a → False := by
    intro message a hm ha
    have := (hguard message hm).2.2.1
    rw [ha] at this
    cases this
  obtain ⟨-, ⟨e, rfl, rfl, he⟩ | ⟨⟨job, replayed⟩, db, fresh, rfl, rfl, ha⟩⟩ := exec_run hexec
  · refine ⟨h.job, fun message hm hconfig => ?_, fun message a hm ha => (hnone message a hm ha).elim⟩
    obtain ⟨-, -, -, p, hp, hadm⟩ := hguard message hm
    have hconfig : e.is .idempotencyConflict = true := hconfig
    rcases he with hpla | ⟨fresh, hrun⟩
    · simp [ofControl, hconfig] at hpla
    rcases createPreparedJob_error hrun with ⟨-, id, r, hr, h1, h2, h3⟩ | hcha
    · exact ⟨p, input, idempotency, id, r, hp, hadm, hr, h1, h2, h3⟩
    · simp [Err.is, hcha] at hconfig
  refine ⟨fun message id hm hj => ?_, h.conflict, fun message a hm ha => (hnone message a hm ha).elim⟩
  obtain ⟨-, -, -, p, hp, hadm⟩ := hguard message hm
  obtain ⟨r, hr, hrow⟩ := createPreparedJob_admission ha
  cases hj
  exact ⟨p, input, idempotency, r, hp, hadm, hr, hrow⟩

theorem Preparation.Sound.learn {r : c.Ret} (h : g.Sound cfg s'.db) (hguard : (preparations cfg).guard g c)
    (hexec : exec t ch s c = some (r, s', sp)) : (g.learn c r).Sound cfg s'.db := by
  by_cases hc : c.aside = true
  · rw [learn_of_aside hc]
    exact h
  cases c
  case authorizeProject principal selector =>
    rcases r with e | p
    · exact h
    · exact h.found hguard p
  case respond request answer =>
    refine ⟨h.job, h.conflict, fun message a hm ha => ?_⟩
    cases ha
    exact (hguard message hm).2
  case tx x =>
    cases x
    case createPreparedJob input idempotency => exact h.created hguard hexec
    all_goals exact absurd rfl hc
  all_goals exact absurd rfl hc

theorem preparations_lasting (cfg : Config) (now : Time) :
    Lasting (machine cfg) Conc.Rules.all (preparations cfg) (Sys.fresh now) (fun s => s.db.UniqueKeys)
      fun g s => g.Sound cfg s.db where
  init := (runStore_admissions []).1
  start s l := ⟨fun _ _ _ h => (by cases h), fun _ _ h => (by cases h), fun _ _ _ h => (by cases h)⟩
  env w e s hV he _ := by
    rw [env_db he]
    exact ⟨hV, fun _ h => h⟩
  crash w hV _ := ⟨hV, fun _ h => h⟩
  call w t g c ch r s sp hV hg hguard hexec _ := by
    change exec t ch w.st c = some (r, s, sp) at hexec
    have hdb : s.db.UniqueKeys ∧ ∀ g' : Preparation, g'.Sound cfg w.st.db → g'.Sound cfg s.db := by
      by_cases hc : ∃ x, c = .tx x
      · obtain ⟨x, rfl⟩ := hc
        obtain ⟨-, ⟨e, rfl, rfl, -⟩ | ⟨a, db, fresh, rfl, rfl, ha⟩⟩ := exec_run hexec
        · exact ⟨hV, fun _ h => h⟩
        · exact ⟨Tx.uniqueKeys ha hV, fun _ h => h.mono fun id r hr => Tx.admission_kept ha hr⟩
      rw [exec_db (fun x h => hc ⟨x, h⟩) hexec]
      exact ⟨hV, fun _ h => h⟩
    exact ⟨preparations_fact hexec, hdb.1, (hdb.2 g hg).learn hguard hexec, hdb.2⟩

end Runs

/-! ## Repetitions -/

/-- The request that was accepted as a job in the preparation `g` is not refused when it is repeated as `g'`: it finds the
same job, and so does the client. -/
structure Preparation.Repeats (g g' : Preparation) : Prop where
  job : ∀ id id', g.job = some id → g'.job = some id' → id' = id
  reply : ∀ id reply, g.job = some id → g'.answer = some (.ok reply) →
    ∃ job connection, reply = .job (some job) connection ∧ job.id = id
  error : ∀ id e, g.job = some id → g'.answer = some (.error e) → e.refuses = false

/-- **A repeated admission is the original job.** Whatever happens between them and beside them: of two `PrepareJob` calls
with one message, by goroutines `t` and `t'`, the second returns the job of the first if it finds the project with an image
to which the message resolves as before; and there is one job for the key. -/
theorem prepareJob_repeats {cfg : Config} {σ : Conf} (h : Reaches cfg Conc.Rules.all σ) {t t' : Nat} {g g' : Preparation}
    (hg : (preparations cfg).last t σ.log = some g) (hg' : (preparations cfg).last t' σ.log = some g')
    {message : PrepareJobRequest} (hm : g.message = some message) (hm' : g'.message = some message) {p p' : Project}
    (hp : g.project = some p) (hp' : g'.project = some p') (hid : p'.id = p.id)
    (halike : Api.ResolvesAlike message p p') : g.Repeats g' ∧ σ.st.db.UniqueKeys := by
  obtain ⟨now, hreach⟩ := h
  obtain ⟨hkeys, hsound⟩ :=
    (run_invariant (preparations_body cfg) (fun _ _ => trivial) (preparations_lasting cfg now).keeps hreach).2
  refine ⟨?_, hkeys⟩
  have hs := hsound t g hg
  have hs' := hsound t' g' hg'
  -- both are the same admission, of the one job with its key
  have hsame : ∀ {id}, g.job = some id → ∃ input idempotency r, Api.admission cfg p' message = .ok (input, idempotency) ∧
      σ.st.db.jobs.lookup id = some r ∧ r.admission = (input.projectID, idempotency.key, idempotency.requestHash) := by
    intro id hj
    obtain ⟨p1, input, idempotency, r, hp1, hadm, hr, hrow⟩ := hs.job message id hm hj
    rw [hp] at hp1
    cases hp1
    exact ⟨input, idempotency, r, admission_alike hadm hid halike, hr, hrow⟩
  have hjob : ∀ id id', g.job = some id → g'.job = some id' → id' = id := by
    intro id id' hj hj'
    obtain ⟨input, idempotency, r, hadm, hr, hrow⟩ := hsame hj
    obtain ⟨p1, input', idempotency', r', hp1, hadm', hr', hrow'⟩ := hs'.job message id' hm' hj'
    rw [hp'] at hp1
    cases hp1
    rw [hadm] at hadm'
    cases hadm'
    simp only [JobRow.admission, Prod.mk.injEq] at hrow hrow'
    exact hkeys.job _ _ _ _ hr' hr (by rw [hrow.1, hrow'.1]) (by rw [hrow.2.1, hrow'.2.1])
  refine ⟨hjob, fun id reply hj ha => ?_, fun id e hj ha => ?_⟩
  · obtain ⟨job, connection, rfl, hj'⟩ := hs'.answer message _ hm' ha
    exact ⟨job, connection, rfl, hjob id job.id hj hj'⟩
  by_contra href
  obtain ⟨input, idempotency, r, hadm, hr, hrow⟩ := hsame hj
  rcases hs'.answer message _ hm' ha (by simpa using href) with hconflict | hrefused
  · obtain ⟨p1, input', idempotency', id', r', hp1, hadm', hr', h1, h2, h3⟩ := hs'.conflict message hm' hconflict
    rw [hp'] at hp1
    cases hp1
    rw [hadm] at hadm'
    cases hadm'
    simp only [JobRow.admission, Prod.mk.injEq] at hrow
    obtain rfl := hkeys.job _ _ _ _ hr' hr (by rw [hrow.1, h1]) (by rw [hrow.2.1, h2])
    rw [hr] at hr'
    cases hr'
    exact h3 hrow.2.2
  · exact hrefused p' hp' _ hadm

def Preparation.isFor (message : PrepareJobRequest) (project : Project) (test : Preparation → Bool) (g : Preparation) : Bool :=
  g.message == some message && g.project == some project && test g

theorem exists_isFor {project : Project} {test : Preparation → Bool} {o : Option Preparation}
    (h : o.any (Preparation.isFor message project test) = true) :
    ∃ g, o = some g ∧ g.message = some message ∧ g.project = some project ∧ test g = true := by
  obtain ⟨g, hg, h⟩ := (Option.any_eq_true ..).mp h
  simp only [Preparation.isFor, Bool.and_eq_true, beq_iff_eq] at h
  exact ⟨g, hg, h.1.1, h.1.2, h.2⟩

def repeatedMessage : PrepareJobRequest := ⟨"project", "image", none, "", none, none, "first", none, none, [], ""⟩

/-- The request is sent again while the project's image is the same. -/
theorem prepareJob_repeats_prepared : ∃ σ g g', Reaches sampleConfig Conc.Rules.all σ ∧
    (preparations sampleConfig).last 5 σ.log = some g ∧ (preparations sampleConfig).last 6 σ.log = some g' ∧
    g.job = some "job1" ∧ g'.answer.isSome = true ∧ g.Repeats g' ∧ σ.st.db.UniqueKeys := by
  obtain ⟨σ, hr, hp⟩ := reaches_of_steps sampleConfig (prepared ++ asks 6 (prepareRequest "first") ++
      [authorized 6, .run 6 .go] ++ goes 6 2 ++ .run 6 (.snapshot roomy) :: goes 6 8)
    (p := fun σ => ((preparations sampleConfig).last 5 σ.log).any
        (Preparation.isFor repeatedMessage ⟨"project", "image", false⟩ fun g => g.job == some "job1") &&
      ((preparations sampleConfig).last 6 σ.log).any
        (Preparation.isFor repeatedMessage ⟨"project", "image", false⟩ fun g => g.answer.isSome)) (by decide +kernel)
  rw [Bool.and_eq_true] at hp
  obtain ⟨g, hg, hm, hproject, hj⟩ := exists_isFor hp.1
  obtain ⟨g', hg', hm', hproject', ha⟩ := exists_isFor hp.2
  obtain ⟨hrepeats, hkeys⟩ := prepareJob_repeats hr hg hg' hm hm' hproject hproject' rfl (.inr (.inl rfl))
  exact ⟨σ, g, g', hr, hg, hg', eq_of_beq hj, ha, hrepeats, hkeys⟩

def Preparation.failsWith (g : Preparation) (e : ApiError) : Bool :=
  match g.answer with
  | some (.error e') => e' == e
  | _ => false

theorem answer_of_failsWith {g : Preparation} {e : ApiError} (h : g.failsWith e = true) : g.answer = some (.error e) := by
  unfold Preparation.failsWith at h
  split at h
  · rw [‹g.answer = _›, eq_of_beq h]
  · cases h

def hashingConfig : Config := { sampleConfig with admissionHash := fun input => input.image }

/-- The message comes a second time, when the project has become `p'`, and is refused with `e` although it is the message of a
job. -/
def RefusedAgain (message : PrepareJobRequest) (e : ApiError) : Prop :=
  ∃ σ g g' p p', Reaches hashingConfig Conc.Rules.all σ ∧ (preparations hashingConfig).last 5 σ.log = some g ∧
    (preparations hashingConfig).last 6 σ.log = some g' ∧ g.message = some message ∧ g'.message = some message ∧
    g.project = some p ∧ g'.project = some p' ∧ p'.id = p.id ∧ g.job = some "job1" ∧ g'.answer = some (.error e) ∧ ¬ g.Repeats g'

def sentTwice (message : PrepareJobRequest) (p p' : Project) (n : Nat) : List Event :=
  settled ++ asks 5 (.prepareJob message) ++ [.run 5 (.project p), .run 5 (.fresh "1")] ++ goes 5 3 ++
    .run 5 (.snapshot roomy) :: goes 5 10 ++ asks 6 (.prepareJob message) ++ [.run 6 (.project p')] ++ goes 6 n

theorem refusedAgain (p p' : Project) (n : Nat) {e : ApiError} (hid : p'.id = p.id) (he : e.refuses = true)
    (h : ((machine hashingConfig).steps (Conc.Machine.init (Sys.fresh sampleTime)) (sentTwice message p p' n)).any (fun σ =>
      ((preparations hashingConfig).last 5 σ.log).any (Preparation.isFor message p fun g => g.job == some "job1") &&
      ((preparations hashingConfig).last 6 σ.log).any (Preparation.isFor message p' fun g => g.failsWith e)) = true) :
    RefusedAgain message e := by
  obtain ⟨σ, hr, hp⟩ := reaches_of_steps hashingConfig (sentTwice message p p' n) h
  rw [Bool.and_eq_true] at hp
  obtain ⟨g, hg, hm, hproject, hj⟩ := exists_isFor hp.1
  obtain ⟨g', hg', hm', hproject', ha⟩ := exists_isFor hp.2
  have ha := answer_of_failsWith ha
  refine ⟨σ, g, g', _, _, hr, hg, hg', hm, hm', hproject, hproject', hid, eq_of_beq hj, ha, fun h => ?_⟩
  rw [h.error _ _ (eq_of_beq hj) ha] at he
  cases he

def imagelessMessage : PrepareJobRequest := { repeatedMessage with image := "" }

def namedMessage : PrepareJobRequest := { repeatedMessage with image := "other image" }

/-- The repetition is refused as a conflict when another image has been activated, although the message and the project are the
same. If the message names an image, it is denied when overrides have been switched off, although it is hashed alike. -/
theorem prepareJob_conflicts : RefusedAgain imagelessMessage (Api.connectError .idempotencyConflict) ∧
    RefusedAgain namedMessage ⟨.permissionDenied, "project image overrides are disabled"⟩ :=
  ⟨refusedAgain ⟨"project", "image", false⟩ ⟨"project", "newer image", false⟩ 2 rfl rfl (by decide +kernel),
    refusedAgain ⟨"project", "image", true⟩ ⟨"project", "image", false⟩ 1 rfl rfl (by decide +kernel)⟩

end Autback
