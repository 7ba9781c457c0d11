import Autback.Server.ApiFrames
import Autback.Server.Steps
import Autback.Store.Agree
import Autback.Store.Moves

/-!
# Records and rows in runs of the server

What a goroutine knows (`Knowledge`) is what it has read and done: that a job has left its preparation, that a build has ended.
The code activates a job only if it knows that the job has been started, and asks for the teardown of a build only if it has ended
it. So builds and their rows agree in every run (`builds_agree`), and jobs and their rows if no transaction parts them
(`jobs_agree`).
-/

namespace Autback

open Conc Ghost

/-- What a goroutine knows: the jobs that it has seen past their preparation and the builds that it has ended. -/
structure Knowledge where
  (started ended : List String)

def Knowledge.learn (g : Knowledge) (c : Call) (r : c.Ret) : Knowledge :=
  match c, r with
  | .tx (.job id), Except.ok (job : Job) =>
    if job.status = .preparing then g else { g with started := id :: g.started }
  | .tx .scheduledJobs, Except.ok (jobs : List Job) => { g with started := jobs.map Job.id ++ g.started }
  | .tx (.finishBuild id _ _), Except.ok _ => { g with ended := id :: g.ended }
  | _, _ => g

def Call.unguarded : Call → Bool
  | .tx (.activateOperation ⟨.job, _⟩) | .tx (.syncJob _ _) | .tx (.beginOperationCleanup ⟨.build, _⟩)
  | .tx (.cancelQueuedOperation _) => false
  | _ => true

def records : Ghost Call Call.Ret Label Knowledge where
  start _ := ⟨[], []⟩
  next := Knowledge.learn
  guard g c := match c with
    | .tx (.activateOperation ⟨.job, id⟩) => id ∈ g.started
    | .tx (.syncJob _ remote) => remote.status ≠ .preparing
    | .tx (.beginOperationCleanup ⟨.build, id⟩) => id ∈ g.ended
    | .tx (.cancelQueuedOperation _) => False
    | _ => True
  fact _ c r := match c, r with
    | .status _, Except.ok (remote : RemoteJob) => remote.status ≠ .preparing
    | .managedJobs, Except.ok (managed : List RuntimeJob) =>
      ∀ e ∈ managed, ∀ remote, e.job = .ok remote → remote.status ≠ .preparing
    | _, _ => True
  exit _ _ := True

def Knows (ids : List String) (g : Knowledge) : Prop := ∀ id ∈ ids, id ∈ g.started

section Walk

variable {ids : List String} {g : Knowledge}

theorem learn_started {c : Call} {r : c.Ret} {id : String} (h : id ∈ g.started) : id ∈ (g.learn c r).started := by
  unfold Knowledge.learn
  split
  · split
    · exact h
    · exact List.mem_cons_of_mem _ h
  · exact List.mem_append_right _ h
  · exact h
  · exact h

theorem Knows.learn (h : Knows ids g) (c : Call) (r : c.Ret) : Knows ids (g.learn c r) :=
  fun id hid => learn_started (h id hid)

theorem records_still {c : Call} (hc : c.unguarded = true) : records.Still (Knows ids) c := by
  refine fun g hg => ⟨?_, fun r _ => hg.learn c r⟩
  simp only [records]
  split <;> first | cases hc | trivial

theorem records_quiet (c : Call) (hc : c.quiet = true) : records.Still (Knows ids) c := by
  refine records_still ?_
  cases c with
  | tx x => cases x <;> first | rfl | cases hc
  | _ => rfl

theorem records_advance : records.Within (Knows ids) advance :=
  within_advance records_quiet (records_still rfl) (records_still rfl)

theorem records_request (id : String) : records.Within (Knows ids) (Coordinator.request (jobOp id)) :=
  within_request (quiet_tx records_quiet) (records_still rfl) (records_still rfl)

theorem records_clearing (c : Call) (hc : c.clearing = true) : records.Still (Knows ids) c := by
  refine records_still ?_
  cases c with
  | tx x => cases x <;> first | rfl | cases hc
  | _ => rfl

theorem records_rejectJob (context id : String) (e : Err) :
    records.Within (Knows ids) (Dispatcher.rejectJob context id e) :=
  within_rejectJob records_quiet (fun _ => records_still rfl) (records_request id) context e

variable (cfg : Config) (scope : Scope)

theorem records_createJob (job : Job) (id : String) :
    records.Within (Knows (id :: ids)) (Dispatcher.createJob scope job id) := by
  have hactive : records.Still (Knows (id :: ids)) (.tx (.activateOperation (jobOp id))) :=
    fun g hg => ⟨hg id (List.mem_cons_self ..), fun r _ => hg.learn _ r⟩
  refine within_createJob records_quiet (records_still rfl) ?_ fun context e => records_rejectJob context id e
  exact within_activateJob records_quiet hactive (records_still rfl)

theorem records_admitOperation (op : Op) : records.Within (Knows ids) (Dispatcher.admitOperation scope op) := by
  obtain ⟨kind, id⟩ := op
  cases kind with
  | build =>
    exact within_admitPrepared records_quiet (fun context e => records_rejectJob context id e) (records_still rfl)
      (within_mapError (within_lift (records_still rfl)))
  | job =>
    intro g hg
    refine safe_try.mpr (safe_mapError.mpr ⟨trivial, fun r _ => ?_⟩)
    rcases r with e | (job : Job)
    · exact hg
    refine safe_ite (fun _ => hg.learn _ _) fun hstatus => ?_
    have hknow : Knows (id :: ids) (g.learn (.tx (.job id)) (Except.ok job)) := by
      simp only [Knowledge.learn, if_neg hstatus]
      rintro id' (_ | ⟨_, hid⟩)
      · exact List.mem_cons_self ..
      · exact List.mem_cons_of_mem _ (hg id' hid)
    refine (within_admitPrepared records_quiet (fun context e => records_rejectJob context id e) (records_still rfl)
      (records_createJob scope job id) _ hknow).mono ?_
    exact fun g' _ hg' id' hid => hg' id' (List.mem_cons_of_mem _ hid)

theorem records_runOnce : records.Within (Knows ids) (Dispatcher.runOnce cfg scope) :=
  within_runOnce_of_reserve records_quiet records_clearing
    (within_reserve records_quiet (records_still rfl) (records_admitOperation scope))

theorem records_refreshRemote (id : String) : records.Within (Knows ids) (Api.refreshRemote id) := by
  intro g hg
  refine safe_try.mpr ⟨trivial, fun r hr => ?_⟩
  rcases r with e | (remote : RemoteJob)
  · exact hg
  have hsync : records.Still (Knows ids) (.tx (.syncJob id remote)) := fun g hg => ⟨hr, fun r _ => hg.learn _ r⟩
  refine within_try (within_try (within_lift hsync) fun _ => within_quiet records_quiet _ rfl) (fun job => ?_) _
    (hg.learn _ _)
  split
  · exact within_try (within_ofProg records_advance) fun _ => within_ok _
  · exact within_ok _

theorem records_handlers : HandlerParts records (Knows ids) cfg := by
  refine handlerParts records_quiet (fun c hc => records_still ?_) (records_runOnce cfg .request) records_request
    records_refreshRemote
  cases c with
  | tx x => cases x <;> first | rfl | cases hc
  | _ => rfl

theorem records_expireBuild (build : Build) : records.Within (Knows ids) (Reconciler.expireBuild build) := by
  intro g hg
  refine safe_bind.mpr (safe_try.mpr ⟨trivial, fun r _ => ?_⟩)
  rcases r with e | u
  · exact hg.learn _ _
  let A : Knowledge → Prop := fun g => Knows ids g ∧ build.id ∈ g.ended
  have hgrow : ∀ c, c.unguarded = true ∨ c = .tx (.beginOperationCleanup (buildOp build.id)) → records.Still A c := by
    rintro c hc g ⟨hg, hb⟩
    refine ⟨?_, fun r _ => ⟨hg.learn c r, ?_⟩⟩
    · rcases hc with hc | rfl
      · exact (records_still hc g hg).1
      · exact hb
    simp only [records, Knowledge.learn]
    split
    · split <;> exact hb
    · exact hb
    · exact List.mem_cons_of_mem _ hb
    · exact hb
  have hqui : ∀ c, c.quiet = true → records.Still A c := by
    intro c hc
    refine hgrow c (.inl ?_)
    cases c with
    | tx x => cases x <;> first | rfl | cases hc
    | _ => rfl
  have hA : A (g.learn (.tx (.finishBuild build.id .cancelled 130)) (Except.ok u)) :=
    ⟨hg.learn _ _, List.mem_cons_self ..⟩
  refine ((within_quiet hqui (.tx (.build build.id)) rfl) _ hA).mono ?_
  rintro g' (e | b) hg'
  · exact hg'.1
  refine (within_reported (within_request (quiet_tx hqui) (hgrow _ (.inr rfl)) (hgrow _ (.inl rfl))) g' hg').mono ?_
  exact fun _ _ h => h.1

theorem records_reconcilerRun : records.Within (Knows []) (reconcilerRun cfg) := by
  have hsync : ∀ {ids : List String} (id : String) (remote : RemoteJob), remote.status ≠ .preparing →
      records.Within (Knows ids) (Reconciler.syncAndRelease id remote) := fun id remote hremote =>
    within_syncAndRelease (quiet_tx records_quiet) (fun g hg => ⟨hremote, fun r _ => hg.learn _ r⟩) (records_request id)
  refine within_reconcilerRun_listed (A := Knows) (fun _ => records_quiet) (nofun)
    (fun g jobs _ id hid => List.mem_append_left _ hid) (fun _ _ h => h) ?_ records_expireBuild ?_ ?_
    fun _ _ => records_still rfl
  · exact within_expirePreparation (quiet_tx records_quiet) (fun _ => records_still rfl) records_request
  · exact fun _ now id => within_syncMissing (quiet_tx records_quiet) (hsync id _ (by simp [Reconciler.lostJob]))
  exact fun _ id remote hid hremote => within_syncPresent (quiet_tx records_quiet)
    (fun g hg => ⟨hg id hid, fun r _ => hg.learn _ r⟩) (hsync id remote hremote)

theorem records_background : BackgroundParts records (Knows ids) cfg where
  background := fun c hc => records_still (by cases c <;> first | rfl | cases hc)
  advance := records_advance
  maintain := within_maintain records_quiet records_clearing _
  dispatcher := records_runOnce cfg .process
  coordinator := within_coordinatorRunOnce records_quiet (records_still rfl) (fun _ _ _ => records_still rfl)
    (fun _ _ => records_still rfl) (fun _ => records_still rfl) records_advance

theorem records_body (l : Label) : records.Safe (records.start l) (body cfg l) records.exit := by
  have h : records.Within (Knows []) (body cfg l) :=
    within_body (records_handlers cfg) (records_background cfg) records_refreshRemote fun _ => records_reconcilerRun cfg
  exact (h _ nofun).mono fun _ _ _ => trivial

end Walk

/-! ## What is known holds -/

def View.Prepares (v : View) : Prop :=
  ∀ id j r, v.job id = some j → v.row (jobOp id) = some r → r.state = .active → j.status ≠ .preparing

structure Knowledge.Sound (g : Knowledge) (v : View) : Prop where
  started : ∀ id ∈ g.started, ∃ j, v.job id = some j ∧ j.status ≠ .preparing
  ended : ∀ id ∈ g.ended, ∃ r, v.row (buildOp id) = some r ∧ r.state.live = false

section Effects

variable {v v' : View} {x : Tx} {a : x.Val} {g : Knowledge}

theorem Tx.Writes.started {id : String} {j j' : JobView} (h : x.Writes a id j j')
    (hsync : ∀ id remote, x = .syncJob id remote → remote.status ≠ .preparing) : j'.status ≠ .preparing := by
  cases x <;> simp only [Tx.Writes] at h
  case syncJob id' remote =>
    rw [h.2.2]
    exact hsync id' remote rfl
  case requestJobCancellation id' =>
    obtain ⟨-, -, rfl | ⟨hne, rfl⟩⟩ := h
    · decide
    · exact hne
  all_goals simp [h.2.2]

theorem Tx.Effect.started {id : String} (he : x.Effect a v v')
    (hsync : ∀ id remote, x = .syncJob id remote → remote.status ≠ .preparing)
    (h : ∃ j, v.job id = some j ∧ j.status ≠ .preparing) : ∃ j, v'.job id = some j ∧ j.status ≠ .preparing := by
  obtain ⟨j, hj, hs⟩ := h
  obtain ⟨j', hj', rfl | hw⟩ := he.job hj
  · exact ⟨j', hj', hs⟩
  · exact ⟨j', hj', hw.started hsync⟩

theorem Tx.Effect.ended {op : Op} (he : x.Effect a v v') (h : ∃ r, v.row op = some r ∧ r.state.live = false) :
    ∃ r, v'.row op = some r ∧ r.state.live = false := by
  obtain ⟨r, hr, hs⟩ := h
  obtain ⟨r', hr', -, h | hm⟩ := he.row hr
  · exact ⟨r', hr', h ▸ hs⟩
  · exact ⟨r', hr', hm.ended hs⟩

theorem Knowledge.Sound.effect (h : g.Sound v) (he : x.Effect a v v')
    (hsync : ∀ id remote, x = .syncJob id remote → remote.status ≠ .preparing) : g.Sound v' :=
  ⟨fun id hid => he.started hsync (h.started id hid), fun id hid => he.ended (h.ended id hid)⟩

theorem Tx.Effect.prepares (he : x.Effect a v v') (h : v.Prepares)
    (hsync : ∀ id remote, x = .syncJob id remote → remote.status ≠ .preparing)
    (hactive : ∀ id, x = .activateOperation (jobOp id) → ∃ j, v.job id = some j ∧ j.status ≠ .preparing) :
    v'.Prepares := by
  intro id j' r' hj' hr' hs
  cases hj : v.job id with
  | none =>
    obtain ⟨-, hrow⟩ := he.job_new hj hj'
    rw [hrow] at hr'
    cases hr'
    cases hs
  | some j =>
    obtain ⟨j1, hj1, hw⟩ := he.job hj
    rw [hj'] at hj1
    cases hj1
    rcases hw with rfl | hw
    · cases hr : v.row (jobOp id) with
      | none =>
        obtain ⟨-, rfl⟩ := he.row_new hr hr'
        cases hs
      | some r =>
        obtain ⟨r1, hr1, -, hm⟩ := he.row hr
        rw [hr'] at hr1
        cases hr1
        rcases hm with hm | hm
        · exact h id j' r hj hr (hm ▸ hs)
        -- only an activation makes a row active
        cases x <;> simp only [Tx.Moves, hs] at hm <;> try simp at hm
        obtain ⟨hop, -⟩ := hm
        obtain ⟨j0, hj0, hne⟩ := hactive id (by rw [hop])
        rw [hj] at hj0
        cases hj0
        exact hne
    · exact hw.started hsync

theorem Knowledge.Sound.learn (h : g.Sound v') (he : x.Effect a v v') (hb : v.BuildsAgree) :
    (g.learn (.tx x) (Except.ok a)).Sound v' := by
  cases x with
  | job id =>
    obtain ⟨rfl, -, hj⟩ := he
    simp only [Knowledge.learn]
    split
    · exact h
    rename_i hs
    refine ⟨fun id' hid => ?_, h.ended⟩
    rcases List.mem_cons.mp hid with rfl | hid
    · exact ⟨_, hj, hs⟩
    · exact h.started id' hid
  | scheduledJobs =>
    obtain ⟨rfl, hjobs⟩ := he
    refine ⟨fun id hid => ?_, h.ended⟩
    rcases List.mem_append.mp hid with hid | hid
    · obtain ⟨j, hj, rfl⟩ := List.mem_map.mp hid
      obtain ⟨hs, hjob, -⟩ := hjobs j hj
      exact ⟨_, hjob, by rcases hs with hs | hs <;> simp [hs]⟩
    · exact h.started id hid
  | finishBuild id status exitCode =>
    refine ⟨h.started, fun id' hid => ?_⟩
    rcases List.mem_cons.mp hid with rfl | hid
    · obtain ⟨-, hbuild, rfl⟩ := he
      obtain ⟨b, hb'⟩ : ∃ b, v.build id' = some b := by rcases hbuild with h | h <;> exact ⟨_, h⟩
      obtain ⟨r, hr, -⟩ := hb id' b hb'
      refine ⟨_, by rw [row_mapRow (v := v.setBuild id' status) hr], ?_⟩
      cases r.state <;> simp [endBuild, endLive, OperationState.live]
    · exact h.ended id' hid
  | _ => exact h

end Effects

/-! ## Runs -/

theorem learn_of_ne_tx {g : Knowledge} {c : Call} (hc : ∀ x, c ≠ .tx x) (r : c.Ret) : g.learn c r = g := by
  cases c with
  | tx x => exact absurd rfl (hc x)
  | _ => rfl

theorem records_fact {t : Nat} {ch : Choice} {s s' : Sys} {c : Call} {r : c.Ret} {sp : Option Label} {g : Knowledge}
    (h : exec t ch s c = some (r, s', sp)) : records.fact g c r := by
  cases c with
  | status id =>
    rcases r with e | remote
    · trivial
    · exact exec_status h
  | managedJobs =>
    rcases r with e | managed
    · trivial
    obtain ⟨broken, rfl⟩ := exec_managedJobs h
    intro e he remote hjob
    obtain ⟨service, -, hs⟩ := mem_managedJobs he hjob
    exact Service.status_ne_preparing hs
  | _ => trivial

/-- What holds of the records in every run: they stand beside their rows, builds agree with them, and jobs in preparation
are not active. -/
structure View.Kept (v : View) : Prop where
  recorded : v.Recorded
  builds : v.BuildsAgree
  prepares : v.Prepares

theorem kept_fresh (now : Time) : (Sys.fresh now).db.view.Kept := by
  refine ⟨⟨?_, ?_, ?_⟩, ?_, ?_⟩ <;> intro id <;> simp [DB.view, Sys.fresh, DB.empty, Queue.empty]

theorem records_local (cfg : Config) (now : Time) :
    Local (machine cfg) Rules.all records (Sys.fresh now) (fun _ => True) (fun s => s.db.view.Kept)
      (fun g s => g.Sound s.db.view) where
  init := kept_fresh now
  start s l _ _ := ⟨fun _ h => (by cases h), fun _ h => (by cases h)⟩
  spawn _ _ _ _ _ _ _ _ _ _ := ⟨fun _ h => (by cases h), fun _ h => (by cases h)⟩
  jump _ _ _ _ _ _ := ⟨fun _ h => (by cases h), fun _ h => (by cases h)⟩
  call w t g c ch r s sp _ hV hg hguard hexec _ := by
    change exec t ch w.st c = some (r, s, sp) at hexec
    refine ⟨records_fact hexec, ?_⟩
    by_cases hc : ∃ x, c = .tx x
    · obtain ⟨x, rfl⟩ := hc
      obtain ⟨-, ⟨e, rfl, rfl⟩ | ⟨a, db, rfl, rfl, he⟩⟩ := exec_tx hexec
      · refine ⟨hV, ?_, fun g' hg' => hg'⟩
        have hsame : records.next g (.tx x) (Except.error e) = g := by cases x <;> rfl
        rwa [hsame]
      have hsync : ∀ id remote, x = .syncJob id remote → remote.status ≠ .preparing := by
        rintro id remote rfl
        exact hguard
      have hactive : ∀ id, x = .activateOperation (jobOp id) →
          ∃ j, w.st.db.view.job id = some j ∧ j.status ≠ .preparing := by
        rintro id rfl
        exact hg.started id hguard
      have hcancel : ∀ op, x ≠ .cancelQueuedOperation op := by
        rintro op rfl
        exact hguard
      have hbegun : ∀ id, x = .beginOperationCleanup (buildOp id) →
          ¬ w.st.db.view.RowIs (buildOp id) OperationState.live := by
        rintro id rfl ⟨r, hr, hs⟩
        obtain ⟨r', hr', hs'⟩ := hg.ended id hguard
        rw [hr] at hr'
        cases hr'
        rw [hs] at hs'
        cases hs'
      have hkept := View.Kept.mk (he.recorded hV.recorded) (he.buildsAgree hV.builds hcancel hbegun)
        (he.prepares hV.prepares hsync hactive)
      exact ⟨hkept, (hg.effect he hsync).learn he hV.builds, fun g' hg' => hg'.effect he hsync⟩
    · have hne : ∀ x, c ≠ .tx x := fun x h => hc ⟨x, h⟩
      have hdb := exec_db hne hexec
      simp only [hdb]
      refine ⟨hV, ?_, fun g' hg' => hg'⟩
      rwa [show records.next g c r = g from learn_of_ne_tx hne r]
  env w e s _ hV he _ := by
    rw [env_db he]
    exact ⟨hV, fun g hg => hg⟩
  crash w _ hV _ := hV

def DB.BuildsAgree (db : DB) : Prop :=
  ∀ id b, db.builds.lookup id = some b → ∃ q, db.queue.table.lookup (buildOp id) = some q ∧ BuildAgrees b.status q.state

def DB.JobsAgree (db : DB) : Prop :=
  ∀ id j, db.jobs.lookup id = some j → ∃ q, db.queue.table.lookup (jobOp id) = some q ∧ JobAgrees j.status q.state

theorem DB.buildsAgree_of_view {db : DB} (h : db.view.BuildsAgree) : db.BuildsAgree := by
  intro id b hb
  obtain ⟨r, hr, ha⟩ := h id b.status (by simp [DB.view, hb])
  obtain ⟨q, hq, rfl⟩ := view_row_eq_some hr
  exact ⟨q, hq, ha⟩

theorem DB.jobsAgree_of_view {db : DB} (h : db.view.JobsAgree) : db.JobsAgree := by
  intro id j hj
  obtain ⟨r, hr, ha⟩ := h id j.view (by simp [DB.view, hj])
  obtain ⟨q, hq, rfl⟩ := view_row_eq_some hr
  exact ⟨q, hq, ha⟩

theorem kept_of_reach {cfg : Config} {K : Rules} {now : Time} {σ : Conf}
    (h : (machine cfg).Reach K (Sys.fresh now) σ) : σ.st.db.view.Kept :=
  (run_invariant (records_body cfg) (fun _ _ => trivial) (records_local cfg now).keeps h.all).2.1

/-- **Builds and rows agree.** In every configuration that the server reaches, the status of a build is queued, running or
terminal just as its row says. -/
theorem builds_agree {cfg : Config} {σ : Conf} (h : Reaches cfg Conc.Rules.all σ) : σ.st.db.BuildsAgree := by
  obtain ⟨now, hr⟩ := h
  exact DB.buildsAgree_of_view (kept_of_reach hr).builds

theorem builds_agree_running : ∃ σ, Reaches sampleConfig Conc.Rules.all σ ∧
    (σ.st.db.builds.lookup "bld1").map BuildRow.status = some .running ∧ σ.st.db.BuildsAgree := by
  obtain ⟨σ, hr, hp⟩ := reaches_of_steps sampleConfig building
    (p := fun σ => (σ.st.db.builds.lookup "bld1").map BuildRow.status == some .running) (by decide +kernel)
  exact ⟨σ, hr, eq_of_beq hp, builds_agree hr⟩

/-! ## Jobs -/

/-- The condition under which jobs agree with their rows: no committed transaction parts a job from its row. -/
def respectful : Rules :=
  { Conc.Rules.all with
    call := fun w _ c r => match c, r with
      | .tx x, Except.ok _ => x.Respects w.st.db.view
      | _, _ => True }

theorem jobs_local (cfg : Config) (now : Time) :
    Local (machine cfg) respectful records (Sys.fresh now) (fun _ => True) (fun s => s.db.view.JobsAgree)
      (fun _ _ => True) where
  init := fun id j h => by simp [DB.view, Sys.fresh, DB.empty] at h
  start _ _ _ _ := trivial
  spawn _ _ _ _ _ _ _ _ _ _ := trivial
  jump _ _ _ _ _ _ := trivial
  call w t g c ch r s sp _ hV _ hguard hexec hK := by
    change exec t ch w.st c = some (r, s, sp) at hexec
    refine ⟨records_fact hexec, ?_, trivial, fun _ _ => trivial⟩
    by_cases hc : ∃ x, c = .tx x
    · obtain ⟨x, rfl⟩ := hc
      obtain ⟨-, ⟨e, rfl, rfl⟩ | ⟨a, db, rfl, rfl, he⟩⟩ := exec_tx hexec
      · exact hV
      refine he.jobsAgree hV ?_ hK
      rintro op rfl
      exact hguard
    rw [exec_db (fun x h => hc ⟨x, h⟩) hexec]
    exact hV
  env w e s _ hV he _ := ⟨by rw [env_db he]; exact hV, fun _ _ => trivial⟩
  crash w _ hV _ := hV

/-- **Jobs and rows agree** in every configuration that the server reaches by transactions none of which parts a job from
its row. -/
theorem jobs_agree {cfg : Config} {σ : Conf} (h : Reaches cfg respectful σ) : σ.st.db.JobsAgree := by
  obtain ⟨now, hr⟩ := h
  exact DB.jobsAgree_of_view
    (run_invariant (records_body cfg) (fun _ _ => trivial) (jobs_local cfg now).keeps hr).2.1

def Call.keepsJobs : Call → Bool
  | .tx (.requestJobCancellation _) | .tx (.syncJob _ _) | .tx (.beginOperationCleanup _) => false
  | _ => true

theorem respectful_of_keepsJobs (w : World) (t : Nat) (c : Call) (r : c.Ret) (h : c.keepsJobs = true) :
    respectful.call w t c r := by
  cases c with
  | tx x =>
    rcases r with e | a
    · trivial
    · cases x <;> trivial
  | _ => trivial

/-- The condition is met by the preparation of a job. -/
theorem jobs_agree_prepared : ∃ σ, Reaches sampleConfig respectful σ ∧
    (σ.st.db.jobs.lookup "job1").map JobRow.status = some .preparing ∧ σ.st.db.JobsAgree := by
  obtain ⟨σ, hr, hp⟩ := reaches_of_stepsIf sampleConfig prepared
    (p := fun σ => (σ.st.db.jobs.lookup "job1").map JobRow.status == some .preparing) (fun _ _ => trivial)
    (fun _ _ => trivial) respectful_of_keepsJobs (by decide +kernel)
  exact ⟨σ, hr, eq_of_beq hp, jobs_agree hr⟩

def cancelsPrepared : List Event :=
  prepared ++ asks 6 (.cancelJob "job1") ++ [.run 6 .go, authorized 6] ++ goes 6 2

/-- The cancellation of a job whose preparation holds the worker ends the job and leaves its row admitting. -/
theorem jobs_disagree : ∃ σ, Reaches sampleConfig Conc.Rules.all σ ∧
    (σ.st.db.jobs.lookup "job1").map JobRow.status = some .cancelled ∧
    (σ.st.db.queue.table.lookup (jobOp "job1")).map (fun q => q.state) = some .admitting ∧ ¬ σ.st.db.JobsAgree := by
  obtain ⟨σ, hr, hp⟩ := reaches_of_steps sampleConfig cancelsPrepared
    (p := fun σ => (σ.st.db.jobs.lookup "job1").map JobRow.status == some .cancelled &&
      (σ.st.db.queue.table.lookup (jobOp "job1")).map (fun q => q.state) == some .admitting) (by decide +kernel)
  rw [Bool.and_eq_true] at hp
  have hjob := eq_of_beq hp.1
  have hrow := eq_of_beq hp.2
  refine ⟨σ, hr, hjob, hrow, fun h => ?_⟩
  obtain ⟨j, hj, hs⟩ := Option.map_eq_some_iff.mp hjob
  obtain ⟨q, hq, ha⟩ := h "job1" j hj
  simp only [hq, Option.map_some, Option.some.injEq] at hrow
  rw [hs, hrow] at ha
  exact absurd ha (by decide)

end Autback
