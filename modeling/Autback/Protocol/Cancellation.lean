import Autback.Conc.History
import Autback.Protocol.Progress

/-!
# What a cancellation answers and records

`CancelJob` (`internal/control/controlapi/server.go`) reads the job, asks the runtime and the store for its cancellation,
refreshes it, and answers with the job and an audit event `job.cancel`. It ignores the error of the refresh and goes on with the
zero job: the answer and the event are then about no job at all (`cancel_answers_nothing`). If the refresh does not fail, they are
about the job that was asked for (`cancel_answers`). The argument is one about the runs of the handler (`Conc/History.lean`).
-/

namespace Autback

open Conc

/-! ## Events of cancellations -/

def Call.inner : Call → Bool
  | .tx (.audit _ _ action _ _) => action != "job.cancel"
  | .respond _ _ => false
  | _ => true

/-- Project and target of the events `job.cancel` that the calls have recorded. -/
def cancelEvents : Trace Call Call.Ret → List (String × String)
  | [] => []
  | ⟨.tx (.audit _ projectID action targetID _), Except.ok _⟩ :: tr =>
    if action = "job.cancel" then (projectID, targetID) :: cancelEvents tr else cancelEvents tr
  | _ :: tr => cancelEvents tr

theorem cancelEvents_append (tr1 tr2 : Trace Call Call.Ret) :
    cancelEvents (tr1 ++ tr2) = cancelEvents tr1 ++ cancelEvents tr2 := by
  fun_induction cancelEvents tr1 with
  | case1 => rfl
  | case2 principal projectID targetID metadata _ tr1 ih => simp [cancelEvents, ih]
  | case3 principal projectID action targetID metadata _ tr1 hne ih => simp [cancelEvents, hne, ih]
  | case4 x tr1 hne ih =>
    rw [List.cons_append, cancelEvents, ih]
    exact hne

theorem cancelEvents_eq_nil {tr : Trace Call Call.Ret} (h : ∀ x ∈ tr, x.1.inner = true) : cancelEvents tr = [] := by
  fun_induction cancelEvents tr with
  | case1 => rfl
  | case2 principal projectID targetID metadata _ tr ih => exact absurd (h _ List.mem_cons_self) (by simp [Call.inner])
  | case3 principal projectID action targetID metadata _ tr hne ih => exact ih fun x hx => h x (List.mem_cons_of_mem _ hx)
  | case4 x tr hne ih => exact ih fun x hx => h x (List.mem_cons_of_mem _ hx)

/-! ## Code that neither answers nor records a cancellation -/

section Plain

abbrev plain : Conc.Ghost Call Call.Ret Label Unit := allowing fun c => c.inner = true

theorem plain_still {c : Call} (hc : c.inner = true) : plain.Still anyGhost c := allowing_still hc

theorem plain_quiet (c : Call) (hc : c.quiet = true) : plain.Still anyGhost c := by
  apply plain_still
  cases c with
  | tx x => cases x <;> first | rfl | exact hc
  | _ => first | rfl | cases hc

theorem plain_advance : plain.Within anyGhost advance :=
  within_advance plain_quiet (plain_still rfl) (plain_still rfl)

theorem plain_request (op : Op) : plain.Within anyGhost (Coordinator.request op) :=
  within_request (quiet_tx plain_quiet) (plain_still rfl) (plain_still rfl)

theorem plain_runOnce (cfg : Config) (scope : Scope) : plain.Within anyGhost (Dispatcher.runOnce cfg scope) := by
  refine within_runOnce_of_reserve plain_quiet (fun c hc => plain_still ?_)
      (within_reserve plain_quiet (plain_still rfl) fun op => ?_)
  · cases c with
    | tx x => cases x <;> first | rfl | cases hc
    | _ => first | rfl | cases hc
  exact within_admits plain_quiet (within_rejectJob plain_quiet (fun _ => plain_still rfl) (plain_request _)) (plain_still rfl)
    (fun _ => plain_still rfl) (fun _ => plain_still rfl) (plain_still rfl)

theorem plain_refreshRemote (id : String) : plain.Within anyGhost (Api.refreshRemote id) :=
  within_refreshRemote plain_quiet (fun _ => plain_still rfl) plain_advance

theorem plain_refreshJob (job : Job) : plain.Within anyGhost (Api.refreshJob job) :=
  within_refreshJob plain_quiet (plain_refreshRemote job.id)

theorem cancelEvents_of_plain {α : Type} {p : Srv α} {tr : Trace Call Call.Ret} {a : α} (hp : plain.Within anyGhost p)
    (h : p.Runs tr a) : cancelEvents tr = [] :=
  cancelEvents_eq_nil ((only_of_within hp).of_runs h)

/-- The handler itself does not answer; that is left to `respond`. -/
theorem only_cancelJob (cfg : Config) (id : String) : Prog.Only (fun c => ∀ r answer, c ≠ .respond r answer)
    (Api.cancelJob cfg id) := by
  have hpla : ∀ {α : Type} {p : Srv α}, plain.Within anyGhost p →
      (allowing fun c => ∀ r answer, c ≠ .respond r answer : Conc.Ghost Call Call.Ret Label Unit).Within anyGhost p := by
    intro α p hp
    refine within_of_only ((only_of_within hp).mono ?_)
    rintro c hc r answer rfl
    cases hc
  have hqui : ∀ c, Call.quiet c = true →
      (allowing fun c => ∀ r answer, c ≠ .respond r answer : Conc.Ghost Call Call.Ret Label Unit).Still anyGhost c := by
    intro c hc
    refine allowing_still ?_
    rintro r answer rfl
    cases hc
  apply only_of_within
  refine within_cancelJob hqui (fun principal id state => ?_) id
  refine within_cancelInState hqui (allowing_still fun _ _ => by simp) (allowing_still fun _ _ => by simp)
    (fun _ => hpla (plain_refreshRemote _)) fun job => ?_
  exact within_afterCancel (fun _ => hpla (plain_request _)) (hpla (plain_runOnce cfg .request))
    fun _ _ => allowing_still fun _ _ => by simp

end Plain

/-! ## Runs of the handler -/

section Handler

variable {cfg : Config} {principal : Principal} {id : String} {tr : Trace Call Call.Ret} {reply : Reply}
  {state : Option OperationState}

def reads (id : String) (job : Job) : Σ c : Call, c.Ret := ⟨.tx (.job id), .ok job⟩

def requested (id : String) : Σ c : Call, c.Ret := ⟨.tx (.requestJobCancellation id), .ok ()⟩

def RefreshFailed (id : String) (tr : Trace Call Call.Ret) : Prop :=
  ∃ before refresh after job e, tr = before ++ requested id :: reads id job :: (refresh ++ after) ∧
    Prog.Runs (Api.refreshJob job) refresh (.error e)

theorem RefreshFailed.append (h : RefreshFailed id tr) (tr0 : Trace Call Call.Ret) : RefreshFailed id (tr0 ++ tr) := by
  obtain ⟨before, refresh, after, job, e, rfl, hruns⟩ := h
  exact ⟨tr0 ++ before, refresh, after, job, e, by rw [List.append_assoc], hruns⟩

/-- What a handler that has asked for the cancellation has done when it answers: it has recorded one event about the job of the
answer, which it has read after it asked, unless the refresh has failed. -/
def Cancelled (id : String) (tr : Trace Call Call.Ret) (reply : Reply) : Prop :=
  ∃ job, reply = .job job false ∧ cancelEvents tr = [(Api.projectOf job, Api.idOf job)] ∧
    ((∃ j before after, job = some j ∧ tr = before ++ reads id j :: after ∧ requested id ∈ before) ∨
      (job = none ∧ RefreshFailed id tr))

theorem Cancelled.append (h : Cancelled id tr reply) (tr0 : Trace Call Call.Ret) (h0 : cancelEvents tr0 = []) :
    Cancelled id (tr0 ++ tr) reply := by
  obtain ⟨job, hreply, hevents, hjob⟩ := h
  refine ⟨job, hreply, by rw [cancelEvents_append, h0, hevents, List.nil_append], ?_⟩
  rcases hjob with ⟨j, before, after, hj, rfl, hreq⟩ | ⟨hnone, hfail⟩
  · exact .inl ⟨j, tr0 ++ before, after, hj, by rw [List.append_assoc], List.mem_append_right _ hreq⟩
  · exact .inr ⟨hnone, hfail.append tr0⟩

theorem runs_storeJob {job : Job} (h : Prog.Runs (Store.job id) tr (.ok job)) : tr = [reads id job] := by
  have hlift : (Prog.lift (Call.tx (.job id))).Runs tr (.ok job) := h
  exact hlift.eq_of_lift

theorem runs_refreshJob {job job' : Job} (h : Prog.Runs (Api.refreshJob job) tr (.ok job')) :
    job' = job ∨ reads job.id job' ∈ tr := by
  have hremote : ∀ {tr : Trace Call Call.Ret}, Prog.Runs (Api.refreshRemote job.id) tr (.ok job') → reads job.id job' ∈ tr := by
    intro tr h
    obtain ⟨tr1, remote, tr2, rfl, -, h2⟩ := Fallible.runs_bind_ok h
    obtain ⟨tr3, read, tr4, rfl, h3, h4⟩ := Fallible.runs_bind_ok h2
    obtain ⟨tr5, _, tr6, rfl, -, h6⟩ := Fallible.runs_bind_ok h3
    have hjob : job' = read := by
      split at h4
      · obtain ⟨_, _, _, -, -, h7⟩ := Fallible.runs_bind_ok h4
        cases (Prog.runs_ret.mp h7).2
        rfl
      cases (Prog.runs_ret.mp h4).2
      rfl
    rw [hjob, runs_storeJob h6]
    simp
  rw [Api.refreshJob] at h
  split at h
  · cases (Prog.runs_ret.mp h).2
    exact .inl rfl
  obtain ⟨tr1, state, tr2, rfl, -, h2⟩ := Fallible.runs_bind_ok h
  split at h2
  · split at h2
    · exact .inr (List.mem_append_right _ (hremote h2))
    · cases (Prog.runs_ret.mp h2).2
  split at h2
  · cases (Prog.runs_ret.mp h2).2
    exact .inl rfl
  · exact .inr (List.mem_append_right _ (hremote h2))

theorem runs_afterCancel {job : Option Job}
    (h : Prog.Runs (Api.afterCancel cfg principal job state) tr (.ok reply)) :
    reply = .job job false ∧ cancelEvents tr = [(Api.projectOf job, Api.idOf job)] := by
  have haud : ∀ {tr : Trace Call Call.Ret},
      Prog.Runs (Api.api (Store.audit principal (Api.projectOf job) "job.cancel" (Api.idOf job) none) >>= fun _ =>
        pure (Reply.job job false) : Go ApiError Reply) tr (.ok reply) →
      reply = .job job false ∧ cancelEvents tr = [(Api.projectOf job, Api.idOf job)] := by
    intro tr h
    obtain ⟨tr1, u, tr2, rfl, h1, h2⟩ := Fallible.runs_bind_ok h
    have hlift : (Prog.lift (Call.tx (.audit principal (Api.projectOf job) "job.cancel" (Api.idOf job) none))).Runs tr1 (.ok u) :=
      Fallible.runs_mapError_ok h1
    obtain ⟨rfl, heq⟩ := Prog.runs_ret.mp h2
    cases heq
    rw [hlift.eq_of_lift]
    exact ⟨rfl, rfl⟩
  rw [Api.afterCancel] at h
  split at h
  · obtain ⟨tr1, _, tr2, rfl, h1, h2⟩ := Fallible.runs_bind_ok h
    rw [cancelEvents_append, cancelEvents_of_plain (plain_request _) (Fallible.runs_mapError_ok h1), List.nil_append]
    exact haud h2
  obtain ⟨tr1, _, tr2, rfl, h1, h2⟩ := Fallible.runs_bind_ok h
  rw [cancelEvents_append, cancelEvents_of_plain (within_ignoring (plain_runOnce cfg .request)) h1, List.nil_append]
  exact haud h2

theorem runs_requestCancel (hreads : ∀ id job, reads id job ∈ tr → job.id = id)
    (h : Prog.Runs (Api.requestCancel cfg principal id state) tr (.ok reply)) : Cancelled id tr reply := by
  obtain ⟨tr1, job, tr2, rfl, h1, h2⟩ := Fallible.runs_bind_ok h
  obtain ⟨tr3, u, tr4, rfl, h3, h4⟩ := Fallible.runs_bind_ok (Fallible.runs_mapError_ok h1)
  have hlift : (Prog.lift (Call.tx (.requestJobCancellation id))).Runs tr3 (.ok u) := h3
  have hreq : tr3 = [requested id] := hlift.eq_of_lift
  rw [hreq, runs_storeJob h4] at hreads ⊢
  have hevents : ∀ tr, cancelEvents ([requested id] ++ [reads id job] ++ tr) = cancelEvents tr := fun _ => rfl
  rw [Cancelled, hevents]
  split at h2
  · obtain ⟨tr5, refreshed, tr6, rfl, h5, h6⟩ := Fallible.runs_bind_ok h2
    obtain ⟨hreply, hcancel⟩ := runs_afterCancel h6
    obtain ⟨tr7, x, tr8, rfl, h7, h8⟩ := Fallible.runs_ofProg_bind h5
    cases x with
    | ok j =>
      obtain ⟨rfl, heq⟩ := Prog.runs_ret.mp h8
      cases heq
      refine ⟨some j, hreply, ?_, .inl ?_⟩
      · rw [cancelEvents_append, cancelEvents_append, cancelEvents_of_plain (plain_refreshJob job) h7]
        exact hcancel
      rcases runs_refreshJob h7 with rfl | hread
      · exact ⟨j, [requested id], _, rfl, rfl, List.mem_singleton_self _⟩
      rw [hreads id job (by simp)] at hread
      obtain ⟨tr9, tr10, rfl⟩ := List.append_of_mem hread
      exact ⟨j, requested id :: reads id job :: tr9, tr10 ++ tr6, rfl, by simp, List.mem_cons_self⟩
    | error e =>
      obtain ⟨rfl, heq⟩ := Prog.runs_ret.mp h8
      cases heq
      refine ⟨none, hreply, ?_, .inr ⟨rfl, [], tr7, tr6, job, e, by simp, h7⟩⟩
      rw [cancelEvents_append, cancelEvents_append, cancelEvents_of_plain (plain_refreshJob job) h7]
      exact hcancel
  · obtain ⟨hreply, hcancel⟩ := runs_afterCancel h2
    exact ⟨some job, hreply, hcancel, .inl ⟨job, [requested id], tr2, rfl, rfl, List.mem_singleton_self _⟩⟩

theorem runs_cancelInState (hreads : ∀ id job, reads id job ∈ tr → job.id = id)
    (h : Prog.Runs (Api.cancelInState cfg principal id state) tr (.ok reply)) : Cancelled id tr reply := by
  rw [Api.cancelInState] at h
  split at h
  · obtain ⟨tr1, u, tr2, rfl, h1, h2⟩ := Fallible.runs_bind_ok h
    have hcancel : (Prog.lift (Call.cancel id)).Runs tr1 (.ok u) := Fallible.runs_mapError_ok h1
    rw [hcancel.eq_of_lift] at hreads ⊢
    exact (runs_requestCancel (fun id job hread => hreads id job (List.mem_append_right _ hread)) h2).append _ rfl
  · exact runs_requestCancel hreads h

/-- **`CancelJob`** answers at once for a job that it finds terminal, and asks for the cancellation of any other. -/
theorem runs_cancelJob (hreads : ∀ id job, reads id job ∈ tr → job.id = id)
    (h : Prog.Runs (Api.cancelJob cfg id) tr (.ok reply)) :
    ∃ principal found rest, tr = ⟨.authenticate, .ok principal⟩ :: reads id found :: rest ∧
      ((found.status.terminal = true ∧ reply = .job (some found) false ∧ cancelEvents tr = []) ∨
        (found.status.terminal = false ∧ Cancelled id tr reply)) := by
  obtain ⟨tr1, principal, tr2, rfl, h1, h2⟩ := Fallible.runs_bind_ok h
  have hauthenticate : (Prog.lift Call.authenticate).Runs tr1 (.ok principal) := h1
  obtain ⟨tr3, found, tr4, rfl, h3, h4⟩ := Fallible.runs_bind_ok h2
  obtain ⟨tr5, found', tr6, rfl, h5, h6⟩ := Fallible.runs_bind_ok h3
  obtain ⟨tr7, project, tr8, rfl, h7, h8⟩ := Fallible.runs_bind_ok h6
  obtain ⟨rfl, heq⟩ := Prog.runs_ret.mp h8
  cases heq
  have hauth : (Prog.lift (Call.authorizeProject principal found.projectID)).Runs tr7 (.ok project) :=
    Fallible.runs_mapError_ok h7
  rw [hauthenticate.eq_of_lift, runs_storeJob (Fallible.runs_mapError_ok h5), hauth.eq_of_lift] at hreads ⊢
  refine ⟨principal, found, _, rfl, ?_⟩
  split at h4
  · rename_i hterm
    obtain ⟨rfl, heq⟩ := Prog.runs_ret.mp h4
    cases heq
    exact .inl ⟨hterm, rfl, rfl⟩
  rename_i hlive
  refine .inr ⟨Bool.eq_false_iff.mpr hlive, ?_⟩
  obtain ⟨tr9, x, tr10, rfl, h9, h10⟩ := Fallible.runs_ofProg_bind h4
  have hstatus : (Prog.lift (Call.tx (.operationState (jobOp found.id)))).Runs tr9 x := h9
  have hid : found.id = id := hreads id found (by simp)
  rw [hstatus.eq_of_lift] at hreads ⊢
  have hin : ∀ {state : Option OperationState},
      Prog.Runs (Api.cancelInState cfg principal found.id state) tr10 (.ok reply) → Cancelled id tr10 reply := by
    intro state hruns
    rw [hid] at hruns
    exact runs_cancelInState (fun id job hread => hreads id job (by simp [hread])) hruns
  have hcancel : Cancelled id tr10 reply := by
    cases x with
    | ok state => exact hin h10
    | error e =>
      change Prog.Runs (if e.is .notFound then Api.cancelInState cfg principal found.id none
        else fail (Api.connectError e) : Go ApiError Reply) tr10 (.ok reply) at h10
      split at h10
      · exact hin h10
      · cases (Prog.runs_ret.mp h10).2
  simpa using hcancel.append [⟨.authenticate, .ok principal⟩, reads id found,
    ⟨.authorizeProject principal found.projectID, .ok project⟩, ⟨.tx (.operationState (jobOp found.id)), x⟩] rfl

end Handler

/-! ## Runs of the server -/

section Runs

variable {cfg : Config} {σ : Conf} {t : Nat} {id : String} {tr : Trace Call Call.Ret} {job : Job}
  {later earlier : List (Entry Call Call.Ret Label)}

theorem exec_job {ch : Choice} {s s' : Sys} {sp : Option Label}
    (h : exec t ch s (.tx (.job id)) = some (.ok job, s', sp)) : s.db.job id = .ok job := by
  obtain ⟨-, ⟨e, he, -⟩ | ⟨a, db, fresh, heq, -, hrun⟩⟩ := exec_run h
  · cases he
  cases heq
  rw [Tx.run] at hrun
  cases hjob : s.db.job id with
  | ok job' =>
    rw [hjob] at hrun
    cases hrun
    rfl
  | error e =>
    rw [hjob] at hrun
    cases hrun

theorem job_id {db : DB} (h : db.job id = .ok job) : job.id = id := by
  rw [DB.job] at h
  split at h
  · cases h
    rfl
  · cases h

def StoredAt (cfg : Config) (t : Nat) (l : Label) (tr : Trace Call Call.Ret) (log : List (Entry Call Call.Ret Label))
    (id : String)
    (job : Job) : Prop :=
  ∃ σ newer, Reaches cfg Conc.Rules.all σ ∧ log = newer ++ σ.log ∧ history t σ.log = some (l, tr) ∧ σ.st.db.job id = .ok job

theorem storedAt_of_reads (h : Reaches cfg Conc.Rules.all σ) {l : Label} {tr1 tr2 : Trace Call Call.Ret}
    (hlog : σ.log = later ++ earlier)
    (hhistory : history t earlier = some (l, tr1 ++ reads id job :: tr2)) : StoredAt cfg t l tr1 earlier id job := by
  obtain ⟨now, hr⟩ := h
  obtain ⟨newer, older, rfl, hold⟩ := Conc.history_split hhistory
  rw [← List.append_assoc] at hlog
  obtain ⟨σ1, ch, s, sp, hr1, rfl, hexec⟩ := hr.answered hlog
  exact ⟨σ1, newer ++ [.call t (.tx (.job id)) (.ok job)], ⟨now, hr1⟩, by simp [reads], hold, exec_job (t := t) hexec⟩

theorem cancelJob_runs (h : Reaches cfg Conc.Rules.all σ)
    {answer : Except ApiError Reply} (hlog : σ.log = later ++ .call t (.respond (.cancelJob id) answer) () :: earlier)
    (hhistory : history t earlier = some (.request (.cancelJob id), tr)) : Prog.Runs (Api.cancelJob cfg id) tr answer := by
  obtain ⟨now, hr⟩ := h
  obtain ⟨l, tr', k, hhistory', hk⟩ := hr.called hlog
  rw [hhistory] at hhistory'
  cases hhistory'
  rcases Prog.After.of_bind (p := Api.cancelJob cfg id) hk with ⟨k', hk'⟩ | ⟨tr1, x, tr2, rfl, hruns, hk'⟩
  · exact absurd rfl ((only_cancelJob cfg id).of_after hk' _ _)
  rcases Prog.After.of_call hk' with ⟨rfl, heq⟩ | ⟨r, tr3, rfl, hret⟩
  · cases heq
    rw [List.append_nil]
    exact hruns
  · cases (Prog.After.of_ret hret).2

/-- **A cancellation answers about the job that was asked for**, unless its refresh fails: the answer is a job with the requested
id as the store had it during the request, after the request for the cancellation, and the request records one event `job.cancel`
with this id and the project of the job; for a job that is found terminal, the answer is that job and nothing is recorded. -/
theorem cancel_answers (cfg : Config) {σ : Conf} (h : Reaches cfg Conc.Rules.all σ)
    {later earlier : List (Entry Call Call.Ret Label)} {t : Nat} {id : String} {reply : Reply} {tr : Trace Call Call.Ret}
    (hlog : σ.log = later ++ .call t (.respond (.cancelJob id) (.ok reply)) () :: earlier)
    (hhistory : history t earlier = some (.request (.cancelJob id), tr)) (hrefresh : ¬ RefreshFailed id tr) :
    ∃ principal found rest job before, tr = ⟨.authenticate, .ok principal⟩ :: reads id found :: rest ∧
      reply = .job (some job) false ∧ job.id = id ∧ StoredAt cfg t (.request (.cancelJob id)) before earlier id job ∧
      (found.status.terminal = false → requested id ∈ before) ∧
      cancelEvents tr = if found.status.terminal then [] else [(job.projectID, id)] := by
  have hlog' : σ.log = (later ++ [.call t (.respond (.cancelJob id) (.ok reply)) ()]) ++ earlier := by
    rw [hlog, List.append_assoc, List.singleton_append]
  have hstored : ∀ {id' : String} {job : Job} (before : Trace Call Call.Ret) {after : Trace Call Call.Ret}, tr =
      before ++ reads id' job :: after →
      StoredAt cfg t (.request (.cancelJob id)) before earlier id' job ∧ job.id = id' := by
    rintro id' job before after rfl
    have hat := storedAt_of_reads h hlog' hhistory
    have hjob := hat
    obtain ⟨_, _, -, -, -, hjob⟩ := hjob
    exact ⟨hat, job_id hjob⟩
  have hreads : ∀ id' job, reads id' job ∈ tr → job.id = id' := by
    intro id' job hread
    obtain ⟨before, after, htr⟩ := List.append_of_mem hread
    exact (hstored before htr).2
  obtain ⟨principal, found, rest, htr, houtcome⟩ := runs_cancelJob hreads (cancelJob_runs h hlog hhistory)
  rcases houtcome with ⟨hterminal, hreply, hevents⟩ |
    ⟨hlive, job, hreply, hevents, ⟨j, before, after, rfl, hread, hrequested⟩ | ⟨-, hfailed⟩⟩
  · obtain ⟨hat, hid⟩ := hstored [⟨.authenticate, .ok principal⟩] htr
    refine ⟨principal, found, rest, found, _, htr, hreply, hid, hat, fun hlive => ?_, by rw [hevents, if_pos hterminal]⟩
    rw [hterminal] at hlive
    cases hlive
  · obtain ⟨hat, hid⟩ := hstored before hread
    refine ⟨principal, found, rest, j, before, htr, hreply, hid, hat, fun _ => hrequested, ?_⟩
    rw [hevents, hlive]
    simp [Api.projectOf, Api.idOf, hid]
  · exact absurd hfailed hrefresh

/-! A cancellation of a job that waits for its start, and one of a job that runs, during which the runtime cannot be asked. -/

def settledRead : (Σ c : Call, c.Ret) → Bool
  | ⟨.tx (.job _), Except.ok job⟩ => job.status == .preparing || job.status.terminal
  | _ => true

theorem not_refreshFailed (h : tr.all settledRead = true) : ¬ RefreshFailed id tr := by
  rintro ⟨before, refresh, after, job, e, rfl, hruns⟩
  have hsettled : settledRead (reads id job) = true := List.all_eq_true.mp h _ (by simp)
  rw [Api.refreshJob, if_pos (by simpa [settledRead, reads] using hsettled)] at hruns
  cases (Prog.runs_ret.mp hruns).2

/-- Whether the last entry of the log answers a `CancelJob` for `id` without an error, with a test of the answer and the calls of
its goroutine. -/
def answersCancel (id : String) (p : Reply → Trace Call Call.Ret → Bool) (σ : Conf) : Bool :=
  match σ.log with
  | .call t (.respond (.cancelJob id1) (.ok reply)) _ :: earlier =>
    match history t earlier with
    | some (.request (.cancelJob id2), tr) => id1 == id && id2 == id && p reply tr
    | _ => false
  | _ => false

theorem answersCancel_of_test {p : Reply → Trace Call Call.Ret → Bool} (h : answersCancel id p σ = true) :
    ∃ t reply earlier tr, σ.log = .call t (.respond (.cancelJob id) (.ok reply)) () :: earlier ∧
      history t earlier = some (.request (.cancelJob id), tr) ∧ p reply tr = true := by
  rw [answersCancel] at h
  split at h
  · rename_i t id1 reply _ earlier hlog
    split at h
    · rename_i id2 tr hhistory
      simp only [Bool.and_eq_true, beq_iff_eq] at h
      obtain ⟨⟨rfl, rfl⟩, hp⟩ := h
      exact ⟨t, reply, earlier, tr, hlog, hhistory, hp⟩
    · cases h
  · cases h

def cancelsWaiting : List Event :=
  prepared ++ asks 6 (.cancelJob "job1") ++ [.run 6 .go, authorized 6] ++ goes 6 7

/-- The job runs, goroutine 7 cancels it, and the runtime does not answer when it is asked for the job. -/
def cancelsUnseen : List Event :=
  activates ++ asks 7 (.cancelJob "job1") ++ [.run 7 .go, authorized 7] ++ goes 7 5 ++
    .run 7 (.fail (.new "unavailable")) :: goes 7 2 ++ .run 7 (.snapshot roomy) :: goes 7 5

theorem cancel_answers_prepared : ∃ σ t reply earlier tr, Reaches sampleConfig Conc.Rules.all σ ∧
    σ.log = .call t (.respond (.cancelJob "job1") (.ok reply)) () :: earlier ∧
    history t earlier = some (.request (.cancelJob "job1"), tr) ∧ cancelEvents tr = [("project", "job1")] ∧
    ∃ principal found rest job before, tr = ⟨.authenticate, .ok principal⟩ :: reads "job1" found :: rest ∧
      reply = .job (some job) false ∧ job.id = "job1" ∧
      StoredAt sampleConfig t (.request (.cancelJob "job1")) before earlier "job1" job ∧
      (found.status.terminal = false → requested "job1" ∈ before) ∧
      cancelEvents tr = if found.status.terminal then [] else [(job.projectID, "job1")] := by
  obtain ⟨σ, hr, hp⟩ := reaches_of_steps sampleConfig cancelsWaiting
    (p := answersCancel "job1" fun _ tr => tr.all settledRead && cancelEvents tr == [("project", "job1")]) (by decide +kernel)
  obtain ⟨t, reply, earlier, tr, hlog, hhistory, htest⟩ := answersCancel_of_test hp
  simp only [Bool.and_eq_true, beq_iff_eq] at htest
  exact ⟨σ, t, reply, earlier, tr, hr, hlog, hhistory, htest.2,
    cancel_answers sampleConfig hr (hlog.trans (List.nil_append _).symm) hhistory (not_refreshFailed htest.1)⟩

/-- Whether the last event of the audit log is a cancellation without project and target, and job 1 is a live job of its project.
-/
def recordsNothing (σ : Conf) : Bool :=
  (σ.st.db.audit.getLast?.any fun event => event.action == "job.cancel" && event.targetID == "" && event.projectID == none) &&
    (σ.st.db.jobs.lookup "job1").any fun row => row.projectID == "project" && !row.status.terminal

/-- The runtime does not answer during the refresh: the cancellation of a job succeeds with the zero job, and the audit log gains
an event without project and target. -/
theorem cancel_answers_nothing : ∃ σ t earlier tr, Reaches sampleConfig Conc.Rules.all σ ∧
    σ.log = .call t (.respond (.cancelJob "job1") (.ok (.job none false))) () :: earlier ∧
    history t earlier = some (.request (.cancelJob "job1"), tr) ∧ cancelEvents tr = [("", "")] ∧ recordsNothing σ = true := by
  obtain ⟨σ, hr, hp⟩ := reaches_of_steps sampleConfig cancelsUnseen
    (p := fun σ => recordsNothing σ && answersCancel "job1" (fun reply tr =>
      reply == .job none false && cancelEvents tr == [("", "")]) σ)
    (by decide +kernel)
  obtain ⟨hnothing, hanswers⟩ := Bool.and_eq_true_iff.mp hp
  obtain ⟨t, reply, earlier, tr, hlog, hhistory, htest⟩ := answersCancel_of_test hanswers
  simp only [Bool.and_eq_true, beq_iff_eq] at htest
  obtain ⟨rfl, hevents⟩ := htest
  exact ⟨σ, t, earlier, tr, hr, hlog, hhistory, hevents, hnothing⟩

end Runs

end Autback
