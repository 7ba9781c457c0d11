import Autback.Conc.Eval
import Autback.Conc.History
import Autback.Server.ApiFrames
import Autback.Store.Fifo
import Autback.Store.Moves

/-!
# Reconciliation isolates faults

A pass of the reconciler that runs on its own (`Circumstances.answer`). The store can fail at any call.

What the pass makes of a job depends on the listing through the entry of that job only (`Reconciler.entryOf`): the round of the
loop for a scheduled job is one for its entry (`syncScheduled_eq`), the rounds of other jobs spare it (`Spares`), and no two jobs
are scheduled at a time (`scheduledJobs_length`). Services are removed in the last loop (`calls_retireManaged`), which only reads
the store (`eval_retire`).
-/

namespace Autback

open Conc

inductive ServiceEntry
  /-- The listing failed. -/
  | failed
  /-- The service could not be inspected. -/
  | erroneous
  | missing
  | job (remote : RemoteJob)

def Reconciler.entryOf (listing : Except Err (List RuntimeJob)) (id : String) : ServiceEntry :=
  match listing with
  | .error _ => .failed
  | .ok managed =>
    if poisoned managed id then .erroneous
    else match remoteByID managed id with
      | none => .missing
      | some remote => .job remote

/-- What answers the calls of a pass, by their number: the time, errors of the database, and what lies outside the store. -/
structure Circumstances where
  clock : Nat → Time
  fault : Nat → Option Err
  other : Nat → (c : Call) → c.Ret
  fault_db : ∀ k e, fault k = some e → ofControl e = false

abbrev Pass := Nat × DB

def Circumstances.transact (o : Circumstances) (s : Pass) (x : Tx) : Except Err x.Val × DB :=
  match o.fault s.1 with
  | some e => (.error e, s.2)
  | none =>
    match x.run (o.clock s.1) "" s.2 with
    | .ok (a, db) => (.ok a, db)
    | .error e => (.error e, s.2)

def Circumstances.answer (o : Circumstances) (listing : Except Err (List RuntimeJob)) (s : Pass) : (c : Call) → c.Ret × Pass
  | .tx x => ((o.transact s x).1, s.1 + 1, (o.transact s x).2)
  | .now => (o.clock s.1, s.1 + 1, s.2)
  | .managedJobs => (listing, s.1 + 1, s.2)
  | c => (o.other s.1 c, s.1 + 1, s.2)

/-- What the store shows of a job: status and cancellation, and the state and sequence of its row. -/
def DB.shown (db : DB) (id : String) : Option JobView × Option RowView := (db.view.job id, db.view.row (jobOp id))

namespace Reconciler

variable (cfg : Config) (o : Circumstances) (listing : Except Err (List RuntimeJob)) (db : DB)

def reconciled : DB := (Prog.eval (o.answer listing) (0, db) (runOnce cfg)).2.2

def expired : DB := (Prog.eval (o.answer listing) (1, db) (expireLeases cfg (o.clock 0))).2.2

end Reconciler

/-! ## Calls that spare a job -/

def Spares (id : String) (c : Call) : Prop :=
  ∀ (o : Circumstances) (listing : Except Err (List RuntimeJob)) (s : Pass), (o.answer listing s c).2.2.shown id = s.2.shown id

section Spares

variable {id : String}

theorem spares_tx {x : Tx} (hmove : ∀ a s s', ¬ x.Moves a (jobOp id) s s') (hwrite : ∀ a j j', ¬ x.Writes a id j j')
    (hcreate : ∀ a, ¬ x.Creates a (jobOp id)) : Spares id (.tx x) := by
  intro o listing s
  change (o.transact s x).2.shown id = s.2.shown id
  unfold Circumstances.transact
  split
  · rfl
  split
  · rename_i a db hrun
    have heff := Tx.run_effect hrun
    exact Prod.ext (heff.job_eq (hwrite a) (hcreate a)) (heff.row_eq (hmove a) (hcreate a))
  · rfl

theorem spares_quiet (c : Call) (hc : c.quiet = true) : Spares id c := by
  cases c with
  | tx x => cases x <;> first | exact spares_tx (fun _ _ _ h => h) (fun _ _ _ h => h) (fun _ h => h) | cases hc
  | _ => exact fun _ _ _ => rfl

variable {id' : String}

theorem spares_syncJob (hne : id ≠ id') (remote : RemoteJob) : Spares id (.tx (.syncJob id' remote)) := by
  refine spares_tx (fun _ _ _ h => hne ?_) (fun _ _ _ h => hne h.1) fun _ h => h
  exact congrArg Op.id h.1

theorem spares_activateOperation (hne : id ≠ id') : Spares id (.tx (.activateOperation (jobOp id'))) :=
  spares_tx (fun _ _ _ h => hne (congrArg Op.id h.1)) (fun _ _ _ h => h) fun _ h => h

theorem spares_beginOperationCleanup (hne : id ≠ id') : Spares id (.tx (.beginOperationCleanup (jobOp id'))) :=
  spares_tx (fun _ _ _ h => hne (congrArg Op.id h.2.1)) (fun _ _ _ h => h) fun _ h => h

abbrev sparing (id : String) : Ghost Call Call.Ret Label Unit := allowing (Spares id)

theorem sparing_quiet (c : Call) (hc : c.quiet = true) : (sparing id).Still anyGhost c := allowing_still (spares_quiet c hc)

theorem sparing_syncScheduled {cfg : Config} {now : Time} {managed : Option (List RuntimeJob)} {job : Job} (hne : id ≠ job.id) :
    (sparing id).Within anyGhost (Reconciler.syncScheduled cfg now managed job) := by
  have hsync : ∀ remote, (sparing id).Within anyGhost (Reconciler.syncAndRelease job.id remote) := fun remote =>
    within_syncAndRelease (quiet_tx sparing_quiet) (allowing_still (spares_syncJob hne remote))
      (within_request (quiet_tx sparing_quiet) (allowing_still (spares_beginOperationCleanup hne))
        (allowing_still fun _ _ _ => rfl))
  exact within_syncScheduled (within_syncMissing (quiet_tx sparing_quiet) (hsync _)) fun remote _ =>
    within_syncPresent (quiet_tx sparing_quiet) (allowing_still (spares_activateOperation hne)) (hsync remote)

theorem shown_eval {o : Circumstances} {listing : Except Err (List RuntimeJob)} {α : Type} {p : Srv α} {s : Pass}
    (hp : (sparing id).Within anyGhost p) : (Prog.eval (o.answer listing) s p).2.2.shown id = s.2.shown id :=
  Prog.eval_keeps (I := fun s' => s'.2.shown id = s.2.shown id) (fun s' _ hc hI => (hc o listing s').trans hI)
    (only_of_within hp) rfl

end Spares

/-! ## Code that does not look at the listing -/

section Blind

variable {P : Call → Prop}

theorem only_listed {α : Type} {p : Go Err (List α)} (hp : Prog.Only P p) : (Reconciler.listed p).Only P := by
  refine Prog.Only.bind (fun r => ?_) hp
  cases r <;> trivial

variable (htx : ∀ x, P (.tx x)) (hco : P .coordinatorAdvance)

include htx

theorem only_store (x : Tx) : Prog.Only P (store x) := ⟨htx x, fun _ => trivial⟩

theorem blind_quiet (x : Tx) (_ : x.quiet = true) : (allowing P : Ghost Call Call.Ret Label Unit).Still anyGhost (.tx x) :=
  allowing_still (htx x)

include hco

theorem blind_request (op : Op) : (allowing P : Ghost Call Call.Ret Label Unit).Within anyGhost (Coordinator.request op) :=
  within_request (blind_quiet htx) (allowing_still (htx _)) (allowing_still hco)

theorem only_expireLeases (cfg : Config) (now : Time) : (Reconciler.expireLeases cfg now).Only P := by
  have hquiet := blind_quiet htx
  refine only_of_within (within_expireLeases hquiet ?_ ?_ now)
  · exact within_expirePreparation hquiet (fun _ => allowing_still (htx _)) fun _ => blind_request htx hco _
  · exact within_expireBuild hquiet (fun _ => allowing_still (htx _)) fun _ => blind_request htx hco _

theorem blind_syncScheduled (cfg : Config) (now : Time) (managed : Option (List RuntimeJob)) (job : Job) :
    (allowing P : Ghost Call Call.Ret Label Unit).Within anyGhost (Reconciler.syncScheduled cfg now managed job) := by
  have hquiet := blind_quiet htx
  have hsync : ∀ id remote, (allowing P : Ghost Call Call.Ret Label Unit).Within anyGhost (Reconciler.syncAndRelease id remote) :=
    fun _ _ => within_syncAndRelease hquiet (allowing_still (htx _)) (blind_request htx hco _)
  exact within_syncScheduled (within_syncMissing hquiet (hsync _ _)) fun remote _ =>
    within_syncPresent hquiet (allowing_still (htx _)) (hsync _ _)

end Blind

/-! ## The synchronisation -/

theorem scheduledJobs_length (db : DB) : db.scheduledJobs.length ≤ 1 := by
  have hone : ∀ j ∈ db.scheduledJobs, ∀ j' ∈ db.scheduledJobs, j.id = j'.id := by
    intro j hj j' hj'
    obtain ⟨r, q, -, hq, hp, -⟩ := mem_jobsWhere hj
    obtain ⟨r', q', -, hq', hp', -⟩ := mem_jobsWhere hj'
    have hres := reserved_of_executing (Bool.and_eq_true_iff.mp hp).2
    have hres' := reserved_of_executing (Bool.and_eq_true_iff.mp hp').2
    exact congrArg Op.id (db.queue.oneReserved _ _ _ _ hq hq' hres hres')
  have hnodup : (db.scheduledJobs.map Job.id).Nodup := jobsWhere_nodup
  match hjobs : db.scheduledJobs with
  | [] => simp
  | [_] => simp
  | j :: j' :: jobs =>
    rw [hjobs] at hone hnodup
    have heq := hone j (by simp) j' (by simp)
    simp [heq] at hnodup

namespace Reconciler

variable {cfg : Config} {o : Circumstances} {listing listing' : Except Err (List RuntimeJob)} {db : DB} {id : String}

def syncEntry (cfg : Config) (now : Time) (id : String) : ServiceEntry → Srv Unit
  | .failed => return ()
  | .erroneous => return ()
  | .missing => syncMissing cfg now id
  | .job remote => syncPresent id remote

theorem syncScheduled_eq (now : Time) (job : Job) :
    syncScheduled cfg now listing.toOption job = syncEntry cfg now job.id (entryOf listing job.id) := by
  cases listing with
  | error e => rfl
  | ok managed =>
    simp only [syncScheduled, Except.toOption, entryOf]
    split
    · rfl
    · cases remoteByID managed job.id <;> rfl

theorem answer_eq (s : Pass) (c : Call) (hc : c ≠ .managedJobs) : o.answer listing s c = o.answer listing' s c := by
  cases c <;> first | rfl | exact absurd rfl hc

theorem eval_store (s : Pass) (x : Tx) :
    Prog.eval (o.answer listing) s (store x) = ((o.transact s x).1, s.1 + 1, (o.transact s x).2) := rfl

theorem eval_listed {α : Type} (s : Pass) (p : Go Err (List α)) : Prog.eval (o.answer listing) s (listed p) =
    ((Prog.eval (o.answer listing) s p).1.toOption.getD [], (Prog.eval (o.answer listing) s p).2) := by
  rw [listed]
  refine (Prog.eval_bind _ p s).trans ?_
  cases (Prog.eval (o.answer listing) s p).1 <;> rfl

theorem eval_listManaged (s : Pass) :
    Prog.eval (o.answer listing) s listManaged = (listing.toOption, s.1 + 1, s.2) := by
  cases listing <;> rfl

def scheduledAt (o : Circumstances) (s : Pass) : List Job := (o.transact s .scheduledJobs).1.toOption.getD []

theorem transact_scheduledJobs (s : Pass) : (o.transact s .scheduledJobs).2 = s.2 := by
  rw [Circumstances.transact]
  cases o.fault s.1 <;> rfl

theorem scheduledAt_length (s : Pass) : (scheduledAt o s).length ≤ 1 := by
  rw [scheduledAt, Circumstances.transact]
  cases o.fault s.1 with
  | some e => exact Nat.zero_le 1
  | none => exact scheduledJobs_length s.2

def afterExpiry (cfg : Config) (o : Circumstances) (listing : Except Err (List RuntimeJob)) (db : DB) : Pass :=
  (Prog.eval (o.answer listing) (1, db) (expireLeases cfg (o.clock 0))).2

theorem eval_now : Prog.eval (o.answer listing) (0, db) (perform .now) = (o.clock 0, 1, db) := rfl

theorem eval_runOnce : Prog.eval (o.answer listing) (0, db) (runOnce cfg) =
    Prog.eval (o.answer listing) ((afterExpiry cfg o listing db).1 + 2, (afterExpiry cfg o listing db).2)
      (syncServices cfg (o.clock 0) (scheduledAt o (afterExpiry cfg o listing db)) listing.toOption) := by
  rw [runOnce, Prog.eval_bind, eval_now, Prog.eval_bind, ← afterExpiry, Prog.eval_bind, eval_listed, Store.scheduledJobs,
    eval_store, transact_scheduledJobs, Prog.eval_bind, eval_listManaged]
  rfl

theorem afterExpiry_eq (cfg : Config) (o : Circumstances) (listing listing' : Except Err (List RuntimeJob)) (db : DB) :
    afterExpiry cfg o listing db = afterExpiry cfg o listing' db :=
  congrArg Prod.snd (Prog.eval_congr (fun s c hc => answer_eq s c hc)
    (only_expireLeases (fun _ => by simp) (by simp) cfg (o.clock 0)) (1, db))

theorem transact_job (s : Pass) (id : String) :
    (∃ e : Err, e.is .notFound = false ∧ o.transact s (.job id) = (.error e, s.2)) ∨
      o.transact s (.job id) = (s.2.job id, s.2) := by
  rw [Circumstances.transact]
  cases hfaul : o.fault s.1 with
  | some e =>
    have hpla := o.fault_db _ _ hfaul
    simp only [ofControl, List.any_cons, List.any_nil, Bool.or_eq_false_iff] at hpla
    exact .inl ⟨e, hpla.2.2.1, rfl⟩
  | none =>
    refine .inr ?_
    simp only [Tx.run]
    cases s.2.job id <;> rfl

theorem eval_retireManaged (now : Time) (r : RuntimeJob) (s : Pass) :
    (Prog.eval (o.answer listing) s (retireManaged cfg now r)).2.2 = s.2 := by
  refine Prog.eval_keeps (I := fun s' => s'.2 = s.2) (P := fun c => ∀ s', (o.answer listing s' c).2.2 = s'.2)
    (fun s' c hc hI => (hc s').trans hI) (only_of_within (within_retireManaged (fun id => allowing_still fun s' => ?_)
      (fun _ => allowing_still fun _ => rfl) now r)) rfl
  change (o.transact s' (.job id)).2 = s'.2
  rcases transact_job s' id with ⟨e, -, h⟩ | h <;> rw [h]

theorem eval_retire (now : Time) : ∀ (managed : List RuntimeJob) (s : Pass),
    (Prog.eval (o.answer listing) s (forEach (retireManaged cfg now) managed)).2.2 = s.2
  | [], _ => rfl
  | r :: managed, s => by
    rw [forEach, Prog.eval_bind, eval_retire now managed, eval_retireManaged]

theorem reconciled_eq : reconciled cfg o listing db =
    (Prog.eval (o.answer listing) ((afterExpiry cfg o listing db).1 + 2, (afterExpiry cfg o listing db).2)
      (forEach (syncScheduled cfg (o.clock 0) listing.toOption) (scheduledAt o (afterExpiry cfg o listing db)))).2.2 := by
  rw [reconciled, eval_runOnce, syncServices, Prog.eval_bind, eval_retire]

variable {now : Time} {remote : RemoteJob} {s : Pass} {answer : (Call.remove id).Ret}

theorem eval_syncScheduled {job : Job} (hentry : entryOf listing job.id = entryOf listing' job.id) (s : Pass) :
    Prog.eval (o.answer listing) s (syncScheduled cfg now listing.toOption job) =
      Prog.eval (o.answer listing') s (syncScheduled cfg now listing'.toOption job) := by
  rw [syncScheduled_eq, hentry, ← syncScheduled_eq]
  exact Prog.eval_congr (fun s c hc => answer_eq s c hc)
    (only_of_within (blind_syncScheduled (fun _ => by simp) (by simp) cfg now _ job)) s

theorem eval_forEach_one {α : Type} (f : α → Srv Unit) (a : α) (s : Pass) :
    (Prog.eval (o.answer listing) s (forEach f [a])).2 = (Prog.eval (o.answer listing) s (f a)).2 := by
  rw [forEach, Prog.eval_bind]
  rfl

theorem shown_forEach {jobs : List Job} (hlength : jobs.length ≤ 1) (hentry : entryOf listing id = entryOf listing' id)
    (s : Pass) : (Prog.eval (o.answer listing) s (forEach (syncScheduled cfg now listing.toOption) jobs)).2.2.shown id =
      (Prog.eval (o.answer listing') s (forEach (syncScheduled cfg now listing'.toOption) jobs)).2.2.shown id := by
  by_cases hother : ∀ job ∈ jobs, id ≠ job.id
  · rw [shown_eval (within_forEach fun job hjob => sparing_syncScheduled (hother job hjob)),
      shown_eval (within_forEach fun job hjob => sparing_syncScheduled (hother job hjob))]
  push Not at hother
  obtain ⟨job, hjob, rfl⟩ := hother
  obtain rfl : jobs = [job] := by
    obtain ⟨job', rfl⟩ := List.length_eq_one_iff.mp (le_antisymm hlength (List.length_pos_of_mem hjob))
    rw [List.mem_singleton.mp hjob]
  rw [eval_forEach_one, eval_forEach_one, eval_syncScheduled hentry]

theorem shown_reconciled (hentry : entryOf listing id = entryOf listing' id) :
    (reconciled cfg o listing db).shown id = (reconciled cfg o listing' db).shown id := by
  rw [reconciled_eq, reconciled_eq, afterExpiry_eq cfg o listing listing' db]
  exact shown_forEach (scheduledAt_length _) hentry _

theorem shown_unknown (hentry : entryOf listing id = .failed ∨ entryOf listing id = .erroneous) :
    (reconciled cfg o listing db).shown id = (expired cfg o listing db).shown id := by
  rw [reconciled_eq, expired, ← afterExpiry]
  refine shown_eval (within_forEach fun job _ => ?_)
  by_cases hid : id = job.id
  · subst hid
    rw [syncScheduled_eq]
    rcases hentry with hentry | hentry <;> rw [hentry] <;> exact Ghost.within_pure _
  · exact sparing_syncScheduled hid

/-! ## Removals -/

def completion (remote : RemoteJob) (stored : Option Job) : Option Time :=
  (stored.bind Job.finishedAt).or remote.finishedAt

theorem removeAfter_eq (remote : RemoteJob) (stored : Option Job) :
    removeAfter remote stored = (completion remote stored).getD remote.createdAt := by
  rw [completion, removeAfter.eq_def]
  cases stored with
  | none => simp
  | some stored => cases hend : stored.finishedAt <;> simp [hend]

structure Outlived (cfg : Config) (now : Time) (db : DB) (remote : RemoteJob) : Prop where
  terminal : ∀ stored, db.job remote.id = .ok stored → stored.status.terminal = true
  retained : (completion remote (db.job remote.id).toOption).getD remote.createdAt ≤ now - serviceRetention cfg

theorem calls_retire {stored : Option Job}
    (hmem : ⟨.remove id, answer⟩ ∈ Prog.calls (o.answer listing) s (retire cfg now remote stored)) :
    remote.id = id ∧ removeAfter remote stored ≤ now - serviceRetention cfg := by
  rw [retire] at hmem
  split at hmem
  · cases hmem
  rename_i hafter
  rw [Bool.or_eq_true, not_or, decide_eq_true_eq, decide_eq_true_eq, not_lt] at hafter
  cases hmem with
  | head => exact ⟨rfl, hafter.2⟩
  | tail _ h => cases h

def retireStored (cfg : Config) (now : Time) (remote : RemoteJob) : Except Err Job → Srv Unit
  | .ok stored => if stored.status.terminal then retire cfg now remote (some stored) else return ()
  | .error e => if e.is .notFound then retire cfg now remote none else return ()

theorem retireManaged_eq {r : RuntimeJob} (hjob : r.job = .ok remote) :
    retireManaged cfg now r = .call (.tx (.job remote.id)) (retireStored cfg now remote) := by
  rw [retireManaged.eq_def, hjob]
  refine congrArg (Prog.call _) (funext fun result => ?_)
  cases result <;> rfl

theorem calls_retireStored {stored : Except Err Job}
    (hmem : ⟨.remove id, answer⟩ ∈ Prog.calls (o.answer listing) s (retireStored cfg now remote stored)) :
    remote.id = id ∧ (∀ job, stored = .ok job → job.status.terminal = true) ∧ (∀ e, stored = .error e → e.is .notFound = true) ∧
      removeAfter remote stored.toOption ≤ now - serviceRetention cfg := by
  cases stored with
  | ok job =>
    rw [retireStored] at hmem
    split at hmem
    · rename_i hterm
      obtain ⟨hid, hafter⟩ := calls_retire hmem
      refine ⟨hid, ?_, fun _ h => (by cases h), hafter⟩
      rintro _ ⟨⟩
      exact hterm
    · cases hmem
  | error e =>
    rw [retireStored] at hmem
    split at hmem
    · rename_i hmiss
      obtain ⟨hid, hafter⟩ := calls_retire hmem
      refine ⟨hid, fun _ h => (by cases h), ?_, hafter⟩
      rintro _ ⟨⟩
      exact hmiss
    · cases hmem

theorem calls_retireManaged {r : RuntimeJob}
    (hmem : ⟨.remove id, answer⟩ ∈ Prog.calls (o.answer listing) s (retireManaged cfg now r)) :
    ∃ remote, r.job = .ok remote ∧ remote.id = id ∧ Outlived cfg now s.2 remote := by
  cases hjob : r.job with
  | error e =>
    rw [retireManaged.eq_def, hjob] at hmem
    cases hmem
  | ok remote =>
    rw [retireManaged_eq hjob] at hmem
    rcases List.mem_cons.mp hmem with hread | hmem
    · cases hread
    change _ ∈ Prog.calls (o.answer listing) (s.1 + 1, (o.transact s (.job remote.id)).2)
      (retireStored cfg now remote (o.transact s (.job remote.id)).1) at hmem
    obtain ⟨hid, hterm, hmiss, hafter⟩ := calls_retireStored hmem
    refine ⟨remote, rfl, hid, ?_⟩
    rcases transact_job s remote.id with ⟨e, he, h⟩ | h <;> rw [h] at hterm hmiss hafter
    · rw [hmiss e rfl] at he
      cases he
    · exact ⟨hterm, removeAfter_eq remote _ ▸ hafter⟩

theorem calls_forEach : ∀ {managed : List RuntimeJob} {s : Pass},
    ⟨.remove id, answer⟩ ∈ Prog.calls (o.answer listing) s (forEach (retireManaged cfg now) managed) →
      ∃ r ∈ managed, ∃ remote, r.job = .ok remote ∧ remote.id = id ∧ Outlived cfg now s.2 remote
  | [], _, hmem => by cases hmem
  | r :: managed, s, hmem => by
    rw [forEach, Prog.calls_bind] at hmem
    rcases List.mem_append.mp hmem with hmem | hmem
    · exact ⟨r, List.mem_cons_self, calls_retireManaged hmem⟩
    obtain ⟨r', hr', remote, hjob, hid, houtl⟩ := calls_forEach hmem
    rw [eval_retireManaged] at houtl
    exact ⟨r', List.mem_cons_of_mem _ hr', remote, hjob, hid, houtl⟩

theorem calls_runOnce
    (hmem : ⟨.remove id, answer⟩ ∈ Prog.calls (o.answer listing) (0, db) (runOnce cfg)) :
    ⟨.remove id, answer⟩ ∈
      Prog.calls (o.answer listing) ((afterExpiry cfg o listing db).1 + 2, (afterExpiry cfg o listing db).2)
        (syncServices cfg (o.clock 0) (scheduledAt o (afterExpiry cfg o listing db)) listing.toOption) := by
  have hx : ¬ Call.remove id ≠ .remove id := fun h => h rfl
  have hnow : (perform .now : Srv Time).Only (· ≠ .remove id) := ⟨nofun, fun _ => trivial⟩
  have hexpiry := only_expireLeases (P := (· ≠ .remove id)) (fun _ => nofun) nofun cfg (o.clock 0)
  have hsch : (listed Store.scheduledJobs).Only (· ≠ .remove id) := only_listed (only_store (fun _ => nofun) _)
  have hmanifest : listManaged.Only (· ≠ .remove id) := ⟨nofun, fun r => by cases r <;> trivial⟩
  rw [runOnce] at hmem
  replace hmem := Prog.mem_calls_of_bind hnow hx hmem
  rw [eval_now] at hmem
  replace hmem := Prog.mem_calls_of_bind hexpiry hx hmem
  rw [← afterExpiry] at hmem
  replace hmem := Prog.mem_calls_of_bind hsch hx hmem
  rw [eval_listed, Store.scheduledJobs, eval_store, transact_scheduledJobs] at hmem
  replace hmem := Prog.mem_calls_of_bind hmanifest hx hmem
  rw [eval_listManaged] at hmem
  exact hmem

theorem removed
    (hmem : ⟨.remove id, answer⟩ ∈ Prog.calls (o.answer listing) (0, db) (runOnce cfg)) :
    ∃ managed, listing = .ok managed ∧ ∃ r ∈ managed, ∃ remote, r.job = .ok remote ∧ remote.id = id ∧
      Outlived cfg (o.clock 0) (reconciled cfg o listing db) remote := by
  have hx : ¬ Call.remove id ≠ .remove id := fun h => h rfl
  have hsync : ∀ jobs, (forEach (syncScheduled cfg (o.clock 0) listing.toOption) jobs).Only (· ≠ .remove id) := fun jobs =>
    only_of_within (within_forEach fun job _ => blind_syncScheduled (fun _ => nofun) nofun cfg (o.clock 0) _ job)
  replace hmem := calls_runOnce hmem
  rw [syncServices] at hmem
  replace hmem := Prog.mem_calls_of_bind (hsync _) hx hmem
  obtain ⟨r, hr, remote, hjob, hid, houtl⟩ := calls_forEach hmem
  rw [← reconciled_eq] at houtl
  cases listing with
  | error e => cases hr
  | ok managed => exact ⟨managed, rfl, r, hr, remote, hjob, hid, houtl⟩

/-! ## The whole pass -/

/-- **Reconciliation isolates faults.** For every store and every listing of services, in any circumstances: two listings with one
entry for a job give that job one status and one state in the queue; if the listing failed or the entry of the job is erroneous,
the synchronisation leaves the job as the expiry of leases has left it; and a service is removed only if the listing has it
without error, its job is terminal or unknown, and the job's end, or the creation of the service if no end is known, is past by
the retention. -/
theorem runOnce_isolates (cfg : Config) (o : Circumstances) (db : DB) (listing : Except Err (List RuntimeJob)) :
    (∀ id listing', entryOf listing id = entryOf listing' id →
      (reconciled cfg o listing db).shown id = (reconciled cfg o listing' db).shown id) ∧
    (∀ id, entryOf listing id = .failed ∨ entryOf listing id = .erroneous →
      (reconciled cfg o listing db).shown id = (expired cfg o listing db).shown id) ∧
    ∀ id answer, ⟨.remove id, answer⟩ ∈ Prog.calls (o.answer listing) (0, db) (runOnce cfg) →
      ∃ managed, listing = .ok managed ∧ ∃ r ∈ managed, ∃ remote, r.job = .ok remote ∧ remote.id = id ∧
        Outlived cfg (o.clock 0) (reconciled cfg o listing db) remote :=
  ⟨fun _ _ => shown_reconciled, fun _ => shown_unknown, fun _ _ => removed⟩

def removesService (id : String) : (Σ c : Call, c.Ret) → Bool
  | ⟨.remove id', _⟩ => id' == id
  | _ => false

theorem removal_of_test {tr : Trace Call Call.Ret} (h : tr.any (removesService id) = true) :
    ∃ answer, ⟨.remove id, answer⟩ ∈ tr := by
  obtain ⟨⟨c, answer⟩, hmem, htest⟩ := List.any_eq_true.mp h
  cases c with
  | remove id' =>
    obtain rfl := beq_iff_eq.mp htest
    exact ⟨answer, hmem⟩
  | _ => cases htest

def unanswered : (c : Call) → c.Ret
  | .tx _ | .create _ | .status _ | .cancel _ | .remove _ | .managedJobs | .logs _ | .list _ | .removeResource _ _ _
  | .resolveSecret _ _ | .writeSecret _ _ | .publishSecrets _ | .removeSecrets _ | .authorizeProject _ _ | .issue _ | .lock
  | .snapshot | .reclaim _ => .error (.new "no answer")
  | .authenticate => .error ⟨.unavailable, "no answer"⟩
  | .lastPressure | .now => zeroTime
  | .ctxErr _ | .wait _ | .retryDelay | .draining | .dispatcherEnd | .coordinatorEnd | .boot => false
  | .nextTrigger => none
  | .wakeup => .done
  | .respond _ _ | .unlock | .setLastPressure _ | .dispatcherAdvance | .dispatcherBegin | .dispatcherFinish
  | .coordinatorAdvance | .coordinatorBegin | .coordinatorFinish | .go _ | .serve | .drainDispatcher | .drainCoordinator
  | .stopProcess => ()

def calm : Circumstances := ⟨fun _ => sampleTime, fun _ => none, fun _ => unanswered, nofun⟩

def activeStore : DB := runStore
  [.call (.createPreparedJob ⟨"p", "img", none, "", none, 0, none, none⟩ ⟨"key", "hash"⟩) 1 "1",
    .call (.queueJob "job1" "digest") 2 "", .call .acquireNextOperation 3 "", .call (.activateOperation (jobOp "job1")) 4 ""]

def succeededJob (id : String) : RemoteJob := ⟨id, .succeeded, "node", 3, some 4, some 6, false, some 0, ""⟩

def succeededAlone : Except Err (List RuntimeJob) := .ok [⟨"job1", .ok (succeededJob "job1")⟩]

def succeededAmongOthers : Except Err (List RuntimeJob) :=
  .ok [⟨"job2", .error (.new "inspect")⟩, ⟨"job1", .ok (succeededJob "job1")⟩, ⟨"job0", .ok (succeededJob "job0")⟩]

theorem runOnce_isolates_succeeded :
    (reconciled sampleConfig calm succeededAmongOthers activeStore).view.job "job1" = some ⟨.succeeded, false⟩ ∧
    (reconciled sampleConfig calm succeededAmongOthers activeStore).shown "job1" =
      (reconciled sampleConfig calm succeededAlone activeStore).shown "job1" ∧
    (reconciled sampleConfig calm (.error (.new "list")) activeStore).shown "job1" =
      (expired sampleConfig calm (.error (.new "list")) activeStore).shown "job1" ∧
    ∃ remote, remote.id = "job0" ∧
      Outlived sampleConfig sampleTime (reconciled sampleConfig calm succeededAmongOthers activeStore) remote := by
  have hremoves : (Prog.calls (calm.answer succeededAmongOthers) (0, activeStore) (runOnce sampleConfig)).any
      (removesService "job0") = true := by decide +kernel
  obtain ⟨answer, hremove⟩ := removal_of_test hremoves
  obtain ⟨hagree, -, hremoved⟩ := runOnce_isolates sampleConfig calm activeStore succeededAmongOthers
  obtain ⟨-, hfailed, -⟩ := runOnce_isolates sampleConfig calm activeStore (.error (.new "list"))
  obtain ⟨managed, -, r, -, remote, -, hid, houtlived⟩ := hremoved "job0" answer hremove
  exact ⟨by decide +kernel, hagree "job1" _ rfl, hfailed "job1" (.inl rfl), remote, hid, houtlived⟩

end Reconciler

end Autback
