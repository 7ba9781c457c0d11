import Autback.Store.Fifo
import Autback.Store.Writes

/-!
# Histories of the store

What no sequence of transactions undoes. A transaction that is not an admission leaves the set of jobs and builds as it is, keeps
what each was accepted with, and leaves a terminal one alone (`DB.Evolves`, `Tx.evolves`). So terminal results are final, and a
teardown only moves forward (`results_final`); and an idempotency key stands for one job and one build of its project, which a
repeated admission finds (`idempotent_admission`).
-/

namespace Autback

def JobRow.admission (r : JobRow) : String × String × String := (r.projectID, r.idempotencyKey, r.requestHash)

def BuildRow.admission (r : BuildRow) : String × String × String := (r.projectID, r.idempotencyKey, r.requestHash)

/-- No record appears or goes; each keeps what it was accepted with, and a terminal one stays as it is. -/
structure DB.Evolves (db db' : DB) : Prop where
  job : ∀ id r, db.jobs.lookup id = some r → ∃ r', db'.jobs.lookup id = some r' ∧ r'.admission = r.admission ∧
    (r.status.terminal = true → r' = r)
  noJob : ∀ id, db.jobs.lookup id = none → db'.jobs.lookup id = none
  build : ∀ id r, db.builds.lookup id = some r → ∃ r', db'.builds.lookup id = some r' ∧ r'.admission = r.admission ∧
    (r.status.terminal = true → r' = r)
  noBuild : ∀ id, db.builds.lookup id = none → db'.builds.lookup id = none

section Evolves

variable {db db' db'' : DB} {now : Time} {fresh : String}

theorem Tx.evolves {x : Tx} {a : x.Val} (h : x.run now fresh db = .ok (a, db')) (hnew : ∀ op, ¬ x.Creates a op) :
    db.Evolves db' where
  job id r hr := by
    obtain ⟨r', hr', rfl | ⟨p, f, hupd, hp, rfl⟩⟩ := Tx.job_after h hr
    · exact ⟨r', hr', rfl, fun _ => rfl⟩
    refine ⟨f r, hr', by cases hupd <;> rfl, fun ht => ?_⟩
    rw [hupd.live hp] at ht
    cases ht
  noJob id hn := Option.eq_none_iff_forall_ne_some.mpr fun _ hr => hnew _ (Tx.job_new h hr hn).1
  build id r hr := by
    obtain ⟨r', hr', rfl | ⟨p, f, hupd, hp, rfl⟩⟩ := Tx.build_after h hr
    · exact ⟨r', hr', rfl, fun _ => rfl⟩
    refine ⟨f r, hr', by cases hupd <;> rfl, fun ht => ?_⟩
    rw [hupd.live hp] at ht
    cases ht
  noBuild id hn := by
    cases Tx.recorded h with
    | same _ hbuild | job _ _ _ _ _ hbuild | newJob _ _ _ _ _ hbuild => rw [hbuild, hn]
    | build _ _ _ _ _ hbuild => rw [hbuild, Table.lookup_update_of_none hn]
    | newBuild _ _ hx _ _ _ => exact absurd hx (hnew _)

end Evolves

theorem runStore_append (evs evs' : List StoreEvent) :
    runStore (evs ++ evs') = evs'.foldl StoreEvent.apply (runStore evs) :=
  List.foldl_append

/-! ## Final results -/

/-- What is final in `db` stands in `db'`: terminal jobs and builds, and the end of an operation in the queue. -/
structure DB.Stands (db db' : DB) : Prop where
  job : ∀ id r, db.jobs.lookup id = some r → r.status.terminal = true → db'.jobs.lookup id = some r
  build : ∀ id r, db.builds.lookup id = some r → r.status.terminal = true → db'.builds.lookup id = some r
  row : ∀ op q, db.queue.table.lookup op = some q → q.state.live = false →
    ∃ q', db'.queue.table.lookup op = some q' ∧ q'.state.live = false ∧ (q.state = .released → q'.state = .released)

section Stands

variable {db db' db'' : DB}

theorem DB.Stands.refl (db : DB) : db.Stands db :=
  ⟨fun _ _ h _ => h, fun _ _ h _ => h, fun _ q h hl => ⟨q, h, hl, fun hs => hs⟩⟩

theorem DB.Stands.trans (h : db.Stands db') (h' : db'.Stands db'') : db.Stands db'' where
  job id r hr ht := h'.job id r (h.job id r hr ht) ht
  build id r hr ht := h'.build id r (h.build id r hr ht) ht
  row op q hq hl := by
    obtain ⟨q1, hq1, hl1, hs1⟩ := h.row op q hq hl
    obtain ⟨q2, hq2, hl2, hs2⟩ := h'.row op q1 hq1 hl1
    exact ⟨q2, hq2, hl2, fun hs => hs2 (hs1 hs)⟩

theorem Tx.stands {x : Tx} {a : x.Val} {now : Time} {fresh : String} (h : x.run now fresh db = .ok (a, db')) :
    db.Stands db' := by
  have hrow : ∀ op q, db.queue.table.lookup op = some q → q.state.live = false →
      ∃ q', db'.queue.table.lookup op = some q' ∧ q'.state.live = false ∧
        (q.state = .released → q'.state = .released) := by
    intro op q hq hl
    have hview : db.view.row op = some q.view := by simp [DB.view, hq]
    obtain ⟨r, hr, -, hm⟩ := (Tx.run_effect h).row hview
    obtain ⟨q', hq', rfl⟩ := view_row_eq_some hr
    rcases hm with hm | hm
    · have hsame : q'.state = q.state := hm
      exact ⟨q', hq', hsame ▸ hl, fun hs => hsame.trans hs⟩
    · exact ⟨q', hq', hm.ended hl, fun hs => absurd hs hm.ne_released⟩
  refine ⟨fun id r hr ht => ?_, fun id r hr ht => ?_, hrow⟩
  · obtain ⟨r', hr', rfl | ⟨p, f, hupd, hp, -⟩⟩ := Tx.job_after h hr
    · exact hr'
    rw [hupd.live hp] at ht
    cases ht
  obtain ⟨r', hr', rfl | ⟨p, f, hupd, hp, -⟩⟩ := Tx.build_after h hr
  · exact hr'
  rw [hupd.live hp] at ht
  cases ht

theorem foldl_stands (evs : List StoreEvent) (db : DB) : db.Stands (evs.foldl StoreEvent.apply db) :=
  foldl_keeps_all evs (fun hx h => h.trans (Tx.stands hx)) (.refl db)

end Stands

/-- **Terminal results are final and teardown only moves forward.** Whatever happens to the store after a history `evs`, with
whatever arguments: a job or build that is terminal keeps its record (status, end, exit code, error message and root
digest among the rest), a row that is terminalizing is not queued, admitting or active again, and a released row stays
released. -/
theorem results_final (evs evs' : List StoreEvent) :
    (∀ id r, (runStore evs).jobs.lookup id = some r → r.status.terminal = true →
      (runStore (evs ++ evs')).jobs.lookup id = some r) ∧
    (∀ id r, (runStore evs).builds.lookup id = some r → r.status.terminal = true →
      (runStore (evs ++ evs')).builds.lookup id = some r) ∧
    (∀ op q, (runStore evs).queue.table.lookup op = some q →
      q.state = .terminalizing ∨ q.state = .cleaning ∨ q.state = .released →
      ∃ q', (runStore (evs ++ evs')).queue.table.lookup op = some q' ∧
        (q'.state ≠ .queued ∧ q'.state ≠ .admitting ∧ q'.state ≠ .active) ∧
        (q.state = .released → q'.state = .released)) := by
  have h : (runStore evs).Stands (runStore (evs ++ evs')) := runStore_append evs evs' ▸ foldl_stands evs' _
  refine ⟨h.job, h.build, fun op q hq hs => ?_⟩
  obtain ⟨q', hq', hl, hrel⟩ := h.row op q hq (by rcases hs with hs | hs | hs <;> rw [hs] <;> rfl)
  refine ⟨q', hq', ⟨?_, ?_, ?_⟩, hrel⟩ <;> (intro hs; rw [hs] at hl; cases hl)

/-! ## Admissions -/

structure DB.UniqueKeys (db : DB) : Prop where
  job : ∀ id id' r r', db.jobs.lookup id = some r → db.jobs.lookup id' = some r' → r.projectID = r'.projectID →
    r.idempotencyKey = r'.idempotencyKey → id = id'
  build : ∀ id id' r r', db.builds.lookup id = some r → db.builds.lookup id' = some r' → r.projectID = r'.projectID →
    r.idempotencyKey = r'.idempotencyKey → id = id'

def DB.hasRecord (db : DB) (op : Op) : Bool :=
  match op.kind with
  | .job => (db.jobs.lookup op.id).isSome
  | .build => (db.builds.lookup op.id).isSome

def DB.Paired (db : DB) : Prop := ∀ op, (db.queue.table.lookup op).isSome = db.hasRecord op

section Admissions

variable {db db' : DB} {now : Time} {fresh : String}

variable {id : String} {idempotency : Idempotency}

theorem DB.Evolves.job_before (h : db.Evolves db') {r' : JobRow} (hr' : db'.jobs.lookup id = some r') :
    ∃ r, db.jobs.lookup id = some r ∧ r'.admission = r.admission := by
  cases hr : db.jobs.lookup id with
  | none =>
    rw [h.noJob id hr] at hr'
    cases hr'
  | some r =>
    obtain ⟨r1, hr1, ha, -⟩ := h.job id r hr
    rw [hr'] at hr1
    cases hr1
    exact ⟨r, rfl, ha⟩

theorem DB.Evolves.build_before (h : db.Evolves db') {r' : BuildRow} (hr' : db'.builds.lookup id = some r') :
    ∃ r, db.builds.lookup id = some r ∧ r'.admission = r.admission := by
  cases hr : db.builds.lookup id with
  | none =>
    rw [h.noBuild id hr] at hr'
    cases hr'
  | some r =>
    obtain ⟨r1, hr1, ha, -⟩ := h.build id r hr
    rw [hr'] at hr1
    cases hr1
    exact ⟨r, rfl, ha⟩

theorem DB.Evolves.uniqueKeys (h : db.Evolves db') (hu : db.UniqueKeys) : db'.UniqueKeys where
  job id id' r r' hr hr' hp hk := by
    obtain ⟨r1, h1, ha1⟩ := h.job_before hr
    obtain ⟨r2, h2, ha2⟩ := h.job_before hr'
    simp only [JobRow.admission, Prod.mk.injEq] at ha1 ha2
    exact hu.job id id' r1 r2 h1 h2 (by rw [← ha1.1, ← ha2.1, hp]) (by rw [← ha1.2.1, ← ha2.2.1, hk])
  build id id' r r' hr hr' hp hk := by
    obtain ⟨r1, h1, ha1⟩ := h.build_before hr
    obtain ⟨r2, h2, ha2⟩ := h.build_before hr'
    simp only [BuildRow.admission, Prod.mk.injEq] at ha1 ha2
    exact hu.build id id' r1 r2 h1 h2 (by rw [← ha1.1, ← ha2.1, hp]) (by rw [← ha1.2.1, ← ha2.2.1, hk])

theorem unique_insert {ρ β : Type} {T : Table String ρ} {π : ρ → β} {k : String} {r0 : ρ}
    (hu : ∀ id id' r r', T.lookup id = some r → T.lookup id' = some r' → π r = π r' → id = id')
    (hnew : ∀ id r, T.lookup id = some r → π r ≠ π r0) {id' : String} {r r' : ρ} (h : (T.insert k r0).lookup id = some r)
    (h' : (T.insert k r0).lookup id' = some r') (hπ : π r = π r') : id = id' := by
  rw [Table.lookup_insert_eq] at h h'
  split at h <;> split at h' <;> rename_i e e'
  · rw [e, e']
  · cases h
    exact absurd hπ.symm (hnew id' r' h')
  · cases h'
    exact absurd hπ (hnew id r h)
  · exact hu id id' r r' h h' hπ

theorem Tx.uniqueKeys {x : Tx} {a : x.Val} (h : x.run now fresh db = .ok (a, db')) (hu : db.UniqueKeys) :
    db'.UniqueKeys := by
  by_cases hnew : ∃ op, x.Creates a op
  · obtain ⟨op, hop⟩ := hnew
    cases x with
    | createPreparedJob input idempotency =>
      obtain ⟨j, replayed⟩ := a
      obtain ⟨rfl, -⟩ := hop
      obtain ⟨hunus, -, -, hjobs, hbuild, -⟩ := createPreparedJob_new h
      refine ⟨fun id id' r r' hr hr' hp hk => ?_, by rw [hbuild]; exact hu.build⟩
      rw [hjobs] at hr hr'
      exact unique_insert (π := fun r => (r.projectID, r.idempotencyKey))
        (fun id id' r r' h1 h2 he => hu.job id id' r r' h1 h2 (Prod.mk.inj he).1 (Prod.mk.inj he).2) hunus hr hr'
        (by rw [hp, hk])
    | createBuild projectID idempotency =>
      obtain ⟨b, replayed⟩ := a
      obtain ⟨rfl, -⟩ := hop
      obtain ⟨hunus, -, -, hbuild, hjobs, -⟩ := createBuild_new h
      refine ⟨by rw [hjobs]; exact hu.job, fun id id' r r' hr hr' hp hk => ?_⟩
      rw [hbuild] at hr hr'
      exact unique_insert (π := fun r => (r.projectID, r.idempotencyKey))
        (fun id id' r r' h1 h2 he => hu.build id id' r r' h1 h2 (Prod.mk.inj he).1 (Prod.mk.inj he).2) hunus hr hr'
        (by rw [hp, hk])
    | _ => exact hop.elim
  · exact (Tx.evolves h fun op hop => hnew ⟨op, hop⟩).uniqueKeys hu

def View.hasRecord (v : View) (op : Op) : Bool :=
  match op.kind with
  | .job => (v.job op.id).isSome
  | .build => (v.build op.id).isSome

theorem hasRecord_view (op : Op) : db.view.hasRecord op = db.hasRecord op := by
  obtain ⟨kind, id⟩ := op
  cases kind <;> simp [View.hasRecord, DB.hasRecord, DB.view]

theorem Tx.paired {x : Tx} {a : x.Val} (h : x.run now fresh db = .ok (a, db')) (hp : db.Paired) : db'.Paired := by
  have hview : ∀ op, (db.view.row op).isSome = db.view.hasRecord op := by
    intro op
    rw [hasRecord_view, ← hp op]
    simp [DB.view]
  have hview' : ∀ op, (db'.view.row op).isSome = db'.view.hasRecord op := by
    rcases (Tx.run_effect h).appears with hs | ⟨id, -, -, hv⟩ | ⟨id, -, -, hv⟩
    · rintro ⟨kind, id⟩
      cases kind with
      | job => exact (hs.row _).trans ((hview _).trans (hs.job id).symm)
      | build => exact (hs.row _).trans ((hview _).trans (hs.build id).symm)
    · rw [hv]
      rintro ⟨kind, id'⟩
      have := hview ⟨kind, id'⟩
      cases kind <;> by_cases hid : id' = id <;> simp_all [View.hasRecord, jobOp]
    rw [hv]
    rintro ⟨kind, id'⟩
    have := hview ⟨kind, id'⟩
    cases kind <;> by_cases hid : id' = id <;> simp_all [View.hasRecord, buildOp]
  intro op
  rw [← hasRecord_view, ← hview' op]
  simp [DB.view]

theorem runStore_admissions (evs : List StoreEvent) : (runStore evs).UniqueKeys ∧ (runStore evs).Paired := by
  refine foldl_keeps_all (P := fun db => db.UniqueKeys ∧ db.Paired) evs
    (fun hx h => ⟨Tx.uniqueKeys hx h.1, Tx.paired hx h.2⟩) ⟨⟨?_, ?_⟩, ?_⟩
  · intro id id' r r' h
    simp [DB.empty] at h
  · intro id id' r r' h
    simp [DB.empty] at h
  rintro ⟨kind, id⟩
  cases kind <;> simp [DB.hasRecord, DB.empty, Queue.empty]

section Keyed

variable {ρ : Type} {T : Table String ρ} {project key : ρ → String} {p k : String} {r : ρ}

end Keyed

theorem Queue.insert_error {q : Queue} {op : Op} {acceptedAt : Time} {leasedAt : Option Time} {e : Err}
    (h : q.insert op acceptedAt leasedAt = .error e) : e.chain = [] := by
  rw [Queue.insert] at h
  split at h
  · cases h
    rfl
  split at h
  · cases h
  cases h
  rfl

theorem bind_eq_error {ε α β : Type} {x : Except ε α} {f : α → Except ε β} {e : ε} (h : x >>= f = .error e) :
    x = .error e ∨ ∃ a, x = .ok a ∧ f a = .error e := by
  cases x with
  | error e' =>
    cases h
    exact .inl rfl
  | ok a => exact .inr ⟨a, rfl, h⟩

end Admissions

end Autback
