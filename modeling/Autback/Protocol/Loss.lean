import Autback.Protocol.Watch

/-!
# Lost jobs

The reconciler takes a scheduled job for lost if a listing of the services lacks it and its row has no lease that is younger than
the grace period. If every admission takes less than the grace period, no job is acquired between the verdict and the store of the
loss, no job is queued while it is being admitted, and the runtime loses no task, then the service of a job that is stored as lost
does not exist and is not being created (`loss_genuine`). An admission that takes longer is overtaken (`loss_overtakes`).
-/

namespace Autback

open Conc Ghost

/-! ## The condition -/

def orderlyCall (cfg : Config) (w : World) (c : Call) (r : c.Ret) : Bool :=
  match c, r with
  | .tx .acquireNextOperation, Except.ok (some (o : Operation)) =>
    everyone cfg w fun g => g.doomed.all fun id => o.op != jobOp id
  | .tx (.queueJob id _), Except.ok _ => everyone cfg w fun g => g.admission.all fun a => a.id != id
  | _, _ => true

/-- No admission takes as long as the grace period, and the newest task of a service is not lost. -/
def orderlyEnv (cfg : Config) (w : World) : Env → Bool
  | .tick d => everyone cfg w fun g => g.admission.all fun a =>
      decide (w.st.now + d < a.since + Reconciler.admissionGrace cfg)
  | .tasks _ ts => (newestTask ts).all fun task => !task.state.strays
  | _ => true

def promptly (cfg : Config) : Rules where
  call w _ c r := orderlyCall cfg w c r = true
  start _ _ := True
  env w e := orderlyEnv cfg w e = true
  crash _ := True

theorem Reconciler.admissionGrace_pos (cfg : Config) : 0 < Reconciler.admissionGrace cfg := by
  unfold Reconciler.admissionGrace Reconciler.orDefault
  split
  · decide
  · exact lt_of_not_ge ‹_›

def Prompt (cfg : Config) (w : World) : Prop :=
  ∀ t g a, (watch cfg).ghosts w t = some g → g.admission = some a →
    a.since ≤ w.st.now ∧ w.st.now < a.since + Reconciler.admissionGrace cfg

theorem prompt_keeps (cfg : Config) (now : Time) :
    Keeps (machine cfg) (promptly cfg) (watch cfg) (Sys.fresh now) (fun _ => True) (Prompt cfg) where
  init _ _ _ hg := by cases hg
  start w l _ hI _ _ _ t g a hg ha := by
    rcases ghosts_spawn_cases hg with rfl | hg
    · cases ha
    · exact hI t g a hg ha
  call w t g c ch r s sp _ hI hfits hg hguard hexec _ := by
    replace hexec : exec t ch w.st c = some (r, s, sp) := hexec
    refine ⟨watch_fact hexec, fun t' g' a hg' ha => ?_⟩
    rw [World.answer_st, (exec_framed hexec).now]
    rcases ghosts_answer_cases hg hg' with ⟨-, rfl⟩ | ⟨-, hg'⟩ | ⟨l, -, rfl⟩
    · by_cases hc : c = .tx .acquireNextOperation
      · subst hc
        obtain ⟨hsince, -⟩ := exec_begins hexec ha hguard.2
        rw [hsince]
        exact ⟨le_refl _, Int.lt_add_of_pos_right _ (Reconciler.admissionGrace_pos cfg)⟩
      obtain ⟨a0, ha0, -, hsince⟩ := Watch.after_admission hc ha
      rw [hsince]
      exact hI t g a0 hg ha0
    · exact hI t' g' a hg' ha
    · cases ha
  finish w t g _ hI _ _ _ t' g' a hg' ha := hI t' g' a (ghosts_finish_cases hg').2 ha
  jump w t g l hlt _ hI _ hg _ t' g' a hg' ha := by
    rcases ghosts_jump_cases hg' with ⟨-, rfl⟩ | ⟨-, hg'⟩
    · cases ha
    · exact hI t' g' a hg' ha
  env w e s _ hI hfits he hK t g a hg ha := by
    have hold := hI t g a hg ha
    cases e with
    | tick d =>
      cases he
      have hnew := everyone_apply (show everyone cfg w _ = true from hK) hfits hg
      simp only [ha, Option.all_some, decide_eq_true_eq] at hnew
      exact ⟨le_trans hold.1 (Int.le_add_of_nonneg_right (Int.natCast_nonneg d)), hnew⟩
    | tasks id ts =>
      simp only [machine, Env.apply] at he
      split at he
      · cases he
        exact hold
      · cases he
    | exit id | addResource r =>
      cases he
      exact hold
  crash w _ _ _ _ t g a hg _ := by cases hg

/-! ## What the ghost says holds -/

def Sys.LeasedAfter (s : Sys) (t : Time) (id : String) : Prop :=
  ∃ q lease, s.db.queue.table.lookup (jobOp id) = some q ∧ q.leasedAt = some lease ∧ t < lease

structure Service.Tracked (service : Service) (id : String) : Prop where
  name : service.name = id
  managed : service.label managedLabel = "true"
  newest : ∀ task, newestTask service.tasks = some task → task.state.strays = false

def Sys.Served (s : Sys) : Prop :=
  ∀ id service, s.services.lookup id = some service → service.Tracked id ∧ s.Backs id

structure Watch.Sound (cfg : Config) (t : Nat) (g : Watch) (s : Sys) : Prop where
  held : g.held = true → s.lock = some t
  locked : ∀ a, g.admission = some a → g.held = true
  unserved : ∀ a, g.admission = some a → s.services.lookup a.id = none
  leased : ∀ a, g.admission = some a → ∃ q lease, s.db.queue.table.lookup (jobOp a.id) = some q ∧ q.state ≠ .queued ∧
    q.leasedAt = some lease ∧ a.since ≤ lease
  ready : ∀ a, g.admission = some a → a.ready = true → s.Started a.id
  clock : ∀ n, g.clock = some n → n ≤ s.now
  unlisted : g.clock = none → g.listings = []
  listings : ∀ n m id, g.clock = some n → m ∈ g.listings → Reconciler.missing m id = true →
    s.services.lookup id = none ∨ s.LeasedAfter (n - Reconciler.admissionGrace cfg) id
  entries : ∀ m ∈ g.listings, ∀ e ∈ m, ∀ remote, e.job = .ok remote → remote.status ≠ .lost

section Spares

variable {cfg : Config} {t : Nat} {g : Watch} {s s' : Sys} {id : String}

theorem Sys.Spares.leasedAfter {n : Time} (h : s.Spares s' id) (hl : s.LeasedAfter n id) (hn : n < s.now) :
    s'.LeasedAfter n id := by
  obtain ⟨q, lease, hq, hlease, hlt⟩ := hl
  obtain ⟨q', hq', -, hsame | hnew⟩ := h.row q hq
  · exact ⟨q', lease, hq', hsame.trans hlease, hlt⟩
  · exact ⟨q', s.now, hq', hnew, hn⟩

theorem Sys.Served.step (h : s.Served) (hspar : ∀ id, s.services.lookup id ≠ none → s.Spares s' id)
    (hservice : ∀ id service, s'.services.lookup id = some service →
      (∃ before, s.services.lookup id = some before ∧ (before.Tracked id → service.Tracked id)) ∨
        (service.Tracked id ∧ s'.Backs id)) : s'.Served := by
  intro id service hs
  rcases hservice id service hs with ⟨before, hbefore, htrace⟩ | hnew
  · obtain ⟨ht, hb⟩ := h id before hbefore
    exact ⟨htrace ht, (hspar id (by rw [hbefore]; simp)).backs hb⟩
  · exact hnew

/-- A step keeps what the ghost of a goroutine says if it spares the goroutine's admission and the services, and gives a
service only to a job with a young lease that the goroutine is not admitting. -/
theorem Watch.Sound.step (h : g.Sound cfg t s) (hlock : g.held = true → s'.lock = s.lock) (hnow : s.now ≤ s'.now)
    (hsince : ∀ a, g.admission = some a → a.since ≤ s.now)
    (hadm : ∀ a, g.admission = some a → s.Spares s' a.id ∧ s'.services.lookup a.id = none)
    (hspar : ∀ id, s.services.lookup id ≠ none → s.Spares s' id)
    (hservice : ∀ id, s.services.lookup id = none → s'.services.lookup id = none ∨
      s'.LeasedAfter (s.now - Reconciler.admissionGrace cfg) id) : g.Sound cfg t s' where
  held hh := (hlock hh).trans (h.held hh)
  locked := h.locked
  unserved a ha := (hadm a ha).2
  leased a ha := by
    obtain ⟨q, lease, hq, hs, hlease, hle⟩ := h.leased a ha
    obtain ⟨q', hq', hs', hsame | hnew⟩ := (hadm a ha).1.row q hq
    · exact ⟨q', lease, hq', hs' hs, hsame.trans hlease, hle⟩
    · exact ⟨q', s.now, hq', hs' hs, hnew, hsince a ha⟩
  ready a ha hr := (hadm a ha).1.started (h.ready a ha hr)
  clock n hn := le_trans (h.clock n hn) hnow
  unlisted := h.unlisted
  listings n m id hn hm hmiss := by
    have hle := h.clock n hn
    have hpos := Reconciler.admissionGrace_pos cfg
    cases hs : s.services.lookup id with
    | none =>
      refine (hservice id hs).imp_right fun ⟨q, lease, hq, hlease, hlt⟩ => ⟨q, lease, hq, hlease, ?_⟩
      exact lt_of_le_of_lt (Int.sub_le_sub_right hle _) hlt
    | some service =>
      rcases h.listings n m id hn hm hmiss with hnone | hleas
      · rw [hs] at hnone
        cases hnone
      refine .inr ((hspar id (by rw [hs]; simp)).leasedAfter hleas ?_)
      exact lt_of_lt_of_le (Int.sub_lt_self n hpos) hle
  entries := h.entries

theorem Watch.Sound.drop (h : g.Sound cfg t s) : Watch.Sound cfg t { g with admission := none } s where
  held := h.held
  locked _ ha := by cases ha
  unserved _ ha := by cases ha
  leased _ ha := by cases ha
  ready _ ha := by cases ha
  clock := h.clock
  unlisted := h.unlisted
  listings := h.listings
  entries := h.entries

theorem watch_start_sound (l : Label) : ((watch cfg).start l).Sound cfg t s where
  held h := by cases h
  locked _ ha := by cases ha
  unserved _ ha := by cases ha
  leased _ ha := by cases ha
  ready _ ha := by cases ha
  clock _ hn := by cases hn
  unlisted _ := rfl
  listings _ _ _ hn := by cases hn
  entries _ hm := by cases hm

theorem Watch.Sound.excludes {t' : Nat} {g' : Watch} (h : g.Sound cfg t s) (h' : g'.Sound cfg t' s) (hne : t' ≠ t)
    (hheld : g.held = true) : g'.held = false := by
  by_contra hh
  have hlock := h.held hheld
  rw [h'.held (by simpa using hh)] at hlock
  exact hne (Option.some.inj hlock)

end Spares

/-! ### Listings -/

section Listings

variable {s : Sys} {service : Service} {id : String}

theorem runtimeTaskStatus_ne_lost {state : TaskState} (h : state.strays = false) (exitCode : Int) (cancelled : Bool) :
    runtimeTaskStatus state exitCode cancelled ≠ .lost := by
  unfold runtimeTaskStatus
  cases state <;> grind [TaskState.strays]

theorem Service.Tracked.status {remote : RemoteJob} (h : service.Tracked id) (hs : service.status id = .ok remote) :
    remote.status ≠ .lost ∧ remote.id = id := by
  have htask : ∀ job task, task.state.strays = false →
      (taskStatus job task).status ≠ .lost ∧ (taskStatus job task).id = job.id := by
    intro job task ht
    simp only [taskStatus]
    split <;> exact ⟨runtimeTaskStatus_ne_lost ht _ _, rfl⟩
  have hnew := h.newest
  have hname := h.name
  unfold Service.status at hs
  grind

theorem missing_unserved {broken : List String} (hV : s.Served)
    (h : Reconciler.missing (managedJobs s broken) id = true) : s.services.lookup id = none := by
  by_contra hne
  obtain ⟨service, hs⟩ := Option.ne_none_iff_exists'.mp hne
  obtain ⟨htrace, -⟩ := hV id service hs
  obtain ⟨e, he, hid, hjob⟩ := managedJobs_mem broken hs htrace.managed
  simp only [Reconciler.missing, Bool.and_eq_true, Bool.not_eq_true', Option.isNone_iff_eq_none] at h
  have hpoison : ∀ err, e.job ≠ .error err := by
    intro err herr
    have hp := h.1
    simp only [Reconciler.poisoned, List.any_eq_false] at hp
    have := hp e he
    simp [hid, herr] at this
  cases hremote : e.job with
  | error err => exact hpoison err hremote
  | ok remote =>
    have hstatus : service.status id = .ok remote := by
      rcases hjob with hjob | ⟨err, herr⟩
      · rw [← hjob, hremote]
      · exact absurd herr (hpoison err)
    have hnone := List.findSome?_eq_none_iff.mp h.2 e (List.mem_reverse.mpr he)
    simp [hremote, (htrace.status hstatus).2] at hnone

theorem managed_ne_lost {broken : List String} (hV : s.Served) {e : RuntimeJob} {remote : RemoteJob}
    (he : e ∈ managedJobs s broken) (hjob : e.job = .ok remote) : remote.status ≠ .lost := by
  obtain ⟨service, hs, hstatus⟩ := mem_managedJobs he hjob
  exact ((hV e.id service hs).1.status hstatus).1

theorem tracked_newService {job : Job} {serviceID : String} {now : Time} : (newService job serviceID now).Tracked job.id :=
  ⟨rfl, rfl, nofun⟩

theorem Service.Tracked.cancel {now : Time} (h : service.Tracked id) : (service.cancel now).Tracked id := by
  refine ⟨h.name, ?_, h.newest⟩
  rw [← h.managed]
  simp only [Service.label, Service.cancel]
  congr 1
  rw [List.lookup_cons]
  have hne : (managedLabel == cancelledLabel) = false := by decide
  rw [hne]
  induction service.labels with
  | nil => rfl
  | cons e labels ih => grind

end Listings

/-! ### Transactions -/

section Commit

variable {cfg : Config} {t t' : Nat} {g g' : Watch} {s : Sys} {x : Tx} {a : x.Val} {db : DB} {fresh : String}

theorem unleases_unserved {v' : View} {id : String} (hV : s.Served) (h : g.Sound cfg t s)
    (hguard : (watch cfg).guard g (.tx x)) (he : x.Effect a s.db.view v') (hs : s.services.lookup id ≠ none) :
    ¬ x.Unleases (jobOp id) := by
  intro hx
  obtain ⟨service, hservice⟩ := Option.ne_none_iff_exists'.mp hs
  rcases hx.cases with ⟨id', rootDigest, rfl, hop⟩ | rfl
  · cases hop
    obtain ⟨⟨c, hj, -⟩, -⟩ := he
    obtain ⟨j, hj', hne⟩ := (hV id service hservice).2.started
    rw [hj] at hj'
    cases hj'
    exact hne rfl
  obtain ⟨adm, hadm, rfl⟩ := hguard
  exact hs (h.unserved adm hadm)

theorem Watch.Sound.commit (h : g.Sound cfg t s) (hrun : x.run s.now fresh s.db = .ok (a, db))
    (hsync : ∀ id remote, x = .syncJob id remote → remote.status ≠ .preparing)
    (hservice : ∀ id, s.services.lookup id ≠ none → ¬ x.Unleases (jobOp id))
    (hadm : ∀ a, g.admission = some a → a.since ≤ s.now ∧ ¬ x.Unleases (jobOp a.id)) :
    g.Sound cfg t { s with db := db } := by
  refine h.step (fun _ => rfl) (le_refl _) (fun a ha => (hadm a ha).1) (fun a ha => ⟨?_, h.unserved a ha⟩)
    (fun id hs => spares_commit hrun (hservice id hs) hsync) fun id hs => .inl hs
  exact spares_commit hrun (hadm a ha).2 hsync

theorem Watch.Sound.read {id : String} {job : Job} {c : Bool} (h : g.Sound cfg t s)
    (hj : s.db.view.job id = some ⟨job.status, c⟩) :
    Watch.Sound cfg t { g with admission := g.admission.bind fun a => a.read id job } s := by
  have hread : ∀ a', (g.admission.bind fun a => a.read id job) = some a' → ∃ a, g.admission = some a ∧ a'.id = a.id ∧
      a'.since = a.since ∧ (a'.ready = true → a.ready = true ∨ (a.id = id ∧ job.status ≠ .preparing)) := by
    intro a' ha'
    obtain ⟨a, ha, hr⟩ := Option.bind_eq_some_iff.mp ha'
    exact ⟨a, ha, Admission.read_eq_some hr⟩
  refine ⟨h.held, fun a' ha' => ?_, fun a' ha' => ?_, fun a' ha' => ?_, fun a' ha' hr => ?_, h.clock, h.unlisted, h.listings,
    h.entries⟩ <;> obtain ⟨a, ha, hid, hsince, hready⟩ := hread a' ha'
  · exact h.locked a ha
  · rw [hid]
    exact h.unserved a ha
  · rw [hid, hsince]
    exact h.leased a ha
  · rw [hid]
    rcases hready hr with hr | ⟨rfl, hne⟩
    · exact h.ready a ha hr
    · exact ⟨_, hj, hne⟩

theorem Watch.Sound.acquire {o : Operation} (hV : s.Served) (h : g.Sound cfg t s) (hheld : g.held = true)
    (hnone : g.admission = none) (hrun : s.db.acquireNextOperation s.now = .ok (some o, db)) :
    Watch.Sound cfg t { g with admission := o.begins } { s with db := db } := by
  have hcomm : g.Sound cfg t { s with db := db } := by
    have hrun' : Tx.acquireNextOperation.run s.now "" s.db = .ok (some o, db) := hrun
    refine h.commit hrun' (by simp) (fun _ _ hx => hx) ?_
    intro a ha
    rw [hnone] at ha
    cases ha
  obtain ⟨q, hq, hqueue, hq', -⟩ := acquire_rows hrun
  refine ⟨hcomm.held, fun _ _ => hheld, fun a ha => ?_, fun a ha => ?_, fun a ha hr => ?_, hcomm.clock,
    hcomm.unlisted, hcomm.listings, hcomm.entries⟩ <;>
    obtain ⟨hop, hread⟩ := begins_jobOp ha
  · by_contra hs
    obtain ⟨service, hservice⟩ := Option.ne_none_iff_exists'.mp hs
    obtain ⟨q0, hq0, hne⟩ := (hV a.id service hservice).2.row
    rw [← hop, hq] at hq0
    cases hq0
    exact hne hqueue
  · rw [hop] at hq'
    exact ⟨_, s.now, hq', by simp, rfl, le_of_eq (begins_since ha ((ran_acquireNextOperation hrun).2 _ rfl))⟩
  rw [hread] at hr
  cases hr

theorem Watch.Sound.tx (hV : s.Served) (h : g.Sound cfg t s) (hrun : x.run s.now fresh s.db = .ok (a, db))
    (hguard : (watch cfg).guard g (.tx x)) (hsince : ∀ a, g.admission = some a → a.since ≤ s.now)
    (hqueue : ∀ a rootDigest, g.admission = some a → x ≠ .queueJob a.id rootDigest)
    (hsync : ∀ id remote, x = .syncJob id remote → remote.status ≠ .preparing) :
    (g.after cfg (.tx x) (Except.ok a)).Sound cfg t { s with db := db } := by
  have he := Tx.run_effect hrun
  have hservice : ∀ id, s.services.lookup id ≠ none → ¬ x.Unleases (jobOp id) :=
    fun id hs => unleases_unserved hV h hguard he hs
  have hdrop : Watch.Sound cfg t { g with admission := none } { s with db := db } :=
    h.drop.commit hrun hsync hservice nofun
  have hcomm : (∀ op, x ≠ .requeueAdmittingOperation op) → g.Sound cfg t { s with db := db } := by
    refine fun hx => h.commit hrun hsync hservice fun adm hadm => ⟨hsince adm hadm, fun hu => ?_⟩
    rcases hu.cases with ⟨id, rootDigest, rfl, hop⟩ | rfl
    · cases hop
      exact hqueue adm rootDigest hadm rfl
    · exact hx _ rfl
  cases x with
  | acquireNextOperation =>
    cases a with
    | none => exact hcomm (nofun)
    | some o => exact h.acquire hV hguard.1 hguard.2 hrun
  | requeueAdmittingOperation op => exact hdrop
  | failJob id message => exact hdrop
  | job id =>
    obtain ⟨hv, -, hj⟩ := he
    exact (hcomm nofun).read (c := a.cancelRequested) (by rw [← hj]; exact congrFun (congrArg View.job hv) id)
  | operation op | syncJob id remote =>
    have hg := hcomm nofun
    exact ⟨hg.held, hg.locked, hg.unserved, hg.leased, hg.ready, hg.clock, hg.unlisted, hg.listings, hg.entries⟩
  | _ => exact hcomm nofun

end Commit

/-! ## Runs -/

section Runs

variable {cfg : Config} {w : World} {t t' : Nat} {g g' : Watch} {ch : Choice} {s : Sys} {sp : Option Label}

variable {id : String} {s' : Sys} {c : Call} {r : c.Ret}

theorem orderly_queueJob {rootDigest : String} {u : Unit} {a : Admission}
    (hK : orderlyCall cfg w (.tx (.queueJob id rootDigest)) (Except.ok u) = true) (hfits : (watch cfg).Fits w)
    (hg : (watch cfg).ghosts w t = some g) (ha : g.admission = some a) : a.id ≠ id := by
  have hall := everyone_apply (show everyone cfg w _ = true from hK) hfits hg
  simpa [ha] using hall

theorem Watch.Sound.frame (h : g.Sound cfg t s) (hdb : s'.db = s.db) (hservice : s'.services = s.services)
    (hlock : s'.lock = s.lock) (hnow : s'.now = s.now) : g.Sound cfg t s' where
  held hh := hlock.trans (h.held hh)
  locked := h.locked
  unserved a ha := hservice ▸ h.unserved a ha
  leased a ha := hdb ▸ h.leased a ha
  ready a ha hr := (spares_of_db hdb).started (h.ready a ha hr)
  clock n hn := hnow ▸ h.clock n hn
  unlisted := h.unlisted
  listings n m id hn hm hmiss := by
    rw [hservice, Sys.LeasedAfter, hdb]
    exact h.listings n m id hn hm hmiss
  entries := h.entries

theorem Sys.Served.frame (h : s.Served) (hdb : s'.db = s.db) (hservice : s'.services = s.services) : s'.Served :=
  h.step (fun _ _ => spares_of_db hdb) fun _ service hs => .inl ⟨service, hservice ▸ hs, fun ht => ht⟩

/-- What a call leaves of the invariant: the services, what the caller does and what the others do. -/
def Stays (cfg : Config) (w : World) (t : Nat) (s : Sys) (g : Watch) : Prop :=
  s.Served ∧ g.Sound cfg t s ∧ ∀ t' g', t' ≠ t → (watch cfg).ghosts w t' = some g' → g'.Sound cfg t' w.st → g'.Sound cfg t' s

theorem stays_tx {x : Tx} {r : Except Err x.Val} (hfits : (watch cfg).Fits w) (hJ : Prompt cfg w) (hV : w.st.Served)
    (hg : (watch cfg).ghosts w t = some g) (h : g.Sound cfg t w.st) (hguard : (watch cfg).guard g (.tx x))
    (hexec : exec t ch w.st (.tx x) = some (r, s, sp)) (hK : orderlyCall cfg w (.tx x) r = true) :
    Stays cfg w t s (g.after cfg (.tx x) r) := by
  obtain ⟨-, ⟨e, rfl, rfl, -⟩ | ⟨a, db, fresh, rfl, rfl, hrun⟩⟩ := exec_run hexec
  · refine ⟨hV, ?_, fun _ _ _ _ h => h⟩
    cases x <;> first | exact h | exact h.drop |
      exact ⟨h.held, h.locked, h.unserved, h.leased, h.ready, h.clock, h.unlisted, h.listings, h.entries⟩
  have hsync : ∀ id remote, x = .syncJob id remote → remote.status ≠ .preparing := by
    rintro id remote rfl
    exact hguard.2.1
  have hqueue : ∀ {t' : Nat} {g' : Watch} {adm : Admission}, (watch cfg).ghosts w t' = some g' →
      g'.admission = some adm → ∀ rootDigest, x ≠ .queueJob adm.id rootDigest := by
    rintro t' g' adm hg' hadm rootDigest rfl
    exact orderly_queueJob hK hfits hg' hadm rfl
  have hservice : ∀ id, w.st.services.lookup id ≠ none → ¬ x.Unleases (jobOp id) :=
    fun id hs => unleases_unserved hV h hguard (Tx.run_effect hrun) hs
  refine ⟨?_, ?_, fun t' g' hne hg' h' => ?_⟩
  · exact hV.step (fun id hs => spares_commit hrun (hservice id hs) hsync) fun id service hs => .inl ⟨service, hs, fun ht => ht⟩
  · exact h.tx hV hrun hguard (fun adm hadm => (hJ t g adm hg hadm).1) (fun adm d hadm => hqueue hg hadm d) hsync
  refine h'.commit hrun hsync hservice fun adm hadm => ⟨(hJ t' g' adm hg' hadm).1, fun hu => ?_⟩
  rcases hu.cases with ⟨id, rootDigest, rfl, hop⟩ | rfl
  · cases hop
    exact hqueue hg' hadm rootDigest rfl
  -- a requeue belongs to an admission of its own, under the lock
  obtain ⟨own, hown, -⟩ := hguard
  have hfree := h.excludes h' hne (h.locked own hown)
  rw [h'.locked adm hadm] at hfree
  cases hfree

/-- `Scheduler.Create`: the lease of the admitted job is younger than the grace period. -/
theorem stays_create {job : Job} {r : Except Err Unit} (hJ : Prompt cfg w) (hV : w.st.Served)
    (hg : (watch cfg).ghosts w t = some g) (h : g.Sound cfg t w.st) (hguard : (watch cfg).guard g (.create job))
    (hexec : exec t ch w.st (.create job) = some (r, s, sp)) : Stays cfg w t s { g with admission := none } := by
  obtain ⟨adm, hadm, hid, hread⟩ := hguard
  have hdb := exec_db (fun x hx => by cases hx) hexec
  have hlock : s.lock = w.st.lock := (exec_framed hexec).lock (by simp) (by simp)
  have hnow := (exec_framed hexec).now
  obtain ⟨q, lease, hq, hstatus, hlease, hle⟩ := h.leased adm hadm
  have hback : s.Backs job.id := by
    refine (spares_of_db hdb).backs ⟨hid ▸ h.ready adm hadm hread, q, ?_, hstatus⟩
    rw [← hid, hq]
  have hyoun : s.LeasedAfter (w.st.now - Reconciler.admissionGrace cfg) job.id := by
    refine ⟨q, lease, by rw [hdb, ← hid, hq], hlease, lt_of_lt_of_le ?_ hle⟩
    exact Int.sub_right_lt_of_lt_add (hJ t g adm hg hadm).2
  have hservice : ∀ id, w.st.services.lookup id = none → s.services.lookup id = none ∨
      s.LeasedAfter (w.st.now - Reconciler.admissionGrace cfg) id := by
    intro id hnone
    cases hs : s.services.lookup id with
    | none => exact .inl rfl
    | some service =>
      rcases exec_service hexec hs with ⟨before, hbefore, -⟩ | ⟨job', serviceID, hc, rfl, -⟩
      · rw [hnone] at hbefore
        cases hbefore
      cases hc
      exact .inr hyoun
  have hstep : ∀ {t' : Nat} {g' : Watch}, g'.Sound cfg t' w.st → g'.admission = none → g'.Sound cfg t' s := by
    intro t' g' h' hnone
    have hno : ∀ {P : Admission → Prop} a, g'.admission = some a → P a := by
      intro P a ha
      rw [hnone] at ha
      cases ha
    exact h'.step (fun _ => hlock) (le_of_eq hnow.symm) hno hno (fun _ _ => spares_of_db hdb) hservice
  refine ⟨hV.step (fun _ _ => spares_of_db hdb) fun id service hs => ?_, hstep h.drop rfl, fun t' g' hne hg' h' => hstep h' ?_⟩
  · rcases exec_service hexec hs with ⟨before, hbefore, rfl | rfl⟩ | ⟨job', serviceID, hc, rfl, -, rfl⟩
    · exact .inl ⟨service, hbefore, fun ht => ht⟩
    · exact .inl ⟨before, hbefore, fun ht => ht.cancel⟩
    cases hc
    exact .inr ⟨tracked_newService, hback⟩
  -- the caller has the lock, so nobody else is in an admission
  by_contra hsome
  obtain ⟨adm', hadm'⟩ := Option.ne_none_iff_exists'.mp hsome
  have hfree := h.excludes h' hne (h.locked adm hadm)
  rw [h'.locked adm' hadm'] at hfree
  cases hfree

theorem stays_fewer (hJ : Prompt cfg w) (hV : w.st.Served) (hg : (watch cfg).ghosts w t = some g) (h : g.Sound cfg t w.st)
    (hexec : exec t ch w.st c = some (r, s, sp)) (htx : ∀ x, c ≠ .tx x) (hcreate : ∀ job, c ≠ .create job) (hl : c ≠ .lock)
    (hu : c ≠ .unlock) : Stays cfg w t s g := by
  have hdb := exec_db htx hexec
  have hlock := (exec_framed hexec).lock hl hu
  have hnow := (exec_framed hexec).now
  have hnone : ∀ id, w.st.services.lookup id = none → s.services.lookup id = none := by
    intro id hnone
    by_contra hs
    obtain ⟨service, hservice⟩ := Option.ne_none_iff_exists'.mp hs
    rcases exec_service hexec hservice with ⟨before, hbefore, -⟩ | ⟨job, -, hc, -⟩
    · rw [hnone] at hbefore
      cases hbefore
    · exact hcreate job hc
  have hstep : ∀ {t' : Nat} {g' : Watch}, (watch cfg).ghosts w t' = some g' → g'.Sound cfg t' w.st → g'.Sound cfg t' s := by
    intro t' g' hg' h'
    exact h'.step (fun _ => hlock) (le_of_eq hnow.symm) (fun a ha => (hJ t' g' a hg' ha).1)
      (fun a ha => ⟨spares_of_db hdb, hnone _ (h'.unserved a ha)⟩) (fun _ _ => spares_of_db hdb) fun id hs => .inl (hnone id hs)
  refine ⟨hV.step (fun _ _ => spares_of_db hdb) fun id service hs => .inl ?_, hstep hg h, fun t' g' _ hg' h' => hstep hg' h'⟩
  rcases exec_service hexec hs with ⟨before, hbefore, rfl | rfl⟩ | ⟨job, -, hc, -⟩
  · exact ⟨service, hbefore, fun ht => ht⟩
  · exact ⟨before, hbefore, fun ht => ht.cancel⟩
  · exact absurd hc (hcreate job)

theorem stays_lock {r : Except Err Unit} (hV : w.st.Served) (h : g.Sound cfg t w.st)
    (hexec : exec t ch w.st .lock = some (r, s, sp)) : Stays cfg w t s (g.after cfg .lock r) := by
  obtain ⟨hfree, hexec⟩ := Option.ite_none_right_eq_some.mp hexec
  split at hexec
  · -- the lock was free, so no other goroutine had it
    cases hexec
    refine ⟨hV.frame rfl rfl, ⟨fun _ => rfl, fun _ _ => rfl, h.unserved, h.leased, h.ready, h.clock, h.unlisted,
        h.listings, h.entries⟩,
      fun t' g' _ _ h' => ⟨fun hh => ?_, h'.locked, h'.unserved, h'.leased, h'.ready, h'.clock, h'.unlisted, h'.listings,
        h'.entries⟩⟩
    have hlock := h'.held hh
    rw [hfree] at hlock
    cases hlock
  · cases hexec
    exact ⟨hV, h, fun _ _ _ _ h' => h'⟩
  · cases hexec

theorem stays_unlock {r : Unit} (hV : w.st.Served) (h : g.Sound cfg t w.st) (hguard : g.held = true)
    (hexec : exec t ch w.st .unlock = some (r, s, sp)) : Stays cfg w t s (g.after cfg .unlock r) := by
  cases hexec
  have hdrop := h.drop
  refine ⟨hV.frame rfl rfl, ⟨fun hh => (by cases hh), fun _ ha => (by cases ha), hdrop.unserved, hdrop.leased, hdrop.ready,
    h.clock, h.unlisted, h.listings, h.entries⟩, fun t' g' hne _ h' => ⟨fun hh => ?_, h'.locked, h'.unserved, h'.leased,
      h'.ready, h'.clock,
      h'.unlisted, h'.listings, h'.entries⟩⟩
  have hfree := h.excludes h' hne hguard
  rw [hh] at hfree
  cases hfree

theorem Watch.Sound.now {n : Time} (h : g.Sound cfg t s) (hn : n = s.now) : (g.after cfg .now n).Sound cfg t s := by
  simp only [Watch.after]
  split
  · rename_i hclock
    have hnone := h.unlisted (Option.isNone_iff_eq_none.mp hclock)
    refine ⟨h.held, h.locked, h.unserved, h.leased, h.ready, fun n' hn' => ?_, fun hc => (by cases hc),
      fun n' m id _ hm => ?_, h.entries⟩
    · cases hn'
      exact le_of_eq hn
    rw [show g.listings = [] from hnone] at hm
    cases hm
  · exact h

theorem Watch.Sound.list {broken : List String} (hV : s.Served) (h : g.Sound cfg t s) :
    (g.after cfg .managedJobs (Except.ok (managedJobs s broken))).Sound cfg t s := by
  simp only [Watch.after]
  split
  · rename_i hclock
    refine ⟨h.held, h.locked, h.unserved, h.leased, h.ready, h.clock, fun hc => ?_, fun n m id hn hm hmiss => ?_,
      fun m hm e he remote hjob => ?_⟩
    · rw [show g.clock = none from hc] at hclock
      cases hclock
    · rcases List.mem_cons.mp hm with rfl | hm
      · exact .inl (missing_unserved hV hmiss)
      · exact h.listings n m id hn hm hmiss
    rcases List.mem_cons.mp hm with rfl | hm
    · exact managed_ne_lost hV he hjob
    · exact h.entries m hm e he remote hjob
  · exact h

theorem watch_local (cfg : Config) (now : Time) :
    LocalAt (machine cfg) (promptly cfg) (watch cfg) (Sys.fresh now) (Prompt cfg) Sys.Served (Watch.Sound cfg) where
  init id service h := by simp [Sys.fresh] at h
  start _ l _ _ _ := watch_start_sound l
  spawn _ _ _ _ _ _ _ l _ _ _ := watch_start_sound l
  jump _ _ l _ _ _ _ := watch_start_sound l
  crash w _ hV _ := hV.frame rfl rfl
  env w e s _ hV he hK := by
    cases e with
    | tick d =>
      cases he
      have hnow : w.st.now ≤ w.st.now + d := Int.le_add_of_nonneg_right (Int.natCast_nonneg d)
      exact ⟨hV.frame rfl rfl, fun t g h => ⟨h.held, h.locked, h.unserved, h.leased, h.ready,
        fun n hn => le_trans (h.clock n hn) hnow, h.unlisted, h.listings, h.entries⟩⟩
    | tasks id ts =>
      simp only [machine, Env.apply] at he
      split at he
      · rename_i service hs
        cases he
        have hnone : ∀ id', w.st.services.lookup id' = none →
            (w.st.services.insert id { service with tasks := ts }).lookup id' = none := by
          intro id' hnone
          rw [AList.lookup_insert_ne, hnone]
          rintro rfl
          rw [hs] at hnone
          cases hnone
        refine ⟨hV.step (fun _ _ => spares_of_db rfl) fun id' service' hs' => .inl ?_, fun t g h => ?_⟩
        · simp only [Table.lookup_insert_eq] at hs'
          split at hs'
          · rename_i hid
            subst hid
            cases hs'
            refine ⟨service, hs, fun ht => ⟨ht.name, ht.managed, fun task htask => ?_⟩⟩
            have hcalm : ((newestTask ts).all fun task => !task.state.strays) = true := hK
            rw [show newestTask ts = some task from htask] at hcalm
            simpa using hcalm
          · exact ⟨service', hs', fun ht => ht⟩
        refine ⟨h.held, h.locked, fun a ha => hnone _ (h.unserved a ha), h.leased, h.ready, h.clock, h.unlisted,
          fun n m id' hn hm hmiss => ?_, h.entries⟩
        exact (h.listings n m id' hn hm hmiss).imp_left (hnone id')
      · cases he
    | exit id | addResource r =>
      cases he
      exact ⟨hV.frame rfl rfl, fun t g h => h.frame rfl rfl rfl rfl⟩
  call w t g c ch r s sp hfits hJ hV hg h hguard hexec hK := by
    replace hexec : exec t ch w.st c = some (r, s, sp) := hexec
    refine ⟨watch_fact hexec, ?_⟩
    cases c with
    | tx x => exact stays_tx hfits hJ hV hg h hguard hexec hK
    | create job => exact stays_create hJ hV hg h hguard hexec
    | lock => exact stays_lock hV h hexec
    | unlock => exact stays_unlock hV h hguard hexec
    | now =>
      cases hexec
      exact ⟨hV, h.now rfl, fun _ _ _ _ h' => h'⟩
    | managedJobs =>
      have hs : s = w.st := by
        simp only [exec, execManagedJobs] at hexec
        split at hexec <;> cases hexec <;> rfl
      subst hs
      refine ⟨hV, ?_, fun _ _ _ _ h' => h'⟩
      rcases r with e | managed
      · exact h
      obtain ⟨broken, rfl⟩ := exec_managedJobs hexec
      exact h.list hV
    | _ => exact stays_fewer hJ hV hg h hexec (by simp) (by simp) (by simp) (by simp)

/-! ### The verdict -/

def Forsaken (cfg : Config) (w : World) : Prop :=
  ∀ t g id, (watch cfg).ghosts w t = some g → g.doomed = some id → w.st.services.lookup id = none ∧
    ∀ t' g' a, (watch cfg).ghosts w t' = some g' → g'.admission = some a → a.id ≠ id

def Attended (cfg : Config) (w : World) : Prop := Prompt cfg w ∧ (watch cfg).HoldsAt Sys.Served (Watch.Sound cfg) w

theorem Watch.verdict_eq_some {op : Op} {r : Except Err Operation} (h : g.verdict cfg op r = some id) :
    op = jobOp id ∧ (∃ m ∈ g.listings, Reconciler.missing m id = true) ∧
      ∃ n, g.clock = some n ∧ Reconciler.gone cfg n r = true := by
  obtain ⟨kind, id'⟩ := op
  simp only [Watch.verdict, Option.ite_none_right_eq_some, Bool.and_eq_true, Option.some.injEq, List.any_eq_true,
    Option.any_eq_true] at h
  obtain ⟨⟨⟨hkind, hmiss⟩, hgone⟩, rfl⟩ := h
  cases eq_of_beq hkind
  exact ⟨rfl, hmiss, hgone⟩

theorem Watch.after_doomed (hc : ∀ op, c ≠ .tx (.operation op)) (h : (g.after cfg c r).doomed = some id) :
    g.doomed = some id := by
  have hmove := Watch.after_move cfg g r
  generalize g.after cfg c r = g' at hmove h
  cases hmove
  case judge op d => exact absurd rfl (hc op)
  case sync id' remote => cases h
  all_goals exact h

theorem gone_unleased {r : Except Err Operation} {n : Time}
    (hexec : exec t ch s (.tx (.operation (jobOp id))) = some (r, s', sp)) (hgone : Reconciler.gone cfg n r = true) :
    ¬ s.LeasedAfter (n - Reconciler.admissionGrace cfg) id := by
  rintro ⟨q, lease, hq, hlease, hlt⟩
  obtain ⟨hmiss, hfound⟩ := exec_operation hexec
  cases r with
  | error e =>
    rw [hmiss e rfl hgone] at hq
    cases hq
  | ok o =>
    obtain ⟨q', hq', ho⟩ := hfound o rfl
    rw [hq] at hq'
    cases hq'
    simp only [Reconciler.gone, ho, hlease, Option.any_some, Bool.not_eq_true', decide_eq_false_iff_not] at hgone
    exact hgone hlt

theorem verdict_right {op : Op} {r : Except Err Operation} (hJ : Attended cfg w) (hg : (watch cfg).ghosts w t = some g)
    (hexec : exec t ch w.st (.tx (.operation op)) = some (r, s, sp)) (h : g.verdict cfg op r = some id) :
    w.st.services.lookup id = none ∧
      ∀ t' g' a, (watch cfg).ghosts w t' = some g' → g'.admission = some a → a.id ≠ id := by
  obtain ⟨rfl, ⟨m, hm, hmiss⟩, n, hn, hgone⟩ := Watch.verdict_eq_some h
  have hunlock := gone_unleased hexec hgone
  have hsound := hJ.2.2 t g hg
  refine ⟨(hsound.listings n m id hn hm hmiss).resolve_right hunlock, ?_⟩
  rintro t' g' a hg' ha rfl
  -- the lease of an admission is younger than the grace period
  obtain ⟨q, lease, hq, -, hlease, hle⟩ := (hJ.2.2 t' g' hg').leased a ha
  refine hunlock ⟨q, lease, hq, hlease, ?_⟩
  calc n - Reconciler.admissionGrace cfg ≤ w.st.now - Reconciler.admissionGrace cfg :=
        Int.sub_le_sub_right (hsound.clock n hn) _
    _ < a.since := Int.sub_right_lt_of_lt_add (hJ.1 t' g' a hg' ha).2
    _ ≤ lease := hle

theorem verdict_stays (hfits : (watch cfg).Fits w) (hI : Forsaken cfg w) (hg : (watch cfg).ghosts w t = some g)
    (hguard : (watch cfg).guard g c) (hexec : exec t ch w.st c = some (r, s, sp)) (hK : orderlyCall cfg w c r = true)
    (hg' : (watch cfg).ghosts w t' = some g') (hd : g'.doomed = some id) : s.services.lookup id = none ∧
      ∀ t1 g1 a, (watch cfg).ghosts (w.answer t c r s sp) t1 = some g1 → g1.admission = some a → a.id ≠ id := by
  obtain ⟨hnone, hadm⟩ := hI t' g' id hg' hd
  refine ⟨?_, fun t1 g1 a hg1 ha => ?_⟩
  · by_contra hs
    obtain ⟨service, hservice⟩ := Option.ne_none_iff_exists'.mp hs
    rcases exec_service hexec hservice with ⟨before, hbefore, -⟩ | ⟨job, -, rfl, rfl, -⟩
    · rw [hnone] at hbefore
      cases hbefore
    obtain ⟨a, ha, hid, -⟩ := hguard
    exact hadm t g a hg ha hid
  rcases ghosts_answer_cases hg hg1 with ⟨-, rfl⟩ | ⟨-, hg1⟩ | ⟨l, -, rfl⟩
  · by_cases hc : c = .tx .acquireNextOperation
    · -- the condition: nobody has found the acquired job lost
      subst hc
      obtain ⟨-, -, o, db, rfl, hop, -, -⟩ := exec_begins hexec ha hguard.2
      have hall := everyone_apply (show everyone cfg w _ = true from hK) hfits hg'
      rintro rfl
      simp [hd, hop] at hall
    obtain ⟨a0, ha0, hid, -⟩ := Watch.after_admission hc ha
    rw [hid]
    exact hadm t g a0 hg ha0
  · exact hadm t1 g1 a hg1 ha
  · cases ha

theorem forsaken_keeps (cfg : Config) (now : Time) :
    Keeps (machine cfg) (promptly cfg) (watch cfg) (Sys.fresh now) (Attended cfg) (Forsaken cfg) where
  init _ _ _ hg := by cases hg
  start w l _ hI _ _ _ t g id hg hd := by
    rcases ghosts_spawn_cases hg with rfl | hg
    · cases hd
    obtain ⟨hnone, hadm⟩ := hI t g id hg hd
    refine ⟨hnone, fun t' g' a hg' ha => ?_⟩
    rcases ghosts_spawn_cases hg' with rfl | hg'
    · cases ha
    · exact hadm t' g' a hg' ha
  call w t g c ch r s sp hJ hI hfits hg hguard hexec hK := by
    replace hexec : exec t ch w.st c = some (r, s, sp) := hexec
    refine ⟨watch_fact hexec, fun t1 g1 id hg1 hd => ?_⟩
    rw [World.answer_st]
    rcases ghosts_answer_cases hg hg1 with ⟨-, rfl⟩ | ⟨-, hg1⟩ | ⟨l, -, rfl⟩
    · by_cases hc : ∃ op, c = .tx (.operation op)
      · obtain ⟨op, rfl⟩ := hc
        obtain ⟨hnone, hadm⟩ := verdict_right hJ hg hexec hd
        refine ⟨by rw [(exec_framed hexec).services rfl, hnone], fun t' g' a hg' ha => ?_⟩
        rcases ghosts_answer_cases hg hg' with ⟨-, rfl⟩ | ⟨-, hg'⟩ | ⟨l, -, rfl⟩
        · exact hadm t g a hg ha
        · exact hadm t' g' a hg' ha
        · cases ha
      · exact verdict_stays hfits hI hg hguard hexec hK hg (Watch.after_doomed (fun op h => hc ⟨op, h⟩) hd)
    · exact verdict_stays hfits hI hg hguard hexec hK hg1 hd
    · cases hd
  finish w t g _ hI _ _ _ t' g' id hg' hd := by
    obtain ⟨hnone, hadm⟩ := hI t' g' id (ghosts_finish_cases hg').2 hd
    exact ⟨hnone, fun t1 g1 a hg1 ha => hadm t1 g1 a (ghosts_finish_cases hg1).2 ha⟩
  jump w t g l hlt _ hI _ _ _ t' g' id hg' hd := by
    rcases ghosts_jump_cases hg' with ⟨-, rfl⟩ | ⟨-, hg'⟩
    · cases hd
    obtain ⟨hnone, hadm⟩ := hI t' g' id hg' hd
    refine ⟨hnone, fun t1 g1 a hg1 ha => ?_⟩
    rcases ghosts_jump_cases hg1 with ⟨-, rfl⟩ | ⟨-, hg1⟩
    · cases ha
    · exact hadm t1 g1 a hg1 ha
  env w e s _ hI _ he _ t g id hg hd := by
    obtain ⟨hnone, hadm⟩ := hI t g id hg hd
    refine ⟨?_, hadm⟩
    cases e with
    | tasks id' ts =>
      simp only [machine, Env.apply] at he
      split at he
      · rename_i service hs
        cases he
        rw [World.moved_st, AList.lookup_insert_ne, hnone]
        rintro rfl
        rw [hs] at hnone
        cases hnone
      · cases he
    | _ =>
      cases he
      exact hnone
  crash w _ _ _ _ t g id hg _ := by cases hg

/-! ## The theorem -/

def StoresLost (σ : Conf) (t : Nat) (id : String) : Prop :=
  σ.procs t = some .reconcilerRun ∧ ∃ remote k, σ.code t = .call (.tx (.syncJob id remote)) k ∧ remote.status = .lost

/-- **No false loss**, in every configuration that the server reaches while admissions take less than the grace period, no job
is acquired that has been found lost, none is queued in its admission, and the runtime loses no task: when the reconciler
stores a job as lost, it has no service and none is being created. -/
theorem loss_genuine {cfg : Config} {σ : Conf} (h : Reaches cfg (promptly cfg) σ) {t : Nat} {id : String}
    (hlost : StoresLost σ t id) : σ.st.services.lookup id = none ∧ ∀ t', ¬ Creates σ t' id := by
  obtain ⟨now, hreach⟩ := h
  obtain ⟨hl, remote, k, hcode, hstatus⟩ := hlost
  have hprompt : ∀ σ, (machine cfg).Reach (promptly cfg) (Sys.fresh now) σ → Prompt cfg σ.toWorld :=
    fun σ hr => (run_invariant (watch_body cfg) (fun _ _ => trivial) (prompt_keeps cfg now) hr).2
  have hattended : ∀ σ, (machine cfg).Reach (promptly cfg) (Sys.fresh now) σ → Attended cfg σ.toWorld :=
    fun σ hr => ⟨hprompt σ hr, (run_invariant (watch_body cfg) hprompt (watch_local cfg now).keeps hr).2⟩
  obtain ⟨hfollows, hforsaken⟩ := run_invariant (watch_body cfg) hattended (forsaken_keeps cfg now) hreach
  obtain ⟨g, hg, hsafe⟩ := (hl ▸ hfollows t).eq_some
  rw [hcode] at hsafe
  have hreconciler : g.reconciler = true :=
    part_eq_start (γ := watch cfg) (π := Watch.reconciler) (fun _ _ _ => Watch.after_reconciler) hreach hg hl
  have hdoomed : g.doomed = some id := by
    rcases hsafe.1.2.2 hreconciler hstatus with hdoomed | ⟨m, hm, e, he, hjob⟩
    · exact hdoomed
    · exact absurd hstatus (((hattended σ hreach).2.2 t g hg).entries m hm e he remote hjob)
  obtain ⟨hnone, hadmissions⟩ := hforsaken t g id hg hdoomed
  refine ⟨hnone, ?_⟩
  rintro t' ⟨hlive, job, k', hcode', hid⟩
  obtain ⟨l', hl'⟩ := Option.ne_none_iff_exists'.mp hlive
  obtain ⟨g', hg', hsafe'⟩ := (hl' ▸ hfollows t').eq_some
  rw [hcode'] at hsafe'
  obtain ⟨a, ha, haid, -⟩ := hsafe'.1
  exact hadmissions t' g' a hg' ha (haid.trans hid)

end Runs

def storesLost (σ : Conf) (t : Nat) (id : String) : Bool :=
  match σ.procs t, σ.code t with
  | some .reconcilerRun, .call (.tx (.syncJob id' remote)) _ => id' == id && remote.status == .lost
  | _, _ => false

theorem storesLost_of_test {σ : Conf} {t : Nat} {id : String} (h : storesLost σ t id = true) : StoresLost σ t id := by
  unfold storesLost at h
  split at h
  · rename_i id' remote k hl hcode
    rw [Bool.and_eq_true] at h
    cases eq_of_beq h.1
    exact ⟨hl, remote, k, hcode, eq_of_beq h.2⟩
  · cases h

def reconciles : List Event := .env (.tick 16000000000) :: goes 3 6 ++ .run 3 (.managed []) :: goes 3 1

/-- The request ends during `Scheduler.Create`, which leaves the job without a service. -/
theorem loss_genuine_abandoned : ∃ σ, Reaches sampleConfig (promptly sampleConfig) σ ∧ StoresLost σ 3 "job1" ∧
    σ.st.services.lookup "job1" = none ∧ ∀ t', ¬ Creates σ t' "job1" := by
  have hrun : (((machine sampleConfig).stepsIfAll (fun w _ c r => orderlyCall sampleConfig w c r) (orderlyEnv sampleConfig)
      (Conc.Machine.init (Sys.fresh sampleTime)) (starting ++ .run 6 (.fail ⟨"context canceled", [.canceled], false⟩) ::
        .run 6 .done :: goes 6 6 ++ reconciles)).any fun σ => storesLost σ 3 "job1") = true := by
    decide +kernel
  obtain ⟨σ, hσ, htest⟩ := (Option.any_eq_true ..).mp hrun
  have hreach : Reaches sampleConfig (promptly sampleConfig) σ :=
    ⟨_, Conc.Machine.reach_stepsIfAll (fun _ _ => trivial) (fun _ _ h => h) (fun _ _ _ _ h => h) .init hσ⟩
  exact ⟨σ, hreach, storesLost_of_test htest, loss_genuine hreach (storesLost_of_test htest)⟩

/-- A `Scheduler.Create` that takes longer than the grace period: the job is stored as lost while its service is created. -/
theorem loss_overtakes : ∃ σ, Reaches sampleConfig Conc.Rules.all σ ∧ StoresLost σ 3 "job1" ∧ Creates σ 6 "job1" := by
  obtain ⟨σ, hr, hp⟩ := reaches_of_steps sampleConfig (starting ++ reconciles)
    (p := fun σ => storesLost σ 3 "job1" && creates σ 6 "job1") (by decide +kernel)
  rw [Bool.and_eq_true] at hp
  exact ⟨σ, hr, storesLost_of_test hp.1, creates_of_test hp.2⟩

end Autback
