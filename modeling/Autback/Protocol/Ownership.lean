import Autback.Conc.History
import Autback.Server.Frames
import Autback.Text.Codec

/-!
# What an operation owns

`ResourceManager` (`internal/operation/cleanup/resources.go`) over the table `operation_resource_baselines`
(`internal/control/sqlite/store.go`), whose rows are inserted once and never changed. The machine runs any number of `Prepare`
and `Cleanup` calls concurrently: the Docker Engine answers as it likes, the database may fail, the process may die.

The baseline of an operation is the normalized inventory of the first `Prepare` that saved one, no `Cleanup` removes anything in
it, and one that returns nil has seen nothing else at its end (`cleanup_bounded`).
-/

namespace Autback

open Conc Ghost
open Conc.Prog (runs_ret)

/-! ## Stored baselines -/

/-- The texts in a row of `operation_resource_baselines`. -/
structure BaselineRow where
  (services containers networks volumes : String)
  deriving DecidableEq

abbrev Baselines := Table Op BaselineRow

/-- `encoding/json` on lists of valid strings. -/
structure StringsJson where
  marshal : List String → String
  unmarshal : String → Except Err (List String)
  unmarshal_marshal : ∀ ids, unmarshal (marshal ids) = .ok ids

namespace StringsJson

variable (J : StringsJson)

def row (resources : ResourceSet) : BaselineRow :=
  ⟨J.marshal resources.services, J.marshal resources.containers, J.marshal resources.networks, J.marshal resources.volumes⟩

def saveResourceBaseline (T : Baselines) (op : Op) (resources : ResourceSet) : Baselines :=
  match T.lookup op with
  | some _ => T
  | none => T.insert op (J.row resources)

def decode (what text : String) : Except Err (List String) :=
  (J.unmarshal text).mapError (Err.wrap ("decode " ++ what ++ " baseline"))

def decodeRow (row : BaselineRow) : Except Err ResourceSet := do
  let services ← J.decode "service" row.services
  let containers ← J.decode "container" row.containers
  let networks ← J.decode "network" row.networks
  let volumes ← J.decode "volume" row.volumes
  return ⟨services, containers, networks, volumes⟩

def resourceBaseline (T : Baselines) (op : Op) : Except Err ResourceSet :=
  match T.lookup op with
  | none => .error .notFound
  | some row => J.decodeRow row

variable {J} {T : Baselines} {op op' : Op} {resources : ResourceSet}

theorem decodeRow_row (resources : ResourceSet) : J.decodeRow (J.row resources) = .ok resources := by
  simp only [decodeRow, row, decode, J.unmarshal_marshal]
  rfl

theorem lookup_save : (J.saveResourceBaseline T op resources).lookup op' =
    if op' = op then some ((T.lookup op).getD (J.row resources)) else T.lookup op' := by
  rw [saveResourceBaseline]
  split
  · rename_i row hrow
    split
    · rename_i heq
      rw [heq, hrow, Option.getD_some]
    · rfl
  rename_i hrow
  rw [Table.lookup_insert_eq, hrow, Option.getD_none]

theorem lookup_save_of_some {row : BaselineRow} (h : T.lookup op' = some row) :
    (J.saveResourceBaseline T op resources).lookup op' = some row := by
  rw [lookup_save]
  split
  · rename_i heq
    rw [← heq, h, Option.getD_some]
  · exact h

/-- The table holds the texts of the baselines of the store. -/
def Represents (J : StringsJson) (T : Baselines) (db : DB) : Prop := ∀ op, T.lookup op = (db.baselines.lookup op).map J.row

theorem Represents.resourceBaseline_eq {db : DB} (h : J.Represents T db) (op : Op) :
    J.resourceBaseline T op = db.resourceBaseline op := by
  rw [resourceBaseline, DB.resourceBaseline, h op]
  cases db.baselines.lookup op with
  | none => rfl
  | some resources => exact decodeRow_row resources

theorem Represents.save {db : DB} (h : J.Represents T db) (op : Op) (resources : ResourceSet) :
    J.Represents (J.saveResourceBaseline T op resources) (db.saveResourceBaseline op resources) := by
  intro op'
  rw [lookup_save, DB.saveResourceBaseline, h op]
  cases hrow : db.baselines.lookup op with
  | none =>
    rw [Table.lookup_insert_eq]
    split
    · rfl
    · exact h op'
  | some saved =>
    split
    · rename_i heq
      rw [heq, hrow]
      rfl
    · exact h op'

/-- **The table refines the baselines of the store**: after any saves both read alike, and what they read is the first set saved. -/
theorem baselines_refined (J : StringsJson) (saves : List (Op × ResourceSet)) (op : Op) :
    J.resourceBaseline (saves.foldl (fun T s => J.saveResourceBaseline T s.1 s.2) ∅) op =
        (saves.foldl (fun db s => db.saveResourceBaseline s.1 s.2) DB.empty).resourceBaseline op ∧
      (saves.foldl (fun db s => db.saveResourceBaseline s.1 s.2) DB.empty).baselines.lookup op =
        (saves.find? (·.1 == op)).map Prod.snd := by
  have hrun : ∀ {T db}, J.Represents T db → J.Represents (saves.foldl (fun T s => J.saveResourceBaseline T s.1 s.2) T)
      (saves.foldl (fun db s => db.saveResourceBaseline s.1 s.2) db) := by
    induction saves with
    | nil => exact id
    | cons s saves ih => exact fun h => ih (h.save s.1 s.2)
  have hfirst : ∀ db : DB, (saves.foldl (fun db s => db.saveResourceBaseline s.1 s.2) db).baselines.lookup op =
      (db.baselines.lookup op).or ((saves.find? (·.1 == op)).map Prod.snd) := by
    clear hrun
    induction saves with
    | nil => simp
    | cons s saves ih =>
      intro db
      rw [List.foldl_cons, ih, List.find?_cons, DB.saveResourceBaseline]
      by_cases heq : s.1 = op
      · subst heq
        cases hrow : db.baselines.lookup s.1 <;> simp [hrow]
      · cases db.baselines.lookup s.1 <;> simp [beq_false_of_ne heq, Ne.symm heq]
  exact ⟨(hrun fun _ => rfl).resourceBaseline_eq op, hfirst DB.empty⟩

end StringsJson

/-! ## The machine -/

namespace Ownership

inductive Task
  | prepare (op : Op)
  | cleanup (scope : Scope) (op : Op)
  deriving DecidableEq

def Task.body : Task → Srv (Option Task)
  | prepare op => Prog.bind (ResourceManager.prepare op) fun _ => .ret none
  | cleanup scope op => Prog.bind (ResourceManager.cleanup scope op) fun _ => .ret none

/-- How the environment answers the next call: the database may fail, Docker answers as it likes, the wait may be cut short. -/
structure Answer where
  fails : Option Err
  listed : Except Err (List String)
  removed : Except Err Unit
  elapsed : Bool

variable (J : StringsJson)

/-- The calls of the resource manager; it makes no others. A failure of the database is never `ErrNotFound`. -/
def exec (_ : Nat) (a : Answer) (T : Baselines) : (c : Call) → Option (c.Ret × Baselines × Option Task)
  | .tx (.resourceBaseline op) =>
    match a.fails with
    | some e => if e.is .notFound then none else some (.error e, T, none)
    | none => some (J.resourceBaseline T op, T, none)
  | .tx (.saveResourceBaseline op resources) =>
    match a.fails with
    | some e => some (.error e, T, none)
    | none => some (.ok (), J.saveResourceBaseline T op resources, none)
  | .list _ => some (a.listed, T, none)
  | .removeResource _ _ _ => some (a.removed, T, none)
  | .wait _ => some (a.elapsed, T, none)
  | _ => none

def machine : Conc.Machine Baselines Call Call.Ret Task Answer Empty where
  body := Task.body
  entry _ _ := true
  exec := exec J
  env e _ := e.elim
  crash T := T

abbrev Log := List (Entry Call Call.Ret Task)

def saved (t : Nat) (op : Op) (resources : ResourceSet) : Entry Call Call.Ret Task :=
  .call t (.tx (.saveResourceBaseline op resources)) (.ok ())

def Unsaved (op : Op) (log : Log) : Prop := ∀ t resources, saved t op resources ∉ log

variable {J} {t : Nat} {a : Answer} {T T' : Baselines} {op : Op} {resources : ResourceSet}

theorem exec_cases {c : Call} {x : c.Ret} {sp : Option Task} (h : exec J t a T c = some (x, T', sp)) : sp = none ∧
    ((T' = T ∧ ∀ op resources, Entry.call t c x ≠ saved t op resources) ∨
      ∃ op resources, Entry.call t c x = saved t op resources ∧ T' = J.saveResourceBaseline T op resources) := by
  cases c with
  | tx y =>
    cases y with
    | resourceBaseline op =>
      simp only [exec] at h
      split at h
      · obtain ⟨-, heq⟩ := Option.ite_none_left_eq_some.mp h
        cases heq
        exact ⟨rfl, .inl ⟨rfl, nofun⟩⟩
      cases h
      exact ⟨rfl, .inl ⟨rfl, nofun⟩⟩
    | saveResourceBaseline op resources =>
      simp only [exec] at h
      split at h
      · cases h
        exact ⟨rfl, .inl ⟨rfl, nofun⟩⟩
      cases h
      exact ⟨rfl, .inr ⟨op, resources, rfl, rfl⟩⟩
    | _ => cases h
  | list kind | removeResource owner kind id | wait scope =>
    cases h
    exact ⟨rfl, .inl ⟨rfl, nofun⟩⟩
  | _ => cases h

theorem exec_read {x : Except Err ResourceSet} {sp : Option Task}
    (h : exec J t a T (.tx (.resourceBaseline op)) = some (x, T', sp)) :
    x = J.resourceBaseline T op ∨ ∃ e, x = .error e ∧ e.is .notFound = false := by
  simp only [exec] at h
  split at h
  · obtain ⟨hpla, heq⟩ := Option.ite_none_left_eq_some.mp h
    cases heq
    exact .inr ⟨_, rfl, Bool.eq_false_iff.mpr hpla⟩
  cases h
  exact .inl rfl

/-! ## What is stored -/

section Stored

variable {K : Conc.Rules Baselines Call Call.Ret Task Empty} {T0 : Baselines} {σ : Conc.Conf Baselines Call Call.Ret Task}

def First (op : Op) (log : Log) (t : Nat) (resources : ResourceSet) (earlier : Log) : Prop :=
  ∃ later, log = later ++ saved t op resources :: earlier ∧ Unsaved op earlier

variable {log earlier : Log}

theorem First.cons (h : First op log t resources earlier) (e : Entry Call Call.Ret Task) :
    First op (e :: log) t resources earlier := by
  obtain ⟨later, rfl, hfirst⟩ := h
  exact ⟨e :: later, rfl, hfirst⟩

theorem First.append (h : First op log t resources earlier) (later : Log) : First op (later ++ log) t resources earlier := by
  obtain ⟨later', rfl, hfirst⟩ := h
  exact ⟨later ++ later', (List.append_assoc ..).symm, hfirst⟩

theorem First.unique {earlier' : Log} {t' : Nat} {resources' : ResourceSet} (h : First op log t resources earlier)
    (h' : First op log t' resources' earlier') : resources = resources' := by
  obtain ⟨later, rfl, hfirst⟩ := h
  obtain ⟨later', heq, hfirst'⟩ := h'
  -- if one stood above the other, the upper one would not be the first
  rcases List.append_eq_append_iff.mp heq with ⟨between, -, heq⟩ | ⟨between, -, heq⟩
  · cases between with
    | nil =>
      cases heq
      rfl
    | cons e between =>
      obtain ⟨-, rfl⟩ := List.cons.inj heq
      exact absurd (by simp) (hfirst t' resources')
  cases between with
  | nil =>
    cases heq
    rfl
  | cons e between =>
    obtain ⟨-, rfl⟩ := List.cons.inj heq
    exact absurd (by simp) (hfirst' t resources)

/-- The row of `op` is that of the baseline that was saved first. -/
def Stored (J : StringsJson) (op : Op) (log : Log) (T : Baselines) : Prop :=
  (Unsaved op log ∧ T.lookup op = none) ∨
    ∃ t resources earlier, First op log t resources earlier ∧ T.lookup op = some (J.row resources)

theorem Stored.cons (h : Stored J op log T) {e : Entry Call Call.Ret Task} (he : ∀ t resources, e ≠ saved t op resources) :
    Stored J op (e :: log) T := by
  rcases h with ⟨huns, hnone⟩ | ⟨t, resources, earlier, hfirst, hrow⟩
  · refine .inl ⟨fun t resources hmem => ?_, hnone⟩
    rcases List.mem_cons.mp hmem with heq | hmem
    · exact he t resources heq.symm
    · exact huns t resources hmem
  · exact .inr ⟨t, resources, earlier, hfirst.cons e, hrow⟩

theorem Stored.save (h : Stored J op log T) (t : Nat) (resources : ResourceSet) :
    Stored J op (saved t op resources :: log) (J.saveResourceBaseline T op resources) := by
  rcases h with ⟨huns, hnone⟩ | ⟨t', resources', earlier, hfirst, hrow⟩
  · refine .inr ⟨t, resources, log, ⟨[], rfl, huns⟩, ?_⟩
    rw [StringsJson.lookup_save, if_pos rfl, hnone, Option.getD_none]
  · exact .inr ⟨t', resources', earlier, hfirst.cons _, StringsJson.lookup_save_of_some hrow⟩

theorem Stored.resourceBaseline_eq (h : Stored J op log T) : (Unsaved op log ∧ J.resourceBaseline T op = .error .notFound) ∨
      ∃ t resources earlier, First op log t resources earlier ∧ J.resourceBaseline T op = .ok resources := by
  rcases h with ⟨huns, hnone⟩ | ⟨t, resources, earlier, hfirst, hrow⟩
  · refine .inl ⟨huns, ?_⟩
    rw [StringsJson.resourceBaseline, hnone]
  refine .inr ⟨t, resources, earlier, hfirst, ?_⟩
  rw [StringsJson.resourceBaseline, hrow]
  exact StringsJson.decodeRow_row resources

theorem Stored.saveOther (h : Stored J op log T) {op' : Op} (hne : op' ≠ op) (t : Nat) (resources : ResourceSet) :
    Stored J op (saved t op' resources :: log) (J.saveResourceBaseline T op' resources) := by
  have hlook : (J.saveResourceBaseline T op' resources).lookup op = T.lookup op := by
    rw [StringsJson.lookup_save, if_neg (Ne.symm hne)]
  have hcons := h.cons (e := saved t op' resources) fun t resources heq => hne (by cases heq; rfl)
  rw [Stored, hlook]
  exact hcons

/-- **The stored baseline is the first one.** -/
theorem reach_stored (h0 : T0.lookup op = none) (h : (machine J).Reach K T0 σ) : Stored J op σ.log σ.st := by
  induction h with
  | init => exact .inl ⟨fun _ _ hmem => (by cases hmem), h0⟩
  | @step σ σ' hr hs ih =>
    cases hs with
    | start l _ _ | finish t l _ _ | jump t l l' _ _ _ | crash _ => exact ih.cons nofun
    | call t l c k ch a _ _ ha _ =>
      obtain ⟨x, T', sp⟩ := a
      obtain ⟨rfl, ⟨rfl, hne⟩ | ⟨op', resources, heq, rfl⟩⟩ := exec_cases (t := t) ha
      · exact ih.cons fun t' resources heq => hne op resources (by cases heq; rfl)
      change Stored J op (Entry.call t c x :: σ.log) (J.saveResourceBaseline σ.st op' resources)
      rw [heq]
      by_cases hop : op' = op
      · subst hop
        exact ih.save t resources
      · exact ih.saveOther hop t resources
    | env e _ _ _ => exact e.elim

/-- A `Cleanup` or `Prepare` reads the baseline that was saved first, if there is one. -/
theorem reach_read {later : Log} {x : Except Err ResourceSet} (h0 : T0.lookup op = none) (h : (machine J).Reach K T0 σ)
    (hlog : σ.log = later ++ .call t (.tx (.resourceBaseline op)) x :: earlier) :
    (∀ resources, x = .ok resources → ∃ t' earlier', First op σ.log t' resources earlier') ∧
      ∀ e, x = .error e → e.is .notFound = true → Unsaved op earlier := by
  obtain ⟨σ1, ch, T', sp, hr1, rfl, hexec⟩ := h.answered hlog
  rcases exec_read (t := t) hexec with hx | ⟨e', rfl, hpla⟩
  · rcases (reach_stored h0 hr1).resourceBaseline_eq with ⟨huns, heq⟩ | ⟨t', resources, earlier', hfirst, heq⟩
    · rw [heq] at hx
      subst hx
      exact ⟨fun _ heq => (by cases heq), fun _ _ _ => huns⟩
    rw [heq] at hx
    subst hx
    refine ⟨fun resources' heq' => ?_, fun _ heq' => (by cases heq')⟩
    cases heq'
    refine ⟨t', earlier', ?_⟩
    rw [hlog]
    exact (hfirst.cons _).append later
  refine ⟨fun _ heq => (by cases heq), fun e heq he => ?_⟩
  cases heq
  rw [hpla] at he
  cases he

theorem reach_read_ok (h0 : T0.lookup op = none) (h : (machine J).Reach K T0 σ)
    (hmem : Entry.call t (.tx (.resourceBaseline op)) (.ok resources) ∈ σ.log) : J.resourceBaseline σ.st op = .ok resources := by
  obtain ⟨later, earlier, hlog⟩ := List.append_of_mem hmem
  obtain ⟨t1, earlier1, hfirst⟩ := (reach_read h0 h hlog).1 resources rfl
  rcases (reach_stored h0 h).resourceBaseline_eq with ⟨huns, -⟩ | ⟨t2, resources', earlier2, hfirst', heq⟩
  · obtain ⟨later1, hlog1, -⟩ := hfirst
    exact absurd (by rw [hlog1]; simp) (huns t1 resources)
  · rw [heq, hfirst.unique hfirst']

end Stored

/-! ## What a call of the resource manager does -/

section Programs

variable {tr : Trace Call Call.Ret}

def shows (r : ResourceSet) : Trace Call Call.Ret :=
  [⟨.list .service, .ok r.services⟩, ⟨.list .container, .ok r.containers⟩, ⟨.list .network, .ok r.networks⟩,
    ⟨.list .volume, .ok r.volumes⟩]

def listings : Trace Call Call.Ret → List (Except Err (List String))
  | [] => []
  | ⟨.list _, x⟩ :: tr => x :: listings tr
  | _ :: tr => listings tr

def inventories : List (Except Err (List String)) → List ResourceSet
  | .ok services :: .ok containers :: .ok networks :: .ok volumes :: rest =>
    ⟨services, containers, networks, volumes⟩ :: inventories rest
  | _ => []

def attempts : Trace Call Call.Ret → List (ResourceKind × String)
  | [] => []
  | ⟨.removeResource _ kind id, _⟩ :: tr => (kind, id) :: attempts tr
  | _ :: tr => attempts tr

def ordered (r : ResourceSet) : List (ResourceKind × String) :=
  [.service, .container, .network, .volume].flatMap fun kind => (r.ofKind kind).map (kind, ·)

theorem listings_append : ∀ tr1 tr2 : Trace Call Call.Ret, listings (tr1 ++ tr2) = listings tr1 ++ listings tr2
  | [], _ => rfl
  | ⟨c, x⟩ :: tr1, tr2 => by
    rw [List.cons_append]
    cases c <;> simp only [listings, listings_append tr1 tr2, List.cons_append]

theorem attempts_append : ∀ tr1 tr2 : Trace Call Call.Ret, attempts (tr1 ++ tr2) = attempts tr1 ++ attempts tr2
  | [], _ => rfl
  | ⟨c, x⟩ :: tr1, tr2 => by
    rw [List.cons_append]
    cases c <;> simp only [attempts, attempts_append tr1 tr2, List.cons_append]

variable {kind : ResourceKind} {owner op : Op} {errs : List Err} {scope : Scope} {x : Except Err Unit}
  {baseline : ResourceSet}

theorem runs_list_bind {α : Type} {context : String} {f : List String → Go Err α} {x : Except Err α}
    (h : Prog.Runs (wrapping context (perform (.list kind)) >>= f : Go Err α) tr x) :
    (∃ ids tr', tr = ⟨.list kind, .ok ids⟩ :: tr' ∧ Prog.Runs (f ids) tr' x) ∨
      ∃ e e', tr = [⟨.list kind, .error e⟩] ∧ x = .error e' := by
  have hlist : ∀ {tr1 : Trace Call Call.Ret} {y : Except Err (List String)},
      Prog.Runs (wrapping context (perform (.list kind))) tr1 y →
      ∃ z : Except Err (List String), tr1 = [⟨.list kind, z⟩] ∧ y = z.mapError (Err.wrap context) := by
    intro tr1 y hy
    obtain ⟨z, hz, heq⟩ := Fallible.runs_mapError hy
    exact ⟨z, Prog.Runs.eq_of_lift hz, heq⟩
  rcases Fallible.runs_bind h with ⟨tr1, ids, tr2, rfl, h1, h2⟩ | ⟨e, h1, rfl⟩
  · obtain ⟨z, rfl, heq⟩ := hlist h1
    cases z with
    | ok ids' =>
      cases heq
      exact .inl ⟨ids, tr2, rfl, h2⟩
    | error e => cases heq
  obtain ⟨z, rfl, heq⟩ := hlist h1
  cases z with
  | ok ids' => cases heq
  | error e' => exact .inr ⟨e', e, rfl, rfl⟩

theorem runs_inventory {x : Except Err ResourceSet} (h : Prog.Runs ResourceManager.inventory tr x) :
    (∃ r, x = .ok r ∧ tr = shows r) ∨ ∃ e, x = .error e ∧ inventories (listings tr) = [] ∧ attempts tr = [] := by
  rcases runs_list_bind h with ⟨services, tr1, rfl, h1⟩ | ⟨e, e', rfl, rfl⟩
  · rcases runs_list_bind h1 with ⟨containers, tr2, rfl, h2⟩ | ⟨e, e', rfl, rfl⟩
    · rcases runs_list_bind h2 with ⟨networks, tr3, rfl, h3⟩ | ⟨e, e', rfl, rfl⟩
      · rcases runs_list_bind h3 with ⟨volumes, tr4, rfl, h4⟩ | ⟨e, e', rfl, rfl⟩
        · obtain ⟨rfl, rfl⟩ := runs_ret.mp h4
          exact .inl ⟨⟨services, containers, networks, volumes⟩, rfl, rfl⟩
        · exact .inr ⟨e', rfl, rfl, rfl⟩
      · exact .inr ⟨e', rfl, rfl, rfl⟩
    · exact .inr ⟨e', rfl, rfl, rfl⟩
  · exact .inr ⟨e', rfl, rfl, rfl⟩

theorem runs_removeEach : ∀ {ids : List String} {tr : Trace Call Call.Ret} {errs : List Err},
    (ResourceManager.removeEach owner kind ids).Runs tr errs →
      listings tr = [] ∧ attempts tr = ids.map (kind, ·)
  | [], _, _, h => by
    obtain ⟨rfl, -⟩ := runs_ret.mp h
    exact ⟨rfl, rfl⟩
  | id :: ids, _, errs, h => by
    obtain ⟨result, tr1, rfl, h1⟩ := Prog.Runs.of_lift h
    obtain ⟨tr2, errs', tr3, rfl, h2, h3⟩ := Prog.Runs.of_bind h1
    have htr3 : tr3 = [] := by
      cases result with
      | ok _ | error e => exact (runs_ret.mp h3).1
    obtain ⟨hlist, hatt⟩ := runs_removeEach h2
    rw [htr3, List.append_nil]
    exact ⟨hlist, by rw [attempts, hatt, List.map_cons]⟩

theorem runs_removeOwned {owned : ResourceSet} (h : (ResourceManager.removeOwned owner owned).Runs tr errs) :
    listings tr = [] ∧ attempts tr = ordered owned := by
  obtain ⟨tr1, _, rest1, rfl, h1, hrest1⟩ := Prog.Runs.of_bind h
  obtain ⟨tr2, _, rest2, rfl, h2, hrest2⟩ := Prog.Runs.of_bind hrest1
  obtain ⟨tr3, _, rest3, rfl, h3, hrest3⟩ := Prog.Runs.of_bind hrest2
  obtain ⟨tr4, _, rest4, rfl, h4, hrest4⟩ := Prog.Runs.of_bind hrest3
  obtain ⟨rfl, -⟩ := runs_ret.mp hrest4
  obtain ⟨hl1, ha1⟩ := runs_removeEach h1
  obtain ⟨hl2, ha2⟩ := runs_removeEach h2
  obtain ⟨hl3, ha3⟩ := runs_removeEach h3
  obtain ⟨hl4, ha4⟩ := runs_removeEach h4
  simp only [listings_append, attempts_append, hl1, hl2, hl3, hl4, ha1, ha2, ha3, ha4]
  exact ⟨rfl, by simp [attempts, ordered, ResourceSet.ofKind]⟩

theorem runs_grace {kind : OperationKind} (h : Prog.Runs (ResourceManager.grace scope kind) tr x) :
    listings tr = [] ∧ attempts tr = [] := by
  cases kind with
  | build =>
    obtain ⟨rfl, -⟩ := runs_ret.mp h
    exact ⟨rfl, rfl⟩
  | job =>
    obtain ⟨tr1, elapsed, tr2, rfl, h1, h2⟩ := Fallible.runs_ofProg_bind h
    rw [Prog.Runs.eq_of_lift h1]
    cases elapsed with
    | true | false =>
      obtain ⟨rfl, -⟩ := runs_ret.mp h2
      exact ⟨rfl, rfl⟩

theorem runs_verify (h : (ResourceManager.verify baseline).Runs tr errs) :
    attempts tr = [] ∧ (errs = [] → ∃ final, tr = shows final ∧ (difference final baseline).empty = true) := by
  obtain ⟨tr1, x, tr2, rfl, h1, h2⟩ := Prog.Runs.of_bind (p := ResourceManager.inventory) h
  rcases runs_inventory h1 with ⟨final, rfl, rfl⟩ | ⟨e, rfl, -, hatt⟩
  · obtain ⟨rfl, rfl⟩ := runs_ret.mp h2
    rw [List.append_nil]
    refine ⟨rfl, fun herrs => ⟨final, rfl, ?_⟩⟩
    by_contra hempty
    rw [if_neg hempty] at herrs
    cases herrs
  obtain ⟨rfl, rfl⟩ := runs_ret.mp h2
  rw [List.append_nil]
  exact ⟨hatt, nofun⟩

theorem runs_joined (h : Prog.Runs (ResourceManager.joined errs) tr x) : tr = [] ∧ (x = .ok () → errs = []) := by
  cases errs with
  | nil => exact ⟨(runs_ret.mp h).1, fun _ => rfl⟩
  | cons e errs =>
    obtain ⟨rfl, rfl⟩ := runs_ret.mp h
    exact ⟨rfl, nofun⟩

/-- **A `Cleanup` with a baseline that returns**: it has tried to remove what its inventory shows and the baseline does not, and
if it returns nil its final inventory shows nothing else. -/
theorem runs_cleanupWith (h : Prog.Runs (ResourceManager.cleanupWith scope op baseline) tr x) :
    ((inventories (listings tr) = [] ∧ attempts tr = []) ∨ ∃ current rest, inventories (listings tr) = current :: rest ∧
        attempts tr = ordered (difference current baseline)) ∧
      (x = .ok () → ∃ current final, inventories (listings tr) = [current, final] ∧
        (difference final baseline).empty = true) := by
  rcases Fallible.runs_bind h with ⟨tr1, _, tr', rfl, h1, h'⟩ | ⟨e, h', rfl⟩
  swap
  · obtain ⟨hl, ha⟩ := runs_grace h'
    rw [hl]
    exact ⟨.inl ⟨rfl, ha⟩, fun heq => (by cases heq)⟩
  obtain ⟨hl1, ha1⟩ := runs_grace h1
  rw [listings_append, attempts_append, hl1, ha1, List.nil_append, List.nil_append]
  rcases Fallible.runs_bind h' with ⟨tr2, current, tr'', rfl, h2, h''⟩ | ⟨e, h2, rfl⟩
  swap
  · obtain ⟨y, hy, heq⟩ := Fallible.runs_mapError h2
    rcases runs_inventory hy with ⟨r, rfl, -⟩ | ⟨e', rfl, hempty, ha⟩
    · cases heq
    · exact ⟨.inl ⟨hempty, ha⟩, fun heq => (by cases heq)⟩
  rcases runs_inventory (Fallible.runs_mapError_ok h2) with ⟨_, heq, rfl⟩ | ⟨e, heq, -⟩
  swap
  · cases heq
  cases heq
  obtain ⟨tr3, removal, rest3, rfl, h3, hrest3⟩ := Fallible.runs_ofProg_bind h''
  obtain ⟨tr4, final, rest4, rfl, h4, hrest4⟩ := Fallible.runs_ofProg_bind hrest3
  obtain ⟨hl3, ha3⟩ := runs_removeOwned h3
  obtain ⟨ha4, hfin⟩ := runs_verify h4
  obtain ⟨rfl, hx⟩ := runs_joined hrest4
  have hshow : listings (shows current ++ (tr3 ++ (tr4 ++ []))) = listings (shows current) ++ listings tr4 := by
    rw [listings_append, listings_append, hl3, List.append_nil, List.nil_append]
  have htried : attempts (shows current ++ (tr3 ++ (tr4 ++ []))) = ordered (difference current baseline) := by
    rw [attempts_append, attempts_append, List.append_nil, ha3, ha4, List.append_nil]
    rfl
  rw [hshow, htried]
  refine ⟨.inr ⟨current, inventories (listings tr4), rfl, rfl⟩, fun hok => ?_⟩
  · obtain ⟨final', rfl, hempty⟩ := hfin (List.append_eq_nil_iff.mp (hx hok)).2
    exact ⟨current, final', rfl, hempty⟩

/-- A `Cleanup` that returns has read a baseline and gone on with it, or has found none or failed to read it. -/
theorem runs_cleanup (h : Prog.Runs (ResourceManager.cleanup scope op) tr x) :
    (∃ baseline tr', tr = ⟨.tx (.resourceBaseline op), .ok baseline⟩ :: tr' ∧
      Prog.Runs (ResourceManager.cleanupWith scope op baseline) tr' x) ∨
    ∃ e, tr = [⟨.tx (.resourceBaseline op), .error e⟩] ∧ (x = .ok () → e.is .notFound = true) := by
  obtain ⟨y, tr', rfl, h'⟩ := Prog.runs_call.mp h
  cases y with
  | ok baseline => exact .inl ⟨baseline, tr', rfl, h'⟩
  | error e =>
    have h' : Prog.Runs (if e.is .notFound then pure () else fail (e.wrap "read resource baseline") : Go Err Unit) tr' x := h'
    split at h'
    · obtain ⟨rfl, rfl⟩ := runs_ret.mp h'
      exact .inr ⟨e, rfl, fun _ => ‹_›⟩
    obtain ⟨rfl, rfl⟩ := runs_ret.mp h'
    exact .inr ⟨e, rfl, nofun⟩

/-- A `Prepare` that returns nil has read a baseline or saved one. -/
theorem runs_prepare (h : Prog.Runs (ResourceManager.prepare op) tr (.ok ())) :
    (∃ baseline, (⟨.tx (.resourceBaseline op), .ok baseline⟩ : Σ c : Call, c.Ret) ∈ tr) ∨
      ∃ resources, (⟨.tx (.saveResourceBaseline op resources), .ok ()⟩ : Σ c : Call, c.Ret) ∈ tr := by
  obtain ⟨y, tr', rfl, h'⟩ := Prog.runs_call.mp h
  cases y with
  | ok baseline => exact .inl ⟨baseline, List.mem_cons_self⟩
  | error e =>
    have h' : Prog.Runs (if e.is .notFound then (wrapping "inventory Docker resources" ResourceManager.inventory >>=
        fun resources => wrapping "save resource baseline" (Store.saveResourceBaseline op (normalize resources)))
      else fail (e.wrap "read resource baseline") : Go Err Unit) tr' (.ok ()) := h'
    split at h'
    · obtain ⟨tr1, resources, tr2, rfl, -, h2⟩ := Fallible.runs_bind_ok h'
      have hsave : (Prog.lift (Call.tx (.saveResourceBaseline op (normalize resources)))).Runs tr2 (.ok ()) :=
        Fallible.runs_mapError_ok h2
      refine .inr ⟨normalize resources, ?_⟩
      rw [hsave.eq_of_lift]
      simp
    · cases (runs_ret.mp h').2

/-! The calls that a run can come to. -/

variable {k : Except Err Unit → Srv (Option Task)}

/-- **Who removes**: a `Cleanup` of the owner that has read a baseline without the resource. -/
theorem after_remove {task : Task} {id : String}
    (h : task.body.After tr (.call (.removeResource owner kind id) k)) :
    ∃ scope baseline, task = .cleanup scope owner ∧ (⟨.tx (.resourceBaseline owner), .ok baseline⟩ : Σ c : Call, c.Ret) ∈ tr ∧
      id ∉ baseline.ofKind kind := by
  cases task with
  | prepare op =>
    have honly : (Task.prepare op).body.Only fun c => ∀ owner kind id, c ≠ .removeResource owner kind id := by
      refine only_of_within (within_bind (within_prepareResources (fun c hc => allowing_still ?_) op) fun _ => within_pure _)
      rintro owner kind id rfl
      cases hc
    exact absurd rfl (honly.of_after h owner kind id)
  | cleanup scope op =>
    rcases Prog.After.of_call h with ⟨-, hq⟩ | ⟨x, tr', rfl, h'⟩
    · cases hq
    cases x with
    | ok baseline =>
      have honly : Prog.Only (fun c => ∀ owner kind id, c = .removeResource owner kind id → owner = op ∧
          id ∉ baseline.ofKind kind)
          (Prog.bind (ResourceManager.cleanupWith scope op baseline) fun _ => .ret (none : Option Task)) := by
        refine only_of_within (within_bind (within_cleanupWith (fun c hc => allowing_still ?_) (fun kind id hid =>
          allowing_still ?_) scope) fun _ => within_pure _)
        · rintro owner kind id rfl
          cases hc
        rintro owner kind' id' ⟨⟩
        exact ⟨rfl, hid⟩
      obtain ⟨rfl, hid⟩ := honly.of_after h' owner kind id rfl
      exact ⟨scope, baseline, rfl, List.mem_cons_self, hid⟩
    | error e =>
      have h' : Prog.After (Prog.bind (if e.is .notFound then pure () else fail (e.wrap "read resource baseline") : Go Err Unit)
        fun _ => .ret (none : Option Task)) tr' (.call (.removeResource owner kind id) k) := h'
      split at h'
      · cases (Prog.After.of_ret h').2
      · cases (Prog.After.of_ret h').2

theorem inspects_saves (c : Call) (hc : c.inspects = true) :
    (allowing fun c : Call => ∀ op resources, c ≠ .tx (.saveResourceBaseline op resources) : Ghost Call Call.Ret Label Unit).Still
      anyGhost c := by
  refine allowing_still ?_
  rintro op resources rfl
  cases hc

/-- **Who saves**: a `Prepare` of the operation that has found no baseline, and what it saves is its inventory. -/
theorem after_save {task : Task}
    (h : task.body.After tr (.call (.tx (.saveResourceBaseline op resources)) k)) :
    task = .prepare op ∧ ∃ e inventory, tr = ⟨.tx (.resourceBaseline op), .error e⟩ :: shows inventory ∧
      resources = normalize inventory := by
  cases task with
  | prepare op' =>
    rcases Prog.After.of_call h with ⟨-, hq⟩ | ⟨x, tr', rfl, h'⟩
    · cases hq
    cases x with
    | ok baseline => cases (Prog.After.of_ret h').2
    | error e =>
      have h' : Prog.After (Prog.bind (if e.is .notFound then (wrapping "inventory Docker resources" ResourceManager.inventory >>=
          fun resources => wrapping "save resource baseline" (Store.saveResourceBaseline op' (normalize resources)))
        else fail (e.wrap "read resource baseline") : Go Err Unit) fun _ => .ret (none : Option Task)) tr'
          (.call (.tx (.saveResourceBaseline op resources)) k) := h'
      split at h'
      · rcases Prog.After.of_bind h' with ⟨k1, h1⟩ | ⟨_, _, _, _, _, h1⟩
        · rcases Prog.After.of_bind h1 with ⟨k2, h2⟩ | ⟨tr1, y, tr2, rfl, h2, h3⟩
          · have honly : Prog.Only (fun c => ∀ op resources, c ≠ .tx (.saveResourceBaseline op resources))
              (wrapping "inventory Docker resources" ResourceManager.inventory) :=
              only_of_within (within_mapError (within_inventory inspects_saves))
            exact absurd rfl (honly.of_after h2 op resources)
          cases y with
          | ok inventory =>
            rcases Prog.After.of_call h3 with ⟨rfl, hq⟩ | ⟨z, _, _, h4⟩
            · cases hq
              rcases runs_inventory (Fallible.runs_mapError_ok h2) with ⟨_, heq, rfl⟩ | ⟨_, heq, -⟩
              · cases heq
                exact ⟨rfl, e, inventory, by rw [List.append_nil], rfl⟩
              · cases heq
            · cases z <;> cases (Prog.After.of_ret h4).2
          | error e' => cases (Prog.After.of_ret h3).2
        · cases (Prog.After.of_ret h1).2
      · cases (Prog.After.of_ret h').2
  | cleanup scope op' =>
    have honly : (Task.cleanup scope op').body.Only fun c => ∀ op resources, c ≠ .tx (.saveResourceBaseline op resources) := by
      exact only_of_within (within_bind (within_cleanupResources inspects_saves
          (fun _ _ => allowing_still fun _ _ => by simp) scope)
        fun _ => within_pure _)
    exact absurd rfl (honly.of_after h op resources)

end Programs

/-! ## Runs -/

section Runs

def rank : ResourceKind → Nat
  | .service => 0
  | .container => 1
  | .network => 2
  | .volume => 3

/-- `resources` is the normalized inventory of the `Prepare` that was the first to save one. -/
def Prepared (op : Op) (log : Log) (resources : ResourceSet) : Prop :=
  ∃ t e inventory earlier, First op log t resources earlier ∧
    history t earlier = some (.prepare op, ⟨.tx (.resourceBaseline op), .error e⟩ :: shows inventory) ∧
    resources = normalize inventory

/-- What a `Cleanup` with a baseline has done when it returns `x` after the calls `tr`. -/
structure Cleaned (baseline : ResourceSet) (tr : Trace Call Call.Ret) (x : Except Err Unit) : Prop where
  tried : ∀ current rest, inventories (listings tr) = current :: rest → ∀ kind id, id ∈ current.ofKind kind → id ≠ "" →
    id ∉ baseline.ofKind kind → (kind, id) ∈ attempts tr
  order : (attempts tr).Pairwise fun a b => rank a.1 ≤ rank b.1
  clean : x = .ok () → ∃ current final, inventories (listings tr) = [current, final] ∧
    ∀ kind id, id ∈ final.ofKind kind → id ≠ "" → id ∈ baseline.ofKind kind

variable {J : StringsJson} {op : Op} {K : Conc.Rules Baselines Call Call.Ret Task Empty} {T0 : Baselines}
  {σ : Conc.Conf Baselines Call Call.Ret Task} {t : Nat} {tr : Trace Call Call.Ret}

theorem mem_ordered {r : ResourceSet} {kind : ResourceKind} {id : String} :
    (kind, id) ∈ ordered r ↔ id ∈ r.ofKind kind := by
  cases kind <;> simp [ordered]

theorem ordered_pairwise (r : ResourceSet) : (ordered r).Pairwise fun a b => rank a.1 ≤ rank b.1 := by
  rw [ordered, List.pairwise_flatMap]
  constructor
  · intro kind _
    rw [List.pairwise_map]
    exact List.pairwise_of_forall fun _ _ => Nat.le_refl _
  have hkind : [ResourceKind.service, .container, .network, .volume].Pairwise fun a b => rank a ≤ rank b := by decide
  refine hkind.imp fun hle a ha b hb => ?_
  obtain ⟨_, -, rfl⟩ := List.mem_map.mp ha
  obtain ⟨_, -, rfl⟩ := List.mem_map.mp hb
  exact hle

theorem cleaned_of_runs {scope : Scope} {baseline : ResourceSet} {x : Except Err Unit}
    (h : Prog.Runs (ResourceManager.cleanupWith scope op baseline) tr x) : Cleaned baseline tr x := by
  obtain ⟨htried, hclean⟩ := runs_cleanupWith h
  refine ⟨fun current rest hcurrent kind id hid hne hnot => ?_, ?_, fun hok => ?_⟩
  · rcases htried with ⟨hempty, -⟩ | ⟨current', rest', hcurrent', htried⟩
    · rw [hempty] at hcurrent
      cases hcurrent
    rw [hcurrent'] at hcurrent
    cases hcurrent
    rw [htried, mem_ordered]
    exact mem_difference.mpr ⟨hid, hnot, hne⟩
  · rcases htried with ⟨-, htried⟩ | ⟨current, rest, -, htried⟩
    · rw [htried]
      exact .nil
    rw [htried]
    exact ordered_pairwise _
  obtain ⟨current, final, hinv, hempty⟩ := hclean hok
  refine ⟨current, final, hinv, fun kind id hid hne => ?_⟩
  by_contra hnot
  have hmem := mem_difference.mpr ⟨hid, hnot, hne⟩
  rw [ResourceSet.empty_iff.mp hempty kind] at hmem
  cases hmem

theorem prepared_of_first (h : (machine J).Reach K T0 σ) {resources : ResourceSet} {earlier : Log}
    (hfirst : First op σ.log t resources earlier) : Prepared op σ.log resources := by
  obtain ⟨later, hlog, huns⟩ := hfirst
  obtain ⟨task, tr, k, hhistory, hk⟩ := h.called hlog
  obtain ⟨rfl, e, inventory, rfl, hres⟩ := after_save hk
  exact ⟨t, e, inventory, earlier, ⟨later, hlog, huns⟩, hhistory, hres⟩

theorem stored_of_saved (h0 : T0.lookup op = none) (h : (machine J).Reach K T0 σ) {resources : ResourceSet}
    (hmem : saved t op resources ∈ σ.log) : ∃ baseline, J.resourceBaseline σ.st op = .ok baseline := by
  rcases (reach_stored h0 h).resourceBaseline_eq with ⟨huns, -⟩ | ⟨_, baseline, _, -, heq⟩
  · exact absurd hmem (huns t resources)
  · exact ⟨baseline, heq⟩

theorem removes_outside (h0 : T0.lookup op = none) (h : (machine J).Reach K T0 σ) {kind : ResourceKind} {id : String}
    {x : Except Err Unit} (hmem : Entry.call t (.removeResource op kind id) x ∈ σ.log) :
    ∃ baseline, J.resourceBaseline σ.st op = .ok baseline ∧ id ∉ baseline.ofKind kind := by
  obtain ⟨later, earlier, hlog⟩ := List.append_of_mem hmem
  obtain ⟨task, tr, k, hhistory, hk⟩ := h.called hlog
  obtain ⟨scope, baseline, rfl, hread, hid⟩ := after_remove hk
  refine ⟨baseline, reach_read_ok (t := t) h0 h ?_, hid⟩
  rw [hlog]
  exact List.mem_append_right _ (List.mem_cons_of_mem _ (Conc.mem_log_of_history hread hhistory))

/-- **The ownership boundary.** In every run of `Prepare` and `Cleanup` calls that starts without a baseline of `op`:

* the stored baseline is the normalized inventory of the first `Prepare` that saved one, and there is one if a `Prepare` has
  returned nil;
* no `Cleanup` removes a resource of the stored baseline;
* a `Cleanup` that has returned had no baseline to read, failed to read it, or has tried to remove all that its inventory showed
  outside the baseline, in order; if it returned nil, its final inventory shows nothing outside the baseline. -/
theorem cleanup_bounded (J : StringsJson) (op : Op) {T₀ : Baselines} (h₀ : T₀.lookup op = none)
    {σ : Conc.Conf Baselines Call Call.Ret Task} (h : (machine J).Reach Conc.Rules.all T₀ σ) :
    ((Unsaved op σ.log ∧ J.resourceBaseline σ.st op = .error .notFound) ∨
      ∃ baseline, Prepared op σ.log baseline ∧ J.resourceBaseline σ.st op = .ok baseline) ∧
    (∀ later earlier t tr, σ.log = later ++ .finish t :: earlier → history t earlier = some (.prepare op, tr) →
      Prog.Runs (ResourceManager.prepare op) tr (.ok ()) → ∃ baseline, J.resourceBaseline σ.st op = .ok baseline) ∧
    (∀ t kind id x, Entry.call t (.removeResource op kind id) x ∈ σ.log →
      ∃ baseline, J.resourceBaseline σ.st op = .ok baseline ∧ id ∉ baseline.ofKind kind) ∧
    ∀ later earlier t scope tr, σ.log = later ++ .finish t :: earlier → history t earlier = some (.cleanup scope op, tr) →
      ∃ x, Prog.Runs (ResourceManager.cleanup scope op) tr x ∧
        ((∃ baseline, J.resourceBaseline σ.st op = .ok baseline ∧ Cleaned baseline tr x) ∨
          ∃ later' earlier' e, σ.log = later' ++ .call t (.tx (.resourceBaseline op)) (.error e) :: earlier' ∧
            (x = .ok () → Unsaved op earlier')) := by
  refine ⟨?_, ?_, fun t kind id x hmem => removes_outside h₀ h hmem, ?_⟩
  · rcases (reach_stored h₀ h).resourceBaseline_eq with hnone | ⟨t, baseline, earlier, hfirst, heq⟩
    · exact .inl hnone
    · exact .inr ⟨baseline, prepared_of_first h hfirst, heq⟩
  · intro later earlier t tr hlog hhistory hruns
    have hmem : ∀ x ∈ tr, Entry.call t x.1 x.2 ∈ σ.log := by
      intro x hx
      rw [hlog]
      exact List.mem_append_right _ (List.mem_cons_of_mem _ (Conc.mem_log_of_history hx hhistory))
    rcases runs_prepare hruns with ⟨baseline, hread⟩ | ⟨resources, hsave⟩
    · exact ⟨baseline, reach_read_ok (t := t) h₀ h (hmem _ hread)⟩
    · exact stored_of_saved (t := t) h₀ h (hmem _ hsave)
  intro later earlier t scope tr hlog hhistory
  have hmem : ∀ x ∈ tr, Entry.call t x.1 x.2 ∈ σ.log := by
    intro x hx
    rw [hlog]
    exact List.mem_append_right _ (List.mem_cons_of_mem _ (Conc.mem_log_of_history hx hhistory))
  obtain ⟨task, tr', hhistory', hbody⟩ := h.finished hlog
  rw [hhistory] at hhistory'
  cases hhistory'
  obtain ⟨tr₁, x, tr₂, rfl, hruns, hret⟩ := Prog.Runs.of_bind hbody
  obtain ⟨rfl, -⟩ := runs_ret.mp hret
  rw [List.append_nil] at hmem ⊢
  refine ⟨x, hruns, ?_⟩
  rcases runs_cleanup hruns with ⟨baseline, tr', rfl, hwithin⟩ | ⟨e, rfl, hnone⟩
  · obtain ⟨htried, horder, hclean⟩ := cleaned_of_runs hwithin
    exact .inl ⟨baseline, reach_read_ok (t := t) h₀ h (hmem _ List.mem_cons_self), htried, horder, hclean⟩
  obtain ⟨later', earlier', hlog'⟩ := List.append_of_mem (hmem _ List.mem_cons_self)
  exact .inr ⟨later', earlier', e, hlog', fun hok => (reach_read h₀ h hlog').2 e rfl (hnone hok)⟩

/-! A run in which a job gets a container that its `Cleanup` removes at the second attempt. -/

/-- Each character of each string behind a `c`, and an `s` at the end of each string. -/
def spelling : StringsJson where
  marshal := Text.Codec.strings.marshal
  unmarshal text := match Text.Codec.strings.unmarshal text with
    | some ids => .ok ids
    | none => .error (.new "invalid text")
  unmarshal_marshal ids := by rw [Text.Codec.unmarshal_marshal]

def sampleOp : Op := ⟨.job, "job1"⟩

/-- Thread `t` makes a step; Docker shows `ids` and removals have the result `removed`. -/
def sees (t : Nat) (ids : List String) (removed : Except Err Unit) : Conc.Event Task Answer Empty :=
  .run t ⟨none, .ok ids, removed, true⟩

/-- `Prepare`, a `Cleanup` whose removal fails, and one that succeeds. -/
def sampleRun : List (Conc.Event Task Answer Empty) :=
  .start (.prepare sampleOp) :: List.replicate 7 (sees 0 ["0"] (.ok ())) ++
  .start (.cleanup .process sampleOp) :: List.replicate 15 (sees 1 ["0", "1"] (.error (.new "busy"))) ++ [.crash] ++
  .start (.cleanup .process sampleOp) :: List.replicate 10 (sees 2 ["0", "1"] (.ok ())) ++
  List.replicate 5 (sees 2 ["0"] (.ok ()))

def oldResources : ResourceSet := ⟨["0"], ["0"], ["0"], ["0"]⟩

def removesNew : Entry Call Call.Ret Task → Bool
  | .call _ (.removeResource _ .container "1") _ => true
  | _ => false

def retried (σ : Conc.Conf Baselines Call Call.Ret Task) : Bool :=
  (match spelling.resourceBaseline σ.st sampleOp with
    | .ok baseline => baseline == oldResources
    | .error _ => false) && σ.log.countP removesNew == 2

theorem cleanup_bounded_retried : ∃ σ, (machine spelling).Reach Conc.Rules.all ∅ σ ∧ retried σ = true ∧
    ((Unsaved sampleOp σ.log ∧ spelling.resourceBaseline σ.st sampleOp = .error .notFound) ∨
      ∃ baseline, Prepared sampleOp σ.log baseline ∧ spelling.resourceBaseline σ.st sampleOp = .ok baseline) ∧
    ∀ t kind id x, Entry.call t (.removeResource sampleOp kind id) x ∈ σ.log →
      ∃ baseline, spelling.resourceBaseline σ.st sampleOp = .ok baseline ∧ id ∉ baseline.ofKind kind := by
  have hrun : ((machine spelling).steps (Conc.Machine.init ∅) sampleRun).any retried = true := by decide +kernel
  obtain ⟨σ, hσ, hretried⟩ := (Option.any_eq_true ..).mp hrun
  have hreach : (machine spelling).Reach Conc.Rules.all ∅ σ := Conc.Machine.reach_steps .init hσ
  have hbounded := cleanup_bounded spelling sampleOp rfl hreach
  exact ⟨σ, hreach, hretried, hbounded.1, hbounded.2.2.1⟩

end Runs

end Ownership

end Autback
