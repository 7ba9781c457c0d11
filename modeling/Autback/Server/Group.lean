import Autback.Control.Model
import Mathlib.Data.List.Nodup

/-!
# The components of the server process

`Group.Run` of `internal/app/server/group.go`: it starts the components, waits for the first result or for the parent context,
drains, cancels and stops the components, and joins them. What the contexts, the channel of results and the stop functions say is
up to the environment (`Answers`); a component sends one result (`Sent`).

The shutdown is in order, and a run without a join timeout has received every result. An error is lost exactly if its result is
left in the channel, or is the first one and the parent context is done when it is looked at again (`shutdown_complete`,
`shutdown_drops`).
-/

namespace Autback.Group

structure Component where
  name : String
  (hasRun hasStop : Bool)

/-- A result in the channel, with the place of its component in the group. -/
structure Result where
  component : Nat
  name : String
  err : Option Err

structure Answers where
  /-- The results of the component functions that have returned when `Run` does, received or left in the channel. -/
  returned : List Result
  /-- The parent context: before the first `select`, and after it has received a result. -/
  (parentDone parentDoneAgain : Bool)
  /-- The first `select`: a result, or the parent context is done. -/
  first : Option Result
  runDone : Bool
  /-- The error of a stop function, and whether the shutdown context is done by then. -/
  stop : Nat → Option Err × Bool
  /-- Each `select` of the join: a result, or the shutdown context is done. -/
  joins : List (Option Result)

inductive Act
  | onDrain
  | cancel
  | stop (i : Nat)
  deriving DecidableEq

/-- Where an error comes from. -/
inductive Origin
  | component (i : Nat)
  | stop (i : Nat)
  | join
  deriving DecidableEq

/-- What `Run` has done and received, and the errors that it joins. -/
structure Outcome where
  acts : List Act
  results : List Result
  errs : List (Origin × Err)

def joinTimeout : Origin × Err :=
  (.join, ⟨"server component join timed out: context deadline exceeded", [.deadlineExceeded], false⟩)

def Cancellation (e : Err) : Bool := e.is .canceled || e.is .deadlineExceeded

def isExpectedCancellation (e : Err) (done : Bool) : Bool := done && Cancellation e

/-- An error is kept with its context, unless it is the cancellation of a context that is done. -/
def report (origin : Origin) (context : String) (err : Option Err) (done : Bool) : List (Origin × Err) :=
  match err with
  | some e => if isExpectedCancellation e done then [] else [(origin, e.wrap context)]
  | none => []

def Result.context (r : Result) : String := "server component " ++ r.name

/-- The first `select`: the results that it has consumed, and the primary error. -/
def awaitFirst (a : Answers) : List Result × List (Origin × Err) :=
  if a.parentDone then ([], [])
  else match a.first with
    | none => ([], [])
    | some r =>
      if a.parentDoneAgain then ([r], [])
      else if r.err = none then ([r], [(.component r.component, .new (r.context ++ " stopped unexpectedly"))])
      else ([r], report (.component r.component) r.context r.err a.runDone)

def stopAll (a : Answers) : List (Component × Nat) → List Act × List (Origin × Err)
  | [] => ([], [])
  | (component, i) :: rest =>
    let (acts, errs) := stopAll a rest
    if !component.hasStop then (acts, errs)
    else (.stop i :: acts, report (.stop i) ("stop server component " ++ component.name) (a.stop i).1 (a.stop i).2 ++ errs)

/-- The join: the run context is done by now. -/
def joinAll : Nat → List (Option Result) → List Result × List (Origin × Err)
  | 0, _ => ([], [])
  | n + 1, some r :: rest =>
    let (results, errs) := joinAll n rest
    (r :: results, report (.component r.component) r.context r.err true ++ errs)
  | _ + 1, _ => ([], [joinTimeout])

def join (components : List Component) (a : Answers) : List Result × List (Origin × Err) :=
  joinAll (components.length - (awaitFirst a).1.length) a.joins

def shutDown (onDrain : Bool) (components : List Component) (a : Answers) : Outcome where
  acts := (if onDrain then [.onDrain] else []) ++ .cancel :: (stopAll a components.zipIdx.reverse).1
  results := (awaitFirst a).1 ++ (join components a).1
  errs := (awaitFirst a).2 ++ (stopAll a components.zipIdx.reverse).2 ++ (join components a).2

def run (onDrain : Bool) (components : List Component) (a : Answers) : Except Err Outcome :=
  if components.isEmpty then .error (.new "server group requires at least one component")
  else if components.any fun component => component.name == "" || !component.hasRun then
    .error (.new "server component name and run function are required")
  else .ok (shutDown onDrain components a)

/-- Every component sends one result. -/
structure Sent (n : Nat) (results : List Result) : Prop where
  component : ∀ r ∈ results, r.component < n
  once : (results.map Result.component).Nodup

/-- Every error in a result that is not a cancellation is among the errors. -/
def Reported (results : List Result) (errs : List (Origin × Err)) : Prop :=
  ∀ r ∈ results, ∀ e, r.err = some e → Cancellation e = false → (.component r.component, e.wrap r.context) ∈ errs

/-- The result has no error, or a cancellation. -/
def Result.Harmless (r : Result) : Prop := ∀ e, r.err = some e → Cancellation e = true

/-- The first result was received, and the parent context was done when it was looked at. -/
def Answers.Dropped (a : Answers) (r : Result) : Prop := a.parentDone = false ∧ a.first = some r ∧ a.parentDoneAgain = true

variable {a : Answers}

theorem mem_report {e : Err} {origin : Origin} {context : String} {done : Bool} (h : Cancellation e = false) :
    (origin, e.wrap context) ∈ report origin context (some e) done := by
  simp [report, isExpectedCancellation, h]

theorem report_origin {origin : Origin} {context : String} {err : Option Err} {done : Bool} {x : Origin × Err}
    (h : x ∈ report origin context err done) : x.1 = origin := by
  cases err with
  | none => cases h
  | some e =>
    rw [report] at h
    split at h
    · cases h
    · rw [List.mem_singleton.mp h]

theorem awaitFirst_reported {r : Result} {e : Err} (hr : r ∈ (awaitFirst a).1) (h : ¬ a.Dropped r) (he : r.err = some e)
    (hcancel : Cancellation e = false) : (.component r.component, e.wrap r.context) ∈ (awaitFirst a).2 := by
  rw [awaitFirst] at hr ⊢
  split at hr
  · cases hr
  rename_i hdone
  rw [if_neg hdone]
  split at hr
  · cases hr
  rename_i first hfirst
  have hsame : r = first := by
    split at hr
    · exact List.mem_singleton.mp hr
    · split at hr <;> exact List.mem_singleton.mp hr
  subst hsame
  rw [if_neg fun hagain => h ⟨by simpa using hdone, hfirst, hagain⟩, if_neg (by rw [he]; simp), he]
  exact mem_report hcancel

theorem Answers.Dropped.mem {r : Result} (h : a.Dropped r) : r ∈ (awaitFirst a).1 := by
  obtain ⟨hdone, hfirst, hagain⟩ := h
  rw [awaitFirst, hfirst, if_neg (by simp [hdone])]
  simp [hagain]

/-- An error of a component at the first `select` is that of a first result that is not dropped. -/
theorem awaitFirst_origin {i : Nat} {e : Err} (h : (Origin.component i, e) ∈ (awaitFirst a).2) :
    ∃ r ∈ (awaitFirst a).1, r.component = i ∧ ¬ a.Dropped r := by
  rw [awaitFirst] at h ⊢
  split at h
  · cases h
  rename_i hdone
  rw [if_neg hdone]
  split at h
  · cases h
  split at h
  · cases h
  rename_i first _ hagain
  rw [if_neg hagain]
  split at h <;> rename_i herr
  · rw [if_pos herr]
    cases List.mem_singleton.mp h
    exact ⟨_, List.mem_singleton_self _, rfl, fun hdrop => hagain hdrop.2.2⟩
  · rw [if_neg herr]
    exact ⟨_, List.mem_singleton_self _, (Origin.component.inj (report_origin h)).symm, fun hdrop => hagain hdrop.2.2⟩

theorem stopAll_origin {i : Nat} {e : Err} : ∀ components : List (Component × Nat),
    (Origin.component i, e) ∉ (stopAll a components).2
  | [] => List.not_mem_nil
  | (component, j) :: rest => by
    have ih := @stopAll_origin i e rest
    rw [stopAll]
    cases component.hasStop with
    | false => exact ih
    | true =>
      refine fun h => (List.mem_append.mp h).elim (fun h => ?_) ih
      cases report_origin h

theorem joinAll_origin {i : Nat} {e : Err} : ∀ (n : Nat) (joins : List (Option Result)),
    (Origin.component i, e) ∈ (joinAll n joins).2 → ∃ r ∈ (joinAll n joins).1, r.component = i
  | 0, _, h => by cases h
  | _ + 1, [], h | _ + 1, none :: _, h => by cases List.mem_singleton.mp h
  | n + 1, some r :: rest, h => by
    rcases List.mem_append.mp h with h | h
    · exact ⟨r, List.mem_cons_self, (Origin.component.inj (report_origin h)).symm⟩
    · obtain ⟨r', hr', hi⟩ := joinAll_origin n rest h
      exact ⟨r', List.mem_cons_of_mem _ hr', hi⟩

theorem stopAll_acts : ∀ components : List (Component × Nat),
    (stopAll a components).1 = (components.filter (·.1.hasStop)).map fun c => .stop c.2
  | [] => rfl
  | (component, i) :: rest => by
    have ih := stopAll_acts rest
    rw [stopAll, List.filter_cons]
    cases component.hasStop with
    | false => exact ih
    | true => exact congrArg (Act.stop i :: ·) ih

theorem joinAll_joined : ∀ (n : Nat) (joins : List (Option Result)),
    (joinTimeout ∉ (joinAll n joins).2 → (joinAll n joins).1.length = n) ∧ Reported (joinAll n joins).1 (joinAll n joins).2
  | 0, _ => ⟨fun _ => rfl, nofun⟩
  | _ + 1, [] | _ + 1, none :: _ => ⟨fun h => absurd (List.mem_singleton_self _) h, nofun⟩
  | n + 1, some r :: rest => by
    obtain ⟨hlen, hrep⟩ := joinAll_joined n rest
    refine ⟨fun h => congrArg (· + 1) (hlen fun hmem => h (List.mem_append_right _ hmem)), fun r' hr' e he hcancel => ?_⟩
    rcases List.mem_cons.mp hr' with rfl | hr'
    · exact List.mem_append_left _ (he ▸ mem_report hcancel)
    · exact List.mem_append_right _ (hrep r' hr' e he hcancel)

theorem all_sent {n : Nat} {results : List Result} (hsent : Sent n results) (hlen : n ≤ results.length) :
    ∀ i < n, ∃ r ∈ results, r.component = i := by
  have hsub : (results.map Result.component).Subperm (List.range n) := by
    refine List.subperm_of_subset hsent.once fun i hi => ?_
    obtain ⟨r, hr, rfl⟩ := List.mem_map.mp hi
    exact List.mem_range.mpr (hsent.component r hr)
  have hperm := hsub.perm_of_length_le (by simpa using hlen)
  exact fun i hi => List.mem_map.mp (hperm.mem_iff.mpr (List.mem_range.mpr hi))

/-- **Shutdown.** `OnDrain` is called once, then the components are cancelled, then each is stopped, in reverse order; a run
without a join timeout has the result of every component; and every error that a component has returned and that is not a
cancellation is among those that are joined exactly if no such error is in a result that is dropped or left in the channel. -/
theorem shutdown_complete (onDrain : Bool) (components : List Component) (a : Answers) (out : Outcome)
    (h : run onDrain components a = .ok out) (hsent : Sent components.length a.returned)
    (hreceived : out.results.Subperm a.returned) :
    out.acts = (if onDrain then [.onDrain] else []) ++
      .cancel :: (components.zipIdx.reverse.filter (·.1.hasStop)).map (fun c => .stop c.2) ∧
      (joinTimeout ∉ out.errs → ∀ i < components.length, ∃ r ∈ out.results, r.component = i) ∧
      (Reported a.returned out.errs ↔
        (∀ r, a.Dropped r → r.Harmless) ∧ ∀ r ∈ a.returned, r ∉ out.results → r.Harmless) := by
  rw [run] at h
  split at h
  · cases h
  split at h
  · cases h
  obtain rfl := Except.ok.inj h
  obtain ⟨hlength, hreported⟩ := joinAll_joined (components.length - (awaitFirst a).1.length) a.joins
  obtain ⟨received, hperm, hsub⟩ := id hreceived
  have honce : ((shutDown onDrain components a).results.map Result.component).Nodup :=
    (hperm.map _).nodup_iff.mp (hsent.once.sublist (hsub.map _))
  have hsame : ∀ r ∈ (shutDown onDrain components a).results, ∀ r' ∈ a.returned, r.component = r'.component → r = r' :=
    fun r hr r' hr' => List.inj_on_of_nodup_map hsent.once (hreceived.subset hr) hr'
  -- an error that is joined as one of a component is in a result that was looked at
  have horigin : ∀ i e, (.component i, e) ∈ (shutDown onDrain components a).errs →
      ∃ r ∈ (shutDown onDrain components a).results, r.component = i ∧ ¬ a.Dropped r := by
    intro i e he
    rcases List.mem_append.mp he with he | he
    · rcases List.mem_append.mp he with he | he
      · obtain ⟨r, hr, hi, hdrop⟩ := awaitFirst_origin he
        exact ⟨r, List.mem_append_left _ hr, hi, hdrop⟩
      · exact absurd he (stopAll_origin _)
    · obtain ⟨r, hr, hi⟩ := joinAll_origin _ _ he
      refine ⟨r, List.mem_append_right _ hr, hi, fun hdrop => ?_⟩
      rw [shutDown, List.map_append] at honce
      exact List.disjoint_of_nodup_append honce (List.mem_map_of_mem hdrop.mem) (List.mem_map_of_mem hr)
  refine ⟨by rw [shutDown, stopAll_acts], fun hno => all_sent ⟨fun r hr => hsent.component r (hreceived.subset hr), honce⟩ ?_,
    fun hreports => ⟨fun r hdrop e he => ?_, fun r hr hleft e he => ?_⟩, fun ⟨hdropped, hleft⟩ r hr e he hcancel => ?_⟩
  · rw [shutDown, List.length_append, join, hlength fun hmem => hno (List.mem_append_right _ hmem)]
    omega
  · by_contra hcancel
    have hr : r ∈ (shutDown onDrain components a).results := List.mem_append_left _ hdrop.mem
    obtain ⟨r', hr', hi, hdrop'⟩ := horigin _ _ (hreports r (hreceived.subset hr) e he (by simpa using hcancel))
    exact hdrop' (hsame r' hr' r (hreceived.subset hr) hi ▸ hdrop)
  · by_contra hcancel
    obtain ⟨r', hr', hi, -⟩ := horigin _ _ (hreports r hr e he (by simpa using hcancel))
    exact hleft (hsame r' hr' r hr hi ▸ hr')
  have hloud : ¬ r.Harmless := fun hr => by simp [hr e he] at hcancel
  rcases List.mem_append.mp (not_not.mp fun hr' => hloud (hleft r hr hr')) with hr' | hr'
  · have hreport := awaitFirst_reported hr' (fun hdrop => hloud (hdropped r hdrop)) he hcancel
    exact List.mem_append_left _ (List.mem_append_left _ hreport)
  · exact List.mem_append_right _ (hreported r hr' e he hcancel)

/-- One component fails; the parent context is done or not when its result is looked at. -/
def failing (interrupted : Bool) : Answers :=
  ⟨[⟨0, "api", some (.new "listener failed")⟩], false, interrupted, some ⟨0, "api", some (.new "listener failed")⟩, false,
    fun _ => (none, false), []⟩

theorem shutdown_complete_failed : ∃ out, run true [⟨"api", true, true⟩] (failing false) = .ok out ∧
    out.acts = [.onDrain, .cancel, .stop 0] ∧ Reported (failing false).returned out.errs := by
  obtain ⟨hacts, -, hreported⟩ := shutdown_complete true [⟨"api", true, true⟩] (failing false) _ rfl ⟨by decide, by decide⟩
    (List.Subperm.refl _)
  refine ⟨_, rfl, hacts, hreported.mpr ⟨fun r hdrop => ?_, fun r hr hleft => absurd hr hleft⟩⟩
  cases hdrop.2.2

/-- The parent context is cancelled while the error of the component is received: `Run` returns nil. -/
theorem shutdown_drops : ∃ out, run true [⟨"api", true, true⟩] (failing true) = .ok out ∧ Sent 1 (failing true).returned ∧
    out.results = (failing true).returned ∧ out.errs = [] ∧ ¬ Reported (failing true).returned out.errs := by
  refine ⟨_, rfl, ⟨by decide, by decide⟩, rfl, rfl, fun h => ?_⟩
  exact absurd (h _ (List.mem_singleton_self _) _ rfl rfl) List.not_mem_nil

end Autback.Group
