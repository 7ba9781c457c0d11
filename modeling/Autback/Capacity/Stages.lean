import Autback.Capacity.Host

/-!
# The stages of a reclaim

The runs of `Host.runStages`, for every answer of the file system, the store, Docker and BuildKit. A run is taken apart once
(`Pipeline`): a stage runs, the target is measured, and either the run ends or it goes on with the next stage. From it follow, by
induction over the stages, that nothing is removed after a measurement that shows the target (`Pipeline.quits`), and that each
stage runs unless the target has been measured before it (`Pipeline.visits`).
-/

namespace Autback.Host

open Conc (Prog)

/-! ## The calls of the stages -/

def HostCall.plain : HostCall → Prop
  | .snapshot _ | .listImages | .capacityImagePolicies | .removeImage _ => False
  | _ => True

section Calls

variable {h : HostConfig} {P : HostCall → Prop}

theorem only_perform {c : HostCall} (hc : P c) : (perform c).Only P := ⟨hc, fun _ => trivial⟩

theorem only_removeJobs (hrem : ∀ id, safeChild id = true → P (.removeJob id)) :
    ∀ (ids : List String) (removed : Nat), (removeJobs h ids removed).Only P
  | [], _ => trivial
  | id :: ids, removed => by
    unfold removeJobs
    split
    · trivial
    rename_i hsafe
    split
    · exact only_removeJobs hrem ids _
    apply Prog.Only.bind _ (only_perform (hrem id (by simpa using hsafe)))
    intro r
    cases r with
    | ok => exact only_removeJobs hrem ids _
    | error => trivial

theorem only_removeTerminalJobs (hnow : P .now) (hlist : ∀ t, P (.terminalJobIDsBefore t))
    (hrem : ∀ id, safeChild id = true → P (.removeJob id)) (retention : Duration) : (removeTerminalJobs h retention).Only P := by
  unfold removeTerminalJobs
  split
  · trivial
  apply Prog.Only.bind _ (only_perform hnow)
  intro now
  apply Prog.Only.bind _ (only_perform (hlist _))
  intro r
  cases r with
  | ok ids => exact only_removeJobs hrem ids 0
  | error => trivial

end Calls

/-! ## Runs of the stages -/

section Pipelines

variable {request : ReclaimRequest} {before : Snapshot} {last : ReclaimReport → List Err → HostProg Outcome} {tr' : HostTrace}

/-- What is measured after a stage if `Reclaim` goes on: nothing without a target, or less than the target. -/
inductive Short (target : UInt64) : HostTrace → Prop
  | unmeasured : Short target []
  | measured (r : Except Err Snapshot) (hr : ∀ s, r = .ok s → s.freeBytes < target) : Short target [⟨.snapshot .stage, r⟩]

inductive Pipeline (target : UInt64) (before : Snapshot) (last : ReclaimReport → List Err → HostProg Outcome) :
    List Stage → ReclaimReport → List Err → HostTrace → Outcome → Prop
  | done {report : ReclaimReport} {errs : List Err} {tr : HostTrace} {out : Outcome} (hlast : (last report errs).Runs tr out) :
    Pipeline target before last [] report errs tr out
  | reached {stage : Stage} {rest : List Stage} {report : ReclaimReport} {errs : List Err} {tr : HostTrace}
      {added : ReclaimReport} {err : Option Err} {s : Snapshot} (r : Except Err Snapshot)
      (hstage : stage.Runs tr (added, err)) (hs : target ≤ s.freeBytes) :
    Pipeline target before last (stage :: rest) report errs (tr ++ [⟨.snapshot .stage, .ok s⟩, ⟨.snapshot .after, r⟩])
      (finished before (report.add added) (errs ++ err.toList) r)
  | next {stage : Stage} {rest : List Stage} {report : ReclaimReport} {errs : List Err} {tr short tr' : HostTrace}
      {added : ReclaimReport} {err : Option Err} {out : Outcome} (hstage : stage.Runs tr (added, err))
      (hshort : Short target short) (hrest : Pipeline target before last rest (report.add added) (errs ++ err.toList) tr' out) :
    Pipeline target before last (stage :: rest) report errs (tr ++ (short ++ tr')) out

theorem runs_finishReport {report : ReclaimReport} {errs : List Err} {tr : HostTrace} {out : Outcome}
    (h : (finishReport before report errs).Runs tr out) :
    ∃ r, tr = [⟨.snapshot .after, r⟩] ∧ out = finished before report errs r := by
  obtain ⟨r, tr', rfl, hret⟩ := h.of_lift
  obtain ⟨rfl, rfl⟩ := Prog.runs_ret.mp hret
  exact ⟨r, rfl, rfl⟩

theorem runs_reachedTarget {tr : HostTrace} {reached : Bool} (h : (reachedTarget request).Runs tr reached) :
    (reached = true ∧ ∃ s, tr = [⟨.snapshot .stage, .ok s⟩] ∧ request.targetFreeBytes ≤ s.freeBytes) ∨
      (reached = false ∧ Short request.targetFreeBytes tr) := by
  unfold reachedTarget at h
  split at h
  · obtain ⟨rfl, rfl⟩ := Prog.runs_ret.mp h
    exact .inr ⟨rfl, .unmeasured⟩
  obtain ⟨r, tr', rfl, hr⟩ := h.of_lift
  cases r with
  | error e =>
    obtain ⟨rfl, rfl⟩ := Prog.runs_ret.mp hr
    exact .inr ⟨rfl, .measured _ nofun⟩
  | ok s =>
    obtain ⟨rfl, rfl⟩ := Prog.runs_ret.mp hr
    by_cases hs : request.targetFreeBytes ≤ s.freeBytes
    · exact .inl ⟨decide_eq_true hs, s, rfl, hs⟩
    refine .inr ⟨decide_eq_false hs, .measured _ fun s' hs' => ?_⟩
    cases hs'
    exact UInt64.not_le.mp hs

theorem Pipeline.of_runs : ∀ {sts : List Stage} {report : ReclaimReport} {errs : List Err} {tr : HostTrace} {out : Outcome},
    (runStages request before last sts report errs).Runs tr out →
    Pipeline request.targetFreeBytes before last sts report errs tr out
  | [], _, _, _, _, h => .done h
  | stage :: rest, report, errs, tr, out, h => by
    obtain ⟨tr1, ⟨added, err⟩, tr2, rfl, hstage, hmeasure⟩ := h.of_bind
    obtain ⟨tr2, reached, tr3, rfl, hreached, hgo⟩ := hmeasure.of_bind
    rcases runs_reachedTarget hreached with ⟨rfl, s, rfl, hs⟩ | ⟨rfl, hshort⟩
    · obtain ⟨r, rfl, rfl⟩ := runs_finishReport hgo
      exact .reached r hstage hs
    · exact .next hstage hshort (of_runs hgo)

/-- The measurements at which `Reclaim` may stop: those after a stage and after the removal of an image. -/
def measured (tr : HostTrace) : List Snapshot :=
  tr.filterMap fun
    | ⟨.snapshot .stage, .ok s⟩ | ⟨.snapshot .image, .ok s⟩ => some s
    | _ => none

/-- One of these measurements shows the target. -/
def Reached (target : UInt64) (tr : HostTrace) : Prop := ∃ s ∈ measured tr, target ≤ s.freeBytes

theorem mem_measured {tr : HostTrace} {s : Snapshot} (hs : ⟨.snapshot .stage, .ok s⟩ ∈ tr) : s ∈ measured tr :=
  List.mem_filterMap.mpr ⟨_, hs, rfl⟩

theorem Reached.append_left {target : UInt64} (h : Reached target tr') (tr : HostTrace) : Reached target (tr ++ tr') := by
  obtain ⟨s, hs, hle⟩ := h
  refine ⟨s, ?_, hle⟩
  rw [measured, List.filterMap_append]
  exact List.mem_append_right _ hs

def Quits (target : UInt64) (tr : HostTrace) : Prop :=
  ∀ tr1 s tr2, tr = tr1 ++ ⟨.snapshot .stage, .ok s⟩ :: tr2 → target ≤ s.freeBytes → ∃ r, tr2 = [⟨.snapshot .after, r⟩]

theorem Quits.append {target : UInt64} (tr : HostTrace) (hcalm : ∀ s, ⟨.snapshot .stage, .ok s⟩ ∈ tr → s.freeBytes < target)
    (h : Quits target tr') : Quits target (tr ++ tr') := by
  intro tr1 s tr2 heq hs
  rcases List.append_eq_append_iff.mp heq with ⟨c, rfl, htr⟩ | ⟨c, rfl, htr⟩
  · exact h c s tr2 htr hs
  cases c with
  | nil => exact h [] s tr2 htr.symm hs
  | cons x c =>
    cases htr
    have hlt := hcalm s (List.mem_append_right _ List.mem_cons_self)
    exact absurd hs (UInt64.not_le.mpr hlt)

variable {target : UInt64} {sts : List Stage} {report : ReclaimReport} {errs : List Err} {tr : HostTrace} {out : Outcome}

theorem Short.calm {short : HostTrace} (h : Short target short) : ∀ s, ⟨.snapshot .stage, .ok s⟩ ∈ short →
    s.freeBytes < target := by
  intro s hs
  cases h with
  | unmeasured => cases hs
  | measured r hr =>
    cases List.mem_singleton.mp hs
    exact hr s rfl

theorem Short.only {short : HostTrace} (h : Short target short) {P : HostCall → Prop} (hP : ∀ m, P (.snapshot m)) :
    ∀ x ∈ short, P x.1 := by
  intro x hx
  cases h with
  | unmeasured => cases hx
  | measured r hr =>
    cases List.mem_singleton.mp hx
    exact hP _

structure Closing (report : ReclaimReport) (errs : List Err) (tr : HostTrace) (out : Outcome) : Prop where
  commands : report.commands <+: out.1.commands
  errs_nil : out.2 = none → errs = []
  measures : ∃ tr' r, tr = tr' ++ [⟨.snapshot .after, r⟩] ∧ (out.2 = none → ∃ s, r = .ok s)

theorem finished_closing (tr : HostTrace) (r : Except Err Snapshot) :
    Closing report errs (tr ++ [⟨.snapshot .after, r⟩]) (finished before report errs r) := by
  refine ⟨?_, fun hnone => ?_, tr, r, rfl, fun hnone => ?_⟩
  · cases r <;> exact List.prefix_refl _
  · cases errs with
    | nil => rfl
    | cons e es => cases r <;> cases hnone
  cases r with
  | ok s => exact ⟨s, rfl⟩
  | error e => cases errs <;> cases hnone

theorem Closing.of_add {added : ReclaimReport} {err : Option Err}
    (h : Closing (report.add added) (errs ++ err.toList) tr' out) : Closing report errs (tr ++ tr') out := by
  obtain ⟨tr'', r, rfl, hr⟩ := h.measures
  refine ⟨(List.prefix_append _ _).trans h.commands, fun hnone => ?_, tr ++ tr'', r, (List.append_assoc _ _ _).symm, hr⟩
  exact (List.append_eq_nil_iff.mp (h.errs_nil hnone)).1

theorem Closing.added {added : ReclaimReport} {err : Option Err}
    (h : Closing (report.add added) (errs ++ err.toList) tr out) :
    added.commands <:+: out.1.commands ∧ (out.2 = none → err = none) := by
  refine ⟨(List.suffix_append _ _).isInfix.trans h.commands.isInfix, fun hnone => ?_⟩
  exact Option.toList_eq_nil_iff.mp (List.append_eq_nil_iff.mp (h.errs_nil hnone)).2

theorem Pipeline.closing (h : Pipeline target before last sts report errs tr out)
    (hlast : ∀ report errs tr out, (last report errs).Runs tr out → Closing report errs tr out) :
    Closing report errs tr out := by
  induction h with
  | done hrun => exact hlast _ _ _ _ hrun
  | @reached stage rest report errs tr added err s r hrun hs =>
    exact (finished_closing [⟨.snapshot .stage, .ok s⟩] r).of_add
  | next hrun hshort _ ih =>
    rw [← List.append_assoc]
    exact ih.of_add

section Visits

variable {P : HostCall → Prop} (hP : ∀ m, P (.snapshot m)) (hlastP : ∀ report errs, (last report errs).Only P)
include hP hlastP

theorem Pipeline.only (h : Pipeline target before last sts report errs tr out) (hsts : ∀ stage ∈ sts, stage.Only P) :
    ∀ x ∈ tr, P x.1 := by
  induction h with
  | done hrun => exact (hlastP _ _).of_runs hrun
  | reached r hrun hs =>
    refine List.forall_mem_append.mpr ⟨(hsts _ List.mem_cons_self).of_runs hrun, fun x hx => ?_⟩
    simp only [List.mem_cons, List.not_mem_nil, or_false] at hx
    rcases hx with rfl | rfl <;> exact hP _
  | next hrun hshort _ ih =>
    refine List.forall_mem_append.mpr ⟨(hsts _ List.mem_cons_self).of_runs hrun, ?_⟩
    refine List.forall_mem_append.mpr ⟨hshort.only hP, ih fun stage hmem => ?_⟩
    exact hsts stage (List.mem_cons_of_mem _ hmem)

theorem Pipeline.visits {stage : Stage} {rest : List Stage}
    (hlast : ∀ report errs tr out, (last report errs).Runs tr out → Closing report errs tr out)
    (hrest : ∀ other ∈ rest, other.Only P) : ∀ {first : List Stage} {report : ReclaimReport} {errs : List Err} {tr : HostTrace}
    {out : Outcome}, (∀ other ∈ first, other.Only P) →
    Pipeline target before last (first ++ stage :: rest) report errs tr out →
    (Reached target tr ∧ ∀ x ∈ tr, P x.1) ∨
      ∃ tr1 tr2 tr3 added err, tr = tr1 ++ tr2 ++ tr3 ∧ (∀ x ∈ tr1 ++ tr3, P x.1) ∧ stage.Runs tr2 (added, err) ∧
        added.commands <:+: out.1.commands ∧ (out.2 = none → err = none)
  | [], report, errs, _, _, _, h => by
    right
    cases h with
    | @reached _ _ _ _ tr added err s r hrun hs =>
      refine ⟨[], tr, _, added, err, rfl, fun x hx => ?_, hrun, (finished_closing [] r).added⟩
      simp only [List.nil_append, List.mem_cons, List.not_mem_nil, or_false] at hx
      rcases hx with rfl | rfl <;> exact hP _
    | @next _ _ _ _ tr short tr' added err _ hrun hshort hnext =>
      refine ⟨[], tr, short ++ tr', added, err, rfl, ?_, hrun, (hnext.closing hlast).added⟩
      rw [List.nil_append]
      exact List.forall_mem_append.mpr ⟨hshort.only hP, hnext.only hP hlastP hrest⟩
  | other :: first, report, errs, _, _, hfirst, h => by
    have hother : other.Only P := hfirst other List.mem_cons_self
    cases h with
    | @reached _ _ _ _ tr _ _ s r hrun hs =>
      refine .inl ⟨Reached.append_left ⟨s, mem_measured List.mem_cons_self, hs⟩ _, ?_⟩
      refine List.forall_mem_append.mpr ⟨hother.of_runs hrun, fun x hx => ?_⟩
      simp only [List.mem_cons, List.not_mem_nil, or_false] at hx
      rcases hx with rfl | rfl <;> exact hP _
    | @next _ _ _ _ tr short tr' _ _ _ hrun hshort hnext =>
      have hbefore : ∀ x ∈ tr ++ short, P x.1 := List.forall_mem_append.mpr ⟨hother.of_runs hrun, hshort.only hP⟩
      rcases visits hlast hrest (fun o ho => hfirst o (List.mem_cons_of_mem _ ho)) hnext with
        ⟨hreached, hall⟩ | ⟨tr1, tr2, tr3, added, err, rfl, hall, hvisit⟩
      · rw [← List.append_assoc]
        exact .inl ⟨hreached.append_left _, List.forall_mem_append.mpr ⟨hbefore, hall⟩⟩
      refine .inr ⟨tr ++ short ++ tr1, tr2, tr3, added, err, by simp only [List.append_assoc], ?_, hvisit⟩
      rw [List.append_assoc]
      exact List.forall_mem_append.mpr ⟨hbefore, hall⟩

end Visits

theorem Pipeline.ends (h : Pipeline target before last sts report errs tr out) :
    Reached target tr ∨ ∃ report errs tr1 tr2, tr = tr1 ++ tr2 ∧ (last report errs).Runs tr2 out := by
  induction h with
  | done hrun => exact .inr ⟨_, _, [], _, rfl, hrun⟩
  | reached r hrun hs => exact .inl (Reached.append_left ⟨_, mem_measured List.mem_cons_self, hs⟩ _)
  | @next _ _ _ _ tr short _ _ _ _ _ _ _ ih =>
    rcases ih with hreached | ⟨report, errs, tr1, tr2, rfl, hrun⟩
    · exact .inl ((hreached.append_left _).append_left _)
    · exact .inr ⟨report, errs, tr ++ (short ++ tr1), tr2, by simp only [List.append_assoc], hrun⟩

end Pipelines

end Autback.Host
