import Autback.Capacity.Images
import Mathlib.Data.Int.Order.Basic
import Mathlib.Data.List.Sort
import Mathlib.Data.Prod.Lex
import Mathlib.Data.String.Basic

/-!
# When reclaiming stops

Under pressure `Host.Reclaim` removes no more than it needs to reach the target (`reclaim_removes_needed`): it stops at the first
measurement after a stage that shows it. That measurement looks at bytes only. So a run that ends early has relieved the pressure
if the measurement at which it stopped shows enough inodes, too (`reclaim_relieves`); with too few of them and enough bytes it
does nothing after its first stage (`reclaim_ignores_inodes`).
-/

namespace Autback.Host

open Conc (Prog)

/-! ## A sample host -/

def sorterBy {α κ : Type} [LinearOrder κ] (key : α → κ) {less : α → α → Bool} (hless : ∀ a b, less a b = decide (key a < key b)) :
    Sorter less where
  sort := List.insertionSort fun a b => key a ≤ key b
  perm := List.perm_insertionSort _
  sorted l := by
    have hsorted := List.pairwise_insertionSort (fun a b : α => key a ≤ key b) l
    refine hsorted.imp fun {a b} hle => ?_
    rw [hless]
    exact decide_eq_false (not_lt.mpr hle)

theorem less_eq_lex (t t' : Int) (id id' : String) :
    (if t = t' then decide (id < id') else decide (t < t')) = decide (toLex (t, id) < toLex (t', id')) := by
  rw [Bool.eq_iff_iff, decide_eq_true_eq, Prod.Lex.toLex_lt_toLex]
  by_cases heq : t = t' <;> simp [heq]

def sampleHost : HostConfig where
  runtime := true
  buildCache := true
  dryRun := false
  durationText := toString
  images := sorterBy (fun image : DockerImage => toLex (image.lastUsed, image.id)) fun _ _ => less_eq_lex _ _ _ _
  caches := sorterBy (fun cache : CacheDirectory => toLex (cache.modTime, cache.path)) fun _ _ => less_eq_lex _ _ _ _

/-- Every measurement is `s`, every listing is empty but the one of the images, and nothing fails. -/
def steady (s : Snapshot) (images : List RuntimeImage) (policies : List ImagePolicy) : (c : HostCall) → c.Ret
  | .snapshot _ => .ok s
  | .now => 600 * minute
  | .terminalJobIDsBefore _ => .ok []
  | .listImages => .ok images
  | .capacityImagePolicies => .ok policies
  | .cacheDirectories => .ok []
  | .removeJob _ | .pruneContainers _ _ | .pruneNetworks _ | .pruneVolumes | .pruneImages _ | .removeImage _ | .removeCache _
  | .pruneBuildKit _ => .ok ()

/-! ## No more than needed -/

section Reclaims

variable {h : HostConfig} {request : ReclaimRequest} {tr : HostTrace} {out : Outcome}

theorem lastStage_closing {before : Snapshot} {report : ReclaimReport} {errs : List Err}
    (hrun : (lastStage h request before report errs).Runs tr out) : Closing report errs tr out := by
  unfold lastStage at hrun
  split at hrun
  · obtain ⟨r, rfl, rfl⟩ := runs_finishReport hrun
    exact finished_closing [] r
  obtain ⟨tr1, err, tr2, rfl, -, hfin⟩ := hrun.of_bind
  obtain ⟨r, rfl, rfl⟩ := runs_finishReport hfin
  exact Closing.of_add (finished_closing [] r)

theorem runs_reclaim (hrun : (reclaim h request).Runs tr out) :
    (∃ e, tr = [⟨.snapshot .before, .error e⟩] ∧ out = ({}, some e)) ∨
      ∃ before tr', tr = ⟨.snapshot .before, .ok before⟩ :: tr' ∧
        Pipeline request.targetFreeBytes before (lastStage h request before) (stages h request) {} [] tr' out := by
  obtain ⟨r, tr', rfl, hgo⟩ := hrun.of_lift
  cases r with
  | error e =>
    obtain ⟨rfl, rfl⟩ := Prog.runs_ret.mp hgo
    exact .inl ⟨e, rfl, rfl⟩
  | ok before => exact .inr ⟨before, tr', rfl, .of_runs hgo⟩

end Reclaims

def fewBytes : Snapshot := ⟨100 * gib, 10 * gib, 1000, 900⟩

/-- Every stage has been attempted: it listed the terminal jobs, ran the commands for containers, networks and volumes, attempted
every eligible image, looked for caches and pruned BuildKit. -/
structure AllAttempted (h : HostConfig) (request : ReclaimRequest) (tr : HostTrace) (report : ReclaimReport) : Prop where
  jobs : 0 < request.jobRetention → ∃ x ∈ tr, ∃ before, x.1 = .terminalJobIDsBefore before
  runtime : ∀ call ∈ runtimeCalls h request, docker call.1 ∈ report.commands
  images : ⟨.listImages, .ok []⟩ ∈ tr ∨ ∃ images policies now,
    [⟨.listImages, .ok images⟩, ⟨.capacityImagePolicies, .ok policies⟩, ⟨.now, now⟩] <:+: tr ∧
      ∀ image ∈ eligible h images policies now, imageCommand image.id ∈ report.commands
  caches : ∃ x ∈ tr, x.1 = .cacheDirectories
  buildKit : buildKitCommand ∈ report.commands

section Stages

variable {h : HostConfig} {request : ReclaimRequest} {tr : HostTrace} {added : ReclaimReport} {err : Option Err}

theorem jobStage_lists (hrun : (jobStage h request).Runs tr (added, err)) (hret : 0 < request.jobRetention) :
    ∃ x ∈ tr, ∃ before, x.1 = .terminalJobIDsBefore before := by
  obtain ⟨tr1, _, tr2, rfl, hrem, -⟩ := hrun.of_bind
  rw [removeTerminalJobs, if_neg (not_le.mpr hret)] at hrem
  obtain ⟨now, tr3, rfl, hlist⟩ := hrem.of_lift
  obtain ⟨r, tr4, rfl, -⟩ := Prog.Runs.of_lift hlist
  exact ⟨⟨.terminalJobIDsBefore (now - request.jobRetention), r⟩, by simp, _, rfl⟩

theorem runtimeStage_command {command : List String} {run : HostProg (Except Err Unit)}
    (hrun : (runtimeStage h command run).Runs tr (added, err)) : added.commands = [docker command] := by
  unfold runtimeStage at hrun
  split at hrun
  · cases (Prog.runs_ret.mp hrun).2
    rfl
  split at hrun
  · cases (Prog.runs_ret.mp hrun).2
    rfl
  obtain ⟨tr1, r, tr2, rfl, -, hret⟩ := hrun.of_bind
  cases r <;>
  · cases (Prog.runs_ret.mp hret).2
    rfl

theorem cacheStage_looks (hrun : (cacheStage h request).Runs tr (added, err)) : ∃ x ∈ tr, x.1 = .cacheDirectories := by
  obtain ⟨tr1, _, tr2, rfl, hprun, -⟩ := hrun.of_bind
  obtain ⟨r, tr3, rfl, -⟩ := Prog.Runs.of_lift hprun
  exact ⟨_, List.mem_append_left _ List.mem_cons_self, rfl⟩

theorem imageStage_all (hp : request.pressure = true) (hrun : (imageStage h request).Runs tr (added, none)) :
    Reached request.targetFreeBytes tr ∨ ⟨.listImages, .ok []⟩ ∈ tr ∨ ∃ images policies now,
      [⟨.listImages, .ok images⟩, ⟨.capacityImagePolicies, .ok policies⟩, ⟨.now, now⟩] <:+: tr ∧
        ∀ image ∈ eligible h images policies now, imageCommand image.id ∈ added.commands := by
  rw [imageStage, if_pos hp] at hrun
  obtain ⟨tr1, ⟨commands, err⟩, tr2, rfl, hprun, hret⟩ := hrun.of_bind
  obtain ⟨rfl, hout⟩ := Prog.runs_ret.mp hret
  cases hout
  rw [List.append_nil]
  rcases runs_pruneUnusedImages hprun with ⟨-, e, hout⟩ | ⟨rfl, -⟩ | ⟨images, policies, now, tr', rfl, hloop⟩
  · cases hout
  · exact .inr (.inl List.mem_cons_self)
  rcases hloop.all_attempted rfl with hreached | ⟨-, hall⟩
  · exact .inl (hreached.append_left [_, _, _])
  refine .inr (.inr ⟨images, policies, now, ⟨[], tr', rfl⟩, fun image himage => ?_⟩)
  obtain ⟨hmem, hskip⟩ := List.mem_filter.mp himage
  exact hall image hmem (Bool.not_eq_true' _ |>.mp hskip)

end Stages

section Early

variable {h : HostConfig} {request : ReclaimRequest} {tr : HostTrace} {out : Outcome}

theorem stage_runs {before : Snapshot} {stage : Stage} (hmem : stage ∈ stages h request)
    (hpipe : Pipeline request.targetFreeBytes before (lastStage h request before) (stages h request) {} [] tr out)
    (hshort : ¬ Reached request.targetFreeBytes tr) (hnone : out.2 = none) :
    ∃ tr2 added, tr2 <:+: tr ∧ stage.Runs tr2 (added, none) ∧ added.commands <:+: out.1.commands := by
  have honly : ∀ {α : Type} (p : HostProg α), p.Only fun _ => True := by
    intro α p
    induction p with
    | ret => trivial
    | call c k ih => exact ⟨trivial, ih⟩
  obtain ⟨first, rest, hsplit⟩ := List.append_of_mem hmem
  rw [hsplit] at hpipe
  rcases Pipeline.visits (P := fun _ => True) (fun _ => trivial) (fun _ _ => honly _) (fun _ _ _ _ => lastStage_closing)
    (fun other _ => honly other) (fun other _ => honly other) hpipe with
    ⟨hreached, -⟩ | ⟨tr1, tr2, tr3, added, err, rfl, -, hrun, hadd, herr⟩
  · exact absurd hreached hshort
  rw [herr hnone] at hrun
  exact ⟨tr2, added, ⟨tr1, tr3, rfl⟩, hrun, hadd⟩

theorem lastStage_command (hp : request.pressure = true) {before : Snapshot} {report : ReclaimReport} {errs : List Err}
    (hrun : (lastStage h request before report errs).Runs tr out) : buildKitCommand ∈ out.1.commands := by
  rw [lastStage, if_neg (by rw [hp]; decide)] at hrun
  obtain ⟨tr1, err, tr2, rfl, -, hfin⟩ := hrun.of_bind
  obtain ⟨r, rfl, rfl⟩ := runs_finishReport hfin
  have hclosing : Closing (report.add { commands := [buildKitCommand] }) (errs ++ err.toList) [⟨.snapshot .after, r⟩]
      (finished before (report.add { commands := [buildKitCommand] }) (errs ++ err.toList) r) := finished_closing [] r
  exact hclosing.commands.subset (List.mem_append_right _ List.mem_cons_self)

theorem reclaim_attempts (hp : request.pressure = true) (hrun : (reclaim h request).Runs tr out) (hnone : out.2 = none) :
    Reached request.targetFreeBytes tr ∨ AllAttempted h request tr out.1 := by
  rcases runs_reclaim hrun with ⟨e, rfl, rfl⟩ | ⟨before, tr', rfl, hpipe⟩
  · cases hnone
  by_cases hshort : Reached request.targetFreeBytes tr'
  · exact .inl (hshort.append_left [_])
  have hin : ∀ {tr2 : HostTrace}, tr2 <:+: tr' → tr2 <:+: ⟨.snapshot .before, .ok before⟩ :: tr' :=
    fun htr => htr.trans (List.suffix_cons _ _).isInfix
  have hruns := fun (stage : Stage) (hmem : stage ∈ stages h request) => stage_runs hmem hpipe hshort hnone
  right
  constructor
  · intro hret
    obtain ⟨tr2, added, htr, hstage, -⟩ := hruns (jobStage h request) List.mem_cons_self
    obtain ⟨x, hx, hcall⟩ := jobStage_lists hstage hret
    exact ⟨x, (hin htr).subset hx, hcall⟩
  · intro call hcall
    obtain ⟨tr2, added, -, hstage, hadd⟩ := hruns (runtimeStage h call.1 call.2)
      (List.mem_append_left _ (List.mem_cons_of_mem _ (List.mem_map_of_mem hcall)))
    rw [runtimeStage_command hstage] at hadd
    exact hadd.subset List.mem_cons_self
  · obtain ⟨tr2, added, htr, hstage, hadd⟩ := hruns (imageStage h request) (List.mem_append_right _ List.mem_cons_self)
    rcases imageStage_all hp hstage with ⟨s, hs, hle⟩ | hempty | ⟨images, policies, now, hcalls, hall⟩
    · exact absurd ⟨s, (htr.sublist.filterMap _).subset hs, hle⟩ hshort
    · exact .inl ((hin htr).subset hempty)
    · exact .inr ⟨images, policies, now, hcalls.trans (hin htr), fun image himage => hadd.subset (hall image himage)⟩
  · obtain ⟨tr2, added, htr, hstage, -⟩ := hruns (cacheStage h request)
      (List.mem_append_right _ (List.mem_cons_of_mem _ List.mem_cons_self))
    obtain ⟨x, hx, hcall⟩ := cacheStage_looks hstage
    exact ⟨x, (hin htr).subset hx, hcall⟩
  · rcases hpipe.ends with hreached | ⟨report, errs, tr1, tr2, rfl, hlast⟩
    · exact absurd hreached hshort
    · exact lastStage_command hp hlast

theorem reclaim_measures (hrun : (reclaim h request).Runs tr out) (hnone : out.2 = none) :
    ∃ tr' s, tr = tr' ++ [⟨.snapshot .after, .ok s⟩] := by
  rcases runs_reclaim hrun with ⟨e, rfl, rfl⟩ | ⟨before, tr', rfl, hpipe⟩
  · cases hnone
  obtain ⟨tr1, r, rfl, hr⟩ := (hpipe.closing fun _ _ _ _ => lastStage_closing).measures
  obtain ⟨s, rfl⟩ := hr hnone
  exact ⟨⟨.snapshot .before, .ok before⟩ :: tr1, s, rfl⟩

end Early

/-- From `s` to `s'` neither the free bytes nor the free inodes fall, of which there are fewer than `2 ^ 64 / 100`. -/
structure Grows (s s' : Snapshot) : Prop where
  bytes : s.freeBytes ≤ s'.freeBytes
  inodes : s.freeInodes ≤ s'.freeInodes
  total : s'.totalInodes = s.totalInodes
  small : s'.freeInodes.toNat * 100 < 2 ^ 64

theorem Grows.no_shortage {s s' : Snapshot} (h : Grows s s') {percent : UInt64} (hs : inodePressure s percent = false) :
    inodePressure s' percent = false := by
  have hinodes := UInt64.le_iff_toNat_le.mp h.inodes
  have hsmall := h.small
  have hwrap : s.freeInodes.toNat * 100 % 2 ^ 64 = s.freeInodes.toNat * 100 := Nat.mod_eq_of_lt (by omega)
  rw [Bool.eq_false_iff, ne_eq, inodePressure_iff] at hs ⊢
  rw [h.total, Nat.mod_eq_of_lt hsmall]
  rw [hwrap] at hs
  omega

/-- **When `Reclaim` gives up early**: let a run end without an error and without having attempted every stage. Then some
measurement during it shows the target. If neither bytes nor inodes fall from such a measurement to the last one, then the run
ends without pressure as long as that measurement shows no shortage of inodes; and only then if the number of free inodes stays as
it is. -/
theorem reclaim_relieves (h : HostConfig) (p : Policy) (trigger : Trigger) (detected : Snapshot)
    (hfloor : (p.thresholds detected.totalBytes).softFreeBytes ≤ (p.thresholds detected.totalBytes).targetFreeBytes)
    (tr : HostTrace) (out : Outcome) (hrun : (reclaim h (p.reclaimRequest trigger true detected)).Runs tr out)
    (hnone : out.2 = none) (hearly : ¬ AllAttempted h (p.reclaimRequest trigger true detected) tr out.1) :
    Reached (p.thresholds detected.totalBytes).targetFreeBytes tr ∧
    ∃ s', tr.getLast? = some ⟨.snapshot .after, .ok s'⟩ ∧
      ∀ s ∈ measured tr, (p.thresholds detected.totalBytes).targetFreeBytes ≤ s.freeBytes → Grows s s' →
        (inodePressure s p.minimumFreeInodes = false → p.pressure (p.thresholds detected.totalBytes) s' = false) ∧
        (s'.freeInodes = s.freeInodes →
          (p.pressure (p.thresholds detected.totalBytes) s' = false ↔ inodePressure s p.minimumFreeInodes = false)) := by
  obtain ⟨tr', s', rfl⟩ := reclaim_measures hrun hnone
  refine ⟨(reclaim_attempts rfl hrun hnone).resolve_right hearly, s', List.getLast?_concat, fun s _ htarget hgrows => ?_⟩
  have hfree := UInt64.le_trans hfloor (UInt64.le_trans htarget hgrows.bytes)
  have hpressure : p.pressure (p.thresholds detected.totalBytes) s' = inodePressure s' p.minimumFreeInodes := by
    rw [Policy.pressure, decide_eq_false (UInt64.not_lt.mpr hfree), Bool.false_or]
  refine ⟨fun hinodes => hpressure.trans (hgrows.no_shortage hinodes), fun hsame => ?_⟩
  rw [hpressure, inodePressure, inodePressure, hsame, hgrows.total]

def fewBoth : Snapshot := ⟨100 * gib, 10 * gib, 1000, 10⟩

def plenty : Snapshot := ⟨100 * gib, 90 * gib, 1000, 900⟩

/-- There are few bytes and inodes until the stage for jobs has removed a workspace. -/
def relieved : (c : HostCall) → c.Ret
  | .snapshot .before => .ok fewBoth
  | .terminalJobIDsBefore _ => .ok ["job"]
  | c => steady plenty [] [] c

theorem reclaim_relieves_both :
    let run := (reclaim sampleHost (defaultPolicy.reclaimRequest .admission true fewBoth)).run relieved
    inodePressure fewBoth defaultPolicy.minimumFreeInodes = true ∧
      ∃ s, run.1.getLast? = some ⟨.snapshot .after, .ok s⟩ ∧
        defaultPolicy.pressure (defaultPolicy.thresholds fewBoth.totalBytes) s = false := by
  intro run
  have hcommands : buildKitCommand ∉ run.2.1.commands := by decide +kernel
  have hmeasured : measured run.1 = [plenty] := by decide +kernel
  have hlast : run.1.getLast? = some ⟨.snapshot .after, .ok plenty⟩ := by rfl
  obtain ⟨-, s, hs, hrelieves⟩ := reclaim_relieves sampleHost defaultPolicy .admission fewBoth (by decide) run.1 run.2
    (Prog.runs_run _ _) (by decide +kernel) fun hall => hcommands hall.buildKit
  cases hlast.symm.trans hs
  refine ⟨by decide, plenty, hs, (hrelieves plenty ?_ (by decide) ?_).1 (by decide)⟩
  · rw [hmeasured]
    exact List.mem_cons_self
  · exact ⟨by decide, by decide, rfl, by decide⟩

def fewInodes : Snapshot := ⟨100 * gib, 90 * gib, 1000, 10⟩

/-- **`Reclaim` gives up on inodes**: the pressure is a shortage of inodes, the run measures after its first stage that there are
enough bytes, and it ends without an error, without the other stages and with the same shortage. -/
theorem reclaim_ignores_inodes :
    let request := defaultPolicy.reclaimRequest .admission true fewInodes
    let run := (reclaim sampleHost request).run (steady fewInodes [] [])
    defaultPolicy.pressure (defaultPolicy.thresholds fewInodes.totalBytes) fewInodes = true ∧
      (reclaim sampleHost request).Runs run.1 run.2 ∧ run.2.2 = none ∧ ¬ AllAttempted sampleHost request run.1 run.2.1 ∧
      run.1.getLast? = some ⟨.snapshot .after, .ok fewInodes⟩ := by
  intro request run
  refine ⟨by decide, Prog.runs_run _ _, by decide +kernel, fun hall => ?_, by rfl⟩
  have hcommands : buildKitCommand ∉ run.2.1.commands := by decide +kernel
  exact hcommands hall.buildKit

end Autback.Host
