import Autback.Capacity.Stages

/-!
# The loop over the images

`Host.pruneUnusedImages` looks at the images by last use and id, passes over those that are protected or in their grace, and under
a target measures after each removal. The images it attempts are the first of the eligible ones, up to the first after which the
target is measured (`Loop.attempted`, `Loop.all_attempted`).
-/

namespace Autback.Host

open Conc (Prog)

/-- The attempt to remove an image: what Docker answers (unless it is a dry run), and the measurement after it. -/
structure Attempt where
  image : DockerImage
  answer : Except Err Unit
  measured : Except Err Snapshot

section Images

variable (h : HostConfig) (target : UInt64)

def removalCalls (id : String) (r : Except Err Unit) : HostTrace := if h.dryRun then [] else [⟨.removeImage id, r⟩]

def Attempt.calls (a : Attempt) : HostTrace := removalCalls h a.image.id a.answer ++ [⟨.snapshot .image, a.measured⟩]

inductive Loop (grace : Time) : List DockerImage → List String → HostTrace → List String × Option Err → Prop
  | nil {commands : List String} : Loop grace [] commands [] (commands, none)
  | skip {image : DockerImage} {images : List DockerImage} {commands : List String} {tr : HostTrace}
      {out : List String × Option Err} (hskip : image.skipped grace = true) (hrest : Loop grace images commands tr out) :
    Loop grace (image :: images) commands tr out
  | unmeasured {image : DockerImage} {images : List DockerImage} {commands : List String} {tr : HostTrace}
      {out : List String × Option Err} (r : Except Err Unit) (hskip : image.skipped grace = false) (ht : target = 0)
      (hrest : Loop grace images (commands ++ [imageCommand image.id]) tr out) :
    Loop grace (image :: images) commands (removalCalls h image.id r ++ tr) out
  | failed {a : Attempt} {images : List DockerImage} {commands : List String} {e : Err}
      (hskip : a.image.skipped grace = false) (hm : a.measured = .error e) :
    Loop grace (a.image :: images) commands (a.calls h) (commands ++ [imageCommand a.image.id], some e)
  | reached {a : Attempt} {images : List DockerImage} {commands : List String} {s : Snapshot}
      (hskip : a.image.skipped grace = false) (hm : a.measured = .ok s) (hs : target ≤ s.freeBytes) :
    Loop grace (a.image :: images) commands (a.calls h) (commands ++ [imageCommand a.image.id], none)
  | next {a : Attempt} {images : List DockerImage} {commands : List String} {s : Snapshot} {tr : HostTrace}
      {out : List String × Option Err} (hskip : a.image.skipped grace = false) (hm : a.measured = .ok s)
      (hs : s.freeBytes < target) (hrest : Loop grace images (commands ++ [imageCommand a.image.id]) tr out) :
    Loop grace (a.image :: images) commands (a.calls h ++ tr) out

variable {h target} {grace : Time}

variable {tr : HostTrace} {images : List DockerImage} {commands : List String} {out : List String × Option Err}

theorem runs_removeImage {id : String} {u : Unit} (hrun : (removeImage h id).Runs tr u) : ∃ r, tr = removalCalls h id r := by
  unfold removeImage at hrun
  unfold removalCalls
  split at hrun
  · obtain ⟨rfl, -⟩ := Prog.runs_ret.mp hrun
    exact ⟨.ok (), by simp only [*, if_true]⟩
  obtain ⟨r, tr', rfl, hret⟩ := hrun.of_lift
  obtain ⟨rfl, -⟩ := Prog.runs_ret.mp hret
  exact ⟨r, by simp only [*]; rfl⟩

theorem Loop.of_runs : ∀ {images : List DockerImage} {commands : List String} {tr : HostTrace}
    {out : List String × Option Err}, (pruneLoop h target grace images commands).Runs tr out →
    Loop h target grace images commands tr out
  | [], commands, tr, out, hrun => by
    obtain ⟨rfl, rfl⟩ := Prog.runs_ret.mp hrun
    exact .nil
  | image :: images, commands, tr, out, hrun => by
    unfold pruneLoop at hrun
    split at hrun
    next hskip => exact .skip hskip (of_runs hrun)
    next hskip =>
      have hskip := Bool.eq_false_iff.mpr hskip
      obtain ⟨tr1, _, tr2, rfl, hrem, hmeas⟩ := hrun.of_bind
      obtain ⟨r, rfl⟩ := runs_removeImage hrem
      split at hmeas
      next ht =>
        obtain ⟨m, tr3, rfl, hgo⟩ := hmeas.of_lift
        cases m with
        | error e =>
          obtain ⟨rfl, rfl⟩ := Prog.runs_ret.mp hgo
          exact .failed (a := ⟨image, r, .error e⟩) hskip rfl
        | ok s =>
          simp only at hgo
          split at hgo
          next hs =>
            obtain ⟨rfl, rfl⟩ := Prog.runs_ret.mp hgo
            exact .reached (a := ⟨image, r, .ok s⟩) hskip rfl hs
          next hs =>
            have hnext := Loop.next (h := h) (a := ⟨image, r, .ok s⟩) hskip rfl (UInt64.not_le.mp hs) (of_runs hgo)
            simpa only [Attempt.calls, List.append_assoc, List.singleton_append] using hnext
      next ht => exact .unmeasured r hskip (UInt64.le_zero_iff.mp (UInt64.not_lt.mp ht)) (of_runs hmeas)

def failure : Except Err Snapshot → Option Err
  | .ok _ => none
  | .error e => some e

variable (h target) in
/-- Of `images` the loop attempts the first ones, up to the end or to the first after which the target is measured, or the
measurement fails. -/
structure Attempted (images : List DockerImage) (attempts : List Attempt) (tr : HostTrace) (commands : List String)
    (err : Option Err) : Prop where
  first : attempts.map Attempt.image <+: images
  calls : tr = attempts.flatMap (Attempt.calls h)
  commands_eq : commands = attempts.map fun a => imageCommand a.image.id
  short : ∀ a ∈ attempts.dropLast, ∃ s, a.measured = .ok s ∧ s.freeBytes < target
  ends : attempts.map Attempt.image = images ∨ ∃ a ∈ attempts.getLast?, ∀ s, a.measured = .ok s → target ≤ s.freeBytes
  err_eq : err = attempts.getLast?.bind fun a => failure a.measured

theorem Attempted.single {a : Attempt} {err : Option Err} (hm : ∀ s, a.measured = .ok s → target ≤ s.freeBytes)
    (herr : err = failure a.measured) :
    Attempted h target (a.image :: images) [a] (a.calls h) [imageCommand a.image.id] err where
  first := List.prefix_append _ _
  calls := (List.append_nil _).symm
  commands_eq := rfl
  short := nofun
  ends := .inr ⟨a, rfl, hm⟩
  err_eq := herr

theorem Attempted.cons {a : Attempt} {s : Snapshot} {attempts : List Attempt} {err : Option Err} (hm : a.measured = .ok s)
    (hs : s.freeBytes < target) (hrest : Attempted h target images attempts tr commands err) :
    Attempted h target (a.image :: images) (a :: attempts) (a.calls h ++ tr) (imageCommand a.image.id :: commands) err where
  first := List.prefix_cons_inj _ |>.mpr hrest.first
  calls := by rw [hrest.calls]; rfl
  commands_eq := by rw [hrest.commands_eq]; rfl
  short := by
    intro b hb
    cases attempts with
    | nil => cases hb
    | cons a' attempts =>
      rcases List.mem_cons.mp hb with rfl | hb
      · exact ⟨s, hm, hs⟩
      · exact hrest.short b hb
  ends := by
    rcases hrest.ends with heq | ⟨b, hb, hreached⟩
    · exact .inl (congrArg (a.image :: ·) heq)
    refine .inr ⟨b, ?_, hreached⟩
    rw [Option.mem_def] at hb ⊢
    rw [List.getLast?_cons, hb]
    rfl
  err_eq := by
    rw [hrest.err_eq, List.getLast?_cons]
    cases attempts.getLast? with
    | none =>
      show none = failure a.measured
      rw [hm]
      rfl
    | some b => rfl

theorem Loop.all_attempted (hloop : Loop h target grace images commands tr out) (hnone : out.2 = none) : Reached target tr ∨
      commands ⊆ out.1 ∧ ∀ image ∈ images, image.skipped grace = false → imageCommand image.id ∈ out.1 := by
  have hcons : ∀ {image : DockerImage} {images : List DockerImage} {commands : List String},
      (commands ++ [imageCommand image.id] ⊆ out.1 ∧
        ∀ i ∈ images, i.skipped grace = false → imageCommand i.id ∈ out.1) →
      commands ⊆ out.1 ∧ ∀ i ∈ image :: images, i.skipped grace = false → imageCommand i.id ∈ out.1 := by
    rintro image images commands ⟨hsub, hrest⟩
    refine ⟨fun c hc => hsub (List.mem_append_left _ hc), fun i hi hskip => ?_⟩
    rcases List.mem_cons.mp hi with rfl | hi
    · exact hsub (List.mem_append_right _ List.mem_cons_self)
    · exact hrest i hi hskip
  induction hloop with
  | nil => exact .inr ⟨List.Subset.refl _, nofun⟩
  | skip hskip _ ih =>
    refine (ih hnone hcons).imp id fun hrest => ⟨hrest.1, fun i hi hi' => ?_⟩
    rcases List.mem_cons.mp hi with rfl | hi
    · rw [hskip] at hi'
      cases hi'
    · exact hrest.2 i hi hi'
  | unmeasured r hskip h0 _ ih | next hskip hm hs _ ih =>
    exact (ih hnone hcons).imp (fun hreached => hreached.append_left _) hcons
  | failed hskip hm => cases hnone
  | @reached a _ _ s hskip hm hs =>
    refine .inl ⟨s, List.mem_filterMap.mpr ⟨⟨.snapshot .image, .ok s⟩, ?_, rfl⟩, hs⟩
    rw [Attempt.calls, hm]
    exact List.mem_append_right _ List.mem_cons_self

theorem runs_pruneUnusedImages (hrun : (pruneUnusedImages h target).Runs tr out) :
    ((∀ x ∈ tr, x.1 = .listImages ∨ x.1 = .capacityImagePolicies) ∧ ∃ e, out = ([], some e)) ∨
      (tr = [⟨.listImages, .ok []⟩] ∧ out = ([], none)) ∨
      ∃ images policies now tr', tr = ⟨.listImages, .ok images⟩ :: ⟨.capacityImagePolicies, .ok policies⟩ :: ⟨.now, now⟩ :: tr' ∧
        Loop h target (now - 5 * minute) (ordered h images policies) [] tr' out := by
  unfold pruneUnusedImages at hrun
  split at hrun
  · obtain ⟨rfl, rfl⟩ := Prog.runs_ret.mp hrun
    exact .inl ⟨fun x hx => (by cases hx), _, rfl⟩
  obtain ⟨listed, tr1, rfl, hlist⟩ := hrun.of_lift
  match listed with
  | .error e =>
    obtain ⟨rfl, rfl⟩ := Prog.runs_ret.mp hlist
    exact .inl ⟨fun x hx => .inl (by cases List.mem_singleton.mp hx; rfl), _, rfl⟩
  | .ok [] =>
    obtain ⟨rfl, rfl⟩ := Prog.runs_ret.mp hlist
    exact .inr (.inl ⟨rfl, rfl⟩)
  | .ok (image :: images) =>
    obtain ⟨loaded, tr2, rfl, hload⟩ := Prog.Runs.of_lift hlist
    match loaded with
    | .error e =>
      obtain ⟨rfl, rfl⟩ := Prog.runs_ret.mp hload
      refine .inl ⟨fun x hx => ?_, _, rfl⟩
      simp only [List.mem_cons, List.not_mem_nil, or_false] at hx
      rcases hx with rfl | rfl
      · exact .inl rfl
      · exact .inr rfl
    | .ok policies =>
      obtain ⟨now, tr3, rfl, hloop⟩ := Prog.Runs.of_lift hload
      exact .inr (.inr ⟨_, policies, now, tr3, rfl, .of_runs hloop⟩)

end Images

/-! ## Which images are eligible -/

/-- The images that the loop does not pass over at time `now`, in its order. -/
def eligible (h : HostConfig) (images : List RuntimeImage) (policies : List ImagePolicy) (now : Time) : List DockerImage :=
  (ordered h images policies).filter fun image => !image.skipped (now - 5 * minute)

/-- The policy of a reference protects it, or says that it was used after `grace`. -/
def held (policies : List ImagePolicy) (grace : Time) (reference : String) : Bool :=
  match policyOf policies reference with
  | none => false
  | some policy => policy.isProtected || decide (policy.lastUsedAt > grace)

/-- The image was created by `grace`, and no name of it is protected or was used after `grace`. -/
def RuntimeImage.unused (policies : List ImagePolicy) (grace : Time) (image : RuntimeImage) : Bool :=
  decide (image.createdAt ≤ grace) && (image.repoTags ++ image.repoDigests).all fun reference => !held policies grace reference

section Eligible

variable {policies : List ImagePolicy} {grace : Time}

theorem note_skipped (image : DockerImage) (reference : String) :
    (image.note policies reference).skipped grace = (image.skipped grace || held policies grace reference) := by
  have hmax : ∀ a b g : Int, (g < if b < a then a else b) ↔ g < b ∨ g < a := by
    intro a b g
    split <;> omega
  unfold DockerImage.note held DockerImage.skipped
  cases policyOf policies reference with
  | none => exact (Bool.or_false _).symm
  | some policy =>
    rw [Bool.eq_iff_iff]
    simp only [Bool.or_eq_true, decide_eq_true_eq, gt_iff_lt]
    rw [hmax]
    tauto

theorem notes_skipped (references : List String) (image : DockerImage) :
    (references.foldl (DockerImage.note policies) image).skipped grace =
      (image.skipped grace || references.any (held policies grace)) := by
  induction references generalizing image with
  | nil => exact (Bool.or_false _).symm
  | cons reference references ih => rw [List.foldl_cons, ih, note_skipped, List.any_cons, Bool.or_assoc]

theorem annotate_skipped (image : RuntimeImage) : (!(annotate policies image).skipped grace) = image.unused policies grace := by
  have hcreate : ∀ g c : Int, (!(false || decide (c > g))) = decide (c ≤ g) := by
    intro g c
    simp only [Bool.false_or, gt_iff_lt, ← decide_not, Int.not_lt]
  unfold annotate RuntimeImage.unused
  rw [notes_skipped, Bool.not_or, List.not_any_eq_all_not]
  exact congrArg (· && _) (hcreate grace image.createdAt)

end Eligible

end Autback.Host
