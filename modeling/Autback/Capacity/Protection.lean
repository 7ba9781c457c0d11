import Autback.Access.Images
import Autback.Capacity.Reclaim

/-!
# Images that pressure does not remove

The policies of images that the store supplies (`CapacityImagePolicies` of `internal/control/sqlite/store.go`) protect the active
and the previous image of every project, by the text of the reference. Docker lists an image under its tags and under
`repository@sha256:digest`. So the images of the projects are kept exactly if their references have that form, or other references
do it for them (`prune_keeps_projects`); a tag before the digest is enough to lose an image (`prune_removes_tagged`).
-/

namespace Autback

namespace Host

open Access.Images (imageName imageDigest)
open Access.Images renaming imageDigestPattern → digestPattern
open Conc (Prog)

/-! ## Policies -/

/-- `policies[reference]`, the zero value if there is none. -/
def policyFor (policies : Table String ImagePolicy) (reference : String) : ImagePolicy :=
  (policies.lookup reference).getD ⟨"", zeroTime, false⟩

def protect (policies : Table String ImagePolicy) (reference : String) : Table String ImagePolicy :=
  if reference = "" then policies
  else policies.insert reference { policyFor policies reference with reference := reference, isProtected := true }

def use (policies : Table String ImagePolicy) (last : String × Time) : Table String ImagePolicy :=
  policies.insert last.1 { policyFor policies last.1 with reference := last.1, lastUsedAt := last.2 }

/-- `SELECT image,MAX(created_at) FROM control_jobs WHERE image<>'' GROUP BY image`. -/
def lastUses (jobs : List JobRow) : List (String × Time) :=
  ((jobs.map JobRow.image).filter (· ≠ "")).dedup.map fun image =>
    (image, ((jobs.filter fun job => job.image = image).map JobRow.createdAt).max?.getD zeroTime)

def projectImages (project : Access.ProjectRow) : List String := [project.activeImage, project.previousImage]

def projectPolicies (projects : List Access.ProjectRow) : Table String ImagePolicy :=
  (projects.flatMap projectImages).foldl protect ∅

def capacityImagePolicies (projects : List Access.ProjectRow) (jobs : List JobRow) : List ImagePolicy :=
  let policies := (lastUses jobs).foldl use (projectPolicies projects)
  ((Table.rows policies).map Prod.snd).insertionSort fun a b => a.reference ≤ b.reference

section Policies

def Keyed (policies : Table String ImagePolicy) : Prop := ∀ k p, policies.lookup k = some p → p.reference = k

variable {policies : Table String ImagePolicy} {reference : String}

theorem Keyed.insert (h : Keyed policies) {p : ImagePolicy} {k : String} (hp : p.reference = k) :
    Keyed (policies.insert k p) := by
  intro k' p' hp'
  rw [Table.lookup_insert_eq] at hp'
  split at hp'
  next hk =>
    cases hp'
    rw [hp, hk]
  · exact h k' p' hp'

def Protects (policies : Table String ImagePolicy) (reference : String) : Prop :=
  ∃ p, policies.lookup reference = some p ∧ p.isProtected = true

theorem policyFor_protected (h : Protects policies reference) : (policyFor policies reference).isProtected = true := by
  obtain ⟨p, hp, hprotected⟩ := h
  rw [policyFor, hp]
  exact hprotected

theorem Protects.insert {k : String} {p : ImagePolicy} (h : Protects policies reference)
    (hp : (policyFor policies k).isProtected = true → p.isProtected = true) : Protects (policies.insert k p) reference := by
  by_cases hk : reference = k
  · subst hk
    exact ⟨p, AList.lookup_insert _, hp (policyFor_protected h)⟩
  obtain ⟨q, hq, hprotected⟩ := h
  exact ⟨q, by rw [AList.lookup_insert_ne hk]; exact hq, hprotected⟩

theorem protect_keyed (h : Keyed policies) (reference : String) : Keyed (protect policies reference) := by
  unfold protect
  split
  · exact h
  · exact h.insert rfl

theorem Protects.protect (h : Protects policies reference) (k : String) : Protects (Host.protect policies k) reference := by
  unfold Host.protect
  split
  · exact h
  · exact h.insert fun _ => rfl

theorem protects_protect (hne : reference ≠ "") (policies : Table String ImagePolicy) :
    Protects (protect policies reference) reference := by
  rw [protect, if_neg hne]
  exact ⟨_, AList.lookup_insert _, rfl⟩

theorem protects_foldl (hne : reference ≠ "") : ∀ {references : List String} (policies : Table String ImagePolicy),
    reference ∈ references ∨ Protects policies reference → Protects (references.foldl protect policies) reference
  | [], _, h => h.resolve_left (by simp)
  | k :: references, policies, h => by
    rw [List.foldl_cons]
    apply protects_foldl hne (protect policies k)
    rcases h with hmem | hprotected
    · rcases List.mem_cons.mp hmem with rfl | hmem
      · exact .inr (protects_protect hne policies)
      · exact .inl hmem
    · exact .inr (hprotected.protect k)

theorem foldl_keeps {α : Type} {f : Table String ImagePolicy → α → Table String ImagePolicy}
    {I : Table String ImagePolicy → Prop} {l : List α} (hf : ∀ policies, ∀ a ∈ l, I policies → I (f policies a))
    (h : I policies) : I (l.foldl f policies) := by
  induction l generalizing policies with
  | nil => exact h
  | cons a l ih =>
    exact ih (fun policies b hb => hf policies b (List.mem_cons_of_mem _ hb)) (hf policies a List.mem_cons_self h)

/-- The map of `CapacityImagePolicies` at its end. -/
def policyTable (projects : List Access.ProjectRow) (jobs : List JobRow) : Table String ImagePolicy :=
  (lastUses jobs).foldl use (projectPolicies projects)

variable {projects : List Access.ProjectRow} {jobs : List JobRow}

theorem policyTable_keyed : Keyed (policyTable projects jobs) := by
  refine foldl_keeps (fun policies last _ h => h.insert rfl) ?_
  refine foldl_keeps (fun policies k _ h => protect_keyed h k) ?_
  intro k p hp
  cases hp

theorem policyOf_capacityImagePolicies :
    policyOf (capacityImagePolicies projects jobs) reference = (policyTable projects jobs).lookup reference := by
  have hmem : ∀ q, q ∈ (capacityImagePolicies projects jobs).reverse ↔ ∃ k, (policyTable projects jobs).lookup k = some q := by
    intro q
    simp only [List.mem_reverse, capacityImagePolicies, List.mem_insertionSort, List.mem_map, Prod.exists, exists_eq_right]
    exact exists_congr fun k => Table.mem_rows
  cases hfind : policyOf (capacityImagePolicies projects jobs) reference with
  | none =>
    cases hp : (policyTable projects jobs).lookup reference with
    | none => rfl
    | some p =>
      have hall := List.find?_eq_none.mp hfind p ((hmem p).mpr ⟨reference, hp⟩)
      simp [policyTable_keyed reference p hp] at hall
  | some q =>
    obtain ⟨k, hk⟩ := (hmem q).mp (List.mem_of_find?_eq_some hfind)
    have href : q.reference = reference := by simpa using List.find?_some hfind
    rw [← hk, ← href, policyTable_keyed k q hk]

/-- The references of the projects are protected, and no others. -/
theorem policyTable_protects :
    Protects (policyTable projects jobs) reference ↔ reference ≠ "" ∧ reference ∈ projects.flatMap projectImages := by
  refine ⟨?_, fun ⟨hne, hmem⟩ => ?_⟩
  swap
  · exact foldl_keeps (I := fun policies => Protects policies reference)
      (fun policies last _ h => Protects.insert h fun hp => hp) (protects_foldl hne _ (.inl hmem))
  have hinsert : ∀ {policies : Table String ImagePolicy} {k : String} {p : ImagePolicy}, Protects
      (policies.insert k p) reference →
      (reference = k ∧ p.isProtected = true) ∨ Protects policies reference := by
    rintro policies k p ⟨q, hq, hprotected⟩
    rw [Table.lookup_insert_eq] at hq
    split at hq
    · rename_i hk
      cases hq
      exact .inl ⟨hk, hprotected⟩
    · exact .inr ⟨q, hq, hprotected⟩
  refine foldl_keeps (I := fun policies => Protects policies reference → _) (fun policies last _ h hprot => ?_) ?_
  · rcases hinsert hprot with ⟨hk, hprotected⟩ | hprot
    · apply h
      rw [hk]
      unfold policyFor at hprotected
      cases hp : policies.lookup last.1 with
      | none => simp [hp] at hprotected
      | some p => exact ⟨p, hp, by simpa [hp] using hprotected⟩
    · exact h hprot
  refine foldl_keeps (I := fun policies => Protects policies reference → _) (fun policies k hk h hprot => ?_) ?_
  · rw [protect] at hprot
    split at hprot
    · exact h hprot
    · rename_i hne
      rcases hinsert hprot with ⟨rfl, -⟩ | hprot
      · exact ⟨hne, hk⟩
      · exact h hprot
  · rintro ⟨p, hp, -⟩
    cases hp

end Policies

/-! ## References and what they denote -/

/-- The name of a reference without a tag. A tag follows a colon in the last component of the path. -/
def untagged (name : List Char) : List Char :=
  if (name.reverse.takeWhile (· != '/')).contains ':' then ((name.reverse.dropWhile (· != ':')).drop 1).reverse else name

def repoDigest (reference : String) : String :=
  String.ofList (untagged (imageName reference.toList) ++ "@sha256:".toList ++ imageDigest reference.toList)

def Denotes (reference : String) (image : RuntimeImage) : Prop := repoDigest reference ∈ image.repoDigests

theorem repoDigest_eq {reference : String} (hpinn : digestPattern reference = true)
    (htag : untagged (imageName reference.toList) = imageName reference.toList) : repoDigest reference = reference := by
  simp only [digestPattern, Bool.and_eq_true, decide_eq_true_eq, beq_iff_eq] at hpinn
  obtain ⟨⟨⟨hlength, -⟩, hat⟩, -⟩ := hpinn
  have hdrop : List.drop 8 (List.drop (reference.toList.length - 72) reference.toList) = imageDigest reference.toList := by
    rw [List.drop_drop, imageDigest]
    congr 1
    omega
  have hsplit : imageName reference.toList ++ "@sha256:".toList ++ imageDigest reference.toList = reference.toList := by
    rw [← hdrop, ← hat, List.append_assoc, List.take_append_drop, imageName, List.take_append_drop]
  rw [repoDigest, htag, hsplit, String.ofList_toList]

theorem repoDigest_ne (reference : String) : repoDigest reference ≠ "" := by
  intro h
  have := congrArg String.toList h
  simp [repoDigest] at this

/-! ## What the loop removes -/

section Removals

variable {h : HostConfig} {target : UInt64} {grace : Time}

theorem mem_removalCalls {id : String} {r : Except Err Unit} {x : Σ c : HostCall, c.Ret} (hx : x ∈ removalCalls h id r) :
    x.1 = .removeImage id := by
  unfold removalCalls at hx
  split at hx
  · cases hx
  cases List.mem_singleton.mp hx
  rfl

theorem Attempt.mem_calls {a : Attempt} {x : Σ c : HostCall, c.Ret} {id : String} (hx : x ∈ a.calls h)
    (hid : x.1 = .removeImage id) : a.image.id = id := by
  rcases List.mem_append.mp hx with hx | hx
  · rw [mem_removalCalls hx] at hid
    cases hid
    rfl
  cases List.mem_singleton.mp hx
  cases hid

theorem Loop.removes {images : List DockerImage} {commands : List String} {tr : HostTrace} {out : List String × Option Err}
    (hloop : Loop h target grace images commands tr out) :
    (∀ c ∈ out.1, c ∈ commands ∨ ∃ image ∈ images, image.skipped grace = false ∧ c = imageCommand image.id) ∧
      ∀ x ∈ tr, ∀ id, x.1 = .removeImage id → ∃ image ∈ images, image.skipped grace = false ∧ image.id = id := by
  have hlat : ∀ {P : DockerImage → Prop} {image : DockerImage} {images : List DockerImage},
      (∃ i ∈ images, i.skipped grace = false ∧ P i) → ∃ i ∈ image :: images, i.skipped grace = false ∧ P i := by
    rintro P image images ⟨i, hi, hP⟩
    exact ⟨i, List.mem_cons_of_mem _ hi, hP⟩
  have hcomm : ∀ {image : DockerImage} {images : List DockerImage} {commands : List String} {c : String},
      image.skipped grace = false →
      (c ∈ commands ++ [imageCommand image.id] ∨ ∃ i ∈ images, i.skipped grace = false ∧ c = imageCommand i.id) →
      c ∈ commands ∨ ∃ i ∈ image :: images, i.skipped grace = false ∧ c = imageCommand i.id := by
    intro image images commands c hskip hc
    rcases hc with hc | hc
    · rcases List.mem_append.mp hc with hc | hc
      · exact .inl hc
      · exact .inr ⟨image, List.mem_cons_self, hskip, List.mem_singleton.mp hc⟩
    · exact .inr (hlat hc)
  induction hloop with
  | nil => exact ⟨fun c hc => .inl hc, nofun⟩
  | skip hskip _ ih => exact ⟨fun c hc => (ih.1 c hc).imp id hlat, fun x hx id hid => hlat (ih.2 x hx id hid)⟩
  | @unmeasured image _ _ _ _ r hskip _ _ ih =>
    refine ⟨fun c hc => hcomm hskip (ih.1 c hc), fun x hx id hid => ?_⟩
    rcases List.mem_append.mp hx with hx | hx
    · rw [mem_removalCalls hx] at hid
      cases hid
      exact ⟨image, List.mem_cons_self, hskip, rfl⟩
    · exact hlat (ih.2 x hx id hid)
  | @failed a _ _ _ hskip _ | @reached a _ _ _ hskip _ _ =>
    exact ⟨fun c hc => hcomm hskip (.inl hc), fun x hx id hid => ⟨a.image, List.mem_cons_self, hskip, Attempt.mem_calls hx hid⟩⟩
  | @next a _ _ _ _ _ hskip _ _ _ ih =>
    refine ⟨fun c hc => hcomm hskip (ih.1 c hc), fun x hx id hid => ?_⟩
    rcases List.mem_append.mp hx with hx | hx
    · exact ⟨a.image, List.mem_cons_self, hskip, Attempt.mem_calls hx hid⟩
    · exact hlat (ih.2 x hx id hid)

theorem imageCommand_injective : Function.Injective imageCommand := by
  intro id id' heq
  have hlist := congrArg String.toList heq
  simp only [imageCommand, docker, joinCommand, List.foldl_cons, List.foldl_nil, String.toList_append,
    List.append_cancel_left_eq] at hlist
  exact String.toList_inj.mp hlist

theorem notes_id (policies : List ImagePolicy) (references : List String) (image : DockerImage) :
    (references.foldl (DockerImage.note policies) image).id = image.id := by
  induction references generalizing image with
  | nil => rfl
  | cons reference references ih =>
    rw [List.foldl_cons, ih]
    unfold DockerImage.note
    split <;> rfl

theorem annotate_id (policies : List ImagePolicy) (image : RuntimeImage) : (annotate policies image).id = image.id :=
  notes_id _ _ _

theorem annotate_protected {policies : List ImagePolicy} {image : RuntimeImage} {reference : String} {p : ImagePolicy}
    (href : reference ∈ image.repoDigests) (hp : policyOf policies reference = some p) (hprotected : p.isProtected = true)
    (grace : Time) : (annotate policies image).skipped grace = true := by
  have hheld : held policies grace reference = true := by rw [held, hp]; simp [hprotected]
  have hskip : (!(annotate policies image).skipped grace) = image.unused policies grace := annotate_skipped image
  have hunused : image.unused policies grace = false := by
    unfold RuntimeImage.unused
    rw [Bool.and_eq_false_iff]
    refine .inr (List.all_eq_false.mpr ⟨reference, List.mem_append_right _ href, ?_⟩)
    rw [hheld]
    decide
  rw [hunused] at hskip
  simpa using hskip

end Removals

/-- No run of `pruneUnusedImages` attempts to remove an image that the active or previous image of a project denotes. -/
def KeepsProjects (h : HostConfig) (projects : List Access.ProjectRow) (jobs : List JobRow) : Prop :=
  ∀ (target : UInt64) (images : List RuntimeImage), (images.map RuntimeImage.id).Nodup →
    ∀ (tr : HostTrace) (out : List String × Option Err), (pruneUnusedImages h target).Runs tr out →
    (∀ listed, ⟨.listImages, .ok listed⟩ ∈ tr → listed = images) →
    (∀ policies, ⟨.capacityImagePolicies, .ok policies⟩ ∈ tr → policies = capacityImagePolicies projects jobs) →
    ∀ image ∈ images, (∃ reference ∈ projects.flatMap projectImages, reference ≠ "" ∧ Denotes reference image) →
      imageCommand image.id ∉ out.1 ∧ ∀ x ∈ tr, x.1 ≠ .removeImage image.id

theorem keeps_of_protected {h : HostConfig} {projects : List Access.ProjectRow} {jobs : List JobRow}
    (hdigests : ∀ reference ∈ projects.flatMap projectImages, reference ≠ "" →
      repoDigest reference ∈ projects.flatMap projectImages) : KeepsProjects h projects jobs := by
  rintro target images hids tr out hrun himages hpolicies image himage ⟨reference, hreference, hne, hdenotes⟩
  rcases runs_pruneUnusedImages hrun with ⟨hcalls, e, rfl⟩ | ⟨rfl, rfl⟩ | ⟨listed, policies, now, tr', rfl, hloop⟩
  · refine ⟨fun hc => (by cases hc), fun x hx hremove => ?_⟩
    rcases hcalls x hx with hcall | hcall <;> rw [hremove] at hcall <;> cases hcall
  · refine ⟨fun hc => (by cases hc), fun x hx hremove => ?_⟩
    cases List.mem_singleton.mp hx
    cases hremove
  obtain rfl := himages listed List.mem_cons_self
  obtain rfl := hpolicies policies (List.mem_cons_of_mem _ List.mem_cons_self)
  obtain ⟨p, hp, hprotected⟩ := policyTable_protects.mpr ⟨repoDigest_ne reference, hdigests reference hreference hne⟩
  have hskipped := annotate_protected hdenotes (policyOf_capacityImagePolicies.trans hp) hprotected (now - 5 * minute)
  -- an attempted image with this id would be this image
  have hother : ¬ ∃ i ∈ ordered h listed (capacityImagePolicies projects jobs),
      i.skipped (now - 5 * minute) = false ∧ i.id = image.id := by
    rintro ⟨i, hi, hskip, hid⟩
    obtain ⟨image', himage', rfl⟩ := List.mem_map.mp ((h.images.perm _).subset hi)
    rw [annotate_id] at hid
    rw [List.inj_on_of_nodup_map hids himage' himage hid, hskipped] at hskip
    cases hskip
  obtain ⟨hcommands, hremovals⟩ := hloop.removes
  refine ⟨fun hc => ?_, fun x hx hremove => ?_⟩
  · rcases hcommands _ hc with hc | ⟨i, hi, hskip, hcommand⟩
    · cases hc
    · exact hother ⟨i, hi, hskip, (imageCommand_injective hcommand).symm⟩
  simp only [List.mem_cons] at hx
  rcases hx with rfl | rfl | rfl | hx
  · cases hremove
  · cases hremove
  · cases hremove
  · exact hother (hremovals x hx _ hremove)

/-- One image is found, at the time `now`. -/
def findsImage (now : Time) (image : RuntimeImage) (policies : List ImagePolicy) : (c : HostCall) → c.Ret
  | .now => now
  | c => steady ⟨0, 0, 0, 0⟩ [image] policies c

theorem run_findsImage {h : HostConfig} (hruntime : h.runtime = true) {now : Time} {image : RuntimeImage}
    {policies : List ImagePolicy} (hunused : image.unused policies (now - 5 * minute) = true) :
    ((pruneUnusedImages h 0).run (findsImage now image policies)).2.1 = [imageCommand image.id] := by
  have hskip : (annotate policies image).skipped (now - 5 * minute) = false := by
    have hannotated : (!(annotate policies image).skipped (now - 5 * minute)) = true := (annotate_skipped image).trans hunused
    simpa using hannotated
  have hordered : ordered h [image] policies = [annotate policies image] := List.perm_singleton.mp (h.images.perm _)
  rw [pruneUnusedImages, hruntime]
  change ((pruneLoop h 0 (now - 5 * minute) (ordered h [image] policies) []).run _).2.1 = _
  rw [hordered, pruneLoop, hskip, annotate_id]
  unfold removeImage
  cases h.dryRun <;> rfl

/-- **When the images of projects are kept**: exactly if the repo digest of every active and previous image is itself among these
images, as it is for a reference without a tag (`repoDigest_eq`). -/
theorem prune_keeps_projects (h : HostConfig) (hruntime : h.runtime = true) (projects : List Access.ProjectRow)
    (jobs : List JobRow) : KeepsProjects h projects jobs ↔ ∀ reference ∈ projects.flatMap projectImages, reference ≠ "" →
      repoDigest reference ∈ projects.flatMap projectImages := by
  refine ⟨fun hkeeps reference hreference hne => ?_, keeps_of_protected⟩
  by_contra hmissing
  -- an image with this repo digest, old enough
  let policy := (policyTable projects jobs).lookup (repoDigest reference)
  let grace := max 0 (policy.elim 0 ImagePolicy.lastUsedAt)
  let image : RuntimeImage := ⟨"sha256:1", [], [repoDigest reference], 0⟩
  have hunused : image.unused (capacityImagePolicies projects jobs) (grace + 5 * minute - 5 * minute) = true := by
    have hheld : held (capacityImagePolicies projects jobs) grace (repoDigest reference) = false := by
      rw [held, policyOf_capacityImagePolicies]
      cases hp : (policyTable projects jobs).lookup (repoDigest reference) with
      | none => rfl
      | some p =>
        have hprotected : p.isProtected = false := by
          by_contra hprotected
          exact hmissing (policyTable_protects.mp ⟨p, hp, by simpa using hprotected⟩).2
        have hgrace : ¬ p.lastUsedAt > grace := by simp [grace, policy, hp]
        simp [hprotected, hgrace]
    simp [RuntimeImage.unused, image, hheld, grace]
  have hrun := Prog.runs_run (findsImage (grace + 5 * minute) image (capacityImagePolicies projects jobs))
    (pruneUnusedImages h 0)
  have hkept := hkeeps 0 [image] (List.nodup_singleton _) _ _ hrun (fun listed hlisted => Except.ok.inj (Prog.mem_run hlisted))
    (fun policies hloaded => Except.ok.inj (Prog.mem_run hloaded)) image List.mem_cons_self
    ⟨reference, hreference, hne, List.mem_singleton_self _⟩
  rw [run_findsImage hruntime hunused] at hkept
  exact hkept.1 (List.mem_singleton_self _)

def projectOf (name : String) : Access.ProjectRow := ⟨"web", "web", Access.Images.pinned name 'a', "", true⟩

def appImage : RuntimeImage := ⟨"sha256:1", ["registry/app:v1"], [Access.Images.pinned "registry/app" 'a'], 0⟩

def pruneRun (name : String) : HostTrace × List String × Option Err :=
  (pruneUnusedImages sampleHost (25 * gib)).run (steady fewBytes [appImage] (capacityImagePolicies [projectOf name] []))

theorem prune_keeps_projects_untagged : KeepsProjects sampleHost [projectOf "registry/app"] [] := by
  refine (prune_keeps_projects sampleHost rfl [projectOf "registry/app"] []).mpr fun reference hreference hne => ?_
  have hactive : reference = (projectOf "registry/app").activeImage := by simpa [projectImages, projectOf, hne] using hreference
  rwa [repoDigest_eq (hactive ▸ by decide +kernel) (hactive ▸ by decide +kernel)]

/-- **An image of a project is removed if its reference has a tag**: the reference is one that `ActivateProjectImage` accepts and
it denotes the image, but its text is none of the names of the image. -/
theorem prune_removes_tagged : digestPattern (projectOf "registry/app:v1").activeImage = true ∧
    Denotes (projectOf "registry/app:v1").activeImage appImage ∧
    (pruneUnusedImages sampleHost (25 * gib)).Runs (pruneRun "registry/app:v1").1 (pruneRun "registry/app:v1").2 ∧
    imageCommand appImage.id ∈ (pruneRun "registry/app:v1").2.1 ∧
    ∃ x ∈ (pruneRun "registry/app:v1").1, x.1 = .removeImage appImage.id := by
  refine ⟨by decide +kernel, ?_, Prog.runs_run _ _, by decide +kernel, ?_⟩
  · unfold Denotes
    decide +kernel
  have hcalls : HostCall.removeImage appImage.id ∈ (pruneRun "registry/app:v1").1.map Sigma.fst := by decide +kernel
  obtain ⟨x, hx, hcall⟩ := List.mem_map.mp hcalls
  exact ⟨x, hx, hcall⟩

end Host

end Autback
