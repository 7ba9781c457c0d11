import Autback.Job.Service

/-!
# The mounts of a job

`validateCaches` keeps the targets of caches away from four paths of the server, a list of its own beside the one of
`serviceSpec`. The jobs root and the shared memory are not on it. All targets are different, and none of a cache overlaps one of
the server, exactly if the caches stay away from these two (`mounts_apart`); a cache on the shared memory is accepted, and its
target is mounted twice (`mounts_twice`).
-/

namespace Autback

section Accepted

variable {message : JobMessage} {input : PrepareJob} {caches : List CacheMount} {secrets : List SecretBinding}
  {cfg : SchedulerConfig}
  {job : Job} {m : Mount}

theorem secretMounts_targets (cfg : SchedulerConfig) (job : Job) :
    (secretMounts cfg job).map SecretMount.target = ((job.secrets.getD []).map SecretBinding.file).filter (· ≠ "") := by
  have hmap : ∀ (l : List SecretBinding) (k : Nat) (f : SecretBinding × Nat → String),
      ((l.zipIdx k).filterMap fun e => if e.1.file ≠ "" then some (⟨f e, e.1.file⟩ : SecretMount) else none).map
        SecretMount.target = (l.map SecretBinding.file).filter (· ≠ "") := by
    intro l
    induction l with
    | nil => exact fun _ _ => rfl
    | cons b l ih =>
      intro k f
      have hrest := ih (k + 1) f
      by_cases hfile : b.file = "" <;> simpa [List.zipIdx_cons, hfile] using hrest
  exact hmap _ 0 _

theorem secretFile_below (h : AcceptedJob message input caches secrets) (hjob : job.Requested input) {m : SecretMount}
    (hm : m ∈ secretMounts cfg job) : (pathOf "/run/secrets").Within (pathOf m.target) := by
  have htarget : m.target ∈ (secretMounts cfg job).map SecretMount.target := List.mem_map_of_mem hm
  rw [secretMounts_targets, hjob.secrets, h.secrets, List.mem_filter, List.mem_map] at htarget
  obtain ⟨⟨b, hb, hfile⟩, hne⟩ := htarget
  have hvalue := h.validSecrets.valid b hb
  cases hvalue with
  | environment _ _ _ _ _ _ => simp [← hfile] at hne
  | file _ _ _ _ hbelow _ => exact hfile ▸ hbelow

theorem secretFiles_nodup (h : AcceptedJob message input caches secrets) (hjob : job.Requested input) :
    ((secretMounts cfg job).map fun m => pathOf m.target).Nodup := by
  have hmap : (secretMounts cfg job).map (fun m => pathOf m.target) =
      ((secretMounts cfg job).map SecretMount.target).map pathOf := by rw [List.map_map]; rfl
  rw [hmap, secretMounts_targets, hjob.secrets, h.secrets]
  refine List.pairwise_map.mpr (List.pairwise_filter.mpr (List.pairwise_map.mpr (h.validSecrets.files.imp ?_)))
  intro b b' hfil hne hne' heq
  exact hfil (by simpa using hne) (by simpa using hne') (heq ▸ Text.Path.Overlap.refl _)

theorem mem_cacheMounts (h : AcceptedJob message input caches secrets) (hjob : job.Requested input)
    (hm : m ∈ (specForJob cfg job).cacheMounts) : ∃ c ∈ caches, c.target = m.target := by
  obtain ⟨c, hc, rfl⟩ := List.mem_map.mp hm
  rw [List.mem_insertionSort, specForJob, hjob.caches, h.caches] at hc
  exact ⟨c, hc, rfl⟩

theorem exists_cacheMount (h : AcceptedJob message input caches secrets) (hjob : job.Requested input) {c : CacheMount}
    (hc : c ∈ caches) : ∃ m ∈ (specForJob cfg job).cacheMounts, m.target = c.target := by
  refine ⟨_, List.mem_map_of_mem ((List.mem_insertionSort _).mpr ?_), rfl⟩
  rwa [specForJob, hjob.caches, h.caches]

theorem cacheTargets_nodup (h : AcceptedJob message input caches secrets) (hjob : job.Requested input) :
    ((specForJob cfg job).cacheMounts.map fun m => pathOf m.target).Nodup := by
  have hcache : (specForJob cfg job).caches = caches := by rw [specForJob, hjob.caches, h.caches, Option.getD_some]
  rw [Spec.cacheMounts, List.map_map, hcache, ((List.perm_insertionSort _ _).map _).nodup_iff]
  -- targets are clean, so that different ones are different paths
  refine List.pairwise_map.mpr ((List.pairwise_map.mp h.validCaches.targets).imp_of_mem ?_)
  intro c c' hc hc' hne heq
  exact hne (pathOf_inj (h.validCaches.valid c hc).clean (h.validCaches.valid c' hc').clean heq)

theorem mem_serverMounts (hm : m ∈ (specForJob cfg job).serverMounts.tail) :
    m.target = "/dev/shm" ∨ m.target ∈ reservedPaths ∨ ∃ secret ∈ secretMounts cfg job, m.target = secret.target := by
  have hdir : runtimeDirectory ∈ reservedPaths := by decide
  have hentryReserved : entrypoint ∈ reservedPaths := by decide
  have hm' : m ∈ (specForJob cfg job).fixedMounts.tail ++ (specForJob cfg job).secretsMounts ++
      (specForJob cfg job).entrypointMounts :=
    hm
  rcases List.mem_append.mp hm' with hm' | hentry
  · rcases List.mem_append.mp hm' with hfix | hsecret
    · simp only [Spec.fixedMounts, List.tail_cons, List.mem_cons, List.not_mem_nil, or_false] at hfix
      rcases hfix with rfl | rfl
      · exact .inr (.inl (by decide))
      · exact .inl rfl
    rcases List.mem_append.mp hsecret with hdirectory | hfile
    · split at hdirectory
      · rw [List.mem_singleton.mp hdirectory]
        exact .inr (.inl hdir)
      · cases hdirectory
    obtain ⟨secret, hmem, rfl⟩ := List.mem_map.mp hfile
    exact .inr (.inr ⟨secret, hmem, rfl⟩)
  rw [Spec.entrypointMounts] at hentry
  split at hentry
  · rw [List.mem_singleton.mp hentry]
    exact .inr (.inl hentryReserved)
  · cases hentry

theorem cache_apart (h : AcceptedJob message input caches secrets) (hjob : job.Requested input) {c : CacheMount} (hc : c ∈ caches)
    (hroot : ¬ (pathOf c.target).Overlap (pathOf cfg.jobsRoot)) (hshm : ¬ (pathOf c.target).Overlap (pathOf "/dev/shm"))
    (hm : m ∈ (specForJob cfg job).serverMounts) : ¬ (pathOf c.target).Overlap (pathOf m.target) := by
  have hfree := (h.validCaches.valid c hc).free
  rcases List.mem_cons.mp hm with rfl | hm
  · exact hroot
  rcases mem_serverMounts hm with htarget | hres | ⟨secret, hsecret, htarget⟩
  · rwa [htarget]
  · exact hfree _ hres
  rw [htarget]
  intro hover
  exact hfree "/run/secrets" (by decide) (hover.of_within (secretFile_below h hjob hsecret))

/-- The targets of the server outside of `/run/secrets`, apart from the jobs root. -/
def outerTargets : List String := ["/var/run/docker.sock", "/dev/shm", runtimeDirectory, entrypoint]

theorem serverTargets_nodup (h : AcceptedJob message input caches secrets) (hjob : job.Requested input) :
    ((specForJob cfg job).serverMounts.tail.map fun m => pathOf m.target).Nodup := by
  have hout : (outerTargets.map pathOf).Nodup := by decide +kernel
  have houts : ∀ p ∈ outerTargets.map pathOf, ¬ (pathOf "/run/secrets").Within p := by decide +kernel
  -- the directory of the secrets and the entrypoint need not be there
  have hsplit : ∃ outer, outer.Sublist outerTargets ∧ ((specForJob cfg job).serverMounts.tail.map Mount.target).Perm
      (((secretMounts cfg job).map SecretMount.target) ++ outer) := by
    have hsecr : (specForJob cfg job).secretsMounts.map Mount.target =
        (if (specForJob cfg job).hasSecrets then [runtimeDirectory] else []) ++
          (secretMounts cfg job).map SecretMount.target := by
      rw [Spec.secretsMounts, List.map_append, List.map_map]
      split <;> rfl
    have hentry : (specForJob cfg job).entrypointMounts.map Mount.target =
        if (specForJob cfg job).entrypointHostPath ≠ "" then [entrypoint] else [] := by
      rw [Spec.entrypointMounts]
      split <;> rfl
    have htail : (specForJob cfg job).serverMounts.tail.map Mount.target =
        ["/var/run/docker.sock", "/dev/shm"] ++ (specForJob cfg job).secretsMounts.map Mount.target ++
          (specForJob cfg job).entrypointMounts.map Mount.target := by
      rw [Spec.serverMounts, Spec.fixedMounts]
      simp
    refine ⟨["/var/run/docker.sock", "/dev/shm"] ++ (if (specForJob cfg job).hasSecrets then [runtimeDirectory] else []) ++
      if (specForJob cfg job).entrypointHostPath ≠ "" then [entrypoint] else [], ?_, ?_⟩
    · split <;> split <;> decide
    rw [htail, hsecr, hentry, ← List.append_assoc, List.append_assoc _ _ (ite _ _ _)]
    exact List.perm_append_comm_assoc _ _ _
  obtain ⟨outer, hsub, hperm⟩ := hsplit
  have hmap : ((specForJob cfg job).serverMounts.tail.map fun m => pathOf m.target) =
      ((specForJob cfg job).serverMounts.tail.map Mount.target).map pathOf := by rw [List.map_map]; rfl
  rw [hmap, (hperm.map pathOf).nodup_iff, List.map_append]
  have hfil : ((secretMounts cfg job).map fun m => pathOf m.target).Nodup := secretFiles_nodup h hjob
  refine List.Nodup.append (by rwa [List.map_map]) (hout.sublist (hsub.map pathOf)) fun p hp hp' => ?_
  obtain ⟨target, htarget, rfl⟩ := List.mem_map.mp hp
  obtain ⟨secret, hsecret, rfl⟩ := List.mem_map.mp htarget
  exact houts _ ((hsub.map pathOf).subset hp') (secretFile_below h hjob hsecret)

/-- **When accepted jobs have mounts of their own.** The mounts of an accepted job have different targets, and no cache is,
contains or lies below the target of a mount of the server, exactly if the jobs root is none of the other targets of the server
and the caches stay away from the jobs root and from `/dev/shm`. -/
theorem mounts_apart {allowUnpinnedImages : Bool} {projectID : String}
    (h : validateJob allowUnpinnedImages projectID message = .ok input) (hjob : job.Requested input) :
    ((serviceSpec (specForJob cfg job)).mounts.map fun m => pathOf m.target).Nodup ∧
        (∀ c ∈ (specForJob cfg job).cacheMounts, ∀ m ∈ (specForJob cfg job).serverMounts,
          ¬ (pathOf c.target).Overlap (pathOf m.target)) ↔
      (∀ m ∈ (specForJob cfg job).serverMounts.tail, pathOf cfg.jobsRoot ≠ pathOf m.target) ∧
        ∀ c ∈ input.caches.getD [],
          ¬ (pathOf c.target).Overlap (pathOf cfg.jobsRoot) ∧ ¬ (pathOf c.target).Overlap (pathOf "/dev/shm") := by
  obtain ⟨caches, secrets, haccepted⟩ := validateJob_accepted h
  have hperm : (serviceSpec (specForJob cfg job)).mounts.Perm
      ((specForJob cfg job).serverMounts ++ (specForJob cfg job).cacheMounts) := by
    rw [serviceSpec, Spec.serverMounts, List.append_assoc _ (Spec.cacheMounts _),
      List.append_assoc _ (Spec.entrypointMounts _)]
    exact List.perm_append_comm.append_left _
  rw [(hperm.map _).nodup_iff, List.map_append, haccepted.caches]
  constructor
  · rintro ⟨hnodup, hapart⟩
    refine ⟨fun m hm heq => ?_, fun c hc => ?_⟩
    · exact (List.nodup_cons.mp (List.nodup_append.mp hnodup).1).1 (List.mem_map.mpr ⟨m, hm, heq.symm⟩)
    obtain ⟨m, hm, htarget⟩ := exists_cacheMount haccepted hjob hc
    have hroot : ∃ root ∈ (specForJob cfg job).serverMounts, root.target = cfg.jobsRoot := ⟨_, .head _, rfl⟩
    have hshm : ∃ shm ∈ (specForJob cfg job).serverMounts, shm.target = "/dev/shm" := ⟨_, .tail _ (.tail _ (.head _)), rfl⟩
    obtain ⟨root, hroot, hroot'⟩ := hroot
    obtain ⟨shm, hshm, hshm'⟩ := hshm
    rw [← htarget, ← hroot', ← hshm']
    exact ⟨hapart m hm root hroot, hapart m hm shm hshm⟩
  rintro ⟨hroot, hcaches⟩
  have hapart : ∀ c ∈ (specForJob cfg job).cacheMounts, ∀ m ∈ (specForJob cfg job).serverMounts,
      ¬ (pathOf c.target).Overlap (pathOf m.target) := by
    intro c hc m hm
    obtain ⟨c', hc', htarget⟩ := mem_cacheMounts haccepted hjob hc
    rw [← htarget]
    exact cache_apart haccepted hjob hc' (hcaches c' hc').1 (hcaches c' hc').2 hm
  refine ⟨List.Nodup.append (List.nodup_cons.mpr ⟨?_, serverTargets_nodup haccepted hjob⟩)
    (cacheTargets_nodup haccepted hjob) ?_, hapart⟩
  · intro hmem
    obtain ⟨m, hm, heq⟩ := List.mem_map.mp hmem
    exact hroot m hm heq.symm
  intro p hserver hcache
  obtain ⟨m, hm, rfl⟩ := List.mem_map.mp hserver
  obtain ⟨c, hc, heq⟩ := List.mem_map.mp hcache
  exact hapart c hc m hm (heq ▸ Text.Path.Overlap.refl _)

end Accepted

/-! Two requests with one cache and two secrets. -/

def cacheRequest (target : String) : JobMessage where
  image := "runner@sha256:" ++ String.ofList (List.replicate 64 '0')
  command := ["make"]
  workingDirectory := ""
  environment := ∅
  timeout := none
  idempotencyKey := "request-1"
  caches := [some ⟨"cache", target⟩]
  secrets := [some ⟨"token", some (.environment "TOKEN")⟩, some ⟨"key", some (.file "/run/secrets/key")⟩]

def cacheInput (target : String) : PrepareJob where
  projectID := "project"
  image := "runner@sha256:" ++ String.ofList (List.replicate 64 '0')
  command := some ["make"]
  workingDirectory := "."
  environment := some []
  timeout := 30 * minute
  caches := some [⟨"cache", target⟩]
  secrets := some [⟨"token", "TOKEN", ""⟩, ⟨"key", "", "/run/secrets/key"⟩]

def cacheJob (target : String) : Job where
  id := "job1"
  projectID := "project"
  image := "runner@sha256:" ++ String.ofList (List.replicate 64 '0')
  command := some ["make"]
  workingDirectory := "."
  environment := some []
  rootDigest := ""
  status := .queued
  timeout := 30 * minute
  createdAt := 1
  startedAt := none
  finishedAt := none
  exitCode := none
  errorMessage := ""
  cancelRequested := false
  workerID := ""
  caches := some [⟨"cache", target⟩]
  secrets := some [⟨"token", "TOKEN", ""⟩, ⟨"key", "", "/run/secrets/key"⟩]

def sampleScheduler : SchedulerConfig where
  casAddress := "localhost:9092"
  casInstance := ""
  jobsRoot := "/var/lib/autback/jobs"
  entrypointHostPath := "/usr/lib/autback/entrypoint"
  cacheRoot := "/var/lib/autback/caches"
  hostUID := "1000"
  hostGID := "1000"
  resources := ⟨1, 1, 1, 1, 1⟩

theorem mounts_apart_cache :
    validateJob false "project" (cacheRequest "/cache/../root/.cache") = .ok (cacheInput "/root/.cache") ∧
      ((serviceSpec (specForJob sampleScheduler (cacheJob "/root/.cache"))).mounts.map fun m => pathOf m.target).Nodup := by
  have haccepted : validateJob false "project" (cacheRequest "/cache/../root/.cache") = .ok (cacheInput "/root/.cache") := by
    decide +kernel
  have happly := @mounts_apart _ _ sampleScheduler (cacheJob "/root/.cache") _ _ haccepted ⟨.refl _, rfl, rfl⟩
  exact ⟨haccepted, (happly.mpr ⟨by decide +kernel, by decide +kernel⟩).1⟩

/-- A cache on the shared memory is accepted. -/
theorem mounts_twice :
    validateJob false "project" (cacheRequest "/dev/shm") = .ok (cacheInput "/dev/shm") ∧
      (cacheJob "/dev/shm").Requested (cacheInput "/dev/shm") ∧
      (serviceSpec (specForJob sampleScheduler (cacheJob "/dev/shm"))).mounts.map Mount.target =
        ["/var/lib/autback/jobs", "/var/run/docker.sock", "/dev/shm", "/run/autback/secrets", "/run/secrets/key", "/dev/shm",
          "/usr/local/bin/autback-job-entrypoint"] :=
  ⟨by decide +kernel, ⟨.refl _, rfl, rfl⟩, by decide +kernel⟩

end Autback
