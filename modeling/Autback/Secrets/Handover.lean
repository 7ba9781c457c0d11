import Autback.Secrets.Manager

/-!
# The secrets that a job is given

What `Manager.Prepare` publishes is what `LoadRuntime` returns and what the service specification mounts (`handover`). Writer,
reader and mounts derive the names of the value files on their own; they agree, except that the reader rejects a name with two
dots in a row, which `validateSecrets` accepts (`handover_rejected`). A preparation that succeeds has changed the files in one way
only, up to what is left of its temporary directory (`publishedTree`).
-/

namespace Autback

namespace Manager

open Conc
open Files (Tree Node)
open Text (Path IsName)
open Gateway (bytes)

variable {env : Surroundings} {resolver : String → List UInt8} {job : Job} {t t' : Tree} {d temporary : Path}

def manifestBindings (index : Nat) (bindings : List SecretBinding) : List ManifestBinding :=
  (bindings.zipIdx index).map fun e => manifestBinding e.2 e.1

def valueEntries (resolver : String → List UInt8) (dir : Path) (index : Nat) (bindings : List SecretBinding) :
    List (Path × Node) :=
  (bindings.zipIdx index).map fun e => (dir.extend (valueFile e.2 e.1.name).toList, .file (resolver e.1.name))

theorem manifestBindings_cons (index : Nat) (binding : SecretBinding) (bindings : List SecretBinding) :
    manifestBindings index (binding :: bindings) = manifestBinding index binding :: manifestBindings (index + 1) bindings := rfl

theorem valueEntries_cons (dir : Path) (index : Nat) (binding : SecretBinding) (bindings : List SecretBinding) :
    valueEntries resolver dir index (binding :: bindings) =
      (dir.extend (valueFile index binding.name).toList, .file (resolver binding.name)) ::
        valueEntries resolver dir (index + 1) bindings := rfl

/-- The files after a preparation in a temporary directory, from those at the making of that directory. -/
def publishedTree (codec : ManifestCodec) (resolver : String → List UInt8) (bindings : List SecretBinding) (d temporary : Path)
    (t : Tree) : Tree :=
  (((t.putAll (valueEntries resolver temporary 0 bindings)).put (temporary.extend manifestName.toList)
    (.file (codec.marshal (manifestBindings 0 bindings)))).clear (published d)).move temporary (published d)

/-! ## What a preparation publishes -/

section Calls

variable {p : Path}

theorem ensures_job {id : String} {Q : Tree → Job → Prop} (h : ∀ job, env.job id (.ok job) → Q t job) :
    Ensures (SecretCall.step env) t (Sec.job id) Q := by
  refine ⟨trivial, ?_⟩
  rintro r t' ⟨hanswer, rfl⟩
  exact ⟨trivial, fun job hr => h job (hr ▸ hanswer)⟩

theorem ensures_resolve {projectID name : String} {Q : Tree → List UInt8 → Prop}
    (h : ∀ value, env.resolve projectID name (.ok value) → Q t value) :
    Ensures (SecretCall.step env) t (Sec.resolve projectID name) Q := by
  refine ⟨trivial, ?_⟩
  rintro r t' ⟨hanswer, rfl⟩
  exact ⟨trivial, fun value hr => h value (hr ▸ hanswer)⟩

variable {Q : Tree → Unit → Prop}

theorem ensures_recordAccess {cfg : SecretsConfig} {name : String} (h : Q t ()) :
    Ensures (SecretCall.step env) t (recordAccess cfg job name) Q := by
  refine ensures_ite (fun _ => ensures_mapError ⟨trivial, ?_⟩) fun _ => ensures_pure h
  rintro r t' rfl
  exact ⟨trivial, fun _ _ => h⟩

theorem ensures_mkdirAll (h : Q (t.makeDirectories p) ()) : Ensures (SecretCall.step env) t (Sec.mkdirAll p) Q := by
  refine ⟨trivial, fun r t' hstep => ⟨trivial, fun _ hr => ?_⟩⟩
  subst hr
  exact hstep.2 ▸ h

theorem ensures_mkdirTemp {dir : Path} {first : String} {Q : Tree → Path → Prop}
    (h : ∀ n (hn : IsName n), first.toList <+: n → Q (t.put (dir.child n hn) .directory) (dir.child n hn)) :
    Ensures (SecretCall.step env) t (Sec.mkdirTemp dir first) Q := by
  refine ⟨trivial, fun r t' hstep => ⟨trivial, fun temporary hr => ?_⟩⟩
  subst hr
  obtain ⟨n, hn, hfirst, rfl, -, -, rfl⟩ := hstep
  exact h n hn hfirst

theorem ensures_chmod (h : Q t ()) : Ensures (SecretCall.step env) t (Sec.chmod p) Q := by
  refine ⟨trivial, ?_⟩
  rintro r t' rfl
  exact ⟨trivial, fun _ _ => h⟩

theorem ensures_writeFile {data : List UInt8} (h : Q (t.put p (.file data)) ()) :
    Ensures (SecretCall.step env) t (Sec.writeFile p data) Q := by
  refine ⟨trivial, fun r t' hstep => ⟨trivial, fun _ hr => ?_⟩⟩
  subst hr
  exact hstep.2.2 ▸ h

theorem ensures_removeAll (h : Q (t.clear p) ()) : Ensures (SecretCall.step env) t (Sec.removeAll p) Q := by
  refine ⟨trivial, fun r t' hstep => ⟨trivial, fun _ hr => ?_⟩⟩
  subst hr
  exact (show t' = t.clear p from hstep) ▸ h

theorem ensures_rename {src dst : Path} (h : Q (t.move src dst) ()) :
    Ensures (SecretCall.step env) t (Sec.rename src dst) Q := by
  refine ⟨trivial, fun r t' hstep => ⟨trivial, fun _ hr => ?_⟩⟩
  subst hr
  exact hstep.2.2.2 ▸ h

end Calls

theorem materialize_ok (cfg : SecretsConfig)
    (hres : ∀ name value, env.resolve job.projectID name (.ok value) → value = resolver name)
    (bindings : List SecretBinding) (index : Nat) (data : List ManifestBinding) :
    Ensures (SecretCall.step env) t (materialize cfg job temporary index bindings data) fun t' data' =>
      data' = data ++ manifestBindings index bindings ∧ t' = t.putAll (valueEntries resolver temporary index bindings) := by
  induction bindings generalizing index data t with
  | nil => exact ensures_pure ⟨(List.append_nil data).symm, rfl⟩
  | cons binding bindings ih =>
    rw [materialize]
    refine ensures_bind (ensures_mapError (ensures_resolve fun value hvalue => ?_))
    rw [hres _ _ hvalue]
    refine ensures_ite (fun _ => ensures_throw _) fun _ => ?_
    refine ensures_bind (ensures_mapError (ensures_writeFile ?_))
    refine ensures_bind (ensures_recordAccess ?_)
    refine Prog.Always.mono ?_ (ih (index + 1) (data ++ [manifestBinding index binding]))
    intro t' r _ h data' hr
    obtain ⟨hdata, htree⟩ := h data' hr
    rw [manifestBindings_cons, valueEntries_cons, Tree.putAll_cons, ← htree, hdata, List.append_assoc]
    exact ⟨rfl, rfl⟩

theorem publish_ok (cfg : SecretsConfig) (codec : ManifestCodec)
    (hres : ∀ name value, env.resolve job.projectID name (.ok value) → value = resolver name) :
    Ensures (SecretCall.step env) t (publish cfg codec job d temporary) fun t' _ =>
      t' = publishedTree codec resolver (job.secrets.getD []) d temporary t := by
  rw [publish, extend_secrets]
  refine ensures_bind (ensures_chmod (ensures_bind ?_))
  refine Prog.Always.mono ?_ (materialize_ok cfg hres (job.secrets.getD []) 0 [])
  intro t1 r _ h data hr
  obtain ⟨rfl, rfl⟩ := h data hr
  refine ensures_bind (ensures_mapError (ensures_writeFile ?_))
  refine ensures_bind (ensures_removeAll (ensures_mapError (ensures_rename ?_)))
  rfl

theorem removeAll_frame : Prog.Always (SecretCall.step env) (fun _ => True) t (Sec.removeAll temporary) fun t' _ =>
    ∀ q, ¬ temporary.Within q → t' q = t q := by
  refine ⟨trivial, fun r t' hstep => ⟨trivial, fun q hq => ?_⟩⟩
  cases r with
  | ok _ => exact (show t' = t.clear temporary from hstep) ▸ Tree.clear_of_not_within hq
  | error _ => exact (hstep q).resolve_right fun h => hq h.1

theorem prepare_ok (cfg : SecretsConfig) (codec : ManifestCodec) {op : Op} (hkind : op.kind = .job)
    (hjob : ∀ found, env.job op.id (.ok found) → found = job)
    (hresolve : ∀ name value, env.resolve job.projectID name (.ok value) → value = resolver name) :
    Ensures (SecretCall.step env) t (prepare cfg codec op) fun t' _ => cfg.jobsRoot ≠ "" ∧
      (job.secrets.getD [] = [] → t' = t) ∧ (job.secrets.getD [] ≠ [] → ∃ n, ∃ hn : IsName n, ∃ t1, ".secrets-".toList <+: n ∧
        ∀ q, ¬ ((jobDirectory cfg job.id).child n hn).Within q → t' q = publishedTree codec resolver (job.secrets.getD [])
          (jobDirectory cfg job.id) ((jobDirectory cfg job.id).child n hn) t1 q) := by
  rw [prepare, if_neg (not_not_intro hkind)]
  refine ensures_ite (fun _ => ensures_throw _) fun hconfig => ?_
  have hroot : cfg.jobsRoot ≠ "" := fun hroot => hconfig (by simp [hroot])
  refine ensures_bind (ensures_job fun found hfound => ?_)
  obtain rfl := hjob found hfound
  refine ensures_ite (fun hnone => ensures_pure ⟨hroot, fun _ => rfl, absurd (List.length_eq_zero_iff.mp hnone)⟩) fun hsome => ?_
  have hne : found.secrets.getD [] ≠ [] := fun hnil => hsome (List.length_eq_zero_iff.mpr hnil)
  refine ensures_bind (ensures_mapError (ensures_mkdirAll ?_))
  refine ensures_bind (ensures_mapError (ensures_mkdirTemp fun n hn hfirst => ?_))
  refine ensures_bind (ensures_attempt ((publish_ok cfg codec hresolve).mono fun t1 result _ hres => ?_))
  refine ensures_bind (ensures_attempt (removeAll_frame.mono fun t2 _ _ hframes => ⟨trivial, fun _ hok => ?_⟩))
  refine ⟨hroot, fun hnil => absurd hnil hne, fun _ => ?_⟩
  exact ⟨n, hn, _, hfirst, fun q hq => (hframes q hq).trans (congrFun (hres () hok) q)⟩

/-! ## The published files -/

variable {codec : ManifestCodec} {bindings : List SecretBinding} {n f : List Char} {hn : IsName n} {name : String}
  {dir : Path}

theorem publishedTree_child (hf : IsName f) (hne : n ≠ "secrets".toList) :
    publishedTree codec resolver bindings d (d.child n hn) t ((published d).child f hf) =
      (t.putAll (valueEntries resolver (d.child n hn) 0 bindings)).put ((d.child n hn).extend manifestName.toList)
        (.file (codec.marshal (manifestBindings 0 bindings))) ((d.child n hn).child f hf) := by
  rw [publishedTree, Tree.move_child, Tree.clear_of_not_within]
  exact Path.not_within_sibling hne ((d.child n hn).within_child hf)

theorem publishedTree_manifest (hne : n ≠ "secrets".toList) :
    publishedTree codec resolver bindings d (d.child n hn) t ((published d).extend manifestName.toList) =
      some (.file (codec.marshal (manifestBindings 0 bindings))) := by
  have hmanifest : IsName manifestName.toList := by decide
  rw [Path.extend_name _ hmanifest, publishedTree_child hmanifest hne, Path.extend_name _ hmanifest, Tree.put_self]

theorem valueEntries_nodup (hnam : ∀ b ∈ bindings, cacheNamePattern b.name = true) (dir : Path) :
    ((valueEntries resolver dir 0 bindings).map Prod.fst).Nodup := by
  have hind : (bindings.zipIdx.map Prod.snd).Nodup := by
    rw [List.zipIdx_map_snd]
    exact List.nodup_range' ..
  rw [valueEntries, List.map_map, List.Nodup, List.pairwise_map]
  refine List.Pairwise.imp_of_mem ?_ (List.pairwise_map.mp hind)
  intro e e' he he' hne heq
  have hname := valueFile_isName e.2 (hnam e.1 (List.fst_mem_of_mem_zipIdx he))
  have hname' := valueFile_isName e'.2 (hnam e'.1 (List.fst_mem_of_mem_zipIdx he'))
  simp only [Function.comp_apply, Path.extend_name _ hname, Path.extend_name _ hname'] at heq
  exact hne (valueFile_injective (String.toList_inj.mp (Path.child_injective heq)))

theorem publishedTree_value (hne : n ≠ "secrets".toList) (hnam : ∀ b ∈ bindings, cacheNamePattern b.name = true)
    {e : SecretBinding × Nat} (he : e ∈ bindings.zipIdx) :
    publishedTree codec resolver bindings d (d.child n hn) t ((published d).extend (valueFile e.2 e.1.name).toList) =
      some (.file (resolver e.1.name)) := by
  have hmanifest : IsName manifestName.toList := by decide
  have hname := valueFile_isName e.2 (hnam e.1 (List.fst_mem_of_mem_zipIdx he))
  have hother : (d.child n hn).child (valueFile e.2 e.1.name).toList hname ≠ (d.child n hn).extend manifestName.toList := by
    rw [Path.extend_name _ hmanifest]
    exact fun heq => valueFile_ne_manifestName _ _ (String.toList_inj.mp (Path.child_injective heq))
  have hmem : ((d.child n hn).child (valueFile e.2 e.1.name).toList hname, Node.file (resolver e.1.name)) ∈
      valueEntries resolver (d.child n hn) 0 bindings := by
    refine List.mem_map.mpr ⟨e, he, ?_⟩
    rw [Path.extend_name _ hname]
  rw [Path.extend_name _ hname, publishedTree_child hname hne, Tree.put_of_ne _ hother]
  exact Tree.putAll_of_mem (valueEntries_nodup hnam _) hmem

/-! ## What the job reads -/

theorem containsText_iff {s part : String} : containsText s part = true ↔ part.toList <:+: s.toList := by
  simp only [containsText, List.any_eq_true, List.mem_range, List.isPrefixOf_iff_prefix]
  constructor
  · rintro ⟨i, -, hi⟩
    exact hi.isInfix.trans (List.drop_suffix i s.toList).isInfix
  rintro ⟨before, after, h⟩
  refine ⟨before.length, ?_, ?_⟩
  · rw [← h]
    simp only [List.length_append]
    omega
  rw [← h, List.append_assoc, List.drop_left]
  exact List.prefix_append _ _

theorem containsText_valueFile {index : Nat} (h : containsText name ".." = false) :
    containsText (valueFile index name) ".." = false := by
  rw [Bool.eq_false_iff] at h ⊢
  rw [ne_eq, containsText_iff] at h ⊢
  rintro ⟨before, after, heq⟩
  have hdots : ∀ c ∈ (fileNumber index).toList ++ ['-'], c ≠ '.' := by
    intro c hc
    rcases List.mem_append.mp hc with hc | hc
    · rintro rfl
      exact absurd (fileNumber_digits hc) (by decide)
    rw [List.mem_singleton.mp hc]
    decide
  have hsplit : before ++ ("..".toList ++ after) = ((fileNumber index).toList ++ ['-']) ++ name.toList := by
    rw [← List.append_assoc, heq, valueFile_toList, List.append_assoc]
    rfl
  rcases List.append_eq_append_iff.mp hsplit with ⟨mid, hnumber, hname⟩ | ⟨mid, -, hname⟩
  · cases mid with
    | nil => exact h ⟨[], after, hname⟩
    | cons c mid =>
      have hc : c = '.' := (List.cons.inj hname).1.symm
      exact hdots c (by rw [hnumber]; simp) hc
  · exact h ⟨mid, after, by rw [List.append_assoc, ← hname]⟩

theorem containsText_of_valueFile {index : Nat} (h : containsText (valueFile index name) ".." = false) :
    containsText name ".." = false := by
  rw [Bool.eq_false_iff] at h ⊢
  rw [ne_eq, containsText_iff] at h ⊢
  intro hdots
  rw [valueFile_toList] at h
  exact h ((hdots.trans (List.suffix_cons _ _).isInfix).trans (List.suffix_append _ _).isInfix)

/-- The loop of `LoadRuntime` over the entries of bindings whose value files are there. -/
theorem loadBindings_ok (index : Nat)
    (hnam : ∀ b ∈ bindings, cacheNamePattern b.name = true ∧ containsText b.name ".." = false)
    (hfil : ∀ e ∈ bindings.zipIdx index, t (dir.extend (valueFile e.2 e.1.name).toList) = some (.file (resolver e.1.name)))
    (result : RuntimeValues) : (manifestBindings index bindings).foldlM (loadBinding t dir) result =
      .ok ⟨result.values ++ bindings.map fun b => resolver b.name,
        result.environment ++ runtimeEnvironment bindings (bindings.map fun b => resolver b.name)⟩ := by
  induction bindings generalizing index result with
  | nil =>
    simp only [List.map_nil, List.append_nil, runtimeEnvironment, List.zip_nil_right, List.filterMap_nil]
    rfl
  | cons binding bindings ih =>
    obtain ⟨hpattern, hdots⟩ := hnam binding List.mem_cons_self
    have hname := valueFile_isName index hpattern
    have hvalue : ¬ (Path.base (valueFile index binding.name).toList ≠ (valueFile index binding.name).toList ∨
        containsText (valueFile index binding.name) ".." = true) := by
      rw [Path.base_of_not_mem hname.1 hname.2.2.2, containsText_valueFile hdots]
      simp
    have hfile : t (dir.extend (valueFile index binding.name).toList) = some (.file (resolver binding.name)) :=
      hfil (binding, index) List.mem_cons_self
    have hbind : loadBinding t dir result (manifestBinding index binding) = .ok
        ⟨result.values ++ [resolver binding.name],
          result.environment ++ runtimeEnvironment [binding] [resolver binding.name]⟩ := by
      rw [loadBinding, manifestBinding, if_neg hvalue, hfile]
      by_cases henv : binding.environment = ""
      · simp [henv, runtimeEnvironment]
      · simp [henv, runtimeEnvironment]
    have hrest := ih (index + 1) (fun b hb => hnam b (List.mem_cons_of_mem _ hb))
      fun e he => hfil e (List.mem_cons_of_mem _ he)
    rw [manifestBindings_cons, List.foldlM_cons, hbind]
    refine (hrest _).trans ?_
    simp only [List.map_cons, List.append_assoc, List.singleton_append, runtimeEnvironment, List.zip_cons_cons,
        List.zip_nil_right,
      ← List.filterMap_append]

theorem secretMounts_map {β : Type} (scheduler : SchedulerConfig) (f : SecretMount → β) (g : SecretBinding → β)
    (h : ∀ e ∈ (job.secrets.getD []).zipIdx,
      f ⟨joinPath [scheduler.jobsRoot, job.id, "secrets", valueFile e.2 e.1.name], e.1.file⟩ = g e.1) :
    (secretMounts scheduler job).map f = ((job.secrets.getD []).filter fun b => b.file ≠ "").map g := by
  rw [secretMounts]
  generalize job.secrets.getD [] = bindings at h ⊢
  generalize 0 = index at h ⊢
  induction bindings generalizing index with
  | nil => rfl
  | cons binding bindings ih =>
    have hrest := ih (index + 1) fun e he => h e (List.mem_cons_of_mem _ he)
    have hfirst := h (binding, index) List.mem_cons_self
    by_cases hfile : binding.file = ""
    · simpa [hfile, List.zipIdx_cons] using hrest
    · simpa [hfile, List.zipIdx_cons, hfirst] using hrest

theorem prepare_files {cfg : SecretsConfig} {tr : SecretTrace} (hsome : job.secrets.getD [] ≠ [])
    (hname : ∀ b ∈ job.secrets.getD [], cacheNamePattern b.name = true)
    (hjob : ∀ found, env.job job.id (.ok found) → found = job)
    (hres : ∀ name value, env.resolve job.projectID name (.ok value) → value = resolver name)
    (hruns : Prog.Runs (prepare cfg codec (jobOp job.id)) tr (.ok ())) (hstep : Steps (SecretCall.step env) t tr t') :
    t' ((published (jobDirectory cfg job.id)).extend manifestName.toList) =
        some (.file (codec.marshal (manifestBindings 0 (job.secrets.getD [])))) ∧
      ∀ e ∈ (job.secrets.getD []).zipIdx,
        t' ((published (jobDirectory cfg job.id)).extend (valueFile e.2 e.1.name).toList) =
          some (.file (resolver e.1.name)) := by
  obtain ⟨n, hn, t1, hfirst, htree⟩ := ((prepare_ok cfg codec rfl hjob hres).of_runs hruns hstep).2.2 hsome
  have hne : n ≠ "secrets".toList := by
    rintro rfl
    exact absurd hfirst (by decide)
  have hchil : ∀ f, IsName f → t' ((published (jobDirectory cfg job.id)).extend f) = publishedTree codec resolver
      (job.secrets.getD []) (jobDirectory cfg job.id) ((jobDirectory cfg job.id).child n hn) t1
      ((published (jobDirectory cfg job.id)).extend f) := by
    intro f hf
    have hwithin : (published (jobDirectory cfg job.id)).Within ((published (jobDirectory cfg job.id)).extend f) := by
      rw [Path.extend_name _ hf]
      exact (published (jobDirectory cfg job.id)).within_child hf
    exact htree _ (Path.not_within_sibling hne.symm hwithin)
  refine ⟨(hchil _ (by decide)).trans (publishedTree_manifest hne), fun e he => ?_⟩
  exact (hchil _ (valueFile_isName e.2 (hname e.1 (List.fst_mem_of_mem_zipIdx he)))).trans
    (publishedTree_value hne hname he)

/-- The loop of `LoadRuntime` runs over the entries of the manifest. -/
theorem loadRuntime_eq {bindings : List ManifestBinding}
    (h : t (dir.extend manifestName.toList) = some (.file (codec.marshal bindings))) :
    loadRuntime codec t dir = bindings.foldlM (loadBinding t dir) ⟨[], []⟩ := by
  rw [loadRuntime, h]
  simp only [codec.unmarshal_marshal]

/-- A load that succeeds has met no source with two dots in a row. -/
theorem loadBindings_dots {bindings : List ManifestBinding} {result result' : RuntimeValues}
    (h : bindings.foldlM (loadBinding t dir) result = .ok result') :
    ∀ b ∈ bindings, containsText b.source ".." = false := by
  induction bindings generalizing result with
  | nil => simp
  | cons binding bindings ih =>
    rw [List.foldlM_cons] at h
    obtain ⟨next, hnext, hrest⟩ := bind_eq_ok.mp h
    refine List.forall_mem_cons.mpr ⟨?_, ih hrest⟩
    rw [loadBinding] at hnext
    split at hnext
    · cases hnext
    rename_i hsource
    exact Bool.eq_false_iff.mpr fun hdots => hsource (.inr hdots)

/-- After a preparation that succeeds, `LoadRuntime` returns the resolved values in the order of the bindings, and the assignments
of those that are bound to variables, and the sources of the mounts hold the values of those that are bound to files, exactly if
no name has two dots in a row. -/
theorem handover (cfg : SecretsConfig) (codec : ManifestCodec) (scheduler : SchedulerConfig) {tr : SecretTrace}
    {input : List (Option JobSecret)} {environment : Table String String} (hroots : scheduler.jobsRoot = cfg.jobsRoot)
    (haccepted : validateSecrets input environment = .ok (job.secrets.getD []))
    (hjob : ∀ found, env.job job.id (.ok found) → found = job)
    (hresolve : ∀ name value, env.resolve job.projectID name (.ok value) → value = resolver name)
    (hruns : Prog.Runs (prepare cfg codec (jobOp job.id)) tr (.ok ())) (hsteps : Steps (SecretCall.step env) t tr t')
    (hfresh : job.secrets.getD [] = [] → t (pathOf (joinPath [cfg.jobsRoot, job.id, "secrets", manifestName])) = none) :
    loadRuntime codec t' (pathOf (joinPath [cfg.jobsRoot, job.id, "secrets"])) =
          .ok ⟨(job.secrets.getD []).map fun b => resolver b.name,
            runtimeEnvironment (job.secrets.getD []) ((job.secrets.getD []).map fun b => resolver b.name)⟩ ∧
        (specForJob scheduler job).secrets.map (fun m => (m.target, t' (pathOf m.source))) =
          ((job.secrets.getD []).filter fun b => b.file ≠ "").map (fun b => (b.file, some (.file (resolver b.name)))) ↔
      ∀ b ∈ job.secrets.getD [], containsText b.name ".." = false := by
  have hnames : ∀ b ∈ job.secrets.getD [], cacheNamePattern b.name = true := fun b hb =>
    ((validateSecrets_secrets haccepted).valid b hb).name
  obtain ⟨hroot, hidle, -⟩ := (prepare_ok cfg codec rfl hjob hresolve).of_runs hruns hsteps
  rw [pathOf_secrets hroot job.id [manifestName], List.foldl_cons, List.foldl_nil] at hfresh
  rw [pathOf_secrets hroot job.id [], List.foldl_nil]
  change _ ∧ (secretMounts scheduler job).map _ = _ ↔ _
  by_cases hsome : job.secrets.getD [] = []
  · -- nothing is published, and nothing is mounted
    obtain rfl := hidle hsome
    rw [loadRuntime, hfresh hsome, secretMounts, hsome]
    exact ⟨fun _ _ hb => (by cases hb), fun _ => ⟨rfl, rfl⟩⟩
  obtain ⟨hmanifest, hvalues⟩ := prepare_files hsome hnames hjob hresolve hruns hsteps
  rw [loadRuntime_eq hmanifest]
  refine ⟨fun h b hb => ?_, fun hdots => ⟨?_, secretMounts_map scheduler _ _ fun e he => ?_⟩⟩
  · obtain ⟨index, hindex⟩ := List.mem_iff_getElem?.mp hb
    have hmem : manifestBinding index b ∈ manifestBindings 0 (job.secrets.getD []) :=
      List.mem_map.mpr ⟨(b, index), List.mk_mem_zipIdx_iff_getElem?.mpr hindex, rfl⟩
    have hdots := loadBindings_dots h.1 _ hmem
    rw [manifestBinding] at hdots
    exact containsText_of_valueFile hdots
  · exact loadBindings_ok 0 (fun b hb => ⟨hnames b hb, hdots b hb⟩) hvalues ⟨[], []⟩
  · rw [hroots, pathOf_secrets hroot job.id [valueFile e.2 e.1.name], List.foldl_cons, List.foldl_nil, hvalues e he]

theorem writeFile_child (hf : IsName f) (data : List UInt8) (hdir : t dir = some .directory)
    (hnew : t (dir.child f hf) = none) :
    Files.step t (.writeFile (dir.extend f) data) (.ok () : Except Err Unit) (t.put (dir.extend f) (.file data)) := by
  rw [Path.extend_name dir hf]
  refine ⟨?_, ?_, rfl⟩
  · rw [Path.parent_child, hdir]
  rw [hnew]
  exact nofun

theorem put_child (hf : IsName f) (n : Node) : t.put (dir.extend f) n dir = t dir := by
  rw [Path.extend_name dir hf]
  exact Tree.put_of_ne n (Path.child_ne dir hf).symm

theorem rename_sample (h : t sampleTemporary = some .directory) :
    Files.step (t.clear (sampleDirectory.extend "secrets".toList))
      (.rename sampleTemporary (sampleDirectory.extend "secrets".toList)) (.ok () : Except Err Unit)
      ((t.clear (sampleDirectory.extend "secrets".toList)).move sampleTemporary (sampleDirectory.extend "secrets".toList)) := by
  rw [extend_secrets]
  have hapart : ¬ (published sampleDirectory).Within sampleTemporary :=
    Path.not_within_sibling (by decide) (.refl sampleTemporary)
  refine ⟨?_, Path.not_within_sibling (by decide) (.refl (published sampleDirectory)), fun q hq _ => if_pos hq, rfl⟩
  rw [Tree.clear_of_not_within hapart, h]
  rfl

def samplePayload (name : String) : List UInt8 := ManifestCodec.numbered.marshal [manifestBinding 0 ⟨name, "TOKEN", ""⟩]

def sampleRest (name : String) : SecretTrace :=
  [⟨.files (.writeFile (sampleValueFile name) [115]), .ok ()⟩,
    ⟨.files (.writeFile (sampleTemporary.extend manifestName.toList) (samplePayload name)), .ok ()⟩,
    ⟨.files (.removeAll (sampleDirectory.extend "secrets".toList)), .ok ()⟩,
    ⟨.files (.rename sampleTemporary (sampleDirectory.extend "secrets".toList)), .ok ()⟩,
    ⟨.files (.removeAll sampleTemporary), .ok ()⟩]

theorem sample_prepare (hname : cacheNamePattern name = true) : ∃ tr t',
    Prog.Runs (prepare sampleSecrets .numbered (jobOp "job")) tr (.ok ()) ∧
      Steps (SecretCall.step (sampleSurroundings name)) (fun _ => none) tr t' := by
  have hvalue := valueFile_isName 0 hname
  have hmanifest : IsName manifestName.toList := by decide
  have hempty : ∀ f, ∀ hf : IsName f, sampleTree (sampleTemporary.child f hf) = none := by
    intro f hf
    refine (Tree.put_of_ne _ (Path.child_ne _ hf)).trans (if_neg fun h => ?_)
    exact Path.not_within_of_child (.refl (sampleTemporary.child f hf)) (h.1.trans (Path.within_child _ _))
  have hdir : sampleTree sampleTemporary = some .directory := Tree.put_self _
  have hdir' : sampleTree.put (sampleValueFile name) (.file [115]) sampleTemporary = some .directory :=
    (put_child hvalue _).trans hdir
  have hnew : sampleTree.put (sampleValueFile name) (.file [115]) (sampleTemporary.child manifestName.toList hmanifest) =
      none := by
    rw [sampleValueFile, Path.extend_name _ hvalue]
    refine (Tree.put_of_ne _ fun heq => ?_).trans (hempty _ hmanifest)
    exact valueFile_ne_manifestName 0 name (String.toList_inj.mp (Path.child_injective heq)).symm
  have hwrite := writeFile_child hvalue [115] hdir (hempty _ hvalue)
  have hwrite' := writeFile_child hmanifest (samplePayload name) hdir' hnew
  have hren := rename_sample ((put_child hmanifest (.file (samplePayload name))).trans hdir')
  have hafter : Prog.After (prepare sampleSecrets .numbered (jobOp "job")) (sampleTrace name ++ sampleRest name)
      (.ret (.ok ())) :=
    .cons _ (.cons _ (.cons _ (.cons _ (.cons _ (.cons _ (.cons _ (.cons _ (.cons _ (.cons _ (.nil _))))))))))
  exact ⟨_, _, hafter.runs, sample_steps (.cons hwrite (.cons hwrite' (.cons rfl (.cons hren (.cons rfl (.nil _))))))⟩

theorem sample_job (found : Job) (h : (sampleSurroundings name).job (secretJob name).id (.ok found)) :
    found = secretJob name := by
  cases h.2
  rfl

def sampleResolver (_ : String) : List UInt8 := [115]

theorem sample_resolve (asked : String) (value : List UInt8)
    (h : (sampleSurroundings name).resolve (secretJob name).projectID asked (.ok value)) : value = sampleResolver asked := by
  cases h
  rfl

theorem handover_token : ∃ tr t', Prog.Runs (prepare sampleSecrets .numbered (jobOp "job")) tr (.ok ()) ∧
    Steps (SecretCall.step (sampleSurroundings "token")) (fun _ => none) tr t' ∧
    loadRuntime .numbered t' (pathOf (joinPath ["/var/lib/autback/jobs", "job", "secrets"])) =
      .ok ⟨[[115]], [bytes "TOKEN=s"]⟩ := by
  obtain ⟨tr, t', hruns, hsteps⟩ := @sample_prepare "token" (by decide)
  have haccepted : validateSecrets [some ⟨"token", some (.environment "TOKEN")⟩] ∅ = .ok
      ((secretJob "token").secrets.getD []) := by
    decide +kernel
  have h := (handover sampleSecrets .numbered sampleScheduler rfl haccepted sample_job sample_resolve hruns hsteps
    fun _ => rfl).mpr (by decide)
  refine ⟨tr, t', hruns, hsteps, h.1.trans ?_⟩
  decide +kernel

/-- A name with two dots in a row is accepted, prepared, and not read. -/
theorem handover_rejected :
    validateSecrets [some ⟨"a..b", some (.environment "TOKEN")⟩] ∅ = .ok ((secretJob "a..b").secrets.getD []) ∧
      ∃ tr t', Prog.Runs (prepare sampleSecrets .numbered (jobOp "job")) tr (.ok ()) ∧
        Steps (SecretCall.step (sampleSurroundings "a..b")) (fun _ => none) tr t' ∧
        loadRuntime .numbered t' (pathOf (joinPath ["/var/lib/autback/jobs", "job", "secrets"])) =
          .error (.new "job secret manifest contains an invalid source") := by
  refine ⟨by decide +kernel, ?_⟩
  obtain ⟨tr, t', hruns, hsteps⟩ := @sample_prepare "a..b" (by decide)
  refine ⟨tr, t', hruns, hsteps, ?_⟩
  have hmanifest := (prepare_files (by decide) (by decide) sample_job sample_resolve hruns hsteps).1
  have hpath : pathOf (joinPath ["/var/lib/autback/jobs", "job", "secrets"]) =
      published (jobDirectory sampleSecrets (secretJob "a..b").id) := by
    decide +kernel
  rw [hpath, loadRuntime_eq hmanifest]
  rfl

end Manager

end Autback
