import Autback.Job.Mounts
import Autback.Text.Assignments

/-!
# The environment of a job's command

The container starts with the environment of the service specification; the entrypoint adds the secrets that are bound to
variables (`mergeEnvironment` of `cmd/autback-job-entrypoint/main.go`) and runs the command. Items of environments are bytes.

For an accepted request every variable has the value that it should have (`environment_isolated`): keys match a pattern without
`=`, the keys of secrets are different from each other and from the public ones, and neither starts with `AUTBACK_`.
-/

namespace Autback

open Gateway (bytes)

/-- The byte `=`. -/
def equalsSign : UInt8 := 61

abbrev variableOf (environment : List (List UInt8)) (key : List UInt8) : Option (List UInt8) :=
  Text.valueOf equalsSign environment key

def itemKey (item : List UInt8) : Option (List UInt8) := (Text.cut equalsSign item).map Prod.fst

def mergeEnvironment (base overrides : List (List UInt8)) : List (List UInt8) :=
  let replaced := overrides.filterMap itemKey
  base.filter (fun item => !(itemKey item).any replaced.contains) ++ overrides

def runtimeEnvironment (bindings : List SecretBinding) (values : List (List UInt8)) : List (List UInt8) :=
  (bindings.zip values).filterMap fun e =>
    if e.1.environment ≠ "" then some (Text.assign equalsSign (bytes e.1.environment, e.2)) else none

def commandEnvironment (input : PrepareJob) (values environ : List (List UInt8)) : List (List UInt8) :=
  mergeEnvironment environ (runtimeEnvironment (input.secrets.getD []) values)

theorem variableOf_merge (base overrides : List (List UInt8)) (key : List UInt8) :
    variableOf (mergeEnvironment base overrides) key = (variableOf overrides key).or (variableOf base key) := by
  unfold variableOf
  rw [mergeEnvironment, Text.valueOf_append]
  cases hkey : Text.valueOf equalsSign overrides key with
  | some value => rfl
  | none =>
    rw [Option.none_or, Option.none_or]
    refine Text.valueOf_filter fun item _ value hcut => ?_
    -- no override has the key of the item
    have hitem : itemKey item = some key := by rw [itemKey, hcut]; rfl
    rw [hitem, Option.any_some, Bool.not_eq_true', List.contains_eq_mem, decide_eq_false_iff_not, List.mem_filterMap]
    rintro ⟨override, hmem, hover⟩
    obtain ⟨⟨k, value'⟩, hcut', rfl⟩ := Option.map_eq_some_iff.mp hover
    exact Text.valueOf_eq_none_iff.mp hkey override hmem value' hcut'

/-! ## Keys -/

theorem bytes_append (s t : String) : bytes (s ++ t) = bytes s ++ bytes t := by
  simp [bytes, String.toUTF8_eq_toByteArray]

variable {s : String} {c : Char}

theorem bytes_injective {t : String} (h : bytes s = bytes t) : s = t := by
  have htext := congrArg Gateway.text h
  rw [Gateway.text_bytes, Gateway.text_bytes] at htext
  exact Option.some.inj htext

theorem bytes_ascii (h : ∀ c ∈ s.toList, c.val ≤ 127) : bytes s = s.toList.map fun c => c.val.toUInt8 := by
  have henc : bytes s = s.toList.flatMap String.utf8EncodeChar := by
    rw [bytes, String.toUTF8_eq_toByteArray, ← String.utf8Encode_toList]
    simp [List.utf8Encode]
  have hsing : ∀ c ∈ s.toList, String.utf8EncodeChar c = [c.val.toUInt8] :=
    fun c hc => String.utf8EncodeChar_eq_singleton (Char.utf8Size_eq_one_iff.mpr (h c hc))
  rw [henc, List.flatMap_congr hsing, ← List.map_eq_flatMap]

theorem keyChar_ascii (h : (c.isAlphanum || c == '_') = true) : c.val ≤ 127 ∧ c ≠ '=' := by
  constructor
  · rcases Bool.or_eq_true_iff.mp h with haln | hund
    · delta Char.isAlphanum Char.isAlpha Char.isUpper Char.isLower Char.isDigit at haln
      simp only [Bool.or_eq_true, Bool.and_eq_true, decide_eq_true_eq, ge_iff_le] at haln
      rcases haln with (⟨-, hle⟩ | ⟨-, hle⟩) | ⟨-, hle⟩
      · exact UInt32.le_trans hle (by decide)
      · exact UInt32.le_trans hle (by decide)
      · exact UInt32.le_trans hle (by decide)
    rw [eq_of_beq hund]
    decide
  rintro rfl
  revert h
  decide

theorem key_chars {key : String} (h : environmentKey key = true) (hc : c ∈ key.toList) : c.val ≤ 127 ∧ c ≠ '=' := by
  rw [environmentKey] at h
  split at h
  · cases h
  rename_i first rest hkey
  rw [hkey] at hc
  rw [Bool.and_eq_true, List.all_eq_true] at h
  rcases List.mem_cons.mp hc with rfl | hc
  · refine keyChar_ascii ?_
    rcases Bool.or_eq_true_iff.mp h.1 with halph | hund
    · simp [Char.isAlphanum, halph]
    · simp [hund]
  · exact keyChar_ascii (h.2 c hc)

theorem charOf_byte (h : c.val ≤ 127) : Char.ofNat c.val.toUInt8.toNat = c := by
  have hlt : c.val.toNat < 256 := Nat.lt_of_le_of_lt (UInt32.le_iff_toNat_le.mp h) (by decide)
  rw [UInt32.toNat_toUInt8, Nat.mod_eq_of_lt hlt]
  exact Char.ofNat_toNat c

theorem map_charOf_bytes (h : ∀ c ∈ s.toList, c.val ≤ 127) : (bytes s).map (fun b => Char.ofNat b.toNat) = s.toList := by
  rw [bytes_ascii h, List.map_map]
  exact (List.map_congr_left fun c hc => charOf_byte (h c hc)).trans (List.map_id _)

theorem equalsSign_not_mem {key : String} (h : environmentKey key = true) : equalsSign ∉ bytes key := by
  intro hmem
  have hchar : Char.ofNat equalsSign.toNat ∈ (bytes key).map fun b => Char.ofNat b.toNat := List.mem_map_of_mem hmem
  rw [map_charOf_bytes fun c hc => (key_chars h hc).1] at hchar
  exact (key_chars h hchar).2 (by decide)

theorem not_owned {key : String} (h : environmentKey key = true) (hown : startsWith key "AUTBACK_" = false) :
    ¬ bytes "AUTBACK_" <+: bytes key := by
  intro hbytes
  have hchar := hbytes.map fun b => Char.ofNat b.toNat
  rw [map_charOf_bytes fun c hc => (key_chars h hc).1, map_charOf_bytes (by simp), ← startsWith_iff, hown] at hchar
  cases hchar

/-! ## Accepted jobs -/

theorem map_assignment (entries : List (String × String)) : entries.map (fun e => assignment e.1 e.2) =
    (entries.map fun e => (bytes e.1, bytes e.2)).map (Text.assign equalsSign) := by
  rw [List.map_map]
  refine List.map_congr_left fun e _ => ?_
  rw [assignment, bytes_append, bytes_append, List.append_assoc]
  rfl

section Accepted

variable {message : JobMessage} {input : PrepareJob} {caches : List CacheMount} {secrets : List SecretBinding}
  {cfg : SchedulerConfig} {job : Job}

def publicEntries (job : Job) : List (List UInt8 × List UInt8) :=
  ((job.environment.getD []).insertionSort fun a b => a.1 ≤ b.1).map fun e => (bytes e.1, bytes e.2)

theorem serviceSpec_env (cfg : SchedulerConfig) (job : Job) : (serviceSpec (specForJob cfg job)).env =
    (specForJob cfg job).serverEnvironment.map (fun e => assignment e.1 e.2) ++
      (publicEntries job).map (Text.assign equalsSign) := by
  rw [publicEntries, ← map_assignment, ← List.map_append]
  rfl

theorem mem_publicEntries (h : AcceptedJob message input caches secrets) (hjob : job.Requested input)
    {e : List UInt8 × List UInt8} :
    e ∈ publicEntries job ↔ ∃ key value, message.environment.lookup key = some value ∧ e = (bytes key, bytes value) := by
  have hperm := hjob.environment
  rw [h.environment] at hperm
  simp only [publicEntries, List.mem_map, List.mem_insertionSort, hperm.mem_iff, Option.getD_some, Prod.exists, Table.mem_rows]
  constructor
  · rintro ⟨key, value, hlook, rfl⟩
    exact ⟨key, value, hlook, rfl⟩
  rintro ⟨key, value, hlook, rfl⟩
  exact ⟨key, value, hlook, rfl⟩

theorem publicEntries_nodup (h : AcceptedJob message input caches secrets) (hjob : job.Requested input) :
    ((publicEntries job).map Prod.fst).Nodup := by
  have hperm := hjob.environment
  rw [h.environment] at hperm
  rw [publicEntries, List.map_map, (((List.perm_insertionSort _ _).trans hperm).map _).nodup_iff]
  have hkeys := Table.rows_nodup message.environment
  have hmap : (Table.rows message.environment).map (Prod.fst ∘ fun e => (bytes e.1, bytes e.2)) =
      ((Table.rows message.environment).map Prod.fst).map bytes := by rw [List.map_map]; rfl
  rw [Option.getD_some, hmap]
  exact hkeys.map fun _ _ => bytes_injective

def secretEntries (secrets : List SecretBinding) (values : List (List UInt8)) : List (List UInt8 × List UInt8) :=
  ((secrets.zip values).filter fun e => e.1.environment ≠ "").map fun e => (bytes e.1.environment, e.2)

theorem runtimeEnvironment_eq (secrets : List SecretBinding) (values : List (List UInt8)) :
    runtimeEnvironment secrets values = (secretEntries secrets values).map (Text.assign equalsSign) := by
  rw [secretEntries, List.map_map, runtimeEnvironment]
  induction secrets.zip values with
  | nil => rfl
  | cons e l ih =>
    by_cases hne : e.1.environment = "" <;> simpa [hne] using ih

variable {environment : Table String String}

theorem SecretBinding.Valid.key {b : SecretBinding} (h : b.Valid environment) (hne : b.environment ≠ "") :
    environmentKey b.environment = true ∧ startsWith b.environment "AUTBACK_" = false ∧ environment.lookup b.environment =
      none := by
  cases h with
  | environment _ _ _ hkey hown hfree => exact ⟨hkey, hown, hfree⟩
  | file _ _ _ _ _ _ => exact absurd rfl hne

theorem mem_secretEntries {values : List (List UInt8)} {e : List UInt8 × List UInt8} (he : e ∈ secretEntries secrets values) :
    ∃ b ∈ secrets, b.environment ≠ "" ∧ e.1 = bytes b.environment := by
  obtain ⟨⟨b, value⟩, hmem, rfl⟩ := List.mem_map.mp he
  obtain ⟨hzip, hne⟩ := List.mem_filter.mp hmem
  exact ⟨b, (List.of_mem_zip hzip).1, by simpa using hne, rfl⟩

theorem secretEntries_nodup (h : Secrets environment secrets) {values : List (List UInt8)}
    (hvalue : values.length = secrets.length) : ((secretEntries secrets values).map Prod.fst).Nodup := by
  have hzip : (secrets.zip values).Pairwise fun e e' => e.1.environment ≠ "" → e.1.environment ≠ e'.1.environment := by
    have hfst : (secrets.zip values).map Prod.fst = secrets := List.map_fst_zip (by omega)
    have henv := h.environments
    rw [← hfst] at henv
    exact List.pairwise_map.mp henv
  refine List.pairwise_map.mpr (List.pairwise_map.mpr (List.pairwise_filter.mpr (hzip.imp ?_)))
  intro e e' hdiff hne _ heq
  exact hdiff (by simpa using hne) (bytes_injective heq)

theorem variableOf_unbound (h : Secrets environment secrets) (values : List (List UInt8)) {key : List UInt8}
    (hkey : ∀ b ∈ secrets, b.environment ≠ "" → bytes b.environment ≠ key) :
    variableOf (runtimeEnvironment secrets values) key = none := by
  rw [runtimeEnvironment_eq]
  refine Text.valueOf_eq_none_iff.mpr fun item hitem value hcut => ?_
  obtain ⟨e, he, rfl⟩ := List.mem_map.mp hitem
  obtain ⟨b, hb, hne, heq⟩ := mem_secretEntries he
  have hcut' : Text.cut equalsSign (Text.assign equalsSign e) = some e :=
    Text.cut_assign (heq ▸ equalsSign_not_mem ((h.valid b hb).key hne).1) e.2
  rw [hcut] at hcut'
  cases hcut'
  exact hkey b hb hne heq.symm

/-- **Environment isolation.** The container starts with an environment `environ` that has the variables of the service
specification. For every accepted request and all values of its secrets, in the environment of the command a public variable has
the value that was asked for, a variable that a secret is bound to has the value of that secret, a variable that starts with
`AUTBACK_` has the value that the server chose, and every variable that no secret is bound to has the value of the service
specification, whatever the secrets are. -/
theorem environment_isolated {allowUnpinnedImages : Bool} {projectID : String}
    (h : validateJob allowUnpinnedImages projectID message = .ok input) (hjob : job.Requested input)
    {values environ : List (List UInt8)} (hvalues : values.length = (input.secrets.getD []).length)
    (henviron : ∀ key, variableOf environ key = variableOf (serviceSpec (specForJob cfg job)).env key) :
    (∀ key value, message.environment.lookup key = some value →
      variableOf (commandEnvironment input values environ) (bytes key) = some (bytes value)) ∧
    (∀ (i : Nat) (binding : SecretBinding) (value : List UInt8), (input.secrets.getD [])[i]? = some binding →
      values[i]? = some value → binding.environment ≠ "" →
      variableOf (commandEnvironment input values environ) (bytes binding.environment) = some value) ∧
    (∀ key, bytes "AUTBACK_" <+: key → variableOf (commandEnvironment input values environ) key =
      variableOf ((specForJob cfg job).serverEnvironment.map fun e => assignment e.1 e.2) key) ∧
    ∀ key, (∀ binding ∈ input.secrets.getD [], binding.environment ≠ "" → bytes binding.environment ≠ key) →
      variableOf (commandEnvironment input values environ) key = variableOf (serviceSpec (specForJob cfg job)).env key := by
  obtain ⟨caches, secrets, haccepted⟩ := validateJob_accepted h
  simp only [commandEnvironment, haccepted.secrets, Option.getD_some] at hvalues ⊢
  have hsecrets := haccepted.validSecrets
  have hunbound : ∀ key, (∀ binding ∈ secrets, binding.environment ≠ "" → bytes binding.environment ≠ key) →
      variableOf (mergeEnvironment environ (runtimeEnvironment secrets values)) key =
        variableOf (serviceSpec (specForJob cfg job)).env key := by
    intro key hkey
    rw [variableOf_merge, variableOf_unbound hsecrets values hkey, Option.none_or, henviron]
  refine ⟨fun key value hlookup => ?_, fun i binding value hbinding hvalue hne => ?_, fun key hkey => ?_, hunbound⟩
  · have hfree : ∀ binding ∈ secrets, binding.environment ≠ "" → bytes binding.environment ≠ bytes key := by
      intro binding hb hne heq
      have hnone := ((hsecrets.valid binding hb).key hne).2.2
      rw [bytes_injective heq, hlookup] at hnone
      cases hnone
    rw [hunbound _ hfree, serviceSpec_env, variableOf, Text.valueOf_append, Text.valueOf_of_mem ?_
      (publicEntries_nodup haccepted hjob) ((mem_publicEntries haccepted hjob).mpr ⟨key, value, hlookup, rfl⟩)]
    · rfl
    intro e he
    obtain ⟨key', value', hlookup', rfl⟩ := (mem_publicEntries haccepted hjob).mp he
    exact equalsSign_not_mem (haccepted.validEnvironment key' value' hlookup').1
  · have hmem : (bytes binding.environment, value) ∈ secretEntries secrets values := by
      refine List.mem_map.mpr ⟨(binding, value), List.mem_filter.mpr ⟨?_, by simpa using hne⟩, rfl⟩
      exact List.mem_of_getElem? (i := i) (by rw [List.getElem?_zip_eq_some]; exact ⟨hbinding, hvalue⟩)
    rw [variableOf_merge, runtimeEnvironment_eq, variableOf, Text.valueOf_of_mem ?_ (secretEntries_nodup hsecrets hvalues) hmem]
    · rfl
    intro e he
    obtain ⟨b, hb, hne', heq⟩ := mem_secretEntries he
    rw [heq]
    exact equalsSign_not_mem ((hsecrets.valid b hb).key hne').1
  have hfree : ∀ binding ∈ secrets, binding.environment ≠ "" → bytes binding.environment ≠ key := by
    rintro binding hb hne rfl
    obtain ⟨hvalid, howned, -⟩ := (hsecrets.valid binding hb).key hne
    exact not_owned hvalid howned hkey
  rw [hunbound key hfree, serviceSpec_env, variableOf, Text.valueOf_append]
  -- public variables do not start with `AUTBACK_`
  have hpublic : Text.valueOf equalsSign ((publicEntries job).map (Text.assign equalsSign)) key = none := by
    refine Text.valueOf_eq_none_iff.mpr fun item hitem value hcut => ?_
    obtain ⟨e, he, rfl⟩ := List.mem_map.mp hitem
    obtain ⟨key', value', hlookup, rfl⟩ := (mem_publicEntries haccepted hjob).mp he
    obtain ⟨hvalid, howned⟩ := haccepted.validEnvironment key' value' hlookup
    rw [Text.cut_assign (equalsSign_not_mem hvalid)] at hcut
    cases hcut
    exact not_owned hvalid howned hkey
  rw [hpublic, Option.none_or]

end Accepted

def variableRequest : JobMessage :=
  { cacheRequest "/root/.cache" with environment := (∅ : Table String String).insert "MODE" "a=b" }

def variableInput : PrepareJob := { cacheInput "/root/.cache" with environment := some [("MODE", "a=b")] }

def variableJob : Job := { cacheJob "/root/.cache" with environment := some [("MODE", "a=b")] }

theorem environment_isolated_values :
    validateJob false "project" variableRequest = .ok variableInput ∧
      variableOf (commandEnvironment variableInput [[120, 61, 121], [0]]
        (serviceSpec (specForJob sampleScheduler variableJob)).env)
        (bytes "MODE") = some (bytes "a=b") ∧
      variableOf (commandEnvironment variableInput [[120, 61, 121], [0]]
        (serviceSpec (specForJob sampleScheduler variableJob)).env)
        (bytes "TOKEN") = some [120, 61, 121] := by
  have haccepted : validateJob false "project" variableRequest = .ok variableInput := by decide +kernel
  have hisolated := @environment_isolated variableRequest variableInput sampleScheduler variableJob false "project" haccepted
    ⟨.refl _, rfl, rfl⟩ [[120, 61, 121], [0]] _ rfl fun _ => rfl
  exact ⟨haccepted, hisolated.1 "MODE" "a=b" (by decide +kernel), hisolated.2.1 0 ⟨"token", "TOKEN", ""⟩ _ rfl rfl (by decide)⟩

/-! ## The directory of the command -/

def resolveWorkingDirectory (workspace relative : String) : Except Err String :=
  if relative == "" || relative == "." then .ok workspace
  else if isAbs relative then .error (.new "AUTBACK_WORKING_DIRECTORY must be relative to the workspace")
  else
    let clean := cleanPath relative
    if clean == ".." || startsWith clean "../" then .error (.new "AUTBACK_WORKING_DIRECTORY escapes the workspace")
    else .ok (joinPath [workspace, clean])

section Directory

variable {workspace relative : String} {message : JobMessage} {input : PrepareJob} {allowUnpinnedImages : Bool}
    {projectID : String}

theorem resolveWorkingDirectory_within {directory : String} (hne : workspace ≠ "")
    (h : resolveWorkingDirectory workspace relative = .ok directory) : (pathOf workspace).Within (pathOf directory) ∧
      (pathOf directory).names = (pathOf workspace).names ++ (pathOf relative).names := by
  rw [resolveWorkingDirectory] at h
  split at h
  · rename_i hhere
    have hnames : (pathOf relative).names = [] := by
      rcases (Bool.or_eq_true _ _).mp hhere with hhere | hhere <;> rw [eq_of_beq hhere] <;> decide
    cases h
    exact ⟨.refl _, by rw [hnames, List.append_nil]⟩
  split at h
  · cases h
  rename_i habs
  simp only at h
  split at h
  · cases h
  rename_i hclean
  cases h
  have hroot := (pathOf_rooted relative).trans (Bool.eq_false_iff.mpr habs)
  rw [Bool.or_eq_true, not_or, beq_iff_eq, startsWith_iff, cleanPath, String.toList_ofList, String.toList_ofList] at hclean
  rw [pathOf_joinPath hne, List.foldl_cons, List.foldl_nil, cleanPath, String.toList_ofList]
  refine Text.Path.extend_text _ hroot (Text.Path.ups_eq_zero hroot (fun htext => hclean.1 ?_) hclean.2)
  rw [htext]

theorem resolveWorkingDirectory_clean (workspace : String) (habs : isAbs relative = false)
    (hclean : (cleanPath relative == ".." || startsWith (cleanPath relative) "../") = false) :
    ∃ directory, resolveWorkingDirectory workspace (cleanPath relative) = .ok directory := by
  have habs' : isAbs (cleanPath relative) = false := by rw [← pathOf_rooted, pathOf_cleanPath, pathOf_rooted, habs]
  simp only [resolveWorkingDirectory, cleanPath_cleanPath, hclean, habs', Bool.false_eq_true, if_false]
  split <;> exact ⟨_, rfl⟩

theorem resolveWorkingDirectory_orDefault (workspace relative : String) :
    resolveWorkingDirectory workspace (orDefault relative ".") = resolveWorkingDirectory workspace relative := by
  rw [orDefault]
  split
  · rename_i hempty
    rw [hempty]
    rfl
  · rfl

theorem validateJob_workingDirectory (h : validateJob allowUnpinnedImages projectID message = .ok input) :
    ∃ relative, pathOf relative = pathOf message.workingDirectory ∧ input.workingDirectory = cleanPath relative ∧
      isAbs relative = false ∧ (cleanPath relative == ".." || startsWith (cleanPath relative) "../") = false := by
  simp only [validateJob, check_eq_ok, bind_eq_ok, pure_eq_ok] at h
  obtain ⟨-, -, -, -, hclean, -, -, -, -, -, -, -, -, -, -, -, rfl⟩ := h
  rw [Bool.not_eq_true, Bool.or_assoc, Bool.or_eq_false_iff] at hclean
  refine ⟨_, ?_, rfl, hclean⟩
  split
  · rename_i hempty
    rw [eq_of_beq hempty]
    decide
  · rfl

/-- **Confinement.** Whatever directory an accepted request names, the entrypoint finds it for the job, within the workspace. -/
theorem workingDirectory_confined {job : Job} (h : validateJob allowUnpinnedImages projectID message = .ok input)
    (hjob : job.workingDirectory = input.workingDirectory) (cfg : SchedulerConfig) (hne : workspace ≠ "") :
    ∃ directory, resolveWorkingDirectory workspace (orDefault (specForJob cfg job).workingDirectory ".") = .ok directory ∧
      (pathOf workspace).Within (pathOf directory) ∧
      (pathOf directory).names = (pathOf workspace).names ++ (pathOf message.workingDirectory).names := by
  obtain ⟨relative, hpath, hinput, habs, hclean⟩ := validateJob_workingDirectory h
  obtain ⟨directory, hok⟩ := resolveWorkingDirectory_clean workspace habs hclean
  obtain ⟨hwithin, hnames⟩ := resolveWorkingDirectory_within hne hok
  rw [pathOf_cleanPath, hpath] at hnames
  refine ⟨directory, ?_, hwithin, hnames⟩
  rw [resolveWorkingDirectory_orDefault, ← hok, ← hinput, ← hjob]
  rfl

end Directory

theorem workingDirectory_confined_below :
    ∃ directory, resolveWorkingDirectory "/workspace" "b" = .ok directory ∧ (pathOf "/workspace").Within (pathOf directory) := by
  have haccepted : validateJob false "project" { cacheRequest "/root/.cache" with workingDirectory := "a/../b" } =
      .ok { cacheInput "/root/.cache" with workingDirectory := "b" } := by decide +kernel
  have hconfined := @workingDirectory_confined "/workspace" _ _ _ _ { cacheJob "/root/.cache" with workingDirectory :=
      "b" } haccepted
    rfl sampleScheduler (by decide)
  exact ⟨_, hconfined.choose_spec.1, hconfined.choose_spec.2.1⟩

end Autback
