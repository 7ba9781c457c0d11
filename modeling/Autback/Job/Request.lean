import Autback.Runtime.Swarm
import Autback.Table.Basic
import Autback.Text.Path

/-!
# Requests for jobs

`validateJob` of `internal/control/controlapi/server.go` turns a `PrepareJobRequest` into what the store keeps of the job, or
refuses it. Maps are tables, whose order is one in which Go may go through them. Regular expressions are predicates on the
characters of a text.

What it makes of caches and secrets is said once, as the invariant of its loops (`Caches`, `Secrets`).
-/

namespace Autback

/-! ## Texts and paths -/

def startsWith (s first : String) : Bool := first.toList.isPrefixOf s.toList

def pathOf (s : String) : Text.Path := Text.Path.clean s.toList

def cleanPath (s : String) : String := String.ofList (pathOf s).text

def isAbs (s : String) : Bool := s.toList.head? == some '/'

def joinPath (elems : List String) : String := String.ofList (Text.Path.join (elems.map String.toList))

def pathsOverlap (first second : String) : Bool :=
  first == second || startsWith first (second ++ "/") || startsWith second (first ++ "/")

/-- `imageDigestPattern`: the last 64 characters are a digest, after `@sha256:` and a name in one line. -/
def imageDigestPattern (s : String) : Bool :=
  let cs := s.toList
  let n := cs.length
  decide (72 < n) && (cs.take (n - 72)).all (· != '\n') && (cs.drop (n - 72)).take 8 == "@sha256:".toList &&
    (cs.drop (n - 64)).all fun c => c.isDigit || ('a' ≤ c && c ≤ 'f')

def environmentKey (s : String) : Bool :=
  match s.toList with
  | [] => false
  | c :: cs => (c.isAlpha || c == '_') && cs.all fun c => c.isAlphanum || c == '_'

def idempotencyKeyPattern (s : String) : Bool :=
  match s.toList with
  | [] => false
  | c :: cs =>
    c.isAlphanum && decide (7 ≤ cs.length) && decide (cs.length ≤ 127) &&
      cs.all fun c => c.isAlphanum || c == '.' || c == '_' || c == ':' || c == '-'

def cacheNamePattern (s : String) : Bool :=
  match s.toList with
  | [] => false
  | c :: cs =>
    (c.isLower || c.isDigit) && decide (cs.length ≤ 62) &&
      cs.all fun c => c.isLower || c.isDigit || c == '.' || c == '_' || c == '-'

/-- `containsSecretReference`. Letters outside ASCII have no lower case in the two references. -/
def containsSecretReference (value : String) : Bool :=
  let lower := value.map Char.toLower
  containsText lower "secret://" || containsText lower "$\x7b\x7b secrets."

/-! ## Messages -/

inductive SecretTarget
  | environment (key : String)
  | file (path : String)
  deriving DecidableEq

structure JobSecret where
  name : String
  target : Option SecretTarget
  deriving DecidableEq

structure DurationMessage where
  (seconds nanos : Int)
  deriving DecidableEq

def DurationMessage.valid (d : DurationMessage) : Bool :=
  decide (-315576000000 ≤ d.seconds) && decide (d.seconds ≤ 315576000000) && decide (-1000000000 < d.nanos) &&
    decide (d.nanos < 1000000000) && !(decide (0 < d.seconds) && decide (d.nanos < 0)) &&
    !(decide (d.seconds < 0) && decide (0 < d.nanos))

/-- `AsDuration`: a value that does not fit is the nearest that does. -/
def DurationMessage.asDuration (d : DurationMessage) : Duration :=
  max (-9223372036854775808) (min 9223372036854775807 (d.seconds * second + d.nanos))

/-- `PrepareJobRequest`: what `validateJob` reads of it. Elements of lists of messages may be nil. -/
structure JobMessage where
  image : String
  command : List String
  workingDirectory : String
  environment : Table String String
  timeout : Option DurationMessage
  idempotencyKey : String
  caches : List (Option CacheMount)
  secrets : List (Option JobSecret)

/-! ## Validation -/

/-- The paths that `validateCaches` keeps free. -/
def reservedPaths : List String :=
  ["/var/run/docker.sock", "/usr/local/bin/autback-job-entrypoint", "/run/autback/secrets", "/run/secrets"]

/-- One round of the loop of `validateCaches`; `names` and `targets` of the source are those of `result`. -/
def validateCache (result : List CacheMount) : Option CacheMount → Except Err (List CacheMount)
  | none => .error (.new "cache name must contain 1 to 63 lowercase safe characters")
  | some item => do
    if !cacheNamePattern item.name then throw (.new "cache name must contain 1 to 63 lowercase safe characters")
    let target := cleanPath item.target
    if !isAbs item.target || target == "/" || item.target.toList.contains '\x00' then
      throw (.new ("cache " ++ item.name.quote ++ " target must be an absolute container path below /"))
    if result.any fun c => c.name == item.name then
      throw (.new ("cache name " ++ item.name.quote ++ " is declared more than once"))
    if result.any fun c => c.target == target then
      throw (.new ("cache target " ++ target.quote ++ " is declared more than once"))
    match reservedPaths.find? fun reserved => pathsOverlap target reserved with
    | some reserved =>
      throw (.new ("cache target " ++ target.quote ++ " overlaps protected runtime path " ++ reserved.quote))
    | none => return result ++ [⟨item.name, target⟩]

def validateCaches (input : List (Option CacheMount)) : Except Err (List CacheMount) := do
  if 16 < input.length then throw (.new "a job may declare at most 16 caches")
  let result ← input.foldlM validateCache []
  return result.insertionSort fun a b => a.name ≤ b.name

/-- The binding that one round of the loop of `validateSecrets` makes of its target. -/
def secretBinding (environment : Table String String) (result : List SecretBinding) (name : String) :
    Option SecretTarget → Except Err SecretBinding
  | some (.environment key) => do
    if !environmentKey key || startsWith key "AUTBACK_" then
      throw (.new ("secret " ++ name.quote ++ " environment target is invalid"))
    if (environment.lookup key).isSome then
      throw (.new ("secret " ++ name.quote ++ " environment target overlaps a public environment value"))
    return ⟨name, key, ""⟩
  | some (.file path) => do
    let clean := cleanPath path
    if !isAbs path || !startsWith clean "/run/secrets/" || clean == "/run/secrets" then
      throw (.new ("secret " ++ name.quote ++ " file target must be below /run/secrets"))
    match (result.filter fun b => b.file != "").find? fun b => pathsOverlap clean b.file with
    | some existing => throw (.new ("secret " ++ name.quote ++ " file target overlaps " ++ existing.file.quote))
    | none => return ⟨name, "", clean⟩
  | none => .error (.new ("secret " ++ name.quote ++ " requires an environment or file target"))

def targetKey (binding : SecretBinding) : String := binding.environment ++ "\x00" ++ binding.file

/-- One round of the loop of `validateSecrets`; `names`, `targets` and `fileTargets` of the source are those of `result`. -/
def validateSecret (environment : Table String String) (result : List SecretBinding) :
    Option JobSecret → Except Err (List SecretBinding)
  | none => .error (.new "secret name must contain 1 to 63 lowercase safe characters")
  | some item => do
    if !cacheNamePattern item.name then throw (.new "secret name must contain 1 to 63 lowercase safe characters")
    if result.any fun b => b.name == item.name then
      throw (.new ("secret " ++ item.name.quote ++ " is declared more than once"))
    let binding ← secretBinding environment result item.name item.target
    if result.any fun b => targetKey b == targetKey binding then
      -- the NUL at one end of the key is trimmed
      throw (.new ("secret target " ++ (binding.environment ++ binding.file).quote ++ " is declared more than once"))
    return result ++ [binding]

def validateSecrets (input : List (Option JobSecret)) (environment : Table String String) :
    Except Err (List SecretBinding) := do
  if 32 < input.length then throw (.new "a job may declare at most 32 secrets")
  input.foldlM (validateSecret environment) []

def validateArgument (_ : Unit) (argument : String) : Except Err Unit := do
  if argument.toList.contains '\x00' then throw (.new "command contains a NUL byte")
  if containsSecretReference argument then throw (.new "secret references must use the dedicated secrets field")

def validateVariable (_ : Unit) (entry : String × String) : Except Err Unit := do
  if !environmentKey entry.1 || startsWith entry.1 "AUTBACK_" || entry.2.toList.contains '\x00' then
    throw (.new ("invalid environment value " ++ entry.1.quote))
  if containsSecretReference entry.2 then
    throw (.new ("environment value " ++ entry.1.quote ++ " must use the dedicated secrets field"))

def maximumJobTimeout : Duration := 24 * 60 * minute

def messageTimeout : Option DurationMessage → Except Err Duration
  | none => .ok (30 * minute)
  | some d => if d.valid then .ok d.asDuration else .error (.new "invalid timeout")

def validateJob (allowUnpinnedImages : Bool) (projectID : String) (message : JobMessage) : Except Err PrepareJob := do
  if message.image == "" || !allowUnpinnedImages && !imageDigestPattern message.image then
    throw (.new "image must be pinned by sha256 digest")
  if message.command.length = 0 || 128 < message.command.length then
    throw (.new "command must contain between 1 and 128 arguments")
  message.command.foldlM validateArgument ()
  let workingDirectory := if message.workingDirectory == "" then "." else message.workingDirectory
  let clean := cleanPath workingDirectory
  if isAbs workingDirectory || clean == ".." || startsWith clean "../" then
    throw (.new "working directory must remain within the workspace")
  if 128 < (Table.rows message.environment).length then throw (.new "environment may contain at most 128 values")
  let caches ← validateCaches message.caches
  (Table.rows message.environment).foldlM validateVariable ()
  let secrets ← validateSecrets message.secrets message.environment
  let timeout ← messageTimeout message.timeout
  if timeout < second || maximumJobTimeout < timeout then
    throw (.new "timeout must be between 1 second and 24 hours")
  if !idempotencyKeyPattern message.idempotencyKey then
    throw (.new "idempotency key must contain 8 to 128 safe characters")
  return ⟨projectID, message.image, some message.command, clean, some (Table.rows message.environment), timeout, some caches,
    some secrets⟩

/-! ## Paths of texts -/

theorem pathOf_cleanPath (s : String) : pathOf (cleanPath s) = pathOf s := by
  rw [pathOf, cleanPath, String.toList_ofList]
  exact Text.Path.clean_text _

theorem cleanPath_cleanPath (s : String) : cleanPath (cleanPath s) = cleanPath s := by
  rw [cleanPath, pathOf_cleanPath]
  rfl

variable {s : String} {environment : Table String String}

theorem toList_of_clean (h : cleanPath s = s) : s.toList = (pathOf s).text := by
  rw [cleanPath] at h
  rw [← String.toList_ofList (l := (pathOf s).text), h]

theorem pathOf_inj {t : String} (hs : cleanPath s = s) (ht : cleanPath t = t) (h : pathOf s = pathOf t) : s = t := by
  rw [← hs, ← ht, cleanPath, cleanPath, h]

theorem pathOf_rooted (s : String) : (pathOf s).rooted = isAbs s := Text.Path.clean_rooted _

theorem pathOf_joinPath {first : String} (h : first ≠ "") (rest : List String) :
    pathOf (joinPath (first :: rest)) = rest.foldl (fun p s => p.extend s.toList) (pathOf first) := by
  have hne : first.toList ≠ [] := fun hnil => h (String.toList_eq_nil_iff.mp hnil)
  rw [joinPath, pathOf, String.toList_ofList, List.map_cons, Text.Path.clean_join hne, List.foldl_map]
  rfl

theorem names_ne_nil (habs : isAbs s = true) (hroot : cleanPath s ≠ "/") : (pathOf s).names ≠ [] := by
  intro hnil
  refine hroot ?_
  rw [cleanPath, Text.Path.text, if_pos ((pathOf_rooted s).trans habs), hnil]
  rfl

theorem startsWith_iff {first : String} : startsWith s first = true ↔ first.toList <+: s.toList :=
  List.isPrefixOf_iff_prefix

theorem pathsOverlap_iff {t : String} (hs : cleanPath s = s) (ht : cleanPath t = t) (hsabs : isAbs s = true)
    (htabs : isAbs t = true) (hsne : s ≠ "/") (htne : t ≠ "/") : pathsOverlap s t = true ↔ (pathOf s).Overlap (pathOf t) := by
  have hsro := names_ne_nil hsabs (by rwa [hs])
  have htro := names_ne_nil htabs (by rwa [ht])
  rw [Text.Path.overlap_iff_text ((pathOf_rooted s).trans hsabs) ((pathOf_rooted t).trans htabs) hsro htro,
    ← toList_of_clean hs, ← toList_of_clean ht]
  simp only [pathsOverlap, Bool.or_eq_true, beq_iff_eq, startsWith_iff, String.toList_append, String.toList_inj, or_assoc]
  rfl

/-! ## Caches -/

structure CacheMount.Valid (c : CacheMount) : Prop where
  clean : cleanPath c.target = c.target
  free : ∀ reserved ∈ reservedPaths, ¬ (pathOf c.target).Overlap (pathOf reserved)

structure Caches (cs : List CacheMount) : Prop where
  valid : ∀ c ∈ cs, c.Valid
  targets : (cs.map CacheMount.target).Nodup

theorem reserved_clean {reserved : String} (h : reserved ∈ reservedPaths) :
    cleanPath reserved = reserved ∧ isAbs reserved = true ∧ reserved ≠ "/" := by
  have hall : ∀ reserved ∈ reservedPaths, cleanPath reserved = reserved ∧ isAbs reserved = true ∧ reserved ≠ "/" := by
    decide +kernel
  exact hall reserved h

theorem validateCache_caches {result result' : List CacheMount} {item : Option CacheMount}
    (h : validateCache result item = .ok result') (hres : Caches result) : Caches result' := by
  cases item with
  | none => cases h
  | some item =>
    simp only [validateCache, check_eq_ok] at h
    obtain ⟨-, htarget, -, hnew, h⟩ := h
    split at h
    · cases h
    rename_i hfree
    obtain rfl := pure_eq_ok.mp h
    simp only [Bool.or_eq_true, Bool.not_eq_true', beq_iff_eq, not_or, Bool.not_eq_false] at htarget
    obtain ⟨⟨habs, hroot⟩, -⟩ := htarget
    have habs' : isAbs (cleanPath item.target) = true := by rw [← pathOf_rooted, pathOf_cleanPath, pathOf_rooted, habs]
    have hvalue : CacheMount.Valid ⟨item.name, cleanPath item.target⟩ := by
      refine ⟨cleanPath_cleanPath _, fun reserved hreserved hover => ?_⟩
      obtain ⟨hclean, hreservedAbs, hne⟩ := reserved_clean hreserved
      have hnone := List.find?_eq_none.mp hfree reserved hreserved
      exact hnone ((pathsOverlap_iff (cleanPath_cleanPath _) hclean habs' hreservedAbs hroot hne).mpr hover)
    constructor
    · intro c hc
      rcases List.mem_append.mp hc with hc | hc
      · exact hres.valid c hc
      · rwa [List.mem_singleton.mp hc]
    rw [List.map_append]
    refine hres.targets.append (List.nodup_singleton _) ?_
    intro target hmem hlast
    obtain ⟨c, hc, rfl⟩ := List.mem_map.mp hmem
    have heq : c.target = cleanPath item.target := by simpa using hlast
    exact hnew (List.any_eq_true.mpr ⟨c, hc, by simp [heq]⟩)

theorem validateCaches_caches {input : List (Option CacheMount)} {caches : List CacheMount}
    (h : validateCaches input = .ok caches) : Caches caches := by
  simp only [validateCaches, check_eq_ok, bind_eq_ok] at h
  obtain ⟨-, result, hres, hsort⟩ := h
  obtain rfl := pure_eq_ok.mp hsort
  have hcache := foldlM_keeps (fun _ _ _ => validateCache_caches) hres ⟨by simp, by simp⟩
  exact ⟨fun c hc => hcache.valid c ((List.mem_insertionSort _).mp hc),
    (((List.perm_insertionSort _ result).map _).nodup_iff).mpr hcache.targets⟩

/-! ## Secrets -/

inductive SecretBinding.Valid (environment : Table String String) : SecretBinding → Prop
  | environment (name key : String) (hname : cacheNamePattern name = true) (hkey : environmentKey key = true)
      (howned : startsWith key "AUTBACK_" = false) (hfree : environment.lookup key = none) : Valid environment ⟨name, key, ""⟩
  | file (name file : String) (hname : cacheNamePattern name = true) (hclean : cleanPath file = file)
      (hbelow : (pathOf "/run/secrets").Within (pathOf file)) (hne : pathOf "/run/secrets" ≠ pathOf file) :
      Valid environment ⟨name, "", file⟩

theorem SecretBinding.Valid.name {b : SecretBinding} (h : b.Valid environment) : cacheNamePattern b.name = true := by
  cases h with
  | environment _ _ hname _ _ _ => exact hname
  | file _ _ hname _ _ _ => exact hname

structure Secrets (environment : Table String String) (bs : List SecretBinding) : Prop where
  valid : ∀ b ∈ bs, b.Valid environment
  environments : bs.Pairwise fun b b' => b.environment ≠ "" → b.environment ≠ b'.environment
  files : bs.Pairwise fun b b' => b.file ≠ "" → b'.file ≠ "" → ¬ (pathOf b.file).Overlap (pathOf b'.file)

theorem below_secrets (hbelow : (pathOf "/run/secrets").Within (pathOf s)) : isAbs s = true ∧ s ≠ "/" := by
  constructor
  · rw [← pathOf_rooted, ← hbelow.1]
    decide +kernel
  rintro rfl
  exact absurd hbelow (by decide +kernel)

theorem secretBinding_valid {result : List SecretBinding} {name : String} {target : Option SecretTarget}
    {binding : SecretBinding} (h : secretBinding environment result name target = .ok binding)
    (hname : cacheNamePattern name = true) (hres : Secrets environment result) :
    binding.Valid environment ∧ ∀ b ∈ result, b.file ≠ "" → binding.file ≠ "" → ¬ (pathOf b.file).Overlap
      (pathOf binding.file) := by
  cases target with
  | none => cases h
  | some target =>
    cases target with
    | environment key =>
      simp only [secretBinding, check_eq_ok, pure_eq_ok] at h
      obtain ⟨hkey, hfree, rfl⟩ := h
      simp only [Bool.or_eq_true, Bool.not_eq_true', not_or, Bool.not_eq_false, Bool.not_eq_true] at hkey
      refine ⟨.environment name key hname hkey.1 hkey.2 (by simpa using hfree), fun b _ _ hne => ?_⟩
      exact absurd rfl hne
    | file path =>
      simp only [secretBinding, check_eq_ok] at h
      obtain ⟨hpath, h⟩ := h
      split at h
      · cases h
      rename_i hfree
      obtain rfl := pure_eq_ok.mp h
      simp only [Bool.or_eq_true, Bool.not_eq_true', beq_iff_eq, not_or, Bool.not_eq_false] at hpath
      obtain ⟨⟨habs, hstart⟩, -⟩ := hpath
      have hclean := cleanPath_cleanPath path
      have hbelow : (pathOf "/run/secrets").Within (pathOf (cleanPath path)) ∧
          pathOf "/run/secrets" ≠ pathOf (cleanPath path) := by
        have hroot : (pathOf (cleanPath path)).rooted = true := by rw [pathOf_cleanPath, pathOf_rooted, habs]
        have hsecret : (pathOf "/run/secrets").text = "/run/secrets".toList := by decide +kernel
        rw [startsWith_iff, toList_of_clean hclean] at hstart
        have hnam : (pathOf (cleanPath path)).names ≠ [] := by
          intro hnil
          rw [Text.Path.text, if_pos hroot, hnil] at hstart
          exact absurd hstart.length_le (by decide)
        refine (Text.Path.text_slash_isPrefix_iff (by decide +kernel) hroot (by decide +kernel) hnam).mp ?_
        rw [hsecret]
        exact hstart
      refine ⟨.file name _ hname hclean hbelow.1 hbelow.2, fun b hb hne _ hover => ?_⟩
      obtain ⟨habs', hroot'⟩ := below_secrets hbelow.1
      have hvalue := hres.valid b hb
      cases hvalue with
      | environment _ _ _ _ _ _ => exact hne rfl
      | file name' file _ hclean' hbelow' _ =>
        obtain ⟨habs'', hroot''⟩ := below_secrets hbelow'
        have hnone := List.find?_eq_none.mp hfree ⟨name', "", file⟩ (List.mem_filter.mpr ⟨hb, by simpa using hne⟩)
        exact hnone ((pathsOverlap_iff hclean hclean' habs' habs'' hroot' hroot'').mpr hover.symm)

theorem validateSecret_secrets {result result' : List SecretBinding} {item : Option JobSecret}
    (h : validateSecret environment result item = .ok result') (hres : Secrets environment result) :
    Secrets environment result' := by
  cases item with
  | none => cases h
  | some item =>
    simp only [validateSecret, check_eq_ok, bind_eq_ok, pure_eq_ok] at h
    obtain ⟨hname, -, binding, hbind, hnew, rfl⟩ := h
    simp only [Bool.not_eq_true', Bool.not_eq_false] at hname
    obtain ⟨hvalue, hfil⟩ := secretBinding_valid hbind hname hres
    refine ⟨?_, ?_, ?_⟩
    · intro b hb
      rcases List.mem_append.mp hb with hb | hb
      · exact hres.valid b hb
      · rwa [List.mem_singleton.mp hb]
    · refine List.pairwise_append.mpr ⟨hres.environments, List.pairwise_singleton _ _, fun b hb b' hb' hne heq => ?_⟩
      rw [List.mem_singleton.mp hb'] at heq
      -- both bind a variable, so that their keys are the same
      have hfile : ∀ {b : SecretBinding}, b.Valid environment → b.environment ≠ "" → b.file = "" := by
        intro b hb hne
        cases hb with
        | environment _ _ _ _ _ _ => rfl
        | file _ _ _ _ _ _ => exact absurd rfl hne
      have hkey : targetKey b = targetKey binding := by
        rw [targetKey, targetKey, hfile (hres.valid b hb) hne, hfile hvalue (heq ▸ hne), heq]
      exact hnew (List.any_eq_true.mpr ⟨b, hb, by simp [hkey]⟩)
    refine List.pairwise_append.mpr ⟨hres.files, List.pairwise_singleton _ _, fun b hb b' hb' => ?_⟩
    rw [List.mem_singleton.mp hb']
    exact hfil b hb

theorem validateSecrets_secrets {input : List (Option JobSecret)} {secrets : List SecretBinding}
    (h : validateSecrets input environment = .ok secrets) : Secrets environment secrets := by
  simp only [validateSecrets, check_eq_ok] at h
  exact foldlM_keeps (fun _ _ _ => validateSecret_secrets) h.2 ⟨by simp, .nil, .nil⟩

/-! ## Accepted requests -/

def ValidEnvironment (environment : Table String String) : Prop :=
  ∀ key value, environment.lookup key = some value → environmentKey key = true ∧ startsWith key "AUTBACK_" = false

theorem validateVariables_valid (h : (Table.rows environment).foldlM validateVariable () = .ok ()) :
    ValidEnvironment environment := by
  have hall : ∀ (entries : List (String × String)), entries.foldlM validateVariable () = .ok () →
      ∀ e ∈ entries, environmentKey e.1 = true ∧ startsWith e.1 "AUTBACK_" = false := by
    intro entries
    induction entries with
    | nil => simp
    | cons entry entries ih =>
      intro hfold e he
      rw [List.foldlM_cons] at hfold
      obtain ⟨u, hfirst, hrest⟩ := bind_eq_ok.mp hfold
      rcases List.mem_cons.mp he with rfl | he
      · simp only [validateVariable, check_eq_ok] at hfirst
        simp only [Bool.or_eq_true, Bool.not_eq_true', not_or, Bool.not_eq_false, Bool.not_eq_true] at hfirst
        exact hfirst.1.1
      · exact ih hrest e he
  exact fun key value hlook => hall _ h (key, value) (Table.mem_rows.mpr hlook)

/-- What `validateJob` makes of a request that it accepts. -/
structure AcceptedJob (message : JobMessage) (input : PrepareJob) (caches : List CacheMount) (secrets : List SecretBinding) :
    Prop where
  validEnvironment : ValidEnvironment message.environment
  validCaches : Caches caches
  validSecrets : Secrets message.environment secrets
  environment : input.environment = some (Table.rows message.environment)
  caches : input.caches = some caches
  secrets : input.secrets = some secrets

theorem validateJob_accepted {allowUnpinnedImages : Bool} {projectID : String} {message : JobMessage} {input : PrepareJob}
    (h : validateJob allowUnpinnedImages projectID message = .ok input) :
    ∃ caches secrets, AcceptedJob message input caches secrets := by
  simp only [validateJob, check_eq_ok, bind_eq_ok, pure_eq_ok] at h
  obtain ⟨-, -, -, -, -, -, caches, hcache, _, hvar, secrets, hsecret, -, -, -, -, rfl⟩ := h
  exact ⟨caches, secrets, validateVariables_valid hvar, validateCaches_caches hcache, validateSecrets_secrets hsecret,
    rfl, rfl, rfl⟩

end Autback
