import Autback.Conc.Crash
import Autback.Files.Tree
import Autback.Job.Environment
import Autback.Text.Codec

/-!
# The secrets of a job

`internal/secrets/manager.go`: before a job starts, `Manager.Prepare` resolves its secrets, writes each value to a file of a
temporary directory, adds a manifest and renames the directory to the one that the container of the job is given;
`Manager.Cleanup` removes that one. In the container `LoadRuntime` reads the manifest and the values. Paths are cleaned where they
are joined; modes are left out.
-/

namespace Autback

open Conc (Fallible Prog Steps)
open Files (Tree)
open Text (Path)
open Gateway (bytes)

def manifestName : String := "manifest.json"

def maximumValueSize : Nat := 1048576

/-- `secrets.Config`: the root of the job directories, and which of the collaborators are there. -/
structure SecretsConfig where
  jobsRoot : String
  (hasStore hasResolver hasAccess : Bool)
  deriving DecidableEq

structure ManifestBinding where
  (name source environment file : String)
  deriving DecidableEq

structure ManifestCodec where
  marshal : List ManifestBinding → List UInt8
  unmarshal : List UInt8 → Option (List ManifestBinding)
  unmarshal_marshal : ∀ bindings, unmarshal (marshal bindings) = some bindings

/-- The fields of the bindings one after the other. -/
def manifestTexts (bindings : List ManifestBinding) : List String :=
  bindings.flatMap fun b => [b.name, b.source, b.environment, b.file]

def ofManifestTexts : List String → List ManifestBinding
  | name :: source :: environment :: file :: rest => ⟨name, source, environment, file⟩ :: ofManifestTexts rest
  | _ => []

theorem ofManifestTexts_manifestTexts : ∀ bindings, ofManifestTexts (manifestTexts bindings) = bindings
  | [] => rfl
  | b :: bindings => congrArg (b :: ·) (ofManifestTexts_manifestTexts bindings)

def ManifestCodec.numbered : ManifestCodec where
  marshal bindings := Text.Codec.octets.marshal (manifestTexts bindings)
  unmarshal payload := (Text.Codec.octets.unmarshal payload).map ofManifestTexts
  unmarshal_marshal bindings := by rw [Text.Codec.unmarshal_marshal, Option.map_some, ofManifestTexts_manifestTexts]

inductive ResolveError
  | revoked (cause : Err)
  | other (cause : Err)
  deriving DecidableEq

def resolutionError (name reason : String) (cause : Err) (permanent : Bool) : Err :=
  ⟨"resolve job secret " ++ name.quote ++ ": " ++ reason, cause.chain, permanent⟩

def ResolveError.err (name : String) : ResolveError → Err
  | .revoked cause => resolutionError name "reference is unavailable or revoked" cause true
  | .other cause => resolutionError name "external provider failed" cause false

def errInvalidValue : Err := .new "secret value is empty or exceeds 1 MiB"

/-! ## Calls -/

/-- The calls of the manager: the job store, the resolver, the access record and the file system. -/
inductive SecretCall
  | job (id : String)
  | resolve (projectID name : String)
  | recordSecretAccess (projectID jobID name : String)
  | files (c : Files.Call)

@[reducible]
def SecretCall.Ret : SecretCall → Type
  | .job _ => Except Err Job
  | .resolve _ _ => Except ResolveError (List UInt8)
  | .recordSecretAccess _ _ _ => Except Err Unit
  | .files c => c.Ret Err

abbrev SecretTrace := Conc.Trace SecretCall SecretCall.Ret

abbrev Sec (ε α : Type) : Type := Fallible SecretCall SecretCall.Ret ε α

namespace Sec

def ask (c : SecretCall) : Prog SecretCall SecretCall.Ret c.Ret := Prog.lift c

def job (id : String) : Sec Err Job := ask (.job id)

def resolve (projectID name : String) : Sec ResolveError (List UInt8) := ask (.resolve projectID name)

def recordSecretAccess (projectID jobID name : String) : Sec Err Unit :=
  ask (.recordSecretAccess projectID jobID name)

def mkdirAll (p : Path) : Sec Err Unit := ask (.files (.mkdirAll p))

def mkdirTemp (dir : Path) (first : String) : Sec Err Path := ask (.files (.mkdirTemp dir first.toList))

def chmod (p : Path) : Sec Err Unit := ask (.files (.chmod p))

def writeFile (p : Path) (data : List UInt8) : Sec Err Unit := ask (.files (.writeFile p data))

def removeAll (p : Path) : Sec Err Unit := ask (.files (.removeAll p))

def rename (src dst : Path) : Sec Err Unit := ask (.files (.rename src dst))

def wrapping {α : Type} (context : String) (p : Sec Err α) : Sec Err α := Fallible.mapError (Err.wrap context) p

end Sec

structure Surroundings where
  job : String → Except Err Job → Prop
  resolve : String → String → Except ResolveError (List UInt8) → Prop

def SecretCall.step (env : Surroundings) (t : Tree) : (c : SecretCall) → c.Ret → Tree → Prop
  | .job id, r, t' => env.job id r ∧ t' = t
  | .resolve projectID name, r, t' => env.resolve projectID name r ∧ t' = t
  | .recordSecretAccess _ _ _, _, t' => t' = t
  | .files c, r, t' => Files.step t c r t'

/-! ## Preparation and removal -/

def manifestBinding (index : Nat) (binding : SecretBinding) : ManifestBinding :=
  ⟨binding.name, valueFile index binding.name, binding.environment, binding.file⟩

namespace Manager

variable (cfg : SecretsConfig)

def recordAccess (job : Job) (name : String) : Sec Err Unit :=
  if cfg.hasAccess then
    Sec.wrapping ("record access to job secret " ++ name.quote) (Sec.recordSecretAccess job.projectID job.id name)
  else pure ()

/-- The loop of `Prepare` over the bindings, from number `index` on; `data` are the entries so far. -/
def materialize (job : Job) (temporary : Path) :
    Nat → List SecretBinding → List ManifestBinding → Sec Err (List ManifestBinding)
  | _, [], data => pure data
  | index, binding :: rest, data => do
    let value ← Fallible.mapError (ResolveError.err binding.name) (Sec.resolve job.projectID binding.name)
    if value.length = 0 ∨ maximumValueSize < value.length then
      Fallible.throw (resolutionError binding.name "value is invalid" errInvalidValue true)
    else do
      Sec.wrapping ("materialize job secret " ++ binding.name.quote)
        (Sec.writeFile (temporary.extend (valueFile index binding.name).toList) value)
      recordAccess cfg job binding.name
      materialize job temporary (index + 1) rest (data ++ [manifestBinding index binding])

/-- What `Prepare` does between making the temporary directory and removing it. -/
def publish (codec : ManifestCodec) (job : Job) (jobDirectory temporary : Path) : Sec Err Unit := do
  Sec.chmod temporary
  let data ← materialize cfg job temporary 0 (job.secrets.getD []) []
  Sec.wrapping "write job secret manifest" (Sec.writeFile (temporary.extend manifestName.toList) (codec.marshal data))
  let destination := jobDirectory.extend "secrets".toList
  Sec.removeAll destination
  Sec.wrapping "publish job secret material" (Sec.rename temporary destination)

def jobDirectory (id : String) : Path := pathOf (joinPath [cfg.jobsRoot, id])

/-- `Manager.Prepare` of an operation. -/
def prepare (codec : ManifestCodec) (op : Op) : Sec Err Unit :=
  if op.kind ≠ .job then pure ()
  else if !cfg.hasStore || !cfg.hasResolver || cfg.jobsRoot == "" then
    Fallible.throw (.new "job secret manager is not configured")
  else do
    let job ← Sec.job op.id
    if (job.secrets.getD []).length = 0 then pure ()
    else do
      let directory := jobDirectory cfg job.id
      Sec.wrapping "prepare job secret directory" (Sec.mkdirAll directory)
      let temporary ← Sec.wrapping "prepare job secret directory" (Sec.mkdirTemp directory ".secrets-")
      let result ← Fallible.attempt (publish cfg codec job directory temporary)
      -- deferred; its error is dropped
      let _ ← Fallible.attempt (Sec.removeAll temporary)
      Fallible.ofExcept result

/-- `Manager.Cleanup` of an operation. -/
def cleanup (op : Op) : Sec Err Unit :=
  if op.kind ≠ .job ∨ cfg.jobsRoot = "" then pure ()
  else Sec.removeAll (pathOf (joinPath [cfg.jobsRoot, op.id, "secrets"]))

end Manager

/-! ## In the container -/

structure RuntimeValues where
  (values environment : List (List UInt8))
  deriving DecidableEq

def loadBinding (t : Tree) (directory : Path) (result : RuntimeValues) (binding : ManifestBinding) :
    Except Err RuntimeValues :=
  if Path.base binding.source.toList ≠ binding.source.toList ∨ containsText binding.source ".." then
    .error (.new "job secret manifest contains an invalid source")
  else
    match t (directory.extend binding.source.toList) with
    | some (.file value) => .ok
      { values := result.values ++ [value]
        environment := if binding.environment ≠ "" then
            result.environment ++ [Text.assign equalsSign (bytes binding.environment, value)]
          else result.environment }
    | _ => .error (.new ("read job secret " ++ binding.name.quote))

def loadRuntime (codec : ManifestCodec) (t : Tree) (directory : Path) : Except Err RuntimeValues :=
  match t (directory.extend manifestName.toList) with
  | none => .ok ⟨[], []⟩
  | some .directory => .error (.new "read job secret manifest")
  | some (.file payload) =>
    match codec.unmarshal payload with
    | none => .error (.new "decode job secret manifest")
    | some bindings => bindings.foldlM (loadBinding t directory) ⟨[], []⟩

/-! ## The names of the files -/

theorem fileNumber_digits {index : Nat} {c : Char} (hc : c ∈ (fileNumber index).toList) : c.isDigit = true := by
  rw [fileNumber, String.toList_append, List.mem_append, String.toList_ofList, Nat.toList_repr] at hc
  rcases hc with hc | hc
  · rw [List.eq_of_mem_replicate hc]
    rfl
  · exact Nat.isDigit_of_mem_toDigits (by decide) (by decide) hc

variable {name : String}

theorem cacheNamePattern_chars (h : cacheNamePattern name = true) {c : Char} (hc : c ∈ name.toList) :
    (c.isLower || c.isDigit || c == '.' || c == '_' || c == '-') = true := by
  unfold cacheNamePattern at h
  split at h
  · cases h
  rename_i c' cs hname
  simp only [Bool.and_eq_true, List.all_eq_true] at h
  rw [hname] at hc
  rcases List.mem_cons.mp hc with rfl | hc
  · simp [h.1.1]
  · exact h.2 c hc

theorem valueFile_toList (index : Nat) (name : String) :
    (valueFile index name).toList = (fileNumber index).toList ++ '-' :: name.toList := by
  rw [valueFile, String.toList_append, String.toList_append, List.append_assoc]
  rfl

theorem valueFile_isName (index : Nat) (h : cacheNamePattern name = true) :
    Text.IsName (valueFile index name).toList := by
  rw [valueFile_toList]
  have hdash : '-' ∈ (fileNumber index).toList ++ '-' :: name.toList := by simp
  refine ⟨by simp, ?_, ?_, ?_⟩
  · intro heq
    rw [heq] at hdash
    exact absurd hdash (by decide)
  · intro heq
    rw [heq] at hdash
    exact absurd hdash (by decide)
  intro hslash
  rcases List.mem_append.mp hslash with hslash | hslash
  · exact absurd (fileNumber_digits hslash) (by decide)
  rcases List.mem_cons.mp hslash with hslash | hslash
  · exact absurd hslash (by decide)
  · exact absurd (cacheNamePattern_chars h hslash) (by decide)

theorem fileNumber_injective {i j : Nat} (h : fileNumber i = fileNumber j) : i = j := by
  have hread : ∀ k, Nat.ofDigitChars 10 (fileNumber k).toList 0 = k := by
    intro k
    rw [fileNumber, String.toList_append, String.toList_ofList, Nat.toList_repr, Nat.ofDigitChars_append,
      Nat.ofDigitChars_replicate_zero, Nat.mul_zero, Nat.ofDigitChars_ten_toDigits]
  rw [← hread i, h, hread]

theorem valueFile_injective {i j : Nat} {name' : String} (h : valueFile i name = valueFile j name') : i = j := by
  have hdigest : ∀ k (name : String), (valueFile k name).toList.takeWhile Char.isDigit = (fileNumber k).toList := by
    intro k name
    rw [valueFile_toList, List.takeWhile_append_of_pos fun c hc => fileNumber_digits hc]
    simp
  apply fileNumber_injective
  rw [← String.toList_inj, ← hdigest i name, h, hdigest]

theorem valueFile_ne_manifestName (index : Nat) (name : String) : valueFile index name ≠ manifestName := by
  intro heq
  have hlist := congrArg String.toList heq
  rw [valueFile_toList] at hlist
  cases hnumber : (fileNumber index).toList with
  | nil =>
    rw [hnumber] at hlist
    exact absurd (List.cons.inj hlist).1 (by decide)
  | cons c cs =>
    rw [hnumber] at hlist
    have hdigest : c.isDigit = true := @fileNumber_digits index c (by simp [hnumber])
    rw [(List.cons.inj hlist).1] at hdigest
    exact absurd hdigest (by decide)

namespace Manager

def published (d : Path) : Path := d.child "secrets".toList (by decide)

theorem extend_secrets (d : Path) : d.extend "secrets".toList = published d := d.extend_name _

theorem pathOf_secrets {cfg : SecretsConfig} (hroot : cfg.jobsRoot ≠ "") (id : String) (rest : List String) :
    pathOf (joinPath (cfg.jobsRoot :: id :: "secrets" :: rest)) =
      rest.foldl (fun p s => p.extend s.toList) (published (jobDirectory cfg id)) := by
  rw [jobDirectory, pathOf_joinPath hroot, pathOf_joinPath hroot, List.foldl_cons, List.foldl_cons, extend_secrets]
  rfl

/-! ## A preparation up to its first value -/

def sampleSecrets : SecretsConfig := ⟨"/var/lib/autback/jobs", true, true, false⟩

def secretJob (name : String) : Job :=
  ⟨"job", "project", "image", none, "", none, "", .queued, 0, 0, none, none, none, "", false, "", none,
    some [⟨name, "TOKEN", ""⟩]⟩

def sampleSurroundings (name : String) : Surroundings where
  job id r := id = "job" ∧ r = .ok (secretJob name)
  resolve _ _ r := r = .ok [115]

def sampleDirectory : Path := jobDirectory sampleSecrets "job"

def sampleTemporary : Path := sampleDirectory.child ".secrets-1".toList (by decide)

def sampleValueFile (name : String) : Path := sampleTemporary.extend (valueFile 0 name).toList

def sampleTrace (name : String) : SecretTrace :=
  [⟨.job "job", .ok (secretJob name)⟩, ⟨.files (.mkdirAll sampleDirectory), .ok ()⟩,
    ⟨.files (.mkdirTemp sampleDirectory ".secrets-".toList), .ok sampleTemporary⟩, ⟨.files (.chmod sampleTemporary), .ok ()⟩,
    ⟨.resolve "project" name, .ok [115]⟩]

def sampleTree : Tree := (Tree.makeDirectories (fun _ => none) sampleDirectory).put sampleTemporary .directory

theorem sample_steps {name : String} {tr : SecretTrace} {t : Tree}
    (h : Steps (SecretCall.step (sampleSurroundings name)) sampleTree tr t) :
    Steps (SecretCall.step (sampleSurroundings name)) (fun _ => none) (sampleTrace name ++ tr) t := by
  have hfree : (Tree.makeDirectories (fun _ => none) sampleDirectory).Free sampleTemporary := by
    intro q hq
    exact if_neg fun habove => Path.not_within_of_child hq habove.1
  have htemp : Files.step (Tree.makeDirectories (fun _ => none) sampleDirectory)
      (.mkdirTemp sampleDirectory ".secrets-".toList) (.ok sampleTemporary : Except Err Path) sampleTree :=
    ⟨_, _, by decide, rfl, if_pos ⟨.refl _, rfl⟩, hfree, rfl⟩
  have hmake : Files.step (fun _ => none) (.mkdirAll sampleDirectory) (.ok () : Except Err Unit)
      (Tree.makeDirectories (fun _ => none) sampleDirectory) :=
    ⟨fun _ _ _ => nofun, rfl⟩
  exact .cons ⟨⟨rfl, rfl⟩, rfl⟩ (.cons hmake (.cons htemp (.cons rfl (.cons ⟨rfl, rfl⟩ h))))

end Manager

end Autback
