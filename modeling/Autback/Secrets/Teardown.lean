import Autback.Secrets.Manager

/-!
# Secrets that are left behind

A preparation that is cut off between the first value and the renaming of its directory leaves that directory behind, and
`Manager.Cleanup` does not look for it (`cleanup_leaves_value`). Where no preparation is left so, a job directory has after the
cleanup only files that it had before the preparations (`cleanup_removes`). The proof follows a preparation call by call: from the
making of its temporary directory on, all new files are in that directory or in the published one (`Busy`).
-/

namespace Autback

namespace Manager

open Conc
open Files (Tree)
open Text (Path IsName)

/-- The preparation has written nothing, or it has renamed its directory, or it has removed it. -/
def Settled (tr : SecretTrace) : Prop :=
  (∀ p data r, (⟨.files (.writeFile p data), r⟩ : Σ c, SecretCall.Ret c) ∉ tr) ∨
  (∃ src dst, (⟨.files (.rename src dst), .ok ()⟩ : Σ c, SecretCall.Ret c) ∈ tr) ∨
  ∃ dir first temporary, (⟨.files (.mkdirTemp dir first), .ok temporary⟩ : Σ c, SecretCall.Ret c) ∈ tr ∧
    (⟨.files (.removeAll temporary), .ok ()⟩ : Σ c, SecretCall.Ret c) ∈ tr

/-- The store has the job that is asked for, with bindings that `validateSecrets` accepted. -/
def Accepting (env : Surroundings) : Prop :=
  ∀ id job, env.job id (.ok job) →
    job.id = id ∧ ∃ input environment, validateSecrets input environment = .ok (job.secrets.getD [])

def Prepared (cfg : SecretsConfig) (codec : ManifestCodec) (op : Op) (tr : SecretTrace) (t t' : Tree) : Prop :=
  ∃ env, Accepting env ∧ (∃ rest, Prog.After (prepare cfg codec op) tr rest) ∧ Steps (SecretCall.step env) t tr t'

/-- A path below the job's directory `d` but not below the published directory. -/
def Outside (d q : Path) : Prop := d.Within q ∧ ¬ (published d).Within q

section Walk

variable {env : Surroundings} {d temporary : Path} {t t' t0 : Tree} {tr : SecretTrace}

/-- Once the preparation is settled, no file outside is new. -/
def Clean (t0 : Tree) (d : Path) (s : Tree × SecretTrace) : Prop := Settled s.2 → s.1.FilesFrom t0 (Outside d)

/-- `Prepare` is at work: all new files are below its temporary directory, which it has neither published nor removed. -/
structure Busy (t0 : Tree) (d temporary : Path) (s : Tree × SecretTrace) : Prop where
  apart : ∀ q, temporary.Within q → ¬ (published d).Within q
  files : s.1.FilesFrom t0 fun q => Outside d q ∧ ¬ temporary.Within q
  unwritten : (∀ p data r, (⟨.files (.writeFile p data), r⟩ : Σ c, SecretCall.Ret c) ∉ s.2) → s.1.FilesFrom t0 (Outside d)
  made : ∀ dir first p, (⟨.files (.mkdirTemp dir first), .ok p⟩ : Σ c, SecretCall.Ret c) ∈ s.2 → p = temporary
  unmoved : ∀ src dst, (⟨.files (.rename src dst), .ok ()⟩ : Σ c, SecretCall.Ret c) ∉ s.2
  unremoved : (⟨.files (.removeAll temporary), .ok ()⟩ : Σ c, SecretCall.Ret c) ∉ s.2

variable {s : Tree × SecretTrace} {c : SecretCall} {r : c.Ret}

theorem Busy.clean (h : Busy t0 d temporary s) : Clean t0 d s := by
  rintro (hsettled | ⟨src, dst, hmem⟩ | ⟨dir, first, p, hmade, hrem⟩)
  · exact h.unwritten hsettled
  · exact absurd hmem (h.unmoved src dst)
  rw [h.made dir first p hmade] at hrem
  exact absurd hrem h.unremoved

def Tame (d temporary : Path) : (c : SecretCall) → c.Ret → Prop
  | .files (.mkdirTemp _ _), _ => False
  | .files (.writeFile p _), _ => temporary.Within p
  | .files (.removeAll p), .ok _ => p ≠ temporary
  | .files (.rename _ _), .ok _ => False
  | .files (.rename _ dst), .error _ => dst = published d
  | _, _ => True

theorem step_file {q : Path} {data : List UInt8} (h : c.step env t r t') (hfile : t' q = some (.file data)) :
    t q = some (.file data) ∨ (∃ written, c = .files (.writeFile q written)) ∨
      ∃ src dst, c = .files (.rename src dst) ∧ dst.Within q := by
  cases c with
  | job id =>
    obtain ⟨-, rfl⟩ := h
    exact .inl hfile
  | resolve projectID name =>
    obtain ⟨-, rfl⟩ := h
    exact .inl hfile
  | recordSecretAccess projectID jobID name =>
    cases (h : t' = t)
    exact .inl hfile
  | files c =>
    rcases Files.step_file h hfile with hold | ⟨written, rfl⟩ | ⟨src, dst, rfl, hdst⟩
    · exact .inl hold
    · exact .inr (.inl ⟨written, rfl⟩)
    · exact .inr (.inr ⟨src, dst, rfl, hdst⟩)

theorem filesFrom_step {A : Path → Prop} (h : t.FilesFrom t0 A) (hstep : c.step env t r t')
    (hwrite : ∀ q data, c = .files (.writeFile q data) → ¬ A q)
    (hmove : ∀ src dst q, c = .files (.rename src dst) → dst.Within q → ¬ A q) : t'.FilesFrom t0 A := by
  intro q data hq hfile
  rcases step_file hstep hfile with hold | ⟨written, hc⟩ | ⟨src, dst, hc, hdst⟩
  · exact h q data hq hold
  · exact absurd hq (hwrite q written hc)
  · exact absurd hq (hmove src dst q hc hdst)

theorem Busy.keep {s' : Tree × SecretTrace} (h : Busy t0 d temporary s) (hstep : recorded (SecretCall.step env) s c r s')
    (htame : Tame d temporary c r) : Busy t0 d temporary s' := by
  obtain ⟨t, tr⟩ := s
  obtain ⟨t', tr'⟩ := s'
  obtain ⟨hstep, rfl⟩ := hstep
  have hmove : ∀ src dst q, c = .files (.rename src dst) → dst.Within q → ¬ Outside d q := by
    rintro src dst q rfl hdst hq
    cases r with
    | ok _ => exact htame
    | error _ => exact hq.2 ((show dst = published d from htame) ▸ hdst)
  refine ⟨h.apart, ?_, ?_, ?_, ?_, ?_⟩
  · refine filesFrom_step h.files hstep ?_ fun src dst q hc hdst hq => hmove src dst q hc hdst hq.1
    rintro q data rfl hq
    exact hq.2 htame
  · intro hnone
    refine filesFrom_step (h.unwritten fun p data r hmem => hnone p data r (List.mem_append_left _ hmem)) hstep ?_ hmove
    rintro q data rfl
    exact absurd (List.mem_append_right _ List.mem_cons_self) (hnone q data r)
  · intro dir first p hmem
    rcases List.mem_append.mp hmem with hmem | hmem
    · exact h.made dir first p hmem
    cases List.mem_singleton.mp hmem
    exact htame.elim
  · intro src dst hmem
    rcases List.mem_append.mp hmem with hmem | hmem
    · exact h.unmoved src dst hmem
    cases List.mem_singleton.mp hmem
    exact htame
  · intro hmem
    rcases List.mem_append.mp hmem with hmem | hmem
    · exact h.unremoved hmem
    cases List.mem_singleton.mp hmem
    exact htame rfl

/-- No file outside is new. -/
def Kept (t0 : Tree) (d : Path) (s : Tree × SecretTrace) : Prop := s.1.FilesFrom t0 (Outside d)

theorem Kept.clean (h : Kept t0 d s) : Clean t0 d s := fun _ => h

section Programs

variable {s : Tree × SecretTrace}

theorem busy_ask {c : SecretCall} (h : Busy t0 d temporary s) (htame : ∀ r, Tame d temporary c r) :
    Prog.Always (recorded (SecretCall.step env)) (Clean t0 d) s (Sec.ask c) fun s' _ => Busy t0 d temporary s' := by
  refine Prog.always_lift h.clean fun r s' hstep => ?_
  have h' := h.keep hstep (htame r)
  exact ⟨h'.clean, h'⟩

theorem busy_recordAccess (cfg : SecretsConfig) (job : Job) (name : String) (h : Busy t0 d temporary s) :
    Prog.Always (recorded (SecretCall.step env)) (Clean t0 d) s (recordAccess cfg job name)
      fun s' _ => Busy t0 d temporary s' := by
  refine Prog.always_ite (fun _ => ?_) fun _ => ⟨h.clean, h⟩
  exact always_mapError (busy_ask h fun _ => trivial)

theorem busy_materialize (cfg : SecretsConfig) (job : Job) (bindings : List SecretBinding) (index : Nat)
    (data : List ManifestBinding) (hnam : ∀ b ∈ bindings, cacheNamePattern b.name = true) (h : Busy t0 d temporary s) :
    Prog.Always (recorded (SecretCall.step env)) (Clean t0 d) s (materialize cfg job temporary index bindings data)
      fun s' _ => Busy t0 d temporary s' := by
  induction bindings generalizing index data s with
  | nil => exact ⟨h.clean, h⟩
  | cons binding bindings ih =>
    refine always_seq (fun _ => id) (always_mapError (busy_ask h fun _ => trivial)) fun value s' h' => ?_
    refine Prog.always_ite (fun _ => ⟨h'.clean, h'⟩) fun _ => ?_
    have hname := valueFile_isName index (hnam binding List.mem_cons_self)
    have hwithin : temporary.Within (temporary.extend (valueFile index binding.name).toList) := by
      rw [Path.extend_name temporary hname]
      exact temporary.within_child hname
    refine always_seq (fun _ => id) (always_mapError (busy_ask h' fun _ => hwithin)) fun _ s'' h'' => ?_
    refine always_seq (fun _ => id) (busy_recordAccess cfg job binding.name h'') fun _ s3 h3 => ?_
    exact ih _ _ (fun b hb => hnam b (List.mem_cons_of_mem _ hb)) h3

variable {s' : Tree × SecretTrace}

theorem Busy.renamed (h : Busy t0 d temporary s)
    (hstep : recorded (SecretCall.step env) s (.files (.rename temporary (published d))) (.ok ()) s') : Kept t0 d s' := by
  obtain ⟨-, -, -, hmove⟩ := hstep.1
  intro q data hq hfile
  by_cases hin : temporary.Within q
  · rw [hmove, Tree.move, if_neg hq.2, if_pos hin] at hfile
    cases hfile
  refine filesFrom_step h.files hstep.1 (by simp) ?_ q data ⟨hq, hin⟩ hfile
  rintro src dst q hc hdst hq
  cases hc
  exact hq.1.2 hdst

theorem Busy.removed (h : Busy t0 d temporary s)
    (hstep : recorded (SecretCall.step env) s (.files (.removeAll temporary)) (.ok ()) s') : Kept t0 d s' := by
  have hclean : s'.1 = s.1.clear temporary := hstep.1
  intro q data hq hfile
  by_cases hin : temporary.Within q
  · rw [hclean, Tree.free_clear _ _ q hin] at hfile
    cases hfile
  rw [hclean, Tree.clear_of_not_within hin] at hfile
  exact h.files q data ⟨hq, hin⟩ hfile

theorem Kept.step (h : Kept t0 d s) {c : SecretCall} {r : c.Ret} (hstep : recorded (SecretCall.step env) s c r s')
    (hwrite : ∀ q data, c ≠ .files (.writeFile q data)) (hmove : ∀ src dst, c ≠ .files (.rename src dst)) : Kept t0 d s' :=
  filesFrom_step h hstep.1 (fun q data hc => absurd hc (hwrite q data)) fun src dst _ hc => absurd hc (hmove src dst)

theorem busy_publish (cfg : SecretsConfig) (codec : ManifestCodec) {job : Job}
    (hname : ∀ b ∈ job.secrets.getD [], cacheNamePattern b.name = true) (h : Busy t0 d temporary s) :
    Prog.Always (recorded (SecretCall.step env)) (Clean t0 d) s (publish cfg codec job d temporary)
      fun s' _ => Busy t0 d temporary s' ∨ Kept t0 d s' := by
  have hmanifest : IsName manifestName.toList := by decide
  have hwithin : temporary.Within (temporary.extend manifestName.toList) := by
    rw [Path.extend_name temporary hmanifest]
    exact temporary.within_child hmanifest
  have hne : published d ≠ temporary := fun heq => h.apart temporary (.refl temporary) (heq ▸ .refl temporary)
  have hbusy : ∀ s', Busy t0 d temporary s' → Busy t0 d temporary s' ∨ Kept t0 d s' := fun _ => .inl
  rw [publish, extend_secrets]
  refine always_seq hbusy (busy_ask h fun _ => trivial) fun _ s1 h1 => ?_
  refine always_seq hbusy (busy_materialize cfg job _ _ _ hname h1) fun data s2 h2 => ?_
  refine always_seq hbusy (always_mapError (busy_ask h2 fun _ => hwithin)) fun _ s3 h3 => ?_
  refine always_seq hbusy (busy_ask h3 fun r => ?_) fun _ s4 h4 => ?_
  · cases r with
    | ok _ => exact hne
    | error _ => exact trivial
  refine always_mapError (Prog.always_lift h4.clean fun r s5 hstep => ?_)
  cases r with
  | ok _ =>
    have h5 := h4.renamed hstep
    exact ⟨h5.clean, .inr h5⟩
  | error _ =>
    have h5 := h4.keep hstep rfl
    exact ⟨h5.clean, .inl h5⟩

/-- No directory has been made, published or removed yet. -/
def Early (tr : SecretTrace) : Prop :=
  (∀ dir first r, (⟨.files (.mkdirTemp dir first), r⟩ : Σ c, SecretCall.Ret c) ∉ tr) ∧
  (∀ src dst r, (⟨.files (.rename src dst), r⟩ : Σ c, SecretCall.Ret c) ∉ tr) ∧
  ∀ p r, (⟨.files (.removeAll p), r⟩ : Σ c, SecretCall.Ret c) ∉ tr

theorem Kept.busy (h : Kept t0 d s) (hearly : Early s.2)
    (hstep : recorded (SecretCall.step env) s (.files (.mkdirTemp d ".secrets-".toList)) (.ok temporary) s') :
    Busy t0 d temporary s' := by
  have h' : Kept t0 d s' := h.step hstep (by simp) (by simp)
  obtain ⟨⟨n, hn, hfirst, rfl, -⟩, htr⟩ := hstep
  have hne : n ≠ "secrets".toList := by
    rintro rfl
    exact absurd hfirst (by decide)
  refine ⟨fun q hq => Path.not_within_sibling hne hq, fun q data hq => h' q data hq.1, fun _ => h', ?_, ?_, ?_⟩
  · intro dir first p hmem
    rw [htr] at hmem
    rcases List.mem_append.mp hmem with hmem | hmem
    · exact absurd hmem (hearly.1 dir first _)
    cases List.mem_singleton.mp hmem
    rfl
  · intro src dst hmem
    rw [htr] at hmem
    rcases List.mem_append.mp hmem with hmem | hmem
    · exact hearly.2.1 src dst _ hmem
    · cases List.mem_singleton.mp hmem
  intro hmem
  rw [htr] at hmem
  rcases List.mem_append.mp hmem with hmem | hmem
  · exact hearly.2.2 _ _ hmem
  · cases List.mem_singleton.mp hmem

theorem clean_removeAll (h : Busy t0 d temporary s ∨ Kept t0 d s) :
    Prog.Always (recorded (SecretCall.step env)) (Clean t0 d) s (Sec.removeAll temporary) fun s' _ => Clean t0 d s' := by
  have hclean : Clean t0 d s := h.elim Busy.clean Kept.clean
  refine Prog.always_lift hclean fun r s' hstep => ?_
  have hclean' : Clean t0 d s' := by
    rcases h with h | h
    · cases r with
      | ok _ => exact (h.removed hstep).clean
      | error _ => exact (h.keep hstep trivial).clean
    · exact (h.step hstep (by simp) (by simp)).clean
  exact ⟨hclean', hclean'⟩

theorem clean_prepare (cfg : SecretsConfig) (codec : ManifestCodec) (op : Op)
    (henv : Accepting env)
    (h : t.FilesFrom t0 (Outside (jobDirectory cfg op.id))) :
    Prog.Always (recorded (SecretCall.step env)) (Clean t0 (jobDirectory cfg op.id)) (t, []) (prepare cfg codec op)
      fun _ _ => True := by
  have hkept : Kept t0 (jobDirectory cfg op.id) (t, []) := h
  refine Prog.always_ite (fun _ => ⟨hkept.clean, trivial⟩) fun _ => ?_
  refine Prog.always_ite (fun _ => ⟨hkept.clean, trivial⟩) fun _ => ?_
  refine always_try (Prog.always_lift hkept.clean fun r s1 hjob => ?_)
  have h1 : Kept t0 (jobDirectory cfg op.id) s1 := hkept.step hjob (by simp) (by simp)
  refine ⟨h1.clean, ?_⟩
  cases r with
  | error e => exact trivial
  | ok job =>
    obtain ⟨hid, input, environment, hacc⟩ := henv _ _ hjob.1.1
    have hname : ∀ b ∈ job.secrets.getD [], cacheNamePattern b.name = true := fun b hb =>
      ((validateSecrets_secrets hacc).valid b hb).name
    refine Prog.always_ite (fun _ => ⟨h1.clean, trivial⟩) fun _ => ?_
    rw [hid]
    refine always_try (always_mapError (Prog.always_lift h1.clean fun r s2 hmake => ?_))
    have h2 : Kept t0 (jobDirectory cfg op.id) s2 := h1.step hmake (by simp) (by simp)
    refine ⟨h2.clean, ?_⟩
    cases r with
    | error e => exact trivial
    | ok _ =>
      refine always_try (always_mapError (Prog.always_lift h2.clean fun r s3 htemp => ?_))
      have h3 : Kept t0 (jobDirectory cfg op.id) s3 := h2.step htemp (by simp) (by simp)
      refine ⟨h3.clean, ?_⟩
      cases r with
      | error e => exact trivial
      | ok temporary =>
        have hearly : Early s2.2 := by
          rw [hmake.2, hjob.2]
          refine ⟨?_, ?_, ?_⟩ <;> intros <;> simp
        have hbusy := h2.busy hearly htemp
        refine always_try (always_attempt ((busy_publish cfg codec hname hbusy).mono fun s4 result _ h4 => ?_))
        refine always_try (always_attempt ((clean_removeAll h4).mono fun s5 _ _ h5 => ?_))
        exact ⟨h5, trivial⟩

end Programs

end Walk

variable {cfg : SecretsConfig} {codec : ManifestCodec} {op : Op} {t t' : Tree}

theorem prepare_idle {tr : SecretTrace} (hidle : op.kind ≠ .job ∨ cfg.jobsRoot = "") (h : Prepared cfg codec op tr t t') :
    t' = t := by
  obtain ⟨env, -, ⟨rest, hafter⟩, hstep⟩ := h
  have hret : ∃ r, prepare cfg codec op = Prog.ret r := by
    unfold prepare
    by_cases hkind : op.kind ≠ .job
    · exact ⟨_, if_pos hkind⟩
    have hroot : (!cfg.hasStore || !cfg.hasResolver || cfg.jobsRoot == "") = true := by simp [hidle.resolve_left hkind]
    rw [if_neg hkind, if_pos hroot]
    exact ⟨_, rfl⟩
  obtain ⟨r, hret⟩ := hret
  rw [hret] at hafter
  obtain ⟨rfl, -⟩ := hafter.of_ret
  cases hstep
  rfl

theorem prepare_kept {tr : SecretTrace} {t0 : Tree} (h : Prepared cfg codec op tr t t') (hsettled : Settled tr)
    (hkept : t.FilesFrom t0 (Outside (jobDirectory cfg op.id))) : t'.FilesFrom t0 (Outside (jobDirectory cfg op.id)) := by
  obtain ⟨env, henv, ⟨rest, hafter⟩, hstep⟩ := h
  exact ((clean_prepare cfg codec op henv hkept).of_after hafter (hstep.recorded [])).now hsettled

inductive Prepares (cfg : SecretsConfig) (codec : ManifestCodec) (op : Op) (t : Tree) : Tree → Prop
  | none : Prepares cfg codec op t t
  | more {t' t'' : Tree} {tr : SecretTrace} (h : Prepares cfg codec op t t') (hrun : Prepared cfg codec op tr t' t'')
      (hsettled : Settled tr) : Prepares cfg codec op t t''

theorem Prepares.idle (h : Prepares cfg codec op t t') (hidle : op.kind ≠ .job ∨ cfg.jobsRoot = "") : t' = t := by
  induction h with
  | none => rfl
  | more _ hrun _ ih => exact (prepare_idle hidle hrun).trans ih

theorem Prepares.kept (h : Prepares cfg codec op t t') : t'.FilesFrom t (Outside (jobDirectory cfg op.id)) := by
  induction h with
  | none => exact fun _ _ _ hfile => hfile
  | more _ hrun hsettled ih => exact prepare_kept hrun hsettled ih

/-- After any number of preparations, none of which leaves its directory behind, a cleanup that succeeds leaves no file in the
directory of the job that was not there before them. -/
theorem cleanup_removes (cfg : SecretsConfig) (codec : ManifestCodec) (op : Op) {env : Surroundings} {tr : SecretTrace}
    {t t' t'' : Tree} (hruns : Prepares cfg codec op t t')
    (hcleanup : Prog.Runs (cleanup cfg op) tr (.ok ())) (hsteps : Steps (SecretCall.step env) t' tr t'') :
    t''.FilesFrom t (jobDirectory cfg op.id).Within := by
  unfold cleanup at hcleanup
  by_cases hidle : op.kind ≠ .job ∨ cfg.jobsRoot = ""
  · rw [if_pos hidle] at hcleanup
    obtain ⟨rfl, -⟩ := Prog.runs_ret.mp hcleanup
    cases hsteps
    cases hruns.idle hidle
    exact fun _ _ _ hfile => hfile
  have hkept := hruns.kept
  have hroot : cfg.jobsRoot ≠ "" := fun hroot => hidle (.inr hroot)
  rw [if_neg hidle, pathOf_secrets hroot op.id [], List.foldl_nil] at hcleanup
  cases Prog.Runs.eq_of_lift hcleanup
  cases hsteps with
  | cons hstep hnil =>
    cases hnil
    cases (hstep : t'' = t'.clear _)
    intro q data hq hfile
    by_cases hin : (published (jobDirectory cfg op.id)).Within q
    · rw [Tree.free_clear _ _ q hin] at hfile
      cases hfile
    rw [Tree.clear_of_not_within hin] at hfile
    exact hkept q data ⟨hq, hin⟩ hfile

/-! ## A preparation that is cut off -/

theorem sample_accepting : Accepting (sampleSurroundings "token") := by
  rintro id job ⟨rfl, hjob⟩
  cases hjob
  exact ⟨rfl, [some ⟨"token", some (.environment "TOKEN")⟩], ∅, by decide +kernel⟩

theorem sample_after : ∃ k, Prog.After (prepare sampleSecrets .numbered (jobOp "job")) (sampleTrace "token")
    (.call (.files (.writeFile (sampleValueFile "token") [115])) k) ∧
      ∀ e, ∃ k', k (.error e) = .call (.files (.removeAll sampleTemporary)) k' :=
  ⟨_, .cons _ (.cons _ (.cons _ (.cons _ (.cons _ (.nil _))))), fun _ => ⟨_, rfl⟩⟩

theorem sample_cleanup (t : Tree) : ∃ tr, Prog.Runs (cleanup sampleSecrets (jobOp "job")) tr (.ok ()) ∧
    Steps (SecretCall.step (sampleSurroundings "token")) t tr (t.clear (pathOf
      (joinPath ["/var/lib/autback/jobs", "job", "secrets"]))) :=
  ⟨_, Prog.runs_call.mpr ⟨.ok (), [], rfl, Prog.runs_ret.mpr ⟨rfl, rfl⟩⟩, .cons rfl (.nil _)⟩

/-- The value could not be written to its end, and the deferred removal succeeded. -/
theorem cleanup_removes_failed : ∃ t tr t', Prepares sampleSecrets .numbered (jobOp "job") (fun _ => none) t ∧
    Prog.Runs (cleanup sampleSecrets (jobOp "job")) tr (.ok ()) ∧ Steps (SecretCall.step (sampleSurroundings "token")) t tr t' ∧
    t'.FilesFrom (fun _ => none) (jobDirectory sampleSecrets "job").Within := by
  obtain ⟨k, hafter, hfailed⟩ := sample_after
  obtain ⟨k', hk'⟩ := hfailed (.new "no space")
  have hafter' := hafter.snoc (.error (.new "no space"))
  rw [hk'] at hafter'
  have hwrite : Files.step sampleTree (.writeFile (sampleValueFile "token") [115]) (.error (.new "no space") : Except Err Unit)
      (sampleTree.put (sampleValueFile "token") (.file [])) :=
    .inr ⟨[], by simp, rfl⟩
  have hremove : Files.step (sampleTree.put (sampleValueFile "token") (.file [])) (.removeAll sampleTemporary)
      (.ok () : Except Err Unit)
      ((sampleTree.put (sampleValueFile "token") (.file [])).clear sampleTemporary) := rfl
  have hsteps : Steps (SecretCall.step (sampleSurroundings "token")) (fun _ => none)
      (sampleTrace "token" ++ [⟨.files (.writeFile (sampleValueFile "token") [115]), .error (.new "no space")⟩] ++
        [⟨.files (.removeAll sampleTemporary), .ok ()⟩])
      ((sampleTree.put (sampleValueFile "token") (.file [])).clear sampleTemporary) := by
    rw [List.append_assoc]
    exact sample_steps (.cons hwrite (.cons hremove (.nil _)))
  have hsettled : Settled (sampleTrace "token" ++ [⟨.files (.writeFile (sampleValueFile "token") [115]), .error
      (.new "no space")⟩] ++
      [⟨.files (.removeAll sampleTemporary), .ok ()⟩]) :=
    .inr (.inr ⟨sampleDirectory, ".secrets-".toList, sampleTemporary, by simp [sampleTrace], by simp⟩)
  have hprepares := Prepares.more .none ⟨sampleSurroundings "token", sample_accepting, ⟨_, hafter'.snoc (.ok ())⟩,
      hsteps⟩ hsettled
  obtain ⟨tr, hcleanup, hcleared⟩ := sample_cleanup ((sampleTree.put (sampleValueFile "token") (.file [])).clear sampleTemporary)
  exact ⟨_, tr, _, hprepares, hcleanup, hcleared, cleanup_removes sampleSecrets .numbered
      (jobOp "job") hprepares hcleanup hcleared⟩

/-- The preparation is cut off when the value is written, and the cleanup succeeds. -/
theorem cleanup_leaves_value : ∃ tr t tr' t', Prepared sampleSecrets .numbered (jobOp "job") tr (fun _ => none) t ∧
    (⟨.resolve "project" "token", .ok [115]⟩ : Σ c, SecretCall.Ret c) ∈ tr ∧
    Prog.Runs (cleanup sampleSecrets (jobOp "job")) tr' (.ok ()) ∧ Steps (SecretCall.step (sampleSurroundings "token")) t tr' t' ∧
    (jobDirectory sampleSecrets "job").Within (sampleValueFile "token") ∧ t' (sampleValueFile "token") = some (.file [115]) := by
  obtain ⟨k, hafter, -⟩ := sample_after
  have hwrite : Files.step sampleTree (.writeFile (sampleValueFile "token") [115]) (.ok () : Except Err Unit)
      (sampleTree.put (sampleValueFile "token") (.file [115])) :=
    ⟨by decide +kernel, by decide +kernel, rfl⟩
  obtain ⟨tr, hcleanup, hcleared⟩ := sample_cleanup (sampleTree.put (sampleValueFile "token") (.file [115]))
  refine ⟨_, _, tr, _, ⟨sampleSurroundings "token", sample_accepting, ⟨_, hafter.snoc (.ok ())⟩, sample_steps
      (.cons hwrite (.nil _))⟩,
    ?_, hcleanup, hcleared, ?_, ?_⟩
  · simp [sampleTrace]
  · decide +kernel
  · decide +kernel

end Manager

end Autback
