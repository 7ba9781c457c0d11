import Autback.Access.Store
import Autback.Auth.History
import Autback.Conc.Events
import Autback.Server.Call
import Autback.Text.Wildcard

/-!
# GitHub trusts

A trust that matches was created for the selected project with exactly what it allows, and has not been revoked (`trust_sound`).
Its patterns match the claims in the declarative sense (`wildMatch_of_glob`): the matcher goes back to the star it met last, and
whatever it still accepts from there the star could have taken. It does not find every match (`glob_misses_star`).
-/

namespace Autback

namespace Auth

/-- Why a call of the store fails: by its own checks, or in the database. -/
inductive Failure
  | store (e : Error)
  | database
  deriving DecidableEq

def Api.connectError : Failure → ApiError
  | .store .unauthenticated => ⟨.unauthenticated, "unauthenticated"⟩
  | .store .forbidden => ⟨.permissionDenied, "forbidden"⟩
  | .store .notFound => ⟨.notFound, Err.notFound.text⟩
  | .store .alreadyExists => ⟨.alreadyExists, "already exists"⟩
  | _ => ⟨.internal, "internal autback error"⟩

end Auth

namespace Access

open Auth (Primitives Error)
open Text (WildMatch)

/-! ## The matcher -/

def Matches (pattern value : List Char) : Prop := WildMatch '?' '*' pattern value

theorem drop_eq_cons {α : Type} {l : List α} {i : Nat} {a : α} (h : l[i]? = some a) : l.drop i = a :: l.drop (i + 1) := by
  obtain ⟨hi, rfl⟩ := List.getElem?_eq_some_iff.mp h
  exact List.drop_eq_getElem_cons hi

theorem matches_of_globLoop {pattern value : List Char} {patternIndex valueIndex : Nat} {starIndex : Option Nat}
    {starValueIndex : Nat} {h : starValueIndex ≤ valueIndex}
    (hloop : globLoop pattern value patternIndex valueIndex starIndex starValueIndex h = true)
    (hhere : Matches (pattern.drop patternIndex) (value.drop valueIndex) → Matches pattern value)
    (hstar : ∀ i, starIndex = some i → ∀ k, starValueIndex ≤ k →
      Matches (pattern.drop (i + 1)) (value.drop k) → Matches pattern value) : Matches pattern value := by
  induction patternIndex, valueIndex, starIndex, starValueIndex, h using globLoop.induct pattern value with
  | case1 patternIndex valueIndex starIndex starValueIndex h hv hp ih =>
    rw [globLoop.eq_def, dif_pos hv, dif_pos hp] at hloop
    apply ih hloop _ hstar
    intro hrest
    apply hhere
    obtain ⟨hlt, heq⟩ := hp
    have hvalue := drop_eq_cons (List.getElem?_eq_getElem hv)
    have hpattern := drop_eq_cons (List.getElem?_eq_getElem hlt)
    rw [hvalue, hpattern]
    rw [List.getElem?_eq_getElem hlt, List.getElem?_eq_getElem hv] at heq
    rcases heq with heq | heq
    · rw [Option.some.inj heq]
      exact .one _ hrest
    rw [Option.some.inj heq]
    exact hrest.cons_self _
  | case2 patternIndex valueIndex starIndex starValueIndex h hv hp hs ih =>
    rw [globLoop.eq_def, dif_pos hv, dif_neg hp, dif_pos hs] at hloop
    -- the new star takes nothing for now, and may take any part of the rest
    have htak : ∀ k, valueIndex ≤ k → Matches (pattern.drop (patternIndex + 1)) (value.drop k) → Matches pattern value := by
      intro k hk hrest
      apply hhere
      rw [drop_eq_cons hs.2]
      exact hrest.drop_many hk
    apply ih hloop (htak valueIndex (Nat.le_refl _))
    intro i hi k hk hrest
    cases hi
    exact htak k hk hrest
  | case3 patternIndex valueIndex starValueIndex h hv hp hs starIndex ih =>
    rw [globLoop.eq_def, dif_pos hv, dif_neg hp, dif_neg hs] at hloop
    apply ih hloop
    · intro hrest
      exact hstar starIndex rfl _ (Nat.le_succ _) hrest
    intro i hi k hk hrest
    exact hstar i hi k (by omega) hrest
  | case4 patternIndex valueIndex starValueIndex h hv hp hs =>
    rw [globLoop.eq_def, dif_pos hv, dif_neg hp, dif_neg hs] at hloop
    cases hloop
  | case5 patternIndex valueIndex starIndex starValueIndex h hv =>
    rw [globLoop.eq_def, dif_neg hv] at hloop
    apply hhere
    rw [List.drop_eq_nil_of_le (Nat.le_of_not_lt hv)]
    apply WildMatch.of_all_many
    intro c hc
    simpa using List.all_eq_true.mp hloop c hc

theorem wildMatch_of_glob {pattern value : String} (h : glob pattern value = true) :
    Matches pattern.toList value.toList := by
  apply matches_of_globLoop h
  · intro hrest
    exact hrest
  intro i hi
  cases hi

/-! ### What the matcher finds

The first case of the loop compares a star of the pattern with the element of the value before the second case takes it as a
wildcard. So a star in the value uses up a star of the pattern, and there is nothing to go back to (`glob_misses_star`). Without
one the matcher finds every match (`glob_of_wildMatch`). -/

theorem not_matches_of_stuck {pattern value : List Char} {patternIndex valueIndex : Nat} (hv : valueIndex < value.length)
    (hp : ¬ (patternIndex < pattern.length ∧
      (pattern[patternIndex]? = some '?' ∨ pattern[patternIndex]? = value[valueIndex]?)))
    (hs : ¬ (patternIndex < pattern.length ∧ pattern[patternIndex]? = some '*')) :
    ¬ Matches (pattern.drop patternIndex) (value.drop valueIndex) := by
  intro hmatch
  rw [drop_eq_cons (List.getElem?_eq_getElem hv)] at hmatch
  by_cases hlt : patternIndex < pattern.length
  · rw [drop_eq_cons (List.getElem?_eq_getElem hlt)] at hmatch
    simp only [hlt, true_and, List.getElem?_eq_getElem hlt, List.getElem?_eq_getElem hv, Option.some.injEq] at hp hs
    exact hp (hmatch.head hs).1
  rw [List.drop_eq_nil_of_le (Nat.le_of_not_lt hlt)] at hmatch
  cases hmatch

/-- A match is left: of the rest from the position on, or, after a star, with what the star has taken or more. The `n` elements
of the pattern after the star are the ones that the loop has compared since. -/
def Remains (pattern value : List Char) (patternIndex valueIndex starValueIndex : Nat) : Option Nat → Prop
  | none => Matches (pattern.drop patternIndex) (value.drop valueIndex)
  | some starIndex => ∃ n k, patternIndex = starIndex + 1 + n ∧ valueIndex = starValueIndex + n ∧ starValueIndex ≤ k ∧
      (∀ c ∈ (pattern.drop (starIndex + 1)).take n, c ≠ '*') ∧ Matches (pattern.drop (starIndex + 1)) (value.drop k)

section Remaining

variable {pattern value : List Char} {patternIndex valueIndex starValueIndex : Nat} {starIndex : Option Nat}

theorem Remains.here (h : Remains pattern value patternIndex valueIndex starValueIndex starIndex) :
    ∃ k, valueIndex ≤ k ∧ Matches (pattern.drop patternIndex) (value.drop k) := by
  cases starIndex with
  | none => exact ⟨valueIndex, Nat.le_refl _, h⟩
  | some starIndex =>
    obtain ⟨n, k, rfl, rfl, hk, hfix, hmatch⟩ := h
    have hrest := hmatch.drop_fixed hfix
    rw [List.drop_drop, List.drop_drop] at hrest
    exact ⟨k + n, by omega, hrest⟩

theorem Remains.advance (h : Remains pattern value patternIndex valueIndex starValueIndex starIndex)
    (hlt : patternIndex < pattern.length) (hne : pattern[patternIndex]? ≠ some '*') :
    Remains pattern value (patternIndex + 1) (valueIndex + 1) starValueIndex starIndex := by
  cases starIndex with
  | none =>
    have hfix : ∀ c ∈ (pattern.drop patternIndex).take 1, c ≠ '*' := by
      intro c hc
      rw [drop_eq_cons (List.getElem?_eq_getElem hlt), List.take_succ_cons, List.take_zero, List.mem_singleton] at hc
      rintro rfl
      exact hne (by rw [List.getElem?_eq_getElem hlt, hc])
    have hrest := WildMatch.drop_fixed h hfix
    rw [List.drop_drop, List.drop_drop] at hrest
    exact hrest
  | some starIndex =>
    obtain ⟨n, k, rfl, rfl, hk, hfix, hmatch⟩ := h
    refine ⟨n + 1, k, by omega, by omega, hk, ?_, hmatch⟩
    intro c hc
    rw [List.take_add_one, List.mem_append] at hc
    rcases hc with hc | hc
    · exact hfix c hc
    rintro rfl
    rw [List.getElem?_drop, Option.mem_toList] at hc
    exact hne hc

theorem globLoop_of_remains {h : starValueIndex ≤ valueIndex} (hstar : ¬ ('*' ∈ pattern ∧ '*' ∈ value))
    (hleft : Remains pattern value patternIndex valueIndex starValueIndex starIndex) :
    globLoop pattern value patternIndex valueIndex starIndex starValueIndex h = true := by
  induction patternIndex, valueIndex, starIndex, starValueIndex, h using globLoop.induct pattern value with
  | case1 patternIndex valueIndex starIndex starValueIndex h hv hp ih =>
    rw [globLoop.eq_def, dif_pos hv, dif_pos hp]
    apply ih
    apply hleft.advance hp.1
    -- a star would stand on both sides
    intro hpattern
    rcases hp.2 with hone | hsame
    · rw [hpattern] at hone
      cases hone
    · exact hstar ⟨List.mem_of_getElem? hpattern, List.mem_of_getElem? (hsame.symm.trans hpattern)⟩
  | case2 patternIndex valueIndex starIndex starValueIndex h hv hp hs ih =>
    rw [globLoop.eq_def, dif_pos hv, dif_neg hp, dif_pos hs]
    apply ih
    -- the star takes what is left between its position and the match of the rest
    obtain ⟨k, hk, hmatch⟩ := hleft.here
    rw [drop_eq_cons hs.2] at hmatch
    obtain ⟨m, hrest⟩ := hmatch.of_many
    rw [List.drop_drop] at hrest
    exact ⟨0, k + m, rfl, rfl, by omega, by simp, hrest⟩
  | case3 patternIndex valueIndex starValueIndex h hv hp hs starIndex ih =>
    rw [globLoop.eq_def, dif_pos hv, dif_neg hp, dif_neg hs]
    apply ih
    obtain ⟨n, k, rfl, rfl, hk, hfix, hmatch⟩ := hleft
    -- the star has to take more than it has
    have hmore : k ≠ starValueIndex := by
      rintro rfl
      have hrest := hmatch.drop_fixed hfix
      rw [List.drop_drop, List.drop_drop] at hrest
      exact not_matches_of_stuck hv hp hs hrest
    exact ⟨0, k, rfl, rfl, by omega, by simp, hmatch⟩
  | case4 patternIndex valueIndex starValueIndex h hv hp hs =>
    exact absurd hleft (not_matches_of_stuck hv hp hs)
  | case5 patternIndex valueIndex starIndex starValueIndex h hv =>
    rw [globLoop.eq_def, dif_neg hv]
    obtain ⟨k, hk, hmatch⟩ := hleft.here
    rw [List.drop_eq_nil_of_le (by omega : value.length ≤ k)] at hmatch
    have hall := hmatch.all_many
    simpa using hall

end Remaining

/-- Where pattern and value are the same, the loop compares them, stars included. -/
theorem globLoop_common (common rest rest' : List Char) {i : Nat} (hi : i ≤ common.length) :
    globLoop (common ++ rest) (common ++ rest') i i none 0 (Nat.zero_le i) =
      globLoop (common ++ rest) (common ++ rest') common.length common.length none 0 (Nat.zero_le _) := by
  induction hi using Nat.decreasingInduction with
  | of_succ i hi ih =>
    have hlt : ∀ l, i < (common ++ l).length := fun l => by rw [List.length_append]; omega
    have hsame : (common ++ rest)[i]? = (common ++ rest')[i]? := by
      rw [List.getElem?_append_left hi, List.getElem?_append_left hi]
    rw [globLoop.eq_def, dif_pos (hlt rest'), dif_pos ⟨hlt rest, .inr hsame⟩, ih]
  | self => rfl

/-- With all of the pattern compared there is no star to go back to. -/
theorem globLoop_longer {pattern rest : List Char} (hrest : rest ≠ []) :
    globLoop pattern (pattern ++ rest) 0 0 none 0 (Nat.le_refl 0) = false := by
  have h := globLoop_common pattern [] rest (Nat.zero_le _)
  rw [List.append_nil] at h
  rw [h, globLoop.eq_def, dif_pos (by simpa using List.length_pos_iff.mpr hrest), dif_neg (by simp), dif_neg (by simp)]

theorem globLoop_shorter (value : List Char) : globLoop (value ++ ['?']) value 0 0 none 0 (Nat.le_refl 0) = false := by
  have h := globLoop_common value ['?'] [] (Nat.zero_le _)
  rw [List.append_nil] at h
  rw [h, globLoop.eq_def, dif_neg (Nat.lt_irrefl _), List.drop_left]
  rfl

/-- **What the matcher finds**: every match of a text as the pattern, and every match of it as the value, exactly if it has no
star. -/
theorem glob_of_wildMatch (text : String) :
    ((∀ value : String, Matches text.toList value.toList → glob text value = true) ↔ '*' ∉ text.toList) ∧
    ((∀ pattern : String, Matches pattern.toList text.toList → glob pattern text = true) ↔ '*' ∉ text.toList) := by
  refine ⟨⟨fun h hstar => ?_, fun hstar value h => globLoop_of_remains (fun hboth => hstar hboth.1) h⟩,
    ⟨fun h hstar => ?_, fun hstar pattern h => globLoop_of_remains (fun hboth => hstar hboth.2) h⟩⟩
  · -- the value is the pattern and once more what follows the star
    obtain ⟨before, after, htext⟩ := List.append_of_mem hstar
    have hmatch : Matches text.toList (text.toList ++ 'a' :: after) := by
      have hself : Matches after after := by simpa [Matches] using WildMatch.append_self after .nil
      have := (WildMatch.many ('*' :: after ++ ['a']) hself).append_self before
      simpa [htext, Matches] using this
    have hfound := h (String.ofList (text.toList ++ 'a' :: after)) (by rwa [String.toList_ofList])
    rw [glob, String.toList_ofList, globLoop_longer (by simp)] at hfound
    cases hfound
  · obtain ⟨before, after, htext⟩ := List.append_of_mem hstar
    cases after with
    | nil =>
      have hmatch : Matches (text.toList ++ ['?']) text.toList := by
        have hone : Matches ['?'] ['*'] := .one '*' .nil
        have := (WildMatch.many [] hone).append_self before
        simpa [htext, Matches] using this
      have hfound := h (String.ofList (text.toList ++ ['?'])) (by rwa [String.toList_ofList])
      rw [glob, String.toList_ofList, globLoop_shorter] at hfound
      cases hfound
    | cons c after =>
      have htext' : text.toList = (before ++ ['*']) ++ c :: after := by rw [htext, List.append_assoc]; rfl
      have hmatch : Matches (before ++ ['*']) text.toList := by
        have hmany : Matches ['*'] ('*' :: c :: after ++ []) := .many _ .nil
        have := hmany.append_self before
        simpa [htext, Matches] using this
      have hfound := h (String.ofList (before ++ ['*'])) (by rwa [String.toList_ofList])
      rw [glob, String.toList_ofList, htext', globLoop_longer (by simp)] at hfound
      cases hfound

/-- The star of the pattern is compared with the star of the value and does not match what follows. -/
theorem glob_misses_star : Matches "*".toList "*a".toList ∧ glob "*" "*a" = false := by
  refine ⟨.many ['*', 'a'] .nil, ?_⟩
  simp [glob, globLoop]

/-! ## Trusts in a history -/

def Created (P : Primitives) (evs : List Event) (trust : GitHubTrust) : Prop :=
  ∃ earlier e later principal input, evs = earlier ++ e :: later ∧ e.call = .createGitHubTrust principal input ∧
    (createGitHubTrust e.engine (history P earlier) e.dice principal input).1 = .ok trust

def Revoked (P : Primitives) (evs : List Event) (id : String) : Prop :=
  ∃ earlier e later principal, evs = earlier ++ e :: later ∧ e.call = .revokeGitHubTrust principal id ∧
    (revokeGitHubTrust (history P earlier) e.now principal id).1 = .ok ()

inductive TrustStep (db : DB) (e : Event) (db' : DB) : Prop
  | same (htrusts : db'.trusts = db.trusts)
      (hcreates : ∀ principal input, e.call = .createGitHubTrust principal input →
        ∃ err, (createGitHubTrust e.engine db e.dice principal input).1 = .error err)
      (hrevokes : ∀ principal id, e.call = .revokeGitHubTrust principal id →
        ∃ err, (revokeGitHubTrust db e.now principal id).1 = .error err)
  | create (principal : Principal) (input : TrustInput) (id : String) (r : TrustRow)
      (hcall : e.call = .createGitHubTrust principal input)
      (hresult : (createGitHubTrust e.engine db e.dice principal input).1 = .ok (r.trust id))
      (hnew : db.trusts.lookup id = none) (hrevoked : r.revokedAt = none)
      (hpull : "pull_request" ∈ r.events → r.environment ≠ "") (htrusts : db'.trusts = db.trusts.insert id r)
  | revoke (principal : Principal) (id : String) (r : TrustRow) (t : Int)
      (hcall : e.call = .revokeGitHubTrust principal id) (hr : db.trusts.lookup id = some r)
      (htrusts : db'.trusts = db.trusts.insert id { r with revokedAt := some t })

variable {E : Engine} {db db' : DB} {P : Primitives} {evs : List Event} {trust : GitHubTrust} {selector : String}

theorem createGitHubTrust_cases {dice : Dice} {principal : Principal} {input : TrustInput} {result : Except Error GitHubTrust}
    (h : createGitHubTrust E db dice principal input = (result, db')) : (∃ err, result = .error err ∧ db' = db) ∨
      ∃ id r, result = .ok (TrustRow.trust id r) ∧ db.trusts.lookup id = none ∧ r.revokedAt = none ∧
        ("pull_request" ∈ r.events → r.environment ≠ "") ∧ db' = { db with trusts := db.trusts.insert id r } := by
  rw [createGitHubTrust] at h
  split at h
  · cases h
    exact .inl ⟨_, rfl, rfl⟩
  split at h
  · cases h
    exact .inl ⟨_, rfl, rfl⟩
  split at h
  · cases h
    exact .inl ⟨_, rfl, rfl⟩
  split at h
  · cases h
    exact .inl ⟨_, rfl, rfl⟩
  rename_i hpull
  simp only at h
  split at h
  · cases h
    exact .inl ⟨_, rfl, rfl⟩
  rename_i hnew
  cases h
  refine .inr ⟨_, _, rfl, by simpa using hnew, rfl, ?_, rfl⟩
  intro (hmem : "pull_request" ∈ input.events) (henv : input.environment = "")
  exact hpull (by simp [hmem, henv])

theorem revokeGitHubTrust_cases {now : Time} {principal : Principal} {id : String} {result : Except Error Unit}
    (h : revokeGitHubTrust db now principal id = (result, db')) : (∃ err, result = .error err ∧ db' = db) ∨
      ∃ r, db.trusts.lookup id = some r ∧
        db' = { db with trusts := db.trusts.insert id { r with revokedAt := some (Auth.unix now) } } := by
  rw [revokeGitHubTrust] at h
  split at h
  · cases h
    exact .inl ⟨_, rfl, rfl⟩
  split at h
  · rename_i trusts hupd
    cases h
    obtain ⟨r, hr, _, rfl⟩ := Table.update_eq_one hupd
    exact .inr ⟨r, hr, rfl⟩
  cases h
  exact .inl ⟨_, rfl, rfl⟩

/-- What the methods do that are neither about images nor about trusts. -/
inductive Provision (db : DB) : DB → Prop
  | members (auth : Auth.DB) (members : Table (String × String) Unit) : Provision db { db with auth := auth, members := members }
  | project (auth : Auth.DB) (members : Table (String × String) Unit) (id : String) (r' : ProjectRow)
      (h : (∃ r, db.projects.lookup id = some r ∧ r'.activeImage = r.activeImage ∧ r'.previousImage = r.previousImage) ∨
        (db.projects.lookup id = none ∧ r'.activeImage = "" ∧ r'.previousImage = "")) :
      Provision db { db with auth := auth, members := members, projects := db.projects.insert id r' }

theorem Provision.same (db : DB) : Provision db db := .members db.auth db.members

theorem Provision.trusts (h : Provision db db') : db'.trusts = db.trusts := by
  cases h <;> rfl

theorem insertProject_eq {id slug name : String} (h : insertProject db id slug name = some db') :
    db.projects.lookup id = none ∧ db' = { db with projects := db.projects.insert id ⟨slug, name, "", "", true⟩ } := by
  rw [insertProject] at h
  split at h <;> cases h
  rename_i hnew
  simp only [Bool.or_eq_true, not_or, Option.isSome_iff_ne_none, ne_eq, not_not] at hnew
  exact ⟨hnew.1, rfl⟩

theorem changeProjectImage_trusts (db : DB) (projectID : String) (image : Option String) :
    (changeProjectImage db projectID image).2.trusts = db.trusts := by
  rw [changeProjectImage]
  split
  · rfl
  split
  · rfl
  simp only
  split <;> rfl

theorem bootstrap_provision (P : Primitives) (db : DB) (dice : Dice) (userName projectSlug projectName tokenName : String) :
    Provision db (bootstrap P db dice userName projectSlug projectName tokenName).2 := by
  rw [bootstrap]
  split
  · exact .same db
  simp only
  split
  · exact .same db
  split
  · exact .same db
  rename_i hins
  obtain ⟨hnew, rfl⟩ := insertProject_eq hins
  exact .project _ _ _ _ (.inr ⟨hnew, rfl, rfl⟩)

theorem createProject_provision (P : Primitives) (db : DB) (dice : Dice) (principal : Principal) (slug name : String) :
    Provision db (createProject P db dice principal slug name).2 := by
  rw [createProject]
  split
  · exact .same db
  split
  · exact .same db
  simp only
  split
  · exact .same db
  rename_i hins
  obtain ⟨hnew, rfl⟩ := insertProject_eq hins
  exact .project _ _ _ _ (.inr ⟨hnew, rfl, rfl⟩)

theorem addProjectMember_provision (E : Engine) (db : DB) (principal : Principal) (selector userID : String) :
    Provision db (addProjectMember E db principal selector userID).2 := by
  rw [addProjectMember]
  split
  · exact .same db
  split
  · exact .same db
  · split <;> split <;> exact .members ..

theorem setProjectImagePolicy_provision (E : Engine) (db : DB) (principal : Principal) (projectID : String) (allow : Bool) :
    Provision db (setProjectImagePolicy E db principal projectID allow).2 := by
  rw [setProjectImagePolicy]
  split
  · exact .same db
  split
  · rename_i hupd
    obtain ⟨r, hr, -, rfl⟩ := Table.update_eq_one hupd
    exact .project _ _ _ _ (.inl ⟨r, hr, rfl, rfl⟩)
  · exact .same db

theorem trustStep (P : Primitives) (db : DB) (e : Event) : TrustStep db e (e.apply P db) := by
  obtain ⟨call, now, dice, engine⟩ := e
  cases call with
  | bootstrap userName projectSlug projectName tokenName => exact .same (bootstrap_provision ..).trusts (nofun) (nofun)
  | createUser principal name admin => exact .same rfl (nofun) (nofun)
  | createProject principal slug name => exact .same (createProject_provision ..).trusts (nofun) (nofun)
  | addProjectMember principal selector userID => exact .same (addProjectMember_provision ..).trusts (nofun) (nofun)
  | activateProjectImage principal projectID image =>
    refine .same ?_ (nofun) (nofun)
    simp only [Event.apply, activateProjectImage]
    split
    · rfl
    · exact changeProjectImage_trusts ..
  | rollbackProjectImage principal projectID =>
    refine .same ?_ (nofun) (nofun)
    simp only [Event.apply, rollbackProjectImage]
    split
    · rfl
    · exact changeProjectImage_trusts ..
  | setProjectImagePolicy principal projectID allow => exact .same (setProjectImagePolicy_provision ..).trusts (nofun) (nofun)
  | createGitHubTrust principal input =>
    obtain ⟨result, db', h⟩ : ∃ result db', createGitHubTrust engine db dice principal input = (result, db') := ⟨_, _, rfl⟩
    have happly : Event.apply P db ⟨.createGitHubTrust principal input, now, dice, engine⟩ = db' := congrArg Prod.snd h
    rcases createGitHubTrust_cases h with ⟨err, rfl, rfl⟩ | ⟨id, r, rfl, hnew, hrev, hpull, rfl⟩
    · rw [happly]
      refine .same rfl ?_ (nofun)
      rintro _ _ ⟨⟩
      exact ⟨err, congrArg Prod.fst h⟩
    rw [happly]
    exact .create principal input id r rfl (congrArg Prod.fst h) hnew hrev hpull rfl
  | revokeGitHubTrust principal id =>
    obtain ⟨result, db', h⟩ : ∃ result db', revokeGitHubTrust db now principal id = (result, db') := ⟨_, _, rfl⟩
    have happly : Event.apply P db ⟨.revokeGitHubTrust principal id, now, dice, engine⟩ = db' := congrArg Prod.snd h
    rcases revokeGitHubTrust_cases h with ⟨err, rfl, rfl⟩ | ⟨r, hr, rfl⟩
    · rw [happly]
      refine .same rfl (nofun) ?_
      rintro _ _ ⟨⟩
      exact ⟨err, congrArg Prod.fst h⟩
    rw [happly]
    exact .revoke principal id r _ rfl hr rfl

/-! ## What holds after every history -/

theorem history_concat (P : Primitives) (evs : List Event) (e : Event) :
    history P (evs ++ [e]) = e.apply P (history P evs) := by
  simp [history]

theorem Created.concat (h : Created P evs trust) (e : Event) : Created P (evs ++ [e]) trust := by
  obtain ⟨earlier, e', later, principal, input, rfl, hcall, hres⟩ := h
  exact ⟨earlier, e', later ++ [e], principal, input, by simp, hcall, hres⟩

/-- The rows of trusts after a history: each was created as it is, and those that were revoked say so. -/
structure TrustsRecorded (P : Primitives) (evs : List Event) : Prop where
  created : ∀ id r, (history P evs).trusts.lookup id = some r →
    Created P evs ({ r with revokedAt := none }.trust id) ∧ ("pull_request" ∈ r.events → r.environment ≠ "")
  revoked : ∀ id, Revoked P evs id → ∃ r, (history P evs).trusts.lookup id = some r ∧ r.revokedAt.isSome = true

theorem TrustsRecorded.concat (h : TrustsRecorded P evs) (e : Event) : TrustsRecorded P (evs ++ [e]) := by
  constructor
  · intro id r hr
    rw [history_concat] at hr
    cases trustStep P (history P evs) e with
    | same htrust =>
      rw [htrust] at hr
      exact ⟨(h.created id r hr).1.concat e, (h.created id r hr).2⟩
    | create principal input id' r' hcall hres hnew hrevoked hpull htrust =>
      rw [htrust, Table.lookup_insert_eq] at hr
      split at hr
      · rename_i hid
        cases hr
        subst hid
        refine ⟨⟨evs, e, [], principal, input, rfl, hcall, ?_⟩, hpull⟩
        rw [hres, ← hrevoked]
      · exact ⟨(h.created id r hr).1.concat e, (h.created id r hr).2⟩
    | revoke principal id' r' t hcall hr' htrust =>
      rw [htrust, Table.lookup_insert_eq] at hr
      split at hr
      · rename_i hid
        cases hr
        subst hid
        exact ⟨(h.created id r' hr').1.concat e, (h.created id r' hr').2⟩
      · exact ⟨(h.created id r hr).1.concat e, (h.created id r hr).2⟩
  · rintro id ⟨earlier, e', later, principal, hevs, hcall, hres⟩
    rw [history_concat]
    rcases Conc.concat_eq_append_cons hevs with ⟨rfl, rfl⟩ | ⟨later', rfl⟩
    · -- the revocation is this call
      cases trustStep P (history P evs) e' with
      | same htrust hcreate hrev =>
        obtain ⟨err, herr⟩ := hrev principal id hcall
        rw [herr] at hres
        cases hres
      | create principal' input id' r' hcall' =>
        rw [hcall] at hcall'
        cases hcall'
      | revoke principal' id' r' t hcall' hr' htrust =>
        rw [hcall] at hcall'
        cases hcall'
        exact ⟨_, by rw [htrust, AList.lookup_insert], rfl⟩
    obtain ⟨r, hr, hrevoked⟩ := h.revoked id ⟨earlier, e', later', principal, rfl, hcall, hres⟩
    cases trustStep P (history P (earlier ++ e' :: later')) e with
    | same htrust => exact ⟨r, by rw [htrust]; exact hr, hrevoked⟩
    | create principal' input id' r' hcall' hres' hnew hrev' hpull htrust =>
      refine ⟨r, ?_, hrevoked⟩
      rw [htrust, AList.lookup_insert_ne]
      · exact hr
      rintro rfl
      rw [hnew] at hr
      cases hr
    | revoke principal' id' r' t hcall' hr' htrust =>
      by_cases hid : id = id'
      · subst hid
        exact ⟨_, by rw [htrust, AList.lookup_insert], rfl⟩
      · exact ⟨r, by rw [htrust, AList.lookup_insert_ne hid]; exact hr, hrevoked⟩

theorem trustsRecorded (P : Primitives) (evs : List Event) : TrustsRecorded P evs := by
  induction evs using List.reverseRecOn with
  | nil =>
    constructor
    · intro id r hr
      simp [history, DB.empty] at hr
    rintro id ⟨earlier, e, later, _, h, _⟩
    simp at h
  | append_singleton evs e ih => exact ih.concat e

/-! ## The exchange of an identity token -/

/-- `ExchangeGitHubOIDC`. Other calls may come in between, so the trust is looked for in `db` and the session inserted into
`db'`; `audited` is what the recording of the audit event returns. -/
def exchangeGitHubOIDC (P : Primitives) (E : Engine) (verify : String → Option GitHubClaims) (db db' : DB) (now : Time)
    (dice : Dice) (audited : Except Auth.Failure Unit) (selector idToken : String) : Except ApiError Auth.Issued :=
  if selector = "" || idToken = "" then .error ⟨.invalidArgument, "project and ID token are required"⟩
  else match verify idToken with
    | none => .error ⟨.unauthenticated, "invalid GitHub identity"⟩
    | some claims => match matchGitHubTrust E db selector claims with
      | .error e => .error (Auth.Api.connectError (.store e))
      | .ok trust =>
        let expires := if claims.expiresAt ≠ zeroTime && decide (claims.expiresAt < now + 15 * minute) then claims.expiresAt
          else now + 15 * minute
        match (Auth.createProjectSession P db'.auth dice.toDice trust.projectID claims.subject expires).1, audited with
        | .error e, _ => .error (Auth.Api.connectError (.store e))
        | .ok _, .error e => .error (Auth.Api.connectError e)
        | .ok issued, .ok _ => .ok issued

theorem createProjectSession_eq_ok {db : Auth.DB} {dice : Auth.Dice} {projectID subject : String} {expiresAt : Time}
    {issued : Auth.Issued} (h : (Auth.createProjectSession P db dice projectID subject expiresAt).1 = .ok issued) :
    issued.projectID = projectID ∧ issued.subject = subject := by
  rw [Auth.createProjectSession, Auth.issue] at h
  split at h
  · cases h
  cases h
  exact ⟨rfl, rfl⟩

theorem exchangeGitHubOIDC_eq_ok {verify : String → Option GitHubClaims} {now : Time} {dice : Dice}
    {audited : Except Auth.Failure Unit} {idToken : String} {issued : Auth.Issued}
    (h : exchangeGitHubOIDC P E verify db db' now dice audited selector idToken = .ok issued) :
    ∃ claims trust, verify idToken = some claims ∧ matchGitHubTrust E db selector claims = .ok trust ∧
      issued.projectID = trust.projectID ∧ issued.subject = claims.subject := by
  rw [exchangeGitHubOIDC] at h
  split at h
  · cases h
  split at h
  · cases h
  rename_i claims hcla
  split at h
  · cases h
  rename_i trust htrust
  simp only at h
  split at h
  · cases h
  · cases h
  rename_i issued' hiss
  cases h
  exact ⟨claims, trust, hcla, htrust, createProjectSession_eq_ok hiss⟩

/-! ## Soundness -/

structure GitHubTrust.Justified (P : Primitives) (E : Engine) (evs : List Event) (selector : String) (claims : GitHubClaims)
    (trust : GitHubTrust) : Prop where
  selected : ∃ selected, project E (history P evs) selector = .ok selected ∧ trust.projectID = selected.id
  created : Created P evs trust
  notRevoked : trust.revokedAt = none ∧ ¬ Revoked P evs trust.id
  owner : trust.repositoryOwnerID = claims.repositoryOwnerID
  repository : trust.repositoryID = claims.repositoryID
  workflow : Matches trust.workflowRef.toList claims.workflowRef.toList
  ref : Matches trust.ref.toList claims.ref.toList
  environment : trust.environment = "" ∨ trust.environment = claims.environment
  event : claims.eventName ∈ trust.events

theorem matchGitHubTrust_eq_ok {claims : GitHubClaims} (h : matchGitHubTrust E db selector claims = .ok trust) :
    ∃ selected id r, project E db selector = .ok selected ∧ db.trusts.lookup id = some r ∧ trust = r.trust id ∧
      r.projectID = selected.id ∧ r.repositoryOwnerID = claims.repositoryOwnerID ∧ r.repositoryID = claims.repositoryID ∧
      r.revokedAt = none ∧ r.allows claims = true := by
  rw [matchGitHubTrust] at h
  split at h
  · cases h
  rename_i selected hsel
  split at h
  · cases h
  rename_i id r hfind
  cases h
  have hmem := (E.trusts_perm _).mem_iff.mp (List.mem_of_find?_eq_some hfind)
  have hall := List.find?_some hfind
  rw [List.mem_filter, Table.mem_rows] at hmem
  obtain ⟨hr, hmatch⟩ := hmem
  simp only [Bool.and_eq_true, beq_iff_eq, Option.isNone_iff_eq_none] at hmatch
  obtain ⟨⟨⟨hproject, hown⟩, hrep⟩, hrev⟩ := hmatch
  exact ⟨selected, id, r, hsel, hr, rfl, hproject, hown, hrep, hrev, hall⟩

theorem justified_of_match {claims : GitHubClaims} (h : matchGitHubTrust E (history P evs) selector claims = .ok trust) :
    trust.Justified P E evs selector claims ∧
      (claims.eventName = "pull_request" → claims.environment ≠ "" ∧ trust.environment = claims.environment) := by
  obtain ⟨selected, id, r, hsel, hr, rfl, hproject, hown, hrep, hrevoked, hall⟩ := matchGitHubTrust_eq_ok h
  obtain ⟨hcreate, hpull⟩ := (trustsRecorded P evs).created id r hr
  simp only [TrustRow.allows, exactOptional, Bool.and_eq_true, Bool.or_eq_true, beq_iff_eq, List.contains_iff_mem] at hall
  obtain ⟨⟨⟨hwork, href⟩, henv⟩, heven⟩ := hall
  constructor
  · refine ⟨⟨selected, hsel, hproject⟩, ?_, ⟨hrevoked, ?_⟩, hown, hrep, wildMatch_of_glob hwork,
      wildMatch_of_glob href, henv, heven⟩
    · rwa [← hrevoked] at hcreate
    intro hrev
    obtain ⟨r', hr', hsome⟩ := (trustsRecorded P evs).revoked id hrev
    rw [hr] at hr'
    cases hr'
    rw [hrevoked] at hsome
    cases hsome
  intro hname
  rw [hname] at heven
  have hne := hpull heven
  have heq : r.environment = claims.environment := henv.resolve_left hne
  exact ⟨heq ▸ hne, heq⟩

/-- Trusts that match are justified, and a session for a pull request is granted in the environment of its trust. -/
theorem trust_sound (P : Primitives) (evs : List Event) (E : Engine) :
    (∀ selector claims trust, matchGitHubTrust E (history P evs) selector claims = .ok trust →
      trust.Justified P E evs selector claims) ∧
    ∀ verify db' now dice audited selector idToken issued,
      exchangeGitHubOIDC P E verify (history P evs) db' now dice audited selector idToken = .ok issued →
      ∃ (claims : GitHubClaims) (trust : GitHubTrust), verify idToken = some claims ∧ trust.Justified P E evs selector claims ∧
        issued.projectID = trust.projectID ∧ issued.subject = claims.subject ∧
        (claims.eventName = "pull_request" → claims.environment ≠ "" ∧ trust.environment = claims.environment) := by
  constructor
  · intro selector claims trust h
    exact (justified_of_match h).1
  intro verify db' now dice audited selector idToken issued h
  obtain ⟨claims, trust, hclaims, hmatch, hproject, hsubject⟩ := exchangeGitHubOIDC_eq_ok h
  obtain ⟨hjustified, hpull⟩ := justified_of_match hmatch
  exact ⟨claims, trust, hclaims, hjustified, hproject, hsubject, hpull⟩

def sampleDice (n : UInt8) : Dice := ⟨Auth.sampleDice n, Auth.sampleRandom n, Auth.sampleRandom n⟩

def sampleHistory : List Event :=
  [⟨.createProject Auth.sampleAdmin "web" "", 0, sampleDice 0, lastFirst⟩,
    ⟨.createGitHubTrust Auth.sampleAdmin ⟨"web", "1", "2", "deploy@*", "refs/heads/release-?", "production",
      ["push", "pull_request"]⟩, 0, sampleDice 1, lastFirst⟩]

def sampleClaims : GitHubClaims :=
  ⟨"repo", "1", "2", "deploy@main", "refs/heads/release-3", "production", "pull_request", 0⟩

theorem trust_sound_release : ∃ trust, matchGitHubTrust lastFirst (history Auth.samplePrimitives sampleHistory) "web"
    sampleClaims = .ok trust ∧ trust.Justified Auth.samplePrimitives lastFirst sampleHistory "web" sampleClaims := by
  have hok : (matchGitHubTrust lastFirst (history Auth.samplePrimitives sampleHistory) "web" sampleClaims).isOk = true := by
    decide +kernel
  cases h : matchGitHubTrust lastFirst (history Auth.samplePrimitives sampleHistory) "web" sampleClaims with
  | error e =>
    rw [h] at hok
    cases hok
  | ok trust => exact ⟨trust, rfl, (trust_sound _ _ _).1 _ _ _ h⟩

end Access

end Autback
