import Autback.Auth.Store

/-!
# What the calls of the store do

One statement for all calls (`run_effect`): users stay; a call issues one access token, revokes some, or leaves them alone
(`TokenStep`); an external identity, an enrollment code or a device login that is there afterwards was there before, for the
same user and at most as usable, or the call is a grant to its user.
-/

namespace Autback

namespace Auth

open Gateway (bytes)

/-! ## Authentication -/

def TokenRow.Live (now : Time) (r : TokenRow) : Prop := r.revokedAt = none ∧ ∀ t ∈ r.expiresAt, now ≤ t

def TokenRow.principal (db : DB) (id : String) (r : TokenRow) : Principal :=
  ⟨r.kind, id, r.userID, r.projectID, decide (r.userID ≠ "") && (db.users.lookup r.userID).getD false, r.subject⟩

theorem authenticate_eq_ok {P : Primitives} {db : DB} {now : Time} {token : List UInt8} {p : Principal} :
    authenticate P db now token = .ok p ↔ ∃ id r, parseToken token = some (r.kind, id) ∧ db.tokens.lookup id = some r ∧
      r.Live now ∧ P.digest token = r.digest ∧ (r.userID ≠ "" → (db.users.lookup r.userID).isSome = true) ∧
      p = r.principal db id := by
  constructor
  · intro h
    rw [authenticate] at h
    split at h
    · cases h
    rename_i kind id hparse
    split at h
    · cases h
    rename_i r hr
    split at h
    · cases h
    rename_i hvalue
    simp only [Bool.or_eq_true, not_or, decide_eq_true_eq, not_not] at hvalue
    obtain ⟨⟨rfl, hrev⟩, hexpiry⟩ := hvalue
    have hlive : r.Live now := by
      refine ⟨by simpa using hrev, fun t ht => ?_⟩
      rw [Option.mem_def] at ht
      simpa [ht] using hexpiry
    split at h
    · cases h
    rename_i hdigest
    split at h
    · rename_i hu
      cases h
      exact ⟨id, r, hparse, hr, hlive, not_not.mp hdigest, fun h => absurd hu h, by simp [TokenRow.principal, hu]⟩
    rename_i hu
    split at h
    · cases h
    rename_i admin hadm
    cases h
    exact ⟨id, r, hparse, hr, hlive, not_not.mp hdigest, fun _ => by rw [hadm]; rfl,
      by simp [TokenRow.principal, hu, hadm]⟩
  · rintro ⟨id, r, hparse, hr, ⟨hrev, hexpiry⟩, hdigest, huser, rfl⟩
    have hnot : (r.expiresAt.any fun expires => decide (now > expires)) = false := by
      cases he : r.expiresAt with
      | none => rfl
      | some t => simpa using hexpiry t he
    simp only [authenticate, hparse, hr, hrev, hnot, hdigest]
    by_cases hu : r.userID = ""
    · simp [hu, TokenRow.principal]
    obtain ⟨admin, hadm⟩ := Option.isSome_iff_exists.mp (huser hu)
    simp [hu, hadm, TokenRow.principal]

/-! ## Effects -/

def Tx.issued : (x : Tx) → x.Val → Option Issued
  | .bootstrap, i => some i
  | .createDeviceToken _ _ _ _, i => some i
  | .createProjectSession _ _ _, i => some i
  | .createBrowserSession _ _, i => some i
  | .exchangeDeviceLogin _, i => some i
  | .exchangeEnrollmentCode _, i => some i
  | _, _ => none

def Tx.revokes (P : Primitives) (id : String) (kind : PrincipalKind) (userID : String) : Tx → Bool
  | .endBrowserSession id' => id == id' && kind == .browser
  | .revokeDeviceToken principal id' =>
    id == id' && kind == .device && (principal.admin || userID == principal.userID)
  | .revokeExternalIdentity _ userID' _ => userID == P.trimSpace userID' && (kind == .browser || kind == .device)
  | _ => false

def Tx.expiry : Tx → Option Time
  | .createDeviceToken _ _ _ expiresAt => if expiresAt = zeroTime then none else some expiresAt
  | .createProjectSession _ _ expiresAt => some expiresAt
  | .createBrowserSession _ expiresAt => some expiresAt
  | _ => none

/-- The user to whom a call gives access that does not come from a code or a login of the user. -/
def Tx.grantee : Tx → Option String
  | .createDeviceToken principal userID _ _ => some (if userID = "" then principal.userID else userID)
  | .createBrowserSession userID _ => some userID
  | .bindExternalIdentity _ userID _ _ _ => some userID
  | .approveDeviceLogin _ principal => some principal.userID
  | .createEnrollmentCode _ userID _ _ => some userID
  | _ => none

/-- An enrollment code that can still be exchanged at time `now`. -/
def EnrollmentRow.usable (now : Time) (r : EnrollmentRow) : Bool :=
  !(r.consumedAt.isSome || decide (now ≥ r.expiresAt) || decide (r.failedAttempts ≥ r.maxAttempts))

def Tx.Source (now : Time) (db : DB) (x : Tx) (userID : String) : Prop :=
  userID = "" ∨ x.grantee = some userID ∨ db.users.entries = [] ∨
    (∃ id r, db.enrollments.lookup id = some r ∧ r.userID = userID ∧ r.usable now = true) ∨
    ∃ id r, db.logins.lookup id = some r ∧ r.userID = userID ∧ r.consumedAt = none

structure Issued.WellFormed (i : Issued) (db : DB) : Prop where
  formed : Formed i.secret (kindText i.kind) i.id
  kind : i.kind ≠ .system
  user : i.userID ≠ "" → (db.users.lookup i.userID).isSome = true
  human : i.userID ≠ "" → i.kind ≠ .github

inductive TokenStep (P : Primitives) (now : Time) (x : Tx) (db db' : DB) : Except Error x.Val → Prop
  | same (r : Except Error x.Val) (htokens : db'.tokens = db.tokens) (hissued : ∀ v, r = .ok v → x.issued v = none)
      (hrevokes : ∀ v, r = .ok v → ∀ id kind userID, x.revokes P id kind userID = false) : TokenStep P now x db db' r
  | issue (v : x.Val) (i : Issued) (hv : x.issued v = some i) (hnew : db.tokens.lookup i.id = none)
      (htokens : db'.tokens = db.tokens.insert i.id (i.row P)) (hi : i.WellFormed db') (hexpiry : i.expiresAt = x.expiry)
      (hsource : x.Source now db i.userID) : TokenStep P now x db db' (.ok v)
  | revoke (v : x.Val) (t : Int) (hv : x.issued v = none)
      (htokens : ∀ id, db'.tokens.lookup id = (db.tokens.lookup id).map fun r =>
        if x.revokes P id r.kind r.userID && r.revokedAt.isNone then { r with revokedAt := some t } else r) :
      TokenStep P now x db db' (.ok v)

def Rows {κ ρ : Type} [DecidableEq κ] (T T' : Table κ ρ) (kept : ρ → ρ → Prop) (new : κ → ρ → Prop) : Prop :=
  ∀ k r', T'.lookup k = some r' → (∃ r, T.lookup k = some r ∧ kept r r') ∨ new k r'

def IdentityRow.Kept (r r' : IdentityRow) : Prop := r'.userID = r.userID

structure EnrollmentRow.Kept (r r' : EnrollmentRow) : Prop where
  user : r'.userID = r.userID
  usable : ∀ now, r'.usable now = true → r.usable now = true

structure DeviceLoginRow.Kept (r r' : DeviceLoginRow) : Prop where
  user : r'.userID = r.userID
  consumed : r'.consumedAt = none → r.consumedAt = none

def Tx.binds (P : Primitives) : Tx → Option (String × String)
  | .bindExternalIdentity _ userID provider _ _ => some (P.toLower (P.trimSpace provider), userID)
  | _ => none

def Tx.Grants (x : Tx) (r : Except Error x.Val) (u : String) : Prop := x.grantee = some u ∧ r.isOk = true

structure Effect (P : Primitives) (now : Time) (x : Tx) (db db' : DB) (r : Except Error x.Val) : Prop where
  users : ∀ u admin, db.users.lookup u = some admin → db'.users.lookup u = some admin
  tokens : TokenStep P now x db db' r
  identities : Rows db.identities db'.identities IdentityRow.Kept fun k r' =>
    x.binds P = some (k.1, r'.userID) ∧ x.Grants r r'.userID ∧ (db.users.lookup r'.userID).isSome = true
  enrollments : Rows db.enrollments db'.enrollments EnrollmentRow.Kept fun _ r' => x.Grants r r'.userID
  logins : Rows db.logins db'.logins DeviceLoginRow.Kept fun _ r' => r'.userID = "" ∨ x.Grants r r'.userID

section Rows

variable {κ ρ : Type} [DecidableEq κ] {T : Table κ ρ} {kept : ρ → ρ → Prop} {new : κ → ρ → Prop}

theorem Rows.refl (hkept : ∀ r, kept r r) : Rows T T kept new := fun _ r' h => .inl ⟨r', h, hkept r'⟩

variable {k : κ} {r : ρ}

theorem Rows.insert_new (hkept : ∀ r, kept r r) (hnew : new k r) : Rows T (T.insert k r) kept new := by
  intro k' r' h
  rw [Table.lookup_insert_eq] at h
  split at h
  · cases h
    subst k'
    exact .inr hnew
  · exact .inl ⟨r', h, hkept r'⟩

theorem Rows.insert_kept {r' : ρ} (hkept : ∀ r, kept r r) (hr : T.lookup k = some r) (hr' : kept r r') :
    Rows T (T.insert k r') kept new := by
  intro k' r'' h
  rw [Table.lookup_insert_eq] at h
  split at h
  · cases h
    subst k'
    exact .inl ⟨r, hr, hr'⟩
  · exact .inl ⟨r'', h, hkept r''⟩

theorem Rows.delete (p : κ → ρ → Bool) (hkept : ∀ r, kept r r) : Rows T (Table.delete T p) kept new := by
  intro k r' h
  rw [Table.lookup_delete] at h
  exact .inl ⟨r', (Option.filter_eq_some_iff.mp h).1, hkept r'⟩

theorem Rows.updateAll {f : κ → ρ → ρ} (hf : ∀ k r, kept r (f k r) ∨ new k (f k r)) :
    Rows T (Table.updateAll T f) kept new := by
  intro k r' h
  rw [Table.lookup_updateAll] at h
  obtain ⟨r, hr, rfl⟩ := Option.map_eq_some_iff.mp h
  rcases hf k r with h | h
  · exact .inl ⟨r, hr, h⟩
  · exact .inr h

theorem Rows.trans_new {T' : Table κ ρ} (h : Rows T T' kept new) (hnew : new k r) : Rows T (T'.insert k r) kept new := by
  intro k' r' h'
  rw [Table.lookup_insert_eq] at h'
  split at h'
  · cases h'
    subst k'
    exact .inr hnew
  · exact h k' r' h'

end Rows

@[simp] theorem IdentityRow.Kept.refl (r : IdentityRow) : r.Kept r := rfl

theorem EnrollmentRow.Kept.refl (r : EnrollmentRow) : r.Kept r := ⟨rfl, fun _ h => h⟩

theorem DeviceLoginRow.Kept.refl (r : DeviceLoginRow) : r.Kept r := ⟨rfl, id⟩

section Steps

variable {P : Primitives} {db db' : DB} {now : Time} {dice : Dice} {x : Tx}

variable {r : Except Error x.Val} {userID subject id provider : String} {expiresAt : Time} {principal : Principal}
  {deviceName userCode : String} {enrollments : Table String EnrollmentRow} {logins : Table String DeviceLoginRow}

theorem Effect.of_tokens {tokens : Table String TokenRow} (h : TokenStep P now x db { db with tokens := tokens } r) :
    Effect P now x db { db with tokens := tokens } r where
  users _ _ h := h
  tokens := h
  identities := .refl IdentityRow.Kept.refl
  enrollments := .refl EnrollmentRow.Kept.refl
  logins := .refl DeviceLoginRow.Kept.refl

theorem Effect.of_error {e : Error} : Effect P now x db db (.error e) :=
  .of_tokens (.same _ rfl (nofun) nofun)

theorem Effect.with_rows {identities : Table (String × String) IdentityRow} (h : Effect P now x db db' r)
    (hiden : Rows db.identities identities IdentityRow.Kept fun k r' =>
      x.binds P = some (k.1, r'.userID) ∧ x.Grants r r'.userID ∧ (db.users.lookup r'.userID).isSome = true)
    (henr : Rows db.enrollments enrollments EnrollmentRow.Kept fun _ r' => x.Grants r r'.userID)
    (hlog : Rows db.logins logins DeviceLoginRow.Kept fun _ r' => r'.userID = "" ∨ x.Grants r r'.userID) :
    Effect P now x db { db' with identities := identities, enrollments := enrollments, logins := logins } r where
  users := h.users
  tokens := by
    cases h.tokens with
    | same r ht hi hr => exact .same r ht hi hr
    | issue v i hv hnew ht hi hx hs => exact .issue v i hv hnew ht ⟨hi.formed, hi.kind, hi.user, hi.human⟩ hx hs
    | revoke v t hv ht => exact .revoke v t hv ht
  identities := hiden
  enrollments := henr
  logins := hlog

theorem Effect.with_logins (h : Effect P now x db db' r)
    (hlog : Rows db.logins logins DeviceLoginRow.Kept fun _ r' => r'.userID = "" ∨ x.Grants r r'.userID) :
    Effect P now x db { db' with logins := logins } r :=
  h.with_rows h.identities h.enrollments hlog

theorem Effect.with_enrollments (h : Effect P now x db db' r)
    (henr : Rows db.enrollments enrollments EnrollmentRow.Kept fun _ r' => x.Grants r r'.userID) :
    Effect P now x db { db' with enrollments := enrollments } r :=
  h.with_rows h.identities henr h.logins

theorem wellFormed_newToken {kind : PrincipalKind} {projectID : String} {expiresAt : Option Time} (hk : kind ≠ .system)
    (hu : userID ≠ "" → (db.users.lookup userID).isSome = true) (hh : userID ≠ "" → kind ≠ .github) :
    (newToken dice kind userID projectID subject expiresAt).WellFormed db where
  formed := by
    refine formed_newSecret dice.token ?_ (by decide +kernel) (by decide +kernel)
    cases kind <;> decide +kernel
  kind := hk
  user := hu
  human := hh

theorem issue_cases {i : Issued} {r : Except Error Issued} (h : issue P db i = (r, db')) :
    (∃ e, r = .error e ∧ db' = db) ∨ (r = .ok i ∧ db.tokens.lookup i.id = none ∧
      (i.userID ≠ "" → (db.users.lookup i.userID).isSome = true) ∧
      db' = { db with tokens := db.tokens.insert i.id (i.row P) }) := by
  rw [issue] at h
  split at h
  · cases h
    exact .inl ⟨_, rfl, rfl⟩
  rename_i hc
  cases h
  simp only [Bool.or_eq_true, not_or, Bool.and_eq_true, decide_eq_true_eq, not_and, Bool.not_eq_true,
    Option.isSome_eq_false_iff, Option.isNone_iff_eq_none] at hc
  exact .inr ⟨rfl, hc.1, fun hu => Option.isSome_iff_ne_none.mpr (hc.2 hu), rfl⟩

theorem Effect.of_issue {kind : PrincipalKind} {projectID : String} {expiresAt : Option Time} {r0 : Except Error Issued}
    (h : issue P db (newToken dice kind userID projectID subject expiresAt) = (r0, db')) (hk : kind ≠ .system)
    (hh : userID ≠ "" → kind ≠ .github) (hexpiry : expiresAt = x.expiry) (hsource : x.Source now db userID)
    (hok : ∀ i, r0 = .ok i → ∃ v, r = .ok v ∧ x.issued v = some i) (herr : ∀ e, r0 = .error e → ∃ e', r = .error e') :
    Effect P now x db db' r := by
  rcases issue_cases h with ⟨e, he, rfl⟩ | ⟨hr, hnew, hu, rfl⟩
  · obtain ⟨e', rfl⟩ := herr e he
    exact .of_error
  obtain ⟨v, rfl, hv⟩ := hok _ hr
  exact .of_tokens (.issue v _ hv hnew rfl (wellFormed_newToken hk hu hh) hexpiry hsource)

theorem Effect.of_update {p : TokenRow → Bool} {t : Int} {tokens : Table String TokenRow} {v : x.Val}
    (h : Table.update db.tokens id (fun r => p r && r.revokedAt.isNone) (fun r => { r with revokedAt := some t }) = (1, tokens))
    (hv : x.issued v = none) (hx : ∀ id' r, x.revokes P id' r.kind r.userID = (id' == id && p r)) :
    Effect P now x db { db with tokens := tokens } (.ok v) := by
  refine .of_tokens (.revoke v t hv fun id' => ?_)
  have hlook := Table.lookup_update db.tokens id id' (fun r => p r && r.revokedAt.isNone)
    fun r => { r with revokedAt := some t }
  rw [h] at hlook
  rw [hlook]
  by_cases hid : id' = id
  · subst hid
    simp [hx]
  have hsame : ∀ r : TokenRow, (if x.revokes P id' r.kind r.userID && r.revokedAt.isNone then
      { r with revokedAt := some t } else r) = r := by
    intro r
    simp [hx, hid]
  rw [if_neg hid]
  simp only [hsame]
  exact Option.map_id'.symm ▸ rfl

theorem Effect.of_same {states : Table String LoginStateRow}
    (hx : ∀ v, x.issued v = none ∧ ∀ id kind userID, x.revokes P id kind userID = false) :
    Effect P now x db { db with states := states } r :=
  ⟨fun _ _ h => h, .same r rfl (fun v _ => (hx v).1) fun v _ => (hx v).2, .refl IdentityRow.Kept.refl,
    .refl EnrollmentRow.Kept.refl, .refl DeviceLoginRow.Kept.refl⟩

theorem bootstrap_effect {r : Except Error Issued} (h : bootstrap P db dice = (r, db')) :
    Effect P now .bootstrap db db' r := by
  simp only [bootstrap] at h
  split at h
  · cases h
    exact .of_error
  rename_i hempty
  have hempty : db.users.entries = [] := by simpa using hempty
  split at h
  · rename_i i db1 hi
    cases h
    rcases issue_cases hi with ⟨e, he, -⟩ | ⟨he, hnew, hu, rfl⟩
    · cases he
    cases he
    exact ⟨fun u admin h => by simp [AList.lookup, hempty] at h,
      .issue _ _ rfl hnew rfl (wellFormed_newToken (by decide) hu fun _ => by decide) rfl (.inr (.inr (.inl hempty))),
      .refl IdentityRow.Kept.refl, .refl EnrollmentRow.Kept.refl, .refl DeviceLoginRow.Kept.refl⟩
  cases h
  exact .of_error

theorem createUser_effect {name : String} {admin : Bool} {r : Except Error String}
    (h : createUser P db dice principal name admin = (r, db')) :
    Effect P now (.createUser principal name admin) db db' r := by
  rw [createUser] at h
  split at h
  · cases h
    exact .of_error
  split at h
  · cases h
    exact .of_error
  simp only [] at h
  split at h
  · cases h
    exact .of_error
  rename_i hnew
  cases h
  refine ⟨fun u a hu => ?_, .same _ rfl (fun _ _ => rfl) fun _ _ _ _ _ => rfl, .refl IdentityRow.Kept.refl,
    .refl EnrollmentRow.Kept.refl, .refl DeviceLoginRow.Kept.refl⟩
  rw [Table.lookup_insert_eq, if_neg, hu]
  rintro rfl
  simp [hu] at hnew

theorem createDeviceToken_effect {name : String} {r : Except Error Issued}
    (h : createDeviceToken P db dice principal userID name expiresAt = (r, db')) :
    Effect P now (.createDeviceToken principal userID name expiresAt) db db' r := by
  have hsource : (Tx.createDeviceToken principal userID name expiresAt).Source now db
      (if userID = "" then principal.userID else userID) := .inr (.inl rfl)
  simp only [createDeviceToken] at h
  generalize (if userID = "" then principal.userID else userID) = user at h hsource
  split at h
  · cases h
    exact .of_error
  split at h
  · cases h
    exact .of_error
  split at h
  · cases h
    exact .of_error
  split at h
  · cases h
    exact .of_error
  · exact .of_issue h (by decide) (fun _ => by decide) rfl hsource (fun i hi => ⟨i, hi, rfl⟩) fun e he => ⟨e, he⟩

theorem createBrowserSession_effect {r : Except Error Issued}
    (h : createBrowserSession P db now dice userID expiresAt = (r, db')) :
    Effect P now (.createBrowserSession userID expiresAt) db db' r := by
  rw [createBrowserSession] at h
  split at h
  · cases h
    exact .of_error
  split at h
  · cases h
    exact .of_error
  exact .of_issue h (by decide) (fun _ => by decide) rfl (.inr (.inl rfl)) (fun i hi => ⟨i, hi, rfl⟩)
    fun e he => ⟨e, he⟩

theorem endBrowserSession_effect {r : Except Error Unit} (h : endBrowserSession db now id = (r, db')) :
    Effect P now (.endBrowserSession id) db db' r := by
  rw [endBrowserSession] at h
  split at h
  · rename_i tokens hu
    cases h
    exact .of_update hu rfl fun _ _ => rfl
  cases h
  exact .of_error

theorem revokeDeviceToken_effect {r : Except Error Unit}
    (h : revokeDeviceToken db now principal id = (r, db')) : Effect P now (.revokeDeviceToken principal id) db db' r := by
  rw [revokeDeviceToken] at h
  split at h
  · cases h
    exact .of_error
  split at h
  · rename_i tokens hu
    cases h
    have hcond : ∀ r : TokenRow, (r.kind == .device && r.revokedAt.isNone &&
        (principal.admin || r.userID == principal.userID)) =
        ((r.kind == .device && (principal.admin || r.userID == principal.userID)) && r.revokedAt.isNone) := by
      intro r
      rw [Bool.and_right_comm]
    simp only [hcond] at hu
    exact .of_update hu rfl fun _ _ => Bool.and_assoc _ _ _
  cases h
  exact .of_error

theorem bindExternalIdentity_effect {login : String} {r : Except Error Unit}
    (h : bindExternalIdentity P db principal userID provider subject login = (r, db')) :
    Effect P now (.bindExternalIdentity principal userID provider subject login) db db' r := by
  simp only [bindExternalIdentity] at h
  split at h
  · cases h
    exact .of_error
  split at h
  · cases h
    exact .of_error
  split at h
  · cases h
    exact .of_error
  rename_i huser
  split at h
  · cases h
    exact .of_error
  cases h
  refine .with_rows (.of_same fun _ => ⟨rfl, fun _ _ _ => rfl⟩) (.insert_new IdentityRow.Kept.refl ?_)
      (.refl EnrollmentRow.Kept.refl)
    (.refl DeviceLoginRow.Kept.refl)
  exact ⟨rfl, ⟨rfl, rfl⟩, by simpa [Option.isSome_iff_ne_none] using huser⟩

theorem revokeExternalIdentity_cases {r : Except Error Unit}
    (h : revokeExternalIdentity P db now principal userID provider = (r, db')) :
    (∃ e, r = .error e ∧ db' = db) ∨ (r = .ok () ∧ P.trimSpace userID ≠ "" ∧
      (∃ k row, db.identities.lookup k = some row ∧ row.userID = P.trimSpace userID) ∧ db' = { db with
        identities := Table.delete db.identities fun k r =>
          k.1 == P.toLower (P.trimSpace provider) && r.userID == P.trimSpace userID
        tokens := Table.updateAll db.tokens fun _ r =>
          if r.fallsWith (P.trimSpace userID) && r.revokedAt.isNone then { r with revokedAt := some (unix now) } else r
        logins := Table.updateAll db.logins fun _ r =>
          if r.userID == P.trimSpace userID && r.consumedAt.isNone then { r with consumedAt := some (unix now) } else r }) := by
  simp only [revokeExternalIdentity] at h
  split at h
  · cases h
    exact .inl ⟨_, rfl, rfl⟩
  split at h
  · cases h
    exact .inl ⟨_, rfl, rfl⟩
  rename_i hne
  split at h
  · cases h
    exact .inl ⟨_, rfl, rfl⟩
  rename_i hany
  cases h
  simp only [Bool.not_eq_true, Bool.not_eq_false', List.any_eq_true, Bool.and_eq_true, beq_iff_eq] at hany
  obtain ⟨⟨k, row⟩, hm, -, hu⟩ := hany
  refine .inr ⟨rfl, ?_, ⟨k, row, Table.mem_rows.mp hm, hu⟩, rfl⟩
  intro he
  simp [he] at hne

theorem revokeExternalIdentity_effect {r : Except Error Unit}
    (h : revokeExternalIdentity P db now principal userID provider = (r, db')) :
    Effect P now (.revokeExternalIdentity principal userID provider) db db' r := by
  rcases revokeExternalIdentity_cases h with ⟨e, rfl, rfl⟩ | ⟨rfl, -, -, rfl⟩
  · exact .of_error
  refine ⟨fun _ _ h => h, ?_, .delete _ IdentityRow.Kept.refl, .refl EnrollmentRow.Kept.refl, .updateAll fun _ r => .inl ?_⟩
  · refine TokenStep.revoke (x := .revokeExternalIdentity principal userID provider) () (unix now) rfl fun id => ?_
    exact Table.lookup_updateAll db.tokens _ id
  split
  · exact ⟨rfl, nofun⟩
  · exact .refl r

theorem userByExternalIdentity_effect {login : String} {r : Except Error (String × Bool)}
    (h : userByExternalIdentity P db provider subject login = (r, db')) :
    Effect P now (.userByExternalIdentity provider subject login) db db' r := by
  simp only [userByExternalIdentity] at h
  split at h
  · cases h
    exact .of_error
  split at h
  · cases h
    exact .of_error
  rename_i row hrow
  split at h
  · cases h
    exact .of_error
  cases h
  exact .with_rows (.of_same fun _ => ⟨rfl, fun _ _ _ => rfl⟩) (.insert_kept IdentityRow.Kept.refl hrow rfl)
      (.refl EnrollmentRow.Kept.refl)
    (.refl DeviceLoginRow.Kept.refl)

theorem createOAuthLoginState_effect {returnTo codeVerifier : String} {r : Except Error (List UInt8)}
    (h : createOAuthLoginState P db now dice returnTo codeVerifier expiresAt = (r, db')) :
    Effect P now (.createOAuthLoginState returnTo codeVerifier expiresAt) db db' r := by
  simp only [createOAuthLoginState] at h
  split at h
  · cases h
    exact .of_error
  · split at h <;> (cases h; exact .of_same fun _ => ⟨rfl, fun _ _ _ => rfl⟩)

theorem consumeOAuthLoginState_cases {state : List UInt8} {r : Except Error (String × String)}
    (h : consumeOAuthLoginState P db now state = (r, db')) : (∃ e, r = .error e ∧ db' = db) ∨
      ∃ id row, parseOpaque state (bytes "ols") = some id ∧ db.states.lookup id = some row ∧ row.consumedAt = none ∧
        now < row.expiresAt ∧ P.digest state = row.digest ∧ r = .ok (row.returnTo, row.codeVerifier) ∧
        db' = { db with states := db.states.insert id { row with consumedAt := some (unix now) } } := by
  rw [consumeOAuthLoginState] at h
  split at h
  · cases h
    exact .inl ⟨_, rfl, rfl⟩
  rename_i id hparse
  split at h
  · cases h
    exact .inl ⟨_, rfl, rfl⟩
  rename_i row hrow
  split at h
  · cases h
    exact .inl ⟨_, rfl, rfl⟩
  rename_i hgood
  cases h
  simp only [Bool.or_eq_true, decide_eq_true_eq, not_or, not_le, ge_iff_le, not_not, Option.isSome_iff_ne_none, ne_eq] at hgood
  exact .inr ⟨id, row, hparse, hrow, hgood.1.1, hgood.1.2, hgood.2, rfl, rfl⟩

theorem consumeOAuthLoginState_effect {state : List UInt8} {r : Except Error (String × String)}
    (h : consumeOAuthLoginState P db now state = (r, db')) : Effect P now (.consumeOAuthLoginState state) db db' r := by
  rcases consumeOAuthLoginState_cases h with ⟨e, rfl, rfl⟩ | ⟨_, _, -, -, -, -, -, rfl, rfl⟩
  · exact .of_error
  · exact .of_same fun _ => ⟨rfl, fun _ _ _ => rfl⟩

theorem createDeviceLogin_effect {r : Except Error (List UInt8 × String)}
    (h : createDeviceLogin P db now dice deviceName expiresAt = (r, db')) :
    Effect P now (.createDeviceLogin deviceName expiresAt) db db' r := by
  simp only [createDeviceLogin] at h
  split at h
  · cases h
    exact .of_error
  split at h
  · cases h
    exact .with_logins (.of_same fun _ => ⟨rfl, fun _ _ _ => rfl⟩) (.delete _ DeviceLoginRow.Kept.refl)
  cases h
  exact .with_logins (.of_same fun _ => ⟨rfl, fun _ _ _ => rfl⟩) (Rows.trans_new (.delete _ DeviceLoginRow.Kept.refl) (.inl rfl))

theorem deviceLoginByUserCode_eq {r : Except Error String}
    (h : deviceLoginByUserCode P db now userCode = (r, db')) : db' = db := by
  simp only [deviceLoginByUserCode] at h
  split at h
  · cases h
    rfl
  · split at h <;> (cases h; rfl)

theorem approveDeviceLogin_cases {r : Except Error Unit}
    (h : approveDeviceLogin P db now userCode principal = (r, db')) :
    (∃ e, r = .error e ∧ db' = db) ∨
      (r = .ok () ∧ principal.kind = .browser ∧
        (∃ id row, db.logins.lookup id = some row ∧ row.approvable now (P.toUpper (P.trimSpace userCode)) = true) ∧
        db' = { db with
          logins := Table.updateAll db.logins fun _ row =>
            if row.approvable now (P.toUpper (P.trimSpace userCode)) then
              { row with userID := principal.userID, approvedAt := some (unix now) } else row }) := by
  simp only [approveDeviceLogin] at h
  split at h
  · cases h
    exact .inl ⟨_, rfl, rfl⟩
  rename_i hbrowser
  split at h
  · cases h
    exact .inl ⟨_, rfl, rfl⟩
  rename_i hany
  split at h
  · cases h
    exact .inl ⟨_, rfl, rfl⟩
  cases h
  simp only [Bool.not_eq_true, Bool.not_eq_false', List.any_eq_true] at hany
  obtain ⟨⟨id, row⟩, hmem, happroved⟩ := hany
  refine .inr ⟨rfl, ?_, ⟨id, row, Table.mem_rows.mp hmem, happroved⟩, rfl⟩
  simp only [Bool.or_eq_true, not_or, decide_eq_true_eq, not_not] at hbrowser
  exact hbrowser.1

theorem approveDeviceLogin_effect {r : Except Error Unit}
    (h : approveDeviceLogin P db now userCode principal = (r, db')) :
    Effect P now (.approveDeviceLogin userCode principal) db db' r := by
  rcases approveDeviceLogin_cases h with ⟨e, rfl, rfl⟩ | ⟨rfl, -, -, rfl⟩
  · exact .of_error
  refine .with_logins (.of_same fun _ => ⟨rfl, fun _ _ _ => rfl⟩) (.updateAll fun _ r => ?_)
  split
  · exact .inr (.inr ⟨rfl, rfl⟩)
  · exact .inl (.refl r)

theorem exchangeDeviceLogin_cases {deviceCode : List UInt8} {r : Except Error Issued}
    (h : exchangeDeviceLogin P db now dice deviceCode = (r, db')) :
    (∃ e, r = .error e ∧ db' = db) ∨
      ∃ id row i db1, r = .ok i ∧ parseOpaque deviceCode (bytes "dlc") = some id ∧ db.logins.lookup id = some row ∧
        row.consumedAt = none ∧ now < row.expiresAt ∧ row.approvedAt ≠ none ∧
        issue P db (newToken dice .device row.userID "" "" none) = (.ok i, db1) ∧ i.kind = .device ∧ i.userID = row.userID ∧
        db' = { db1 with logins := db.logins.insert id { row with consumedAt := some (unix now) } } := by
  rw [exchangeDeviceLogin] at h
  split at h
  · cases h
    exact .inl ⟨_, rfl, rfl⟩
  rename_i id hid
  split at h
  · cases h
    exact .inl ⟨_, rfl, rfl⟩
  rename_i row hrow
  split at h
  · cases h
    exact .inl ⟨_, rfl, rfl⟩
  rename_i hgood
  split at h
  · cases h
    exact .inl ⟨_, rfl, rfl⟩
  rename_i happroved
  split at h
  · cases h
    exact .inl ⟨_, rfl, rfl⟩
  rename_i i db1 hi
  cases h
  simp only [Bool.or_eq_true, not_or, decide_eq_true_eq, Option.isSome_iff_ne_none, not_not, Option.isNone_iff_eq_none,
    Int.not_le, ge_iff_le] at hgood happroved
  have hfact : i.kind = .device ∧ i.userID = row.userID ∧ db1.logins = db.logins := by
    rcases issue_cases hi with ⟨_, he, _⟩ | ⟨hok, -, -, rfl⟩
    · cases he
    cases hok
    exact ⟨rfl, rfl, rfl⟩
  refine .inr ⟨id, row, i, db1, rfl, hid, hrow, hgood.1.1, hgood.1.2, happroved.1, hi, hfact.1, hfact.2.1, ?_⟩
  rw [hfact.2.2]

theorem exchangeDeviceLogin_effect {deviceCode : List UInt8} {r : Except Error Issued}
    (h : exchangeDeviceLogin P db now dice deviceCode = (r, db')) :
    Effect P now (.exchangeDeviceLogin deviceCode) db db' r := by
  rcases exchangeDeviceLogin_cases h with ⟨e, rfl, rfl⟩ | ⟨id, row, i, db1, rfl, -, hrow, hopen, -, -, hi, -, -, rfl⟩
  · exact .of_error
  exact (Effect.of_issue hi (by decide) (fun _ => by decide) rfl
    (.inr (.inr (.inr (.inr ⟨id, row, hrow, rfl, hopen⟩)))) (fun i hi => ⟨i, hi, rfl⟩)
    nofun).with_logins
    (.insert_kept DeviceLoginRow.Kept.refl hrow ⟨rfl, nofun⟩)

theorem createEnrollmentCode_cases {r : Except Error (List UInt8)}
    (h : createEnrollmentCode P db now dice principal userID deviceName expiresAt = (r, db')) :
    (∃ e, r = .error e ∧ db' = db) ∨ ∃ id code, r = .ok code ∧ parseEnrollment code = some id ∧
      db.enrollments.lookup id = none ∧
      db' = { db with
        enrollments := db.enrollments.insert id ⟨userID, deviceName, P.digest code, unix expiresAt, none, 0, 5⟩ } := by
  simp only [createEnrollmentCode] at h
  split at h
  · cases h
    exact .inl ⟨_, rfl, rfl⟩
  split at h
  · cases h
    exact .inl ⟨_, rfl, rfl⟩
  split at h
  · cases h
    exact .inl ⟨_, rfl, rfl⟩
  split at h
  · cases h
    exact .inl ⟨_, rfl, rfl⟩
  split at h
  · cases h
    exact .inl ⟨_, rfl, rfl⟩
  rename_i hnew
  cases h
  refine .inr ⟨_, _, rfl, Formed.parseOpaque ?_, by simpa using hnew, rfl⟩
  exact formed_newSecret dice.token (by decide +kernel) (by decide +kernel) (by decide +kernel)

theorem createEnrollmentCode_effect {r : Except Error (List UInt8)}
    (h : createEnrollmentCode P db now dice principal userID deviceName expiresAt = (r, db')) :
    Effect P now (.createEnrollmentCode principal userID deviceName expiresAt) db db' r := by
  rcases createEnrollmentCode_cases h with ⟨e, rfl, rfl⟩ | ⟨_, _, rfl, -, -, rfl⟩
  · exact .of_error
  exact .with_enrollments (.of_same fun _ => ⟨rfl, fun _ _ _ => rfl⟩) (.insert_new EnrollmentRow.Kept.refl ⟨rfl, rfl⟩)

theorem exchangeEnrollmentCode_effect {code : List UInt8} {r : Except Error Issued}
    (h : exchangeEnrollmentCode P db now dice code = (r, db')) :
    Effect P now (.exchangeEnrollmentCode code) db db' r := by
  rw [exchangeEnrollmentCode] at h
  split at h
  · cases h
    exact .of_error
  rename_i id hid
  split at h
  · cases h
    exact .of_error
  rename_i row hrow
  split at h
  · cases h
    exact .of_error
  rename_i hgood
  split at h
  · -- a wrong secret counts as an attempt
    cases h
    refine Effect.of_error.with_enrollments (.insert_kept EnrollmentRow.Kept.refl hrow ⟨rfl, fun t ht => ?_⟩)
    simp only [EnrollmentRow.usable, Bool.not_eq_true', Bool.or_eq_false_iff, decide_eq_false_iff_not] at ht ⊢
    exact ⟨ht.1, by omega⟩
  split at h
  · cases h
    exact .of_error
  rename_i i db1 hi
  cases h
  have husable : row.usable now = true := by simpa [EnrollmentRow.usable] using hgood
  have henr : db1.enrollments = db.enrollments := by
    rcases issue_cases hi with ⟨-, -, rfl⟩ | ⟨-, -, -, rfl⟩ <;> rfl
  rw [henr]
  refine (Effect.of_issue hi (by decide) (fun _ => by decide) rfl
    (.inr (.inr (.inr (.inl ⟨id, row, hrow, rfl, husable⟩)))) (fun i hi => ⟨i, hi, rfl⟩)
    nofun).with_enrollments
    (.insert_kept EnrollmentRow.Kept.refl hrow ⟨rfl, fun t ht => ?_⟩)
  simp [EnrollmentRow.usable] at ht

theorem run_effect (h : x.run P now dice db = (r, db')) : Effect P now x db db' r := by
  cases x with
  | bootstrap => exact bootstrap_effect h
  | createUser principal name admin => exact createUser_effect h
  | authenticate token =>
    cases h
    exact .of_same fun _ => ⟨rfl, fun _ _ _ => rfl⟩
  | createDeviceToken principal userID name expiresAt => exact createDeviceToken_effect h
  | createProjectSession projectID subject expiresAt =>
    exact .of_issue h (by decide) (fun h => absurd rfl h) rfl (.inl rfl) (fun i hi => ⟨i, hi, rfl⟩) fun e he => ⟨e, he⟩
  | createBrowserSession userID expiresAt => exact createBrowserSession_effect h
  | endBrowserSession id => exact endBrowserSession_effect h
  | revokeDeviceToken principal id => exact revokeDeviceToken_effect h
  | bindExternalIdentity principal userID provider subject login => exact bindExternalIdentity_effect h
  | revokeExternalIdentity principal userID provider => exact revokeExternalIdentity_effect h
  | userByExternalIdentity provider subject login => exact userByExternalIdentity_effect h
  | createOAuthLoginState returnTo codeVerifier expiresAt => exact createOAuthLoginState_effect h
  | consumeOAuthLoginState state => exact consumeOAuthLoginState_effect h
  | createDeviceLogin deviceName expiresAt => exact createDeviceLogin_effect h
  | deviceLoginByUserCode userCode =>
    cases deviceLoginByUserCode_eq h
    exact .of_same fun _ => ⟨rfl, fun _ _ _ => rfl⟩
  | approveDeviceLogin userCode principal => exact approveDeviceLogin_effect h
  | exchangeDeviceLogin deviceCode => exact exchangeDeviceLogin_effect h
  | createEnrollmentCode principal userID deviceName expiresAt => exact createEnrollmentCode_effect h
  | exchangeEnrollmentCode code => exact exchangeEnrollmentCode_effect h

end Steps

/-! ## Tables that a call leaves alone -/

def Tx.enrolls : Tx → Bool
  | .createEnrollmentCode _ _ _ _ => true
  | .exchangeEnrollmentCode _ => true
  | _ => false

def Tx.logsIn : Tx → Bool
  | .revokeExternalIdentity _ _ _ => true
  | .createDeviceLogin _ _ => true
  | .approveDeviceLogin _ _ => true
  | .exchangeDeviceLogin _ => true
  | _ => false

def Tx.opensLogin : Tx → Bool
  | .createOAuthLoginState _ _ _ | .consumeOAuthLoginState _ => true
  | _ => false

/-- `f` depends on no table that the call may write. -/
structure Frame {β : Type} (f : DB → β) (x : Tx) : Prop where
  users : ∀ (db : DB) users, f { db with users := users } = f db
  identities : ∀ (db : DB) identities, f { db with identities := identities } = f db
  tokens : ∀ (db : DB) tokens, f { db with tokens := tokens } = f db
  states : x.opensLogin = true → ∀ (db : DB) states, f { db with states := states } = f db
  enrollments : x.enrolls = true → ∀ (db : DB) enrollments, f { db with enrollments := enrollments } = f db
  logins : x.logsIn = true → ∀ (db : DB) logins, f { db with logins := logins } = f db

section Frame

variable {β : Type} {f : DB → β} {x : Tx} {P : Primitives} {db : DB} {now : Time} {dice : Dice}

theorem Frame.issue (h : Frame f x) (P : Primitives) (db : DB) (i : Issued) : f (Auth.issue P db i).2 = f db := by
  rw [Auth.issue]
  split
  · rfl
  · exact h.tokens ..

theorem Frame.issued (h : Frame f x) {i : Issued} {r : Except Error Issued} {db' : DB} (hi : Auth.issue P db i = (r, db')) :
    f db' = f db := by
  rw [← h.issue P db i, hi]

theorem Frame.revoked (h : Frame f x) (hx : x.logsIn = true) (db : DB) (identities : Table (String × String) IdentityRow)
    (tokens : Table String TokenRow) (logins : Table String DeviceLoginRow) :
    f { db with identities := identities, tokens := tokens, logins := logins } = f db :=
  calc f { db with identities := identities, tokens := tokens, logins := logins }
    _ = f { db with identities := identities, tokens := tokens } :=
      h.logins hx { db with identities := identities, tokens := tokens } logins
    _ = f { db with identities := identities } := h.tokens { db with identities := identities } tokens
    _ = f db := h.identities db identities

theorem run_frame (h : Frame f x) : f (x.run P now dice db).2 = f db := by
  cases x with
  | bootstrap =>
    simp only [Tx.run, Auth.bootstrap]
    split
    · rfl
    split
    · rename_i hiss
      exact (h.issued hiss).trans (h.users ..)
    · rfl
  | createUser _ _ _ | endBrowserSession _ | revokeDeviceToken _ _ | bindExternalIdentity _ _ _ _ _ | userByExternalIdentity _ _ _
  | createOAuthLoginState _ _ _ | consumeOAuthLoginState _ | createDeviceLogin _ _ | deviceLoginByUserCode _
  | approveDeviceLogin _ _ | createEnrollmentCode _ _ _ _ =>
    -- at most one table is written
    simp only [Tx.run, Auth.createUser, Auth.endBrowserSession, Auth.revokeDeviceToken, Auth.bindExternalIdentity,
      Auth.userByExternalIdentity, Auth.createOAuthLoginState, Auth.consumeOAuthLoginState, Auth.createDeviceLogin,
      Auth.deviceLoginByUserCode, Auth.approveDeviceLogin, Auth.createEnrollmentCode]
    repeat' split
    all_goals first
      | rfl | exact h.users .. | exact h.tokens .. | exact h.identities .. | exact h.states rfl .. | exact h.logins rfl ..
      | exact h.enrollments rfl ..
  | authenticate token => rfl
  | createDeviceToken principal userID name expiresAt =>
    simp only [Tx.run, Auth.createDeviceToken]
    generalize (if userID = "" then principal.userID else userID) = user
    repeat' split
    all_goals first | rfl | exact h.issue ..
  | createProjectSession projectID subject expiresAt => exact h.issue ..
  | createBrowserSession userID expiresAt =>
    simp only [Tx.run, Auth.createBrowserSession]
    repeat' split
    all_goals first | rfl | exact h.issue ..
  | revokeExternalIdentity principal userID provider =>
    simp only [Tx.run, Auth.revokeExternalIdentity]
    repeat' split
    · rfl
    · rfl
    · rfl
    · exact h.revoked rfl ..
  | exchangeDeviceLogin deviceCode =>
    simp only [Tx.run, Auth.exchangeDeviceLogin]
    repeat' split
    · rfl
    · rfl
    · rfl
    · rfl
    · rfl
    · rename_i hiss
      exact (h.logins rfl ..).trans (h.issued hiss)
  | exchangeEnrollmentCode code =>
    simp only [Tx.run, Auth.exchangeEnrollmentCode]
    repeat' split
    · rfl
    · rfl
    · rfl
    · exact h.enrollments rfl ..
    · rfl
    · rename_i hiss
      exact (h.enrollments rfl ..).trans (h.issued hiss)

end Frame

end Auth

end Autback
