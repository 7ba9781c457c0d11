import Autback.Auth.Token
import Autback.Table.Basic

/-!
# The tables of authentication

The statements of `internal/control/sqlite/store.go` on users, external identities, access tokens, enrollment codes, OAuth login
states and device logins. A method is a function of the tables, the time and the random values that it draws. Users are never
deleted, so a method that looks for its user before it writes is one step here.
-/

namespace Autback

namespace Auth

open Gateway (bytes)

/-- What the store takes from the standard library: the keyed digest in hexadecimal digits, and `strings.TrimSpace`,
`ToLower` and `ToUpper`. -/
structure Primitives where
  digest : List UInt8 → List UInt8
  (trimSpace toLower toUpper : String → String)

inductive Error
  | unauthenticated
  | forbidden
  | notFound
  | alreadyExists
  | loginPending
  | invalid (text : String)
  | constraint
  deriving DecidableEq

/-- `unix`: nanoseconds as an `int64`, which wraps around. -/
def unix (t : Time) : Int := t.bmod 18446744073709551616

/-! ## Tables -/

/-- A row of `access_tokens`; an empty user or project stands for NULL. -/
structure TokenRow where
  kind : PrincipalKind
  (userID projectID subject : String)
  digest : List UInt8
  (expiresAt revokedAt : Option Int)
  deriving DecidableEq

structure EnrollmentRow where
  (userID deviceName : String)
  digest : List UInt8
  expiresAt : Int
  consumedAt : Option Int
  (failedAttempts maxAttempts : Nat)
  deriving DecidableEq

structure LoginStateRow where
  digest : List UInt8
  (returnTo codeVerifier : String)
  expiresAt : Int
  consumedAt : Option Int
  deriving DecidableEq

structure DeviceLoginRow where
  (userCode deviceName : String)
  digest : List UInt8
  userID : String
  expiresAt : Int
  (approvedAt consumedAt : Option Int)
  deriving DecidableEq

structure IdentityRow where
  (login userID : String)
  deriving DecidableEq

/-- The tables. Users have their admin flag, external identities are keyed by provider and subject. -/
structure DB where
  users : Table String Bool
  identities : Table (String × String) IdentityRow
  tokens : Table String TokenRow
  enrollments : Table String EnrollmentRow
  states : Table String LoginStateRow
  logins : Table String DeviceLoginRow

def DB.empty : DB := ⟨∅, ∅, ∅, ∅, ∅, ∅⟩

abbrev Result (α : Type) := Except Error α × DB

structure Dice where
  (token user : Random)
  userCode : String

/-! ## Access tokens -/

structure Issued where
  id : String
  secret : List UInt8
  kind : PrincipalKind
  (userID projectID subject : String)
  expiresAt : Option Time
  deriving DecidableEq

section Methods

variable (P : Primitives) (db : DB) (now : Time) (dice : Dice)

def Issued.row (i : Issued) : TokenRow :=
  ⟨i.kind, i.userID, i.projectID, i.subject, P.digest i.secret, i.expiresAt.map unix, none⟩

def newToken (kind : PrincipalKind) (userID projectID subject : String) (expiresAt : Option Time) : Issued :=
  let id := randomID "tok" dice.token
  ⟨id, newSecret (kindText kind) id dice.token, kind, userID, projectID, subject, expiresAt⟩

/-- `INSERT INTO access_tokens`. -/
def issue (i : Issued) : Result Issued :=
  if (db.tokens.lookup i.id).isSome || (i.userID ≠ "" && (db.users.lookup i.userID).isNone) then (.error .constraint, db)
  else (.ok i, { db with tokens := db.tokens.insert i.id (i.row P) })

def authenticate (token : List UInt8) : Except Error Principal :=
  match parseToken token with
  | none => .error .unauthenticated
  | some (kind, id) => match db.tokens.lookup id with
    | none => .error .unauthenticated
    | some r =>
      if r.kind ≠ kind || r.revokedAt.isSome || r.expiresAt.any fun expires => decide (now > expires) then
        .error .unauthenticated
      else if P.digest token ≠ r.digest then .error .unauthenticated
      else if r.userID = "" then .ok ⟨kind, id, r.userID, r.projectID, false, r.subject⟩
      else match db.users.lookup r.userID with
        | none => .error .unauthenticated
        | some admin => .ok ⟨kind, id, r.userID, r.projectID, admin, r.subject⟩

/-- `Bootstrap`: the first user, an administrator, with a device token. -/
def bootstrap : Result Issued :=
  if db.users.entries ≠ [] then (.error .alreadyExists, db)
  else
    let userID := randomID "usr" dice.user
    let db' := { db with users := db.users.insert userID true }
    match issue P db' (newToken dice .device userID "" "" none) with
    | (.ok i, db'') => (.ok i, db'')
    | (.error e, _) => (.error e, db)

def createUser (principal : Principal) (name : String) (admin : Bool) : Result String :=
  if !principal.admin then (.error .forbidden, db)
  else if P.trimSpace name = "" then (.error (.invalid "user name is required"), db)
  else
    let id := randomID "usr" dice.user
    if (db.users.lookup id).isSome then (.error .constraint, db)
    else (.ok id, { db with users := db.users.insert id admin })

def createDeviceToken (principal : Principal) (userID name : String) (expiresAt : Time) : Result Issued :=
  let userID := if userID = "" then principal.userID else userID
  if principal.kind ≠ .device || principal.userID = "" then (.error .forbidden, db)
  else if userID ≠ principal.userID && !principal.admin then (.error .forbidden, db)
  else if P.trimSpace name = "" then (.error (.invalid "device token name is required"), db)
  else if (db.users.lookup userID).isNone then (.error .notFound, db)
  else issue P db (newToken dice .device userID "" "" (if expiresAt = zeroTime then none else some expiresAt))

def createProjectSession (projectID subject : String) (expiresAt : Time) : Result Issued :=
  issue P db (newToken dice .github "" projectID subject (some expiresAt))

def createBrowserSession (userID : String) (expiresAt : Time) : Result Issued :=
  if userID = "" || expiresAt ≤ now || decide (expiresAt > now + 30 * 24 * 60 * minute) then
    (.error (.invalid "browser session user and expiry within 30 days are required"), db)
  else if (db.users.lookup userID).isNone then (.error .notFound, db)
  else issue P db (newToken dice .browser userID "" "" (some expiresAt))

/-- The `UPDATE` of `RevokeBrowserSession`, which first authenticates the session. -/
def endBrowserSession (id : String) : Result Unit :=
  match Table.update db.tokens id (fun r => r.kind == .browser && r.revokedAt.isNone)
      fun r => { r with revokedAt := some (unix now) } with
  | (1, tokens) => (.ok (), { db with tokens := tokens })
  | _ => (.error .notFound, db)

def revokeDeviceToken (principal : Principal) (id : String) : Result Unit :=
  if principal.kind ≠ .device || principal.userID = "" then (.error .forbidden, db)
  else match Table.update db.tokens id
      (fun r => r.kind == .device && r.revokedAt.isNone && (principal.admin || r.userID == principal.userID))
      fun r => { r with revokedAt := some (unix now) } with
    | (1, tokens) => (.ok (), { db with tokens := tokens })
    | _ => (.error .notFound, db)

/-! ## External identities -/

def bindExternalIdentity (principal : Principal) (userID provider subject login : String) : Result Unit :=
  let provider := P.toLower (P.trimSpace provider)
  let subject := P.trimSpace subject
  let login := P.trimSpace login
  if principal.kind ≠ .device || !principal.admin then (.error .forbidden, db)
  else if provider = "" || subject = "" || login = "" || userID = "" then
    (.error (.invalid "identity provider, subject, login, and user are required"), db)
  else if (db.users.lookup userID).isNone then (.error .notFound, db)
  else if (db.identities.lookup (provider, subject)).isSome ||
      (Table.rows db.identities).any fun e => e.1.1 == provider && e.2.userID == userID then (.error .alreadyExists, db)
  else (.ok (), { db with identities := db.identities.insert (provider, subject) ⟨login, userID⟩ })

/-- A revocation of identities takes the token `r` along. -/
def TokenRow.fallsWith (userID : String) (r : TokenRow) : Bool :=
  r.userID == userID && (r.kind == .browser || r.kind == .device)

def revokeExternalIdentity (principal : Principal) (userID provider : String) : Result Unit :=
  let provider := P.toLower (P.trimSpace provider)
  let userID := P.trimSpace userID
  if principal.kind ≠ .device || !principal.admin then (.error .forbidden, db)
  else if provider = "" || userID = "" then (.error (.invalid "identity provider and user are required"), db)
  else if !(Table.rows db.identities).any fun e => e.1.1 == provider && e.2.userID == userID then (.error .notFound, db)
  else (.ok (), { db with
    identities := Table.delete db.identities fun k r => k.1 == provider && r.userID == userID
    tokens := Table.updateAll db.tokens fun _ r =>
      if r.fallsWith userID && r.revokedAt.isNone then { r with revokedAt := some (unix now) } else r
    logins := Table.updateAll db.logins fun _ r =>
      if r.userID == userID && r.consumedAt.isNone then { r with consumedAt := some (unix now) } else r })

def userByExternalIdentity (provider subject login : String) : Result (String × Bool) :=
  let provider := P.toLower (P.trimSpace provider)
  let subject := P.trimSpace subject
  let login := P.trimSpace login
  if provider = "" || subject = "" || login = "" then (.error .unauthenticated, db)
  else match db.identities.lookup (provider, subject) with
    | none => (.error .forbidden, db)
    | some r => match db.users.lookup r.userID with
      | none => (.error .forbidden, db)
      | some admin => (.ok (r.userID, admin),
          { db with identities := db.identities.insert (provider, subject) { r with login := login } })

/-! ## OAuth login states -/

def createOAuthLoginState (returnTo codeVerifier : String) (expiresAt : Time) : Result (List UInt8) :=
  if !returnTo.startsWith "/" || returnTo.startsWith "//" || P.trimSpace codeVerifier = "" || expiresAt ≤ now ||
      decide (expiresAt > now + 15 * minute) then
    (.error (.invalid "valid local return path, verifier, and expiry within 15 minutes are required"), db)
  else
    let id := randomID "ols" dice.token
    let state := newSecret (bytes "ols") id dice.token
    let states := Table.delete db.states fun _ r => decide (r.expiresAt ≤ unix now) || r.consumedAt.isSome
    if (states.lookup id).isSome then (.error .constraint, { db with states := states })
    else (.ok state,
      { db with states := states.insert id ⟨P.digest state, returnTo, codeVerifier, unix expiresAt, none⟩ })

def consumeOAuthLoginState (state : List UInt8) : Result (String × String) :=
  match parseOpaque state (bytes "ols") with
  | none => (.error .unauthenticated, db)
  | some id => match db.states.lookup id with
    | none => (.error .unauthenticated, db)
    | some r =>
      if r.consumedAt.isSome || decide (now ≥ r.expiresAt) || P.digest state ≠ r.digest then (.error .unauthenticated, db)
      else (.ok (r.returnTo, r.codeVerifier),
        { db with states := db.states.insert id { r with consumedAt := some (unix now) } })

/-! ## Device logins -/

/-- `CreateDeviceLogin`: the device code, a secret of kind `dlc`, and the code for the user. -/
def createDeviceLogin (deviceName : String) (expiresAt : Time) : Result (List UInt8 × String) :=
  let deviceName := P.trimSpace deviceName
  if deviceName = "" || deviceName.utf8ByteSize > 128 || expiresAt ≤ now || decide (expiresAt > now + 15 * minute) then
    (.error (.invalid "device name and expiry within 15 minutes are required"), db)
  else
    let id := randomID "dlc" dice.token
    let code := newSecret (bytes "dlc") id dice.token
    let logins := Table.delete db.logins fun _ r => decide (r.expiresAt ≤ unix now) || r.consumedAt.isSome
    if (logins.lookup id).isSome || (Table.rows logins).any fun e => e.2.userCode == dice.userCode then
      (.error .constraint, { db with logins := logins })
    else (.ok (code, dice.userCode), { db with
      logins := logins.insert id ⟨dice.userCode, deviceName, P.digest code, "", unix expiresAt, none, none⟩ })

def deviceLoginByUserCode (userCode : String) : Result String :=
  let userCode := P.toUpper (P.trimSpace userCode)
  match (Table.rows db.logins).find? fun e => e.2.userCode == userCode with
  | none => (.error .notFound, db)
  | some (_, r) =>
    if r.consumedAt.isSome || decide (now ≥ r.expiresAt) then (.error .notFound, db) else (.ok r.userCode, db)

/-- A device login that can be approved at time `now`. -/
def DeviceLoginRow.approvable (userCode : String) (r : DeviceLoginRow) : Bool :=
  r.userCode == userCode && r.approvedAt.isNone && r.consumedAt.isNone && decide (r.expiresAt > unix now)

def approveDeviceLogin (userCode : String) (principal : Principal) : Result Unit :=
  let userCode := P.toUpper (P.trimSpace userCode)
  if principal.kind ≠ .browser || principal.userID = "" then (.error .forbidden, db)
  else if !(Table.rows db.logins).any fun e => e.2.approvable now userCode then (.error .notFound, db)
  else if (db.users.lookup principal.userID).isNone then (.error .constraint, db)
  else (.ok (), { db with
    logins := Table.updateAll db.logins fun _ r =>
      if r.approvable now userCode then { r with userID := principal.userID, approvedAt := some (unix now) } else r })

def exchangeDeviceLogin (deviceCode : List UInt8) : Result Issued :=
  match parseOpaque deviceCode (bytes "dlc") with
  | none => (.error .unauthenticated, db)
  | some id => match db.logins.lookup id with
    | none => (.error .unauthenticated, db)
    | some r =>
      if r.consumedAt.isSome || decide (now ≥ r.expiresAt) || P.digest deviceCode ≠ r.digest then
        (.error .unauthenticated, db)
      else if r.approvedAt.isNone || r.userID = "" then (.error .loginPending, db)
      else match issue P db (newToken dice .device r.userID "" "" none) with
        | (.error e, _) => (.error e, db)
        | (.ok i, db') =>
          (.ok i, { db' with logins := db'.logins.insert id { r with consumedAt := some (unix now) } })

/-! ## Enrollment codes -/

def createEnrollmentCode (principal : Principal) (userID deviceName : String) (expiresAt : Time) : Result (List UInt8) :=
  if principal.kind ≠ .device || !principal.admin then (.error .forbidden, db)
  else if P.trimSpace userID = "" || P.trimSpace deviceName = "" then
    (.error (.invalid "enrollment user and device name are required"), db)
  else if expiresAt ≤ now || decide (expiresAt > now + 30 * minute) then
    (.error (.invalid "enrollment expiry must be within 30 minutes"), db)
  else if (db.users.lookup userID).isNone then (.error .notFound, db)
  else
    let id := randomID "tok" dice.token
    let code := newSecret (bytes "enr") id dice.token
    if (db.enrollments.lookup id).isSome then (.error .constraint, db)
    else (.ok code, { db with
      enrollments := db.enrollments.insert id ⟨userID, deviceName, P.digest code, unix expiresAt, none, 0, 5⟩ })

def parseEnrollment (code : List UInt8) : Option String := parseOpaque code (bytes "enr")

/-- `ExchangeEnrollmentCode`: a wrong secret for a code that is still good counts as an attempt. -/
def exchangeEnrollmentCode (code : List UInt8) : Result Issued :=
  match parseEnrollment code with
  | none => (.error .unauthenticated, db)
  | some id => match db.enrollments.lookup id with
    | none => (.error .unauthenticated, db)
    | some r =>
      if r.consumedAt.isSome || decide (now ≥ r.expiresAt) || r.failedAttempts ≥ r.maxAttempts then
        (.error .unauthenticated, db)
      else if P.digest code ≠ r.digest then (.error .unauthenticated,
        { db with enrollments := db.enrollments.insert id { r with failedAttempts := r.failedAttempts + 1 } })
      else match issue P db (newToken dice .device r.userID "" "" none) with
        | (.error e, _) => (.error e, db)
        | (.ok i, db') =>
          (.ok i, { db' with enrollments := db'.enrollments.insert id { r with consumedAt := some (unix now) } })

end Methods

/-! ## Transactions -/

inductive Tx
  | bootstrap
  | createUser (principal : Principal) (name : String) (admin : Bool)
  | authenticate (token : List UInt8)
  | createDeviceToken (principal : Principal) (userID name : String) (expiresAt : Time)
  | createProjectSession (projectID subject : String) (expiresAt : Time)
  | createBrowserSession (userID : String) (expiresAt : Time)
  | endBrowserSession (id : String)
  | revokeDeviceToken (principal : Principal) (id : String)
  | bindExternalIdentity (principal : Principal) (userID provider subject login : String)
  | revokeExternalIdentity (principal : Principal) (userID provider : String)
  | userByExternalIdentity (provider subject login : String)
  | createOAuthLoginState (returnTo codeVerifier : String) (expiresAt : Time)
  | consumeOAuthLoginState (state : List UInt8)
  | createDeviceLogin (deviceName : String) (expiresAt : Time)
  | deviceLoginByUserCode (userCode : String)
  | approveDeviceLogin (userCode : String) (principal : Principal)
  | exchangeDeviceLogin (deviceCode : List UInt8)
  | createEnrollmentCode (principal : Principal) (userID deviceName : String) (expiresAt : Time)
  | exchangeEnrollmentCode (code : List UInt8)
  deriving DecidableEq

@[reducible]
def Tx.Val : Tx → Type
  | bootstrap => Issued
  | createUser _ _ _ => String
  | authenticate _ => Principal
  | createDeviceToken _ _ _ _ => Issued
  | createProjectSession _ _ _ => Issued
  | createBrowserSession _ _ => Issued
  | userByExternalIdentity _ _ _ => String × Bool
  | createOAuthLoginState _ _ _ => List UInt8
  | consumeOAuthLoginState _ => String × String
  | createDeviceLogin _ _ => List UInt8 × String
  | deviceLoginByUserCode _ => String
  | exchangeDeviceLogin _ => Issued
  | createEnrollmentCode _ _ _ _ => List UInt8
  | exchangeEnrollmentCode _ => Issued
  | _ => Unit

def Tx.run (P : Primitives) (now : Time) (dice : Dice) (db : DB) : (x : Tx) → Result x.Val
  | bootstrap => Auth.bootstrap P db dice
  | createUser principal name admin => Auth.createUser P db dice principal name admin
  | authenticate token => (Auth.authenticate P db now token, db)
  | createDeviceToken principal userID name expiresAt => Auth.createDeviceToken P db dice principal userID name expiresAt
  | createProjectSession projectID subject expiresAt => Auth.createProjectSession P db dice projectID subject expiresAt
  | createBrowserSession userID expiresAt => Auth.createBrowserSession P db now dice userID expiresAt
  | endBrowserSession id => Auth.endBrowserSession db now id
  | revokeDeviceToken principal id => Auth.revokeDeviceToken db now principal id
  | bindExternalIdentity principal userID provider subject login =>
    Auth.bindExternalIdentity P db principal userID provider subject login
  | revokeExternalIdentity principal userID provider => Auth.revokeExternalIdentity P db now principal userID provider
  | userByExternalIdentity provider subject login => Auth.userByExternalIdentity P db provider subject login
  | createOAuthLoginState returnTo codeVerifier expiresAt =>
    Auth.createOAuthLoginState P db now dice returnTo codeVerifier expiresAt
  | consumeOAuthLoginState state => Auth.consumeOAuthLoginState P db now state
  | createDeviceLogin deviceName expiresAt => Auth.createDeviceLogin P db now dice deviceName expiresAt
  | deviceLoginByUserCode userCode => Auth.deviceLoginByUserCode P db now userCode
  | approveDeviceLogin userCode principal => Auth.approveDeviceLogin P db now userCode principal
  | exchangeDeviceLogin deviceCode => Auth.exchangeDeviceLogin P db now dice deviceCode
  | createEnrollmentCode principal userID deviceName expiresAt =>
    Auth.createEnrollmentCode P db now dice principal userID deviceName expiresAt
  | exchangeEnrollmentCode code => Auth.exchangeEnrollmentCode P db now dice code

end Auth

end Autback
