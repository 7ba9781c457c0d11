import Autback.Auth.Effect

/-!
# Who is authenticated

Beside the tables stands a registry, written from the answers of the store alone: the access tokens as they were handed out, and
whether they have been revoked since. After every history the tokens that authenticate are those of the registry that are neither
revoked nor past their expiry, and only their exact text does (`authenticate_iff`). Secrets of the other kinds are no access
tokens, and access tokens are none of the other kinds (`authentication_sound`).

An expiry that does not fit an `int64` of nanoseconds is stored as another time (`authenticate_unrepresentable`).
-/

namespace Autback

namespace Auth

open Gateway (bytes)

/-! ## The registry -/

abbrev Registry := Table String (Issued × Bool)

def Registry.record (P : Primitives) (reg : Registry) (x : Tx) : Except Error x.Val → Registry
  | .error _ => reg
  | .ok v => match x.issued v with
    | some i => reg.insert i.id (i, false)
    | none => Table.updateAll reg fun id e => (e.1, e.2 || x.revokes P id e.1.kind e.1.userID)

structure Event where
  tx : Tx
  now : Time
  dice : Dice

def Event.apply (P : Primitives) (s : DB × Registry) (e : Event) : DB × Registry :=
  ((e.tx.run P e.now e.dice s.1).2, s.2.record P e.tx (e.tx.run P e.now e.dice s.1).1)

def history (P : Primitives) (evs : List Event) : DB × Registry := evs.foldl (Event.apply P) (DB.empty, ∅)

/-- A token of the registry that is neither revoked nor past its expiry at time `now`. -/
def Registry.Live (reg : Registry) (now : Time) (i : Issued) : Prop :=
  reg.lookup i.id = some (i, false) ∧ ∀ t ∈ i.expiresAt, now ≤ t

/-- Who a token stands for: what was recorded when it was issued, and the current admin flag of its user. -/
def Issued.principal (db : DB) (i : Issued) : Principal :=
  ⟨i.kind, i.id, i.userID, i.projectID, decide (i.userID ≠ "") && (db.users.lookup i.userID).getD false, i.subject⟩

/-- A time whose nanoseconds fit an `int64`. -/
def Representable (t : Int) : Prop := -9223372036854775808 ≤ t ∧ t < 9223372036854775808

def Event.Representable (e : Event) : Prop := ∀ t ∈ e.tx.expiry, Auth.Representable t

theorem unix_eq {t : Int} (h : Representable t) : unix t = t := by
  obtain ⟨hlow, hhigh⟩ := h
  exact Int.bmod_eq_of_le (by omega) (by omega)

/-! ## The tables follow the registry -/

def TokenRow.Records (P : Primitives) (r : TokenRow) (e : Issued × Bool) : Prop :=
  { r with revokedAt := none } = e.1.row P ∧ r.revokedAt.isSome = e.2

structure Follows (P : Primitives) (s : DB × Registry) : Prop where
  rows : ∀ id, Option.Rel (TokenRow.Records P) (s.1.tokens.lookup id) (s.2.lookup id)
  tokens : ∀ id i b, s.2.lookup id = some (i, b) → i.id = id ∧ i.WellFormed s.1 ∧ ∀ t ∈ i.expiresAt, Representable t

section Steps

variable {P : Primitives} {s : DB × Registry} {i : Issued} {r : TokenRow}

theorem follows_empty (P : Primitives) : Follows P (DB.empty, ∅) where
  rows id := by
    rw [DB.empty, AList.lookup_empty, AList.lookup_empty]
    exact .none
  tokens id i b h := by
    rw [AList.lookup_empty] at h
    cases h

theorem Issued.WellFormed.mono {db db' : DB}
    (huser : ∀ u admin, db.users.lookup u = some admin → db'.users.lookup u = some admin) (h : i.WellFormed db) :
    i.WellFormed db' where
  formed := h.formed
  kind := h.kind
  user hu := by
    obtain ⟨admin, hadm⟩ := Option.isSome_iff_exists.mp (h.user hu)
    rw [huser _ admin hadm]
    rfl
  human := h.human

theorem TokenRow.records_new (i : Issued) : (i.row P).Records P (i, false) := ⟨rfl, rfl⟩

theorem TokenRow.Records.revoke {e : Issued × Bool} {x : Tx} {id : String} (t : Int) (h : r.Records P e) :
    (if x.revokes P id r.kind r.userID && r.revokedAt.isNone then { r with revokedAt := some t } else r).Records P
      (e.1, e.2 || x.revokes P id e.1.kind e.1.userID) := by
  obtain ⟨hrow, hrev⟩ := h
  have hkind : e.1.kind = r.kind := (congrArg TokenRow.kind hrow).symm
  have huser : e.1.userID = r.userID := (congrArg TokenRow.userID hrow).symm
  rw [hkind, huser]
  cases hx : x.revokes P id r.kind r.userID with
  | false => simpa [Records] using ⟨hrow, hrev⟩
  | true =>
    cases hr : r.revokedAt with
    | none => simpa [Records] using hrow
    | some t' => simpa [Records, hr] using hrow

theorem Follows.apply {e : Event} (he : e.Representable) (h : Follows P s) : Follows P (e.apply P s) := by
  obtain ⟨x, now, dice⟩ := e
  obtain ⟨db, reg⟩ := s
  obtain ⟨r, db', hrun⟩ : ∃ r db', x.run P now dice db = (r, db') := ⟨_, _, rfl⟩
  have happly : Event.apply P (db, reg) ⟨x, now, dice⟩ = (db', reg.record P x r) := by
    simp only [Event.apply]
    rw [hrun]
  rw [happly]
  have heff := run_effect hrun
  have hold : ∀ id i b, reg.lookup id = some (i, b) →
      i.id = id ∧ i.WellFormed db' ∧ ∀ t ∈ i.expiresAt, Representable t := fun id i b hi =>
    ⟨(h.tokens id i b hi).1, (h.tokens id i b hi).2.1.mono heff.users, (h.tokens id i b hi).2.2⟩
  cases heff.tokens with
  | same r htoken hiss hrev =>
    cases r with
    | error err => exact ⟨by rw [htoken]; exact h.rows, hold⟩
    | ok v =>
      have hrecord : reg.record P x (.ok v) = Table.updateAll reg fun id e => (e.1, e.2) := by
        simp [Registry.record, hiss v rfl, hrev v rfl]
      have hlook : ∀ id, (reg.record P x (.ok v)).lookup id = reg.lookup id := by
        intro id
        rw [hrecord, Table.lookup_updateAll]
        exact Option.map_id'.symm ▸ rfl
      exact ⟨fun id => by rw [htoken, hlook]; exact h.rows id, fun id i b hi => hold id i b (by rwa [hlook] at hi)⟩
  | issue v i hv hnew htoken hi hexpiry hsource =>
    have hrecord : reg.record P x (.ok v) = reg.insert i.id (i, false) := by simp [Registry.record, hv]
    constructor
    · intro id
      rw [htoken, hrecord, Table.lookup_insert_eq, Table.lookup_insert_eq]
      split
      · exact .some (TokenRow.records_new i)
      · exact h.rows id
    intro id i' b hi'
    rw [hrecord, Table.lookup_insert_eq] at hi'
    split at hi'
    · cases hi'
      exact ⟨Eq.symm ‹_›, hi, fun t ht => he t (by rwa [hexpiry] at ht)⟩
    · exact hold id i' b hi'
  | revoke v t hv htoken =>
    have hlook : ∀ id, (reg.record P x (.ok v)).lookup id =
        (reg.lookup id).map fun e => (e.1, e.2 || x.revokes P id e.1.kind e.1.userID) := by
      intro id
      simp only [Registry.record, hv]
      exact Table.lookup_updateAll _ _ id
    constructor
    · intro id
      have hrow : Option.Rel (TokenRow.Records P) (db.tokens.lookup id) (reg.lookup id) := h.rows id
      rw [htoken, hlook]
      generalize db.tokens.lookup id = o at hrow ⊢
      generalize reg.lookup id = o' at hrow ⊢
      cases hrow with
      | none => exact .none
      | some hr => exact .some (hr.revoke t)
    intro id i b hi
    rw [hlook] at hi
    obtain ⟨⟨i', b'⟩, hi', heq⟩ := Option.map_eq_some_iff.mp hi
    cases heq
    exact hold id i' b' hi'

theorem history_follows (P : Primitives) (evs : List Event) (h : ∀ e ∈ evs, e.Representable) :
    Follows P (history P evs) := by
  have hfold : ∀ (evs : List Event) (s : DB × Registry), (∀ e ∈ evs, e.Representable) → Follows P s →
      Follows P (evs.foldl (Event.apply P) s) := by
    intro evs
    induction evs with
    | nil => exact fun s _ hs => hs
    | cons e evs ih =>
      intro s he hs
      exact ih (e.apply P s) (fun e' h' => he e' (List.mem_cons_of_mem _ h')) (hs.apply (he e List.mem_cons_self))
  exact hfold evs _ h (follows_empty P)

theorem TokenRow.Records.eq {b : Bool} (h : r.Records P (i, b)) :
    r = { i.row P with revokedAt := r.revokedAt } := by
  rw [← h.1]

theorem Follows.lookup {id : String} (h : Follows P s) (hr : s.1.tokens.lookup id = some r) :
    ∃ i b, s.2.lookup id = some (i, b) ∧ r.Records P (i, b) := by
  have hrel := h.rows id
  rw [hr] at hrel
  cases hl : s.2.lookup id with
  | none =>
    rw [hl] at hrel
    cases hrel
  | some e =>
    rw [hl] at hrel
    cases hrel with
    | some hrel => exact ⟨e.1, e.2, rfl, hrel⟩

theorem Follows.lookup_row {id : String} {b : Bool} (h : Follows P s) (hi : s.2.lookup id = some (i, b)) :
    ∃ r, s.1.tokens.lookup id = some r ∧ r.Records P (i, b) := by
  have hrel := h.rows id
  rw [hi] at hrel
  cases hl : s.1.tokens.lookup id with
  | none =>
    rw [hl] at hrel
    cases hrel
  | some r =>
    rw [hl] at hrel
    cases hrel with
    | some hrel => exact ⟨r, rfl, hrel⟩

theorem expiresAt_map_unix (h : ∀ t ∈ i.expiresAt, Representable t) : i.expiresAt.map unix = i.expiresAt := by
  cases he : i.expiresAt with
  | none => rfl
  | some t => rw [Option.map_some, unix_eq (h t he)]

theorem authenticate_iff (hP : Function.Injective P.digest) (h : Follows P s) (now : Time) (token : List UInt8)
    (p : Principal) : authenticate P s.1 now token = .ok p ↔
      ∃ i, s.2.Live now i ∧ i.secret = token ∧ p = i.principal s.1 := by
  rw [authenticate_eq_ok]
  constructor
  · rintro ⟨id, r, hparse, hr, hlive, hdigest, huser, rfl⟩
    obtain ⟨i, b, hi, hrecord⟩ := h.lookup hr
    obtain ⟨rfl, hwf, hrep⟩ := h.tokens id i b hi
    have hb := hrecord.2
    rw [hlive.1] at hb
    cases hb
    have heq := hrecord.eq
    have hsecret : i.secret = token := by
      rw [heq] at hdigest
      exact (hP hdigest).symm
    refine ⟨i, ⟨hi, fun t ht => ?_⟩, hsecret, ?_⟩
    · refine hlive.2 t ?_
      rw [heq]
      change t ∈ i.expiresAt.map unix
      rwa [expiresAt_map_unix hrep]
    rw [heq]
    rfl
  rintro ⟨i, ⟨hi, hexpiry⟩, rfl, rfl⟩
  obtain ⟨-, hwf, hrep⟩ := h.tokens i.id i false hi
  obtain ⟨r, hr, hrecord⟩ := h.lookup_row hi
  have heq := hrecord.eq
  have hrev : r.revokedAt = none := by simpa using hrecord.2
  refine ⟨i.id, r, ?_, hr, ⟨hrev, fun t ht => ?_⟩, ?_, ?_, ?_⟩
  · rw [heq]
    exact hwf.formed.parseToken hwf.kind
  · rw [heq] at ht
    change t ∈ i.expiresAt.map unix at ht
    rw [expiresAt_map_unix hrep] at ht
    exact hexpiry t ht
  · rw [heq]
    rfl
  · rw [heq]
    exact hwf.user
  · rw [heq]
    rfl

end Steps

/-! ## Kinds of secrets -/

def Tx.code : (x : Tx) → x.Val → Option (List UInt8)
  | .createEnrollmentCode _ _ _ _, code => some code
  | .createOAuthLoginState _ _ _, state => some state
  | .createDeviceLogin _ _, (code, _) => some code
  | _, _ => none

def codeKinds : List (List UInt8) := [bytes "enr", bytes "ols", bytes "dlc"]

section Codes

variable {P : Primitives} {now : Time} {dice : Dice} {db : DB}

theorem formed_code {x : Tx} {v : x.Val} {c : List UInt8} (h : (x.run P now dice db).1 = .ok v) (hc : x.code v = some c) :
    ∃ kind ∈ codeKinds, ∃ id, Formed c kind id := by
  cases x <;> try cases hc
  all_goals
    simp only [Tx.run, createOAuthLoginState, createDeviceLogin, createEnrollmentCode] at h
    -- every check has passed
    repeat
      split at h
      · cases h
    cases h
    exact ⟨_, by simp [codeKinds], _, formed_newSecret dice.token (by decide +kernel) (by decide +kernel)
      (by decide +kernel)⟩

theorem authenticate_of_code {kind c : List UInt8} {id : String} (hkind : kind ∈ codeKinds) (h : Formed c kind id) :
    authenticate P db now c = .error .unauthenticated := by
  have hne : ∀ kind ∈ codeKinds, kind ≠ bytes "dt" ∧ kind ≠ bytes "gh" ∧ kind ≠ bytes "ws" := by decide +kernel
  rw [authenticate, h.parseToken_eq_none (hne kind hkind)]

theorem Issued.WellFormed.parseOpaque {i : Issued} {kind : List UInt8} (h : i.WellFormed db) (hkind : kind ∈ codeKinds) :
    Auth.parseOpaque i.secret kind = none := by
  have hne : ∀ kind ∈ codeKinds, kindText i.kind ≠ kind := by
    cases i.kind <;> decide +kernel
  exact h.formed.parseOpaque_eq_none (hne kind hkind)

end Codes

/-- After every history: the tokens that authenticate are the live ones that were handed out, as what they were handed out
for; codes do not authenticate; access tokens are not accepted as codes. -/
theorem authentication_sound (P : Primitives) (hP : Function.Injective P.digest) (evs : List Event)
    (hevs : ∀ e ∈ evs, e.Representable) :
    (∀ now token p, authenticate P (history P evs).1 now token = .ok p ↔
      ∃ i, (history P evs).2.Live now i ∧ i.secret = token ∧ p = i.principal (history P evs).1) ∧
    (∀ (e : Event) v c, (e.tx.run P e.now e.dice (history P evs).1).1 = .ok v → e.tx.code v = some c →
      ∀ db now, authenticate P db now c = .error .unauthenticated) ∧
    ∀ id i b, (history P evs).2.lookup id = some (i, b) → ∀ db now dice,
      exchangeEnrollmentCode P db now dice i.secret = (.error .unauthenticated, db) ∧
      consumeOAuthLoginState P db now i.secret = (.error .unauthenticated, db) ∧
      exchangeDeviceLogin P db now dice i.secret = (.error .unauthenticated, db) := by
  have hfollows := history_follows P evs hevs
  refine ⟨authenticate_iff hP hfollows, fun e v c hv hc db now => ?_, fun id i b hi db now dice => ?_⟩
  · obtain ⟨kind, hkind, id, hformed⟩ := formed_code hv hc
    exact authenticate_of_code hkind hformed
  obtain ⟨-, hwf, -⟩ := hfollows.tokens id i b hi
  refine ⟨?_, ?_, ?_⟩
  · rw [exchangeEnrollmentCode, parseEnrollment, hwf.parseOpaque (by simp [codeKinds])]
  · rw [consumeOAuthLoginState, hwf.parseOpaque (by simp [codeKinds])]
  · rw [exchangeDeviceLogin, hwf.parseOpaque (by simp [codeKinds])]

/-! ## Expiries that do not fit -/

def samplePrimitives : Primitives := ⟨id, id, id, id⟩

def sampleRandom (n : UInt8) : Random := ⟨⟨List.replicate 12 n, rfl⟩, ⟨List.replicate 32 n, rfl⟩⟩

def sampleDice (n : UInt8) : Dice := ⟨sampleRandom n, sampleRandom n, ""⟩

def sampleAdmin : Principal := ⟨.device, randomID "tok" (sampleRandom 0), randomID "usr" (sampleRandom 0), "", true, ""⟩

def sampleHistory (expiresAt : Time) : List Event :=
  [⟨.bootstrap, 0, sampleDice 0⟩, ⟨.createDeviceToken sampleAdmin "" "laptop" expiresAt, 0, sampleDice 1⟩]

def sampleToken (expiresAt : Time) : Issued := newToken (sampleDice 1) .device sampleAdmin.userID "" "" (some expiresAt)

/-- A token that expires in an hour authenticates. -/
theorem authentication_sound_device : authenticate samplePrimitives (history samplePrimitives (sampleHistory (60 * minute))).1
    minute (sampleToken (60 * minute)).secret = .ok ((sampleToken (60 * minute)).principal
      (history samplePrimitives (sampleHistory (60 * minute))).1) := by
  have hevs : ∀ e ∈ sampleHistory (60 * minute), e.Representable := by
    intro e he t ht
    simp only [sampleHistory, List.mem_cons, List.not_mem_nil, or_false] at he
    rcases he with rfl | rfl
    · cases ht
    cases ht
    exact ⟨by decide, by decide⟩
  refine ((authentication_sound samplePrimitives (fun _ _ h => h) _ hevs).1 _ _ _).mpr ⟨_, ⟨?_, ?_⟩, rfl, rfl⟩
  · decide +kernel
  intro t ht
  cases ht
  decide

def year2300 : Time := 10413792000000000000

/-- A token that expires in the year 2300 is stored with an expiry in the past: it is live and does not authenticate. -/
theorem authenticate_unrepresentable : ∃ evs now i, (history samplePrimitives evs).2.Live now i ∧
    authenticate samplePrimitives (history samplePrimitives evs).1 now i.secret = .error .unauthenticated := by
  refine ⟨sampleHistory year2300, minute, sampleToken year2300, ⟨?_, ?_⟩, ?_⟩
  · decide +kernel
  · intro t ht
    cases ht
    decide
  · decide +kernel

end Auth

end Autback
