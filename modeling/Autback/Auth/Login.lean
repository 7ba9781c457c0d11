import Autback.Auth.DeviceLogin

/-!
# Logins at GitHub

A login at GitHub carries a secret state that has to come back with the browser (`CreateOAuthLoginState` and
`ConsumeOAuthLoginState` of `internal/control/sqlite/store.go`). Beside the tables stand the states that are out, written from the
calls and their answers alone (`Pending`). Every state that is taken is out, unexpired, and gives what it was handed out for;
after that it is out no more (`loginState_once`).
-/

namespace Autback

namespace Auth

open Gateway (bytes)

/-- The states that are out, each with the return path, the verifier and the expiry that it was asked for with. -/
abbrev Pending := List UInt8 → Option (String × String × Time)

def Pending.record (L : Pending) : (x : Tx) → Except Error x.Val → Pending
  | .createOAuthLoginState returnTo codeVerifier expiresAt, .ok state =>
    Function.update L state (some (returnTo, codeVerifier, expiresAt))
  | .consumeOAuthLoginState state, .ok _ => Function.update L state none
  | _, _ => L

def Event.open (P : Primitives) (s : DB × Pending) (e : Event) : DB × Pending :=
  ((e.tx.run P e.now e.dice s.1).2, s.2.record e.tx (e.tx.run P e.now e.dice s.1).1)

def opened (P : Primitives) (evs : List Event) : DB × Pending := evs.foldl (Event.open P) (DB.empty, fun _ => none)

/-- Every row that can still be taken is one of a state that is out. -/
def Opened (P : Primitives) (s : DB × Pending) : Prop :=
  ∀ id r, s.1.states.lookup id = some r → r.consumedAt = none → ∃ state expiresAt, parseOpaque state (bytes "ols") = some id ∧
    P.digest state = r.digest ∧ r.expiresAt = unix expiresAt ∧ s.2 state = some (r.returnTo, r.codeVerifier, expiresAt)

section Steps

variable {P : Primitives} {db db' : DB} {L : Pending} {now : Time} {dice : Dice} {x : Tx}

theorem run_states (h : x.opensLogin = false) : (x.run P now dice db).2.states = db.states := by
  apply run_frame
  refine ⟨fun _ _ => rfl, fun _ _ => rfl, fun _ _ => rfl, ?_, fun _ _ _ => rfl, fun _ _ _ => rfl⟩
  intro hopens
  rw [h] at hopens
  cases hopens

/-- Rows go, and that of one state is written: it is taken, or it says what is noted of the state. -/
theorem Opened.insert (h : Opened P (db, L)) {T : Table String LoginStateRow} (hT : Left db.states T) {state : List UInt8}
    {id : String} (hparse : parseOpaque state (bytes "ols") = some id) {row : LoginStateRow} {v : Option (String × String × Time)}
    (hdb : db'.states = T.insert id row) (hrow : row.consumedAt = none → ∃ expiresAt, P.digest state = row.digest ∧
      row.expiresAt = unix expiresAt ∧ v = some (row.returnTo, row.codeVerifier, expiresAt)) :
    Opened P (db', Function.update L state v) := by
  intro id' r hr hopen
  rw [hdb, Table.lookup_insert_eq] at hr
  split at hr
  · rename_i heq
    cases hr
    obtain ⟨expiresAt, hdigest, hexpiry, rfl⟩ := hrow hopen
    exact ⟨state, expiresAt, heq ▸ hparse, hdigest, hexpiry, Function.update_self ..⟩
  rename_i hne
  obtain ⟨s, expiresAt, hs, hdigest, hexpiry, hout⟩ := h id' r (hT id' r hr) hopen
  refine ⟨s, expiresAt, hs, hdigest, hexpiry, (Function.update_of_ne ?_ ..).trans hout⟩
  rintro rfl
  rw [hparse] at hs
  exact hne (Option.some.inj hs).symm

theorem Opened.create {returnTo codeVerifier : String} {expiresAt : Time} {r : Except Error (List UInt8)} (h : Opened P (db, L))
    (hrun : createOAuthLoginState P db now dice returnTo codeVerifier expiresAt = (r, db')) :
    Opened P (db', L.record (.createOAuthLoginState returnTo codeVerifier expiresAt) r) := by
  have hleft := left_delete db.states fun _ r => decide (r.expiresAt ≤ unix now) || r.consumedAt.isSome
  simp only [createOAuthLoginState] at hrun
  split at hrun
  · cases hrun
    exact h
  split at hrun <;> cases hrun
  · exact fun id row hrow hopen => h id row (hleft id row hrow) hopen
  · refine h.insert hleft (Formed.parseOpaque ?_) rfl fun _ => ⟨expiresAt, rfl, rfl, rfl⟩
    exact formed_newSecret dice.token (by decide +kernel) (by decide +kernel) (by decide +kernel)

theorem Opened.consume {state : List UInt8} {r : Except Error (String × String)} (h : Opened P (db, L))
    (hrun : consumeOAuthLoginState P db now state = (r, db')) : Opened P (db', L.record (.consumeOAuthLoginState state) r) := by
  rcases consumeOAuthLoginState_cases hrun with ⟨e, rfl, rfl⟩ | ⟨id, row, hparse, -, -, -, -, rfl, rfl⟩
  · exact h
  · exact h.insert (fun _ _ h => h) hparse rfl fun hopen => by cases hopen

theorem Opened.step {s : DB × Pending} (h : Opened P s) (e : Event) : Opened P (e.open P s) := by
  obtain ⟨db, L⟩ := s
  obtain ⟨x, now, dice⟩ := e
  cases x with
  | createOAuthLoginState returnTo codeVerifier expiresAt => exact h.create rfl
  | consumeOAuthLoginState state => exact h.consume rfl
  | _ =>
    intro id r hr
    exact h id r ((congrArg (·.lookup id) (run_states rfl)).symm.trans hr)

theorem opened_all (P : Primitives) (evs : List Event) : Opened P (opened P evs) :=
  List.foldlRecOn evs (Event.open P) (fun id r hr => by cases hr) fun _ h e _ => h.step e

end Steps

/-- **A login state is taken once.** Let the digest be collision free. After any calls, a state that is accepted is one that was
handed out and not taken since, before its expiry, and it gives the return path and the verifier that it was handed out for. Then
it is accepted no more until it is handed out again. -/
theorem loginState_once (P : Primitives) (hP : Function.Injective P.digest) (evs : List Event) (now : Time) (state : List UInt8)
    (returnTo codeVerifier : String)
    (h : (consumeOAuthLoginState P (opened P evs).1 now state).1 = .ok (returnTo, codeVerifier)) :
    ∃ expiresAt, (opened P evs).2 state = some (returnTo, codeVerifier, expiresAt) ∧ now < unix expiresAt ∧
      ∀ dice, (opened P (evs ++ [⟨.consumeOAuthLoginState state, now, dice⟩])).2 state = none := by
  rcases consumeOAuthLoginState_cases (Prod.ext h rfl) with ⟨e, herr, -⟩ | ⟨id, row, hparse, hrow, hopen, hlive, hdigest, hok, -⟩
  · cases herr
  cases hok
  obtain ⟨s, expiresAt, -, hs, hexpiry, hout⟩ := opened_all P evs id row hrow hopen
  have heq : s = state := hP (hs.trans hdigest.symm)
  subst heq
  refine ⟨expiresAt, hout, hexpiry ▸ hlive, fun dice => ?_⟩
  rw [opened, List.foldl_append]
  change Pending.record _ (.consumeOAuthLoginState s) (consumeOAuthLoginState P (opened P evs).1 now s).1 s = none
  rw [h]
  exact Function.update_self ..

def opening : List Event := [⟨.createOAuthLoginState "/jobs" "v" minute, 0, sampleDice 1⟩]

theorem loginState_once_taken : ∃ expiresAt, (opened samplePrimitives opening).2
    (newSecret (bytes "ols") (randomID "ols" (sampleRandom 1)) (sampleRandom 1)) = some ("/jobs", "v", expiresAt) := by
  obtain ⟨expiresAt, hout, -⟩ := loginState_once samplePrimitives Function.injective_id opening 1 _ "/jobs" "v"
    (show (consumeOAuthLoginState samplePrimitives (opened samplePrimitives opening).1 1
      (newSecret (bytes "ols") (randomID "ols" (sampleRandom 1)) (sampleRandom 1))).1 = .ok ("/jobs", "v") by decide +kernel)
  exact ⟨expiresAt, hout⟩

end Auth

end Autback
