import Autback.Auth.Enrollment
import Autback.Conc.Events

/-!
# Device logins

A device login is named by two secrets: the device asks with the device code, the user approves with the user code. Rows are
deleted, and their ids and user codes may come again. So logins are numbered in a ledger beside the tables, written from the
calls and their answers: an approval is for the login that was last created with its user code, an exchange for the login that
was last created with the id in its device code.

Each login is approved at most once and yields at most one token, for the user who approved it and whose identity was not
revoked since (`deviceLogin_sound`).
-/

namespace Autback

namespace Auth

open Gateway (bytes)

/-! ## The ledger -/

inductive Happening
  | approved (time : Time) (principal : Principal)
  | revoked (userID : String)
  | issued (time : Time) (token : Issued)
  deriving DecidableEq

def Happening.isApproval : Happening → Bool
  | approved _ _ => true
  | _ => false

def Happening.isToken : Happening → Bool
  | issued _ _ => true
  | _ => false

structure Login where
  (id userCode : String)
  expiresAt : Time
  log : List Happening

structure Logins where
  count : Nat
  logins : Table Nat Login
  (byID byCode : Table String Nat)

def Logins.empty : Logins := ⟨0, ∅, ∅, ∅⟩

def Logins.note (L : Logins) (n : Nat) (h : Happening) : Logins :=
  match L.logins.lookup n with
  | none => L
  | some l => { L with logins := L.logins.insert n { l with log := l.log ++ [h] } }

def Logins.noteAll (L : Logins) (h : Happening) : Logins :=
  { L with logins := Table.updateAll L.logins fun _ l => { l with log := l.log ++ [h] } }

def Logins.create (L : Logins) (id userCode : String) (expiresAt : Time) : Logins where
  count := L.count + 1
  logins := L.logins.insert L.count ⟨id, userCode, expiresAt, []⟩
  byID := L.byID.insert id L.count
  byCode := L.byCode.insert userCode L.count

def Logins.record (P : Primitives) (L : Logins) (now : Time) : (x : Tx) → Except Error x.Val → Logins
  | .createDeviceLogin _ expiresAt, .ok (deviceCode, userCode) => match parseOpaque deviceCode (bytes "dlc") with
    | none => L
    | some id => L.create id userCode expiresAt
  | .approveDeviceLogin userCode principal, .ok _ => match L.byCode.lookup (P.toUpper (P.trimSpace userCode)) with
    | none => L
    | some n => L.note n (.approved now principal)
  | .exchangeDeviceLogin deviceCode, .ok token => match (parseOpaque deviceCode (bytes "dlc")).bind L.byID.lookup with
    | none => L
    | some n => L.note n (.issued now token)
  | .revokeExternalIdentity _ userID _, .ok _ => L.noteAll (.revoked (P.trimSpace userID))
  | _, _ => L

def Event.logIn (P : Primitives) (s : DB × Logins) (e : Event) : DB × Logins :=
  ((e.tx.run P e.now e.dice s.1).2, s.2.record P e.now e.tx (e.tx.run P e.now e.dice s.1).1)

def loggedIn (P : Primitives) (evs : List Event) : DB × Logins := evs.foldl (Event.logIn P) (DB.empty, Logins.empty)

/-! ## What the calls do to the rows -/

section Calls

variable {P : Primitives} {db db' : DB} {now : Time} {dice : Dice}

theorem record_of_not_logsIn {L : Logins} {x : Tx} {r : Except Error x.Val} (h : x.logsIn = false) :
    L.record P now x r = L := by
  cases x <;> first | rfl | cases h

theorem run_logins {x : Tx} (h : x.logsIn = false) : (x.run P now dice db).2.logins = db.logins := by
  apply run_frame
  refine ⟨fun _ _ => rfl, fun _ _ => rfl, fun _ _ => rfl, fun _ _ _ => rfl, fun _ _ _ => rfl, ?_⟩
  intro hlogs
  rw [h] at hlogs
  cases hlogs

def Left {κ ρ : Type} [DecidableEq κ] (T T' : Table κ ρ) : Prop := ∀ k r, T'.lookup k = some r → T.lookup k = some r

theorem left_delete {κ ρ : Type} [DecidableEq κ] (T : Table κ ρ) (p : κ → ρ → Bool) : Left T (Table.delete T p) := by
  intro k r hr
  rw [Table.lookup_delete] at hr
  exact (Option.filter_eq_some_iff.mp hr).1

theorem createDeviceLogin_cases {deviceName : String} {expiresAt : Time} {r : Except Error (List UInt8 × String)}
    (h : createDeviceLogin P db now dice deviceName expiresAt = (r, db')) :
    (∃ e, r = .error e ∧ Left db.logins db'.logins) ∨
      ∃ id code userCode name kept, r = .ok (code, userCode) ∧ parseOpaque code (bytes "dlc") = some id ∧
        Left db.logins kept ∧ kept.lookup id = none ∧ (∀ id' r', kept.lookup id' = some r' → r'.userCode ≠ userCode) ∧
        db'.logins = kept.insert id ⟨userCode, name, P.digest code, "", unix expiresAt, none, none⟩ := by
  simp only [createDeviceLogin] at h
  split at h
  · cases h
    exact .inl ⟨_, rfl, fun _ _ h => h⟩
  have hleft := left_delete db.logins fun _ r => decide (r.expiresAt ≤ unix now) || r.consumedAt.isSome
  split at h
  · cases h
    exact .inl ⟨_, rfl, hleft⟩
  rename_i hnew
  cases h
  simp only [Bool.or_eq_true, not_or, List.any_eq_true, not_exists, not_and] at hnew
  refine .inr ⟨_, _, _, _, _, rfl, Formed.parseOpaque ?_, hleft, by simpa using hnew.1, ?_, rfl⟩
  · exact formed_newSecret dice.token (by decide +kernel) (by decide +kernel) (by decide +kernel)
  intro id' r' hr'
  simpa using hnew.2 (id', r') (Table.mem_rows.mpr hr')

end Calls

/-! ## The rows and the ledger -/

def Quiet (log : List Happening) : Prop := ∀ h ∈ log, h.isApproval = false ∧ h.isToken = false

variable {log : List Happening} {principal : Principal} {time : Time} {l : Login} {evs : List Event}

theorem Quiet.concat {h : Happening} (hlog : Quiet log) (ha : h.isApproval = false) (ht : h.isToken = false) :
    Quiet (log ++ [h]) := by
  intro h' hmem
  rw [List.mem_append, List.mem_singleton] at hmem
  rcases hmem with hmem | rfl
  · exact hlog h' hmem
  · exact ⟨ha, ht⟩

theorem Quiet.approvals (h : Quiet log) : log.countP Happening.isApproval = 0 := by
  rw [List.countP_eq_zero]
  intro a ha
  simp [(h a ha).1]

theorem Quiet.tokens (h : Quiet log) : log.countP Happening.isToken = 0 := by
  rw [List.countP_eq_zero]
  intro a ha
  simp [(h a ha).2]

/-- The login was approved by `principal`, once and last, and their identity was not revoked since. -/
structure Approved (log : List Happening) (principal : Principal) (time : Time) : Prop where
  browser : principal.kind = .browser
  split : ∃ before after, log = before ++ .approved time principal :: after ∧ Quiet before ∧ Quiet after ∧
    .revoked principal.userID ∉ after

theorem Approved.revoke (h : Approved log principal time) {userID : String} (hother : userID ≠ principal.userID) :
    Approved (log ++ [.revoked userID]) principal time := by
  obtain ⟨before, after, hlog, hbefore, hafter, hrev⟩ := h.split
  refine ⟨h.browser, before, after ++ [.revoked userID], by simp [hlog], hbefore, hafter.concat rfl rfl, ?_⟩
  rw [List.mem_append, List.mem_singleton, not_or]
  refine ⟨hrev, ?_⟩
  intro heq
  cases heq
  exact hother rfl

theorem Approved.tokens (h : Approved log principal time) : log.countP Happening.isToken = 0 := by
  obtain ⟨before, after, hlog, hbefore, hafter, -⟩ := h.split
  rw [hlog, List.countP_append, List.countP_cons, hbefore.tokens, hafter.tokens]
  rfl

theorem Approved.mem (h : Approved log principal time) : .approved time principal ∈ log := by
  obtain ⟨before, after, hlog, -⟩ := h.split
  simp [hlog]

/-- The row `r` with id `id` stands for the login `l`. As long as it can be exchanged, the login is not yet approved, or it is
approved by the user in the row. -/
structure DeviceLoginRow.Records (r : DeviceLoginRow) (id : String) (l : Login) : Prop where
  id : l.id = id
  code : r.userCode = l.userCode
  expiry : r.expiresAt = unix l.expiresAt
  log : r.consumedAt = none → (r.approvedAt = none ∧ Quiet l.log) ∨
    (r.approvedAt ≠ none ∧ ∃ principal time, Approved l.log principal time ∧ principal.userID = r.userID)

def Login.also (l : Login) (h : Happening) : Login := { l with log := l.log ++ [h] }

theorem DeviceLoginRow.Records.revoke {r : DeviceLoginRow} {id : String} (h : r.Records id l) (userID : String) (time : Time) :
    (if r.userID == userID && r.consumedAt.isNone then { r with consumedAt := some time } else r).Records id
      (l.also (.revoked userID)) := by
  split
  · exact ⟨h.id, h.code, h.expiry, nofun⟩
  rename_i hother
  refine ⟨h.id, h.code, h.expiry, fun hopen => ?_⟩
  rcases h.log hopen with ⟨hnone, hqui⟩ | ⟨hsome, principal, approval, happroved, huser⟩
  · exact .inl ⟨hnone, hqui.concat rfl rfl⟩
  refine .inr ⟨hsome, principal, approval, happroved.revoke ?_, huser⟩
  intro heq
  rw [hopen, ← huser, heq] at hother
  simp at hother

/-- A token for a login that expires at `expiresAt`, after the happenings `earlier`: the login was approved before, both
happened before the expiry, and the identity of who approved it was not revoked in between. -/
structure Yields (expiresAt : Time) (earlier : List Happening) (time : Time) (token : Issued) : Prop where
  device : token.kind = .device
  live : time < expiresAt
  approved : ∃ principal approval before after, earlier = before ++ .approved approval principal :: after ∧
    principal.kind = .browser ∧ approval < expiresAt ∧ token.userID = principal.userID ∧ .revoked principal.userID ∉ after

/-- What holds of every login of the ledger after the history `evs`. -/
structure Login.Sound (evs : List Event) (l : Login) : Prop where
  approvals : l.log.countP Happening.isApproval ≤ 1
  tokens : l.log.countP Happening.isToken ≤ 1
  times : ∀ time principal, .approved time principal ∈ l.log → ∃ e ∈ evs, e.now = time
  yields : Forward evs → ∀ earlier time token later, l.log = earlier ++ .issued time token :: later →
    Yields (unix l.expiresAt) earlier time token

theorem Forward.of_concat {e : Event} (h : Forward (evs ++ [e])) : Forward evs :=
  (List.pairwise_append.mp h).1

theorem Login.Sound.concat (h : l.Sound evs) (e : Event) : l.Sound (evs ++ [e]) where
  approvals := h.approvals
  tokens := h.tokens
  times time principal hmem := by
    obtain ⟨e', he', hnow⟩ := h.times time principal hmem
    exact ⟨e', List.mem_append_left _ he', hnow⟩
  yields hforward := h.yields hforward.of_concat

theorem Login.Sound.also (h : l.Sound evs) (e : Event) (a : Happening)
    (happroved : a.isApproval = true → l.log.countP Happening.isApproval = 0)
    (htoken : a.isToken = true → l.log.countP Happening.isToken = 0)
    (htime : ∀ time principal, a = .approved time principal → e.now = time)
    (hyiel : Forward (evs ++ [e]) → ∀ time token, a = .issued time token → Yields (unix l.expiresAt) l.log time token) :
    (l.also a).Sound (evs ++ [e]) where
  approvals := by
    show (l.log ++ [a]).countP _ ≤ 1
    rw [List.countP_append, List.countP_singleton]
    split
    · rename_i ha
      rw [happroved ha]
    · exact h.approvals
  tokens := by
    show (l.log ++ [a]).countP _ ≤ 1
    rw [List.countP_append, List.countP_singleton]
    split
    · rename_i ha
      rw [htoken ha]
    · exact h.tokens
  times time principal hmem := by
    rcases List.mem_append.mp hmem with hmem | hmem
    · exact (h.concat e).times time principal hmem
    · exact ⟨e, List.mem_append_right _ (List.mem_singleton_self e), htime _ _ (List.mem_singleton.mp hmem).symm⟩
  yields hforward earlier time token later hlog := by
    rcases Conc.concat_eq_append_cons hlog with ⟨rfl, ha⟩ | ⟨later', hlog'⟩
    · exact hyiel hforward time token ha.symm
    · exact h.yields hforward.of_concat earlier time token later' hlog'

theorem Login.Sound.approve (h : l.Sound evs) (e : Event) (principal : Principal) (hqui : Quiet l.log) :
    (l.also (.approved e.now principal)).Sound (evs ++ [e]) := by
  apply h.also
  · intro _
    exact hqui.approvals
  · intro ht
    cases ht
  · intro time principal' heq
    cases heq
    rfl
  · intro _ time token heq
    cases heq

theorem Login.Sound.revoke (h : l.Sound evs) (e : Event) (userID : String) : (l.also (.revoked userID)).Sound (evs ++ [e]) := by
  apply h.also
  · intro ha
    cases ha
  · intro ht
    cases ht
  · intro time principal heq
    cases heq
  · intro _ time token heq
    cases heq

theorem Login.Sound.yield (h : l.Sound evs) (e : Event) {approval : Time} (happroved : Approved l.log principal approval)
    (hlive : e.now < unix l.expiresAt) {token : Issued} (hdev : token.kind = .device)
    (huser : token.userID = principal.userID) : (l.also (.issued e.now token)).Sound (evs ++ [e]) := by
  apply h.also
  · intro ha
    cases ha
  · intro _
    exact happroved.tokens
  · intro time principal' heq
    cases heq
  · intro hforward time token' heq
    cases heq
    obtain ⟨before, after, hlog, -, -, hrev⟩ := happroved.split
    obtain ⟨e', he', hnow⟩ := h.times approval principal happroved.mem
    have hbefore : approval ≤ e.now := by
      rw [← hnow]
      exact (List.pairwise_append.mp hforward).2.2 e' he' e (List.mem_singleton_self e)
    exact ⟨hdev, hlive, principal, approval, before, after, hlog, happroved.browser, Int.lt_of_le_of_lt hbefore hlive, huser,
      hrev⟩

/-- The table and the ledger after a history: each row stands for the last login with its id, which is also the last one with
its user code. -/
structure LoggedIn (evs : List Event) (s : DB × Logins) : Prop where
  rows : ∀ id r, s.1.logins.lookup id = some r → ∃ n l, s.2.byID.lookup id = some n ∧
    s.2.byCode.lookup r.userCode = some n ∧ s.2.logins.lookup n = some l ∧ r.Records id l
  numbers : ∀ n l, s.2.logins.lookup n = some l → n < s.2.count
  sound : ∀ n l, s.2.logins.lookup n = some l → l.Sound evs

section Steps

variable {evs : List Event} {db db' : DB} {L : Logins}

theorem LoggedIn.kept (h : LoggedIn evs (db, L)) (e : Event) (hleft : Left db.logins db'.logins) :
    LoggedIn (evs ++ [e]) (db', L) where
  rows id r hr := h.rows id r (hleft id r hr)
  numbers := h.numbers
  sound n l hl := (h.sound n l hl).concat e

theorem LoggedIn.create (h : LoggedIn evs (db, L)) (e : Event) {id : String} {r : DeviceLoginRow}
    {kept : Table String DeviceLoginRow}
    {expiresAt : Time} (hleft : Left db.logins kept) (hcode : ∀ id' r', kept.lookup id' = some r' → r'.userCode ≠ r.userCode)
    (hr : r.Records id ⟨id, r.userCode, expiresAt, []⟩) (hdb : db'.logins = kept.insert id r) :
    LoggedIn (evs ++ [e]) (db', L.create id r.userCode expiresAt) where
  rows id' r' hr' := by
    have hlook : (kept.insert id r).lookup id' = some r' := by rw [← hdb]; exact hr'
    simp only [Logins.create, Table.lookup_insert_eq] at hlook ⊢
    split at hlook
    · rename_i hid
      cases hlook
      rw [hid]
      exact ⟨L.count, _, if_pos rfl, if_pos rfl, if_pos rfl, hr⟩
    rename_i hid
    obtain ⟨n, l, hn, hc, hl, hrecord⟩ := h.rows id' r' (hleft id' r' hlook)
    have hne : n ≠ L.count := Nat.ne_of_lt (h.numbers n l hl)
    exact ⟨n, l, by rw [if_neg hid]; exact hn, by rw [if_neg (hcode id' r' hlook)]; exact hc, by rw [if_neg hne]; exact hl,
      hrecord⟩
  numbers n l hl := by
    simp only [Logins.create, Table.lookup_insert_eq] at hl ⊢
    split at hl
    · omega
    have := h.numbers n l hl
    simp only at this
    omega
  sound n l hl := by
    simp only [Logins.create, Table.lookup_insert_eq] at hl
    split at hl
    · cases hl
      exact ⟨by simp, by simp, by simp, by simp⟩
    · exact (h.sound n l hl).concat e

theorem LoggedIn.note (h : LoggedIn evs (db, L)) (e : Event) {id : String} {n : Nat} {l : Login} {a : Happening}
    (hn : L.byID.lookup id = some n) (hc : L.byCode.lookup l.userCode = some n) (hl : L.logins.lookup n = some l)
    (hid : l.id = id) (hsound : (l.also a).Sound (evs ++ [e]))
    (hother : ∀ id', id' ≠ id → db'.logins.lookup id' = db.logins.lookup id')
    (hown : ∀ r, db'.logins.lookup id = some r → r.Records id (l.also a)) :
    LoggedIn (evs ++ [e]) (db', L.note n a) := by
  have hnote : L.note n a = { L with logins := L.logins.insert n (l.also a) } := by
    simp only [Logins.note, hl]
    rfl
  rw [hnote]
  constructor
  · intro id' r hr
    simp only [Table.lookup_insert_eq] at hr ⊢
    by_cases hid' : id' = id
    · subst hid'
      have hrecord := hown r hr
      refine ⟨n, _, hn, ?_, if_pos rfl, hrecord⟩
      rw [hrecord.code]
      exact hc
    rw [hother id' hid'] at hr
    obtain ⟨n', l', hn', hc', hl', hrecord⟩ := h.rows id' r hr
    refine ⟨n', l', hn', hc', ?_, hrecord⟩
    rw [if_neg]
    · exact hl'
    -- the logins of two rows have different ids
    rintro rfl
    have heq : some l' = some l := hl'.symm.trans hl
    cases heq
    exact hid' (hrecord.id.symm.trans hid)
  · intro n' l' hl'
    simp only [Table.lookup_insert_eq] at hl' ⊢
    split at hl'
    · rename_i hn'
      rw [hn']
      exact h.numbers n l hl
    · exact h.numbers n' l' hl'
  intro n' l' hl'
  simp only [Table.lookup_insert_eq] at hl'
  split at hl'
  · cases hl'
    exact hsound
  · exact (h.sound n' l' hl').concat e

variable {P : Primitives}

theorem LoggedIn.approve (h : LoggedIn evs (db, L)) (e : Event) {userCode : String} {principal : Principal}
    {r : Except Error Unit} (hrun : approveDeviceLogin P db e.now userCode principal = (r, db')) :
    LoggedIn (evs ++ [e]) (db', L.record P e.now (.approveDeviceLogin userCode principal) r) := by
  rcases approveDeviceLogin_cases hrun with ⟨err, rfl, rfl⟩ | ⟨rfl, hbrowser, ⟨id, row, hrow, happroved⟩, rfl⟩
  · exact h.kept e fun _ _ h => h
  obtain ⟨n, l, hn, hc, hl, hrecords⟩ := h.rows id row hrow
  have hcode : row.userCode = P.toUpper (P.trimSpace userCode) := by
    simp only [DeviceLoginRow.approvable, Bool.and_eq_true, beq_iff_eq] at happroved
    exact happroved.1.1.1
  have hopen : row.approvedAt = none ∧ row.consumedAt = none := by
    simp only [DeviceLoginRow.approvable, Bool.and_eq_true, Option.isNone_iff_eq_none] at happroved
    exact ⟨happroved.1.1.2, happroved.1.2⟩
  have hqui : Quiet l.log := by
    rcases hrecords.log hopen.2 with ⟨-, hqui⟩ | ⟨hne, -⟩
    · exact hqui
    · exact absurd hopen.1 hne
  have hrecord : L.record P e.now (.approveDeviceLogin userCode principal) (.ok ()) =
      L.note n (.approved e.now principal) := by
    simp only at hc
    rw [hcode] at hc
    simp only [Logins.record, hc]
  rw [hrecord]
  refine h.note e hn (by rw [← hrecords.code]; exact hc) hl hrecords.id ((h.sound n l hl).approve e principal hqui) ?_ ?_
  · intro id' hid'
    rw [Table.lookup_updateAll]
    cases hrow' : db.logins.lookup id' with
    | none => rfl
    | some row' =>
      rw [Option.map_some, if_neg]
      -- only one row has the user code
      intro happroved'
      have hcode' : row'.userCode = P.toUpper (P.trimSpace userCode) := by
        simp only [DeviceLoginRow.approvable, Bool.and_eq_true, beq_iff_eq] at happroved'
        exact happroved'.1.1.1
      obtain ⟨n', l', hn', hc', hl', hrecord'⟩ := h.rows id' row' hrow'
      rw [hcode', ← hcode, hc] at hc'
      cases hc'
      rw [hl] at hl'
      cases hl'
      exact hid' (hrecord'.id.symm.trans hrecords.id)
  intro r hr
  rw [Table.lookup_updateAll, hrow, Option.map_some, if_pos happroved] at hr
  cases hr
  refine ⟨hrecords.id, hrecords.code, hrecords.expiry, fun _ => .inr ⟨nofun, principal, e.now, ?_, rfl⟩⟩
  refine ⟨hbrowser, l.log, [], rfl, hqui, ?_, ?_⟩
  · intro a ha
    cases ha
  · exact List.not_mem_nil

theorem LoggedIn.exchange (h : LoggedIn evs (db, L)) (e : Event) {deviceCode : List UInt8} {r : Except Error Issued}
    (hrun : exchangeDeviceLogin P db e.now e.dice deviceCode = (r, db')) :
    LoggedIn (evs ++ [e]) (db', L.record P e.now (.exchangeDeviceLogin deviceCode) r) := by
  rcases exchangeDeviceLogin_cases hrun with
    ⟨err, rfl, rfl⟩ | ⟨id, row, i, db1, rfl, hparse, hrow, hcons, hlive, happr, -, hdev, huser, rfl⟩
  · exact h.kept e fun _ _ h => h
  obtain ⟨n, l, hn, hc, hl, hrecords⟩ := h.rows id row hrow
  obtain ⟨principal, time, happroved, hprin⟩ : ∃ principal time, Approved l.log principal time ∧
      principal.userID = row.userID := by
    rcases hrecords.log hcons with ⟨hnone, -⟩ | ⟨-, h⟩
    · exact absurd hnone happr
    · exact h
  have hrecord : L.record P e.now (.exchangeDeviceLogin deviceCode) (.ok i) = L.note n (.issued e.now i) := by
    simp only at hn
    simp only [Logins.record, hparse, Option.bind_some, hn]
  rw [hrecord]
  refine h.note e hn (by rw [← hrecords.code]; exact hc) hl hrecords.id
    ((h.sound n l hl).yield e happroved (by rw [← hrecords.expiry]; exact hlive) hdev (huser.trans hprin.symm)) ?_ ?_
  · intro id' hid'
    rw [AList.lookup_insert_ne hid']
  intro r hr
  rw [AList.lookup_insert] at hr
  cases hr
  exact ⟨hrecords.id, hrecords.code, hrecords.expiry, nofun⟩

theorem LoggedIn.revoke (h : LoggedIn evs (db, L)) (e : Event) {principal : Principal} {userID provider : String}
    {r : Except Error Unit} (hrun : revokeExternalIdentity P db e.now principal userID provider = (r, db')) :
    LoggedIn (evs ++ [e]) (db', L.record P e.now (.revokeExternalIdentity principal userID provider) r) := by
  rcases revokeExternalIdentity_cases hrun with ⟨err, rfl, rfl⟩ | ⟨rfl, -, -, rfl⟩
  · exact h.kept e fun _ _ h => h
  have hlook : ∀ n, (L.noteAll (.revoked (P.trimSpace userID))).logins.lookup n =
      (L.logins.lookup n).map fun l => l.also (.revoked (P.trimSpace userID)) := fun n => Table.lookup_updateAll ..
  constructor
  · intro id r' hr'
    simp only [Table.lookup_updateAll, Option.map_eq_some_iff] at hr'
    obtain ⟨r, hr, rfl⟩ := hr'
    obtain ⟨n, l, hn, hc, hl, hrecord⟩ := h.rows id r hr
    have hrev := hrecord.revoke (P.trimSpace userID) (unix e.now)
    refine ⟨n, l.also (.revoked (P.trimSpace userID)), hn, ?_, ?_, hrev⟩
    · rw [hrev.code]
      exact (congrArg L.byCode.lookup hrecord.code.symm).trans hc
    · exact (hlook n).trans (congrArg (Option.map _) hl)
  · intro n l' hl'
    have hl'' := (hlook n).symm.trans hl'
    obtain ⟨l, hl, -⟩ := Option.map_eq_some_iff.mp hl''
    exact h.numbers n l hl
  intro n l' hl'
  have hl'' := (hlook n).symm.trans hl'
  obtain ⟨l, hl, rfl⟩ := Option.map_eq_some_iff.mp hl''
  exact (h.sound n l hl).revoke e _

theorem LoggedIn.logIn {s : DB × Logins} (h : LoggedIn evs s) (e : Event) : LoggedIn (evs ++ [e]) (e.logIn P s) := by
  obtain ⟨db, L⟩ := s
  obtain ⟨x, now, dice⟩ := e
  by_cases hx : x.logsIn = true
  · cases x with
    | createDeviceLogin deviceName expiresAt =>
      obtain ⟨r, db', hrun⟩ : ∃ r db', createDeviceLogin P db now dice deviceName expiresAt = (r, db') := ⟨_, _, rfl⟩
      have hres : Event.logIn P (db, L) ⟨.createDeviceLogin deviceName expiresAt, now, dice⟩ =
          (db', L.record P now (.createDeviceLogin deviceName expiresAt) r) := by
        have hdb : (createDeviceLogin P db now dice deviceName expiresAt).2 = db' := by rw [hrun]
        have hr : (createDeviceLogin P db now dice deviceName expiresAt).1 = r := by rw [hrun]
        exact Prod.ext hdb (congrArg (L.record P now (.createDeviceLogin deviceName expiresAt)) hr)
      rw [hres]
      rcases createDeviceLogin_cases hrun with ⟨err, rfl, hleft⟩ | ⟨id, code, userCode, name, kept, rfl, hid, hleft, -,
          hcode, hdb⟩
      · exact h.kept _ hleft
      simp only [Logins.record, hid]
      exact h.create (r := ⟨userCode, name, P.digest code, "", unix expiresAt, none, none⟩) _ hleft hcode
        ⟨rfl, rfl, rfl, fun _ => .inl ⟨rfl, nofun⟩⟩ hdb
    | approveDeviceLogin userCode principal => exact h.approve _ rfl
    | exchangeDeviceLogin deviceCode => exact h.exchange _ rfl
    | revokeExternalIdentity principal userID provider => exact h.revoke _ rfl
    | _ => cases hx
  have hx' : x.logsIn = false := by simpa using hx
  have hrecord : L.record P now x (x.run P now dice db).1 = L := record_of_not_logsIn hx'
  simp only [Event.logIn, hrecord]
  apply h.kept
  intro id r hr
  rw [run_logins hx'] at hr
  exact hr

end Steps

theorem loggedIn_concat (P : Primitives) (evs : List Event) (e : Event) :
    loggedIn P (evs ++ [e]) = e.logIn P (loggedIn P evs) := by
  simp [loggedIn]

theorem loggedIn_sound (P : Primitives) (evs : List Event) : LoggedIn evs (loggedIn P evs) := by
  induction evs using List.reverseRecOn with
  | nil =>
    constructor
    · intro id r hr
      cases hr
    · intro n l hl
      cases hl
    intro n l hl
    cases hl
  | append_singleton evs e ih =>
    rw [loggedIn_concat]
    exact ih.logIn e

/-- Each login is approved at most once and yields at most one token. The token is for the user of the browser that approved
the login, approval and exchange came before the expiry, and the identity of the user was not revoked in between. Every
approval and every exchange that succeeds is of a login of the ledger. -/
theorem deviceLogin_sound (P : Primitives) (evs : List Event) (hforward : Forward evs) :
    (∀ n l, (loggedIn P evs).2.logins.lookup n = some l →
      l.log.countP Happening.isApproval ≤ 1 ∧ l.log.countP Happening.isToken ≤ 1 ∧
      ∀ earlier time token later, l.log = earlier ++ .issued time token :: later →
        Yields (unix l.expiresAt) earlier time token) ∧
    (∀ now userCode principal, (approveDeviceLogin P (loggedIn P evs).1 now userCode principal).1 = .ok () →
      ∃ n l, (loggedIn P evs).2.byCode.lookup (P.toUpper (P.trimSpace userCode)) = some n ∧
        (loggedIn P evs).2.logins.lookup n = some l) ∧
    ∀ now dice deviceCode token, (exchangeDeviceLogin P (loggedIn P evs).1 now dice deviceCode).1 = .ok token →
      ∃ id n l, parseOpaque deviceCode (bytes "dlc") = some id ∧ (loggedIn P evs).2.byID.lookup id = some n ∧
        (loggedIn P evs).2.logins.lookup n = some l := by
  have hinv := loggedIn_sound P evs
  refine ⟨?_, ?_, ?_⟩
  · intro n l hl
    have hsound := hinv.sound n l hl
    exact ⟨hsound.approvals, hsound.tokens, hsound.yields hforward⟩
  · intro now userCode principal hok
    rcases approveDeviceLogin_cases (Prod.mk.eta (p := approveDeviceLogin P (loggedIn P evs).1 now userCode principal)).symm with
      ⟨err, herr, -⟩ | ⟨-, -, ⟨id, row, hrow, happrovable⟩, -⟩
    · rw [hok] at herr
      cases herr
    obtain ⟨n, l, -, hc, hl, -⟩ := hinv.rows id row hrow
    simp only [DeviceLoginRow.approvable, Bool.and_eq_true, beq_iff_eq] at happrovable
    rw [happrovable.1.1.1] at hc
    exact ⟨n, l, hc, hl⟩
  intro now dice deviceCode token hok
  rcases exchangeDeviceLogin_cases
      (Prod.mk.eta (p := exchangeDeviceLogin P (loggedIn P evs).1 now dice deviceCode)).symm with
    ⟨err, herr, -⟩ | ⟨id, row, i, _, -, hid, hrow, -⟩
  · rw [hok] at herr
    cases herr
  obtain ⟨n, l, hn, -, hl, -⟩ := hinv.rows id row hrow
  exact ⟨id, n, l, hid, hn, hl⟩

def sampleBrowser : Principal := { sampleAdmin with kind := .browser }

def sampleDeviceCode : List UInt8 := newSecret (bytes "dlc") (randomID "dlc" (sampleRandom 1)) (sampleRandom 1)

def loggingIn : List Event :=
  [⟨.bootstrap, 0, sampleDice 0⟩, ⟨.createDeviceLogin "laptop" (10 * minute), 0, ⟨sampleRandom 1, sampleRandom 1, "ABCD"⟩⟩,
    ⟨.approveDeviceLogin "ABCD" sampleBrowser, minute, sampleDice 2⟩,
    ⟨.exchangeDeviceLogin sampleDeviceCode, 2 * minute, sampleDice 3⟩]

theorem deviceLogin_sound_once : ∃ l, (loggedIn samplePrimitives loggingIn).2.logins.lookup 0 = some l ∧
    l.log = [.approved minute sampleBrowser, .issued (2 * minute) (newToken
      (sampleDice 3) .device sampleAdmin.userID "" "" none)] ∧
    l.log.countP Happening.isToken ≤ 1 := by
  have hlog : ((loggedIn samplePrimitives loggingIn).2.logins.lookup 0).map (·.log) =
      some [.approved minute sampleBrowser,
        .issued (2 * minute) (newToken (sampleDice 3) .device sampleAdmin.userID "" "" none)] := by decide +kernel
  obtain ⟨l, hl, hlog⟩ := Option.map_eq_some_iff.mp hlog
  have hforward : Forward loggingIn := by simp [Forward, loggingIn, minute, second]
  exact ⟨l, hl, hlog, ((deviceLogin_sound samplePrimitives loggingIn hforward).1 0 l hl).2.1⟩

end Auth

end Autback
