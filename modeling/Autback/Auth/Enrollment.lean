import Autback.Auth.History

/-!
# Enrollment codes

Beside the tables stands a ledger of the enrollment codes that were handed out, written from the calls and their answers alone:
the wrong secrets that were tried against the id of a code, those of them that were tried while the code was live, and the tokens
that it yielded. The count in the table is the second number (`Enrolled`), so a code yields at most one token, for its exact
text, before its expiry and before five wrong secrets; and five wrong secrets lock it forever (`enrollment_lockout`).
-/

namespace Autback

namespace Auth

open Gateway (bytes)

/-! ## The ledger -/

structure Use where
  presented : List UInt8
  time : Time
  (tries wrong : Nat)
  token : Issued

/-- An enrollment code that was handed out, with the wrong secrets tried against its id and those tried while it was
live. -/
structure Code where
  code : List UInt8
  expiresAt : Time
  (tries wrong : Nat)
  uses : List Use

/-- `MaxAttempts` of a new code. -/
def attemptLimit : Nat := 5

def Code.live (now : Time) (c : Code) : Bool :=
  c.uses.isEmpty && decide (now < unix c.expiresAt) && decide (c.wrong < attemptLimit)

def Code.attempt (c : Code) (now : Time) (presented : List UInt8) : Except Error Issued → Code
  | .ok token => { c with uses := ⟨presented, now, c.tries, c.wrong, token⟩ :: c.uses }
  | .error _ =>
    if presented = c.code then c
    else { c with tries := c.tries + 1, wrong := if c.live now then c.wrong + 1 else c.wrong }

abbrev Ledger := Table String Code

def Ledger.record (L : Ledger) (now : Time) : (x : Tx) → Except Error x.Val → Ledger
  | .createEnrollmentCode _ _ _ expiresAt, .ok code => match parseEnrollment code with
    | none => L
    | some id => L.insert id ⟨code, expiresAt, 0, 0, []⟩
  | .exchangeEnrollmentCode code, r => match parseEnrollment code with
    | none => L
    | some id => match L.lookup id with
      | none => L
      | some c => L.insert id (c.attempt now code r)
  | _, _ => L

def Event.enroll (P : Primitives) (s : DB × Ledger) (e : Event) : DB × Ledger :=
  ((e.tx.run P e.now e.dice s.1).2, s.2.record e.now e.tx (e.tx.run P e.now e.dice s.1).1)

def enrolled (P : Primitives) (evs : List Event) : DB × Ledger := evs.foldl (Event.enroll P) (DB.empty, ∅)

/-! ## What the calls do to the codes -/

variable {L : Ledger} {now : Time} {P : Primitives} {dice : Dice} {db db' : DB} {id : String} {r : Except Error Issued}
  {c : Code} {evs : List Event} {s : DB × Ledger} {code : List UInt8} {row : EnrollmentRow}

theorem record_of_not_enrolls {x : Tx} {r : Except Error x.Val} (h : x.enrolls = false) : L.record now x r = L := by
  cases x <;> first | rfl | cases h

theorem run_enrollments {x : Tx} (h : x.enrolls = false) : (x.run P now dice db).2.enrollments = db.enrollments := by
  apply run_frame
  refine ⟨fun _ _ => rfl, fun _ _ => rfl, fun _ _ => rfl, fun _ _ _ => rfl, ?_, fun _ _ _ => rfl⟩
  intro henr
  rw [h] at henr
  cases henr

inductive Attempted (P : Primitives) (db : DB) (now : Time) (code : List UInt8) (id : String) (row : EnrollmentRow) :
    Except Error Issued → Table String EnrollmentRow → Prop
  | unusable (h : row.usable now = false) : Attempted P db now code id row (.error .unauthenticated) db.enrollments
  | wrong (h : row.usable now = true) (hdigest : P.digest code ≠ row.digest) :
    Attempted P db now code id row (.error .unauthenticated)
      (db.enrollments.insert id { row with failedAttempts := row.failedAttempts + 1 })
  | failed (h : row.usable now = true) (hdigest : P.digest code = row.digest) (e : Error) :
    Attempted P db now code id row (.error e) db.enrollments
  | issued (h : row.usable now = true) (hdigest : P.digest code = row.digest) (i : Issued) (t : Int) :
    Attempted P db now code id row (.ok i) (db.enrollments.insert id { row with consumedAt := some t })

theorem exchange_unknown
    (h : ∀ id row, parseEnrollment code = some id → db.enrollments.lookup id ≠ some row) :
    exchangeEnrollmentCode P db now dice code = (.error .unauthenticated, db) := by
  rw [exchangeEnrollmentCode]
  split
  · rfl
  rename_i id hid
  split
  · rfl
  rename_i row hrow
  exact absurd hrow (h id row hid)

theorem exchange_attempted (hid : parseEnrollment code = some id)
    (hrow : db.enrollments.lookup id = some row) (h : exchangeEnrollmentCode P db now dice code = (r, db')) :
    Attempted P db now code id row r db'.enrollments := by
  simp only [exchangeEnrollmentCode, hid, hrow] at h
  split at h
  · rename_i hbad
    cases h
    exact .unusable (by rw [EnrollmentRow.usable, hbad]; rfl)
  rename_i hgood
  have husable : row.usable now = true := by simpa [EnrollmentRow.usable] using hgood
  split at h
  · rename_i hdigest
    cases h
    exact .wrong husable hdigest
  rename_i hdigest
  have hdigest' := not_not.mp hdigest
  split at h
  · cases h
    exact .failed husable hdigest' _
  rename_i i db1 hi
  cases h
  have henr : db1.enrollments = db.enrollments := by
    rcases issue_cases hi with ⟨-, -, rfl⟩ | ⟨-, -, -, rfl⟩ <;> rfl
  simp only [henr]
  exact .issued husable hdigest' i _

/-! ## The table follows the ledger -/

structure EnrollmentRow.Records (P : Primitives) (r : EnrollmentRow) (c : Code) : Prop where
  digest : r.digest = P.digest c.code
  expiry : r.expiresAt = unix c.expiresAt
  failures : r.failedAttempts = c.wrong
  limit : r.maxAttempts = attemptLimit
  consumed : r.consumedAt.isSome = !c.uses.isEmpty

theorem EnrollmentRow.Records.usable {r : EnrollmentRow} (h : r.Records P c) (now : Time) : r.usable now = c.live now := by
  rw [EnrollmentRow.usable, Code.live, h.consumed, h.expiry, h.failures, h.limit]
  simp only [Bool.not_or, Bool.not_not, ← decide_not, not_le, ge_iff_le]

def Forward (evs : List Event) : Prop := evs.Pairwise fun e e' => e.now ≤ e'.now

structure Code.Sound (evs : List Event) (id : String) (c : Code) : Prop where
  named : parseEnrollment c.code = some id
  once : c.uses.length ≤ 1
  use : ∀ u ∈ c.uses, u.presented = c.code ∧ u.time < unix c.expiresAt ∧ u.wrong < attemptLimit ∧
    (Forward evs → u.tries < attemptLimit)
  limit : c.wrong ≤ attemptLimit
  tries : c.uses = [] → c.wrong < attemptLimit → (∀ e ∈ evs, e.now < unix c.expiresAt) → c.tries = c.wrong

structure Enrolled (P : Primitives) (evs : List Event) (s : DB × Ledger) : Prop where
  rows : ∀ id, Option.Rel (EnrollmentRow.Records P) (s.1.enrollments.lookup id) (s.2.lookup id)
  codes : ∀ id c, s.2.lookup id = some c → c.Sound evs id

theorem Code.Sound.concat (h : c.Sound evs id) (e : Event) : c.Sound (evs ++ [e]) id where
  named := h.named
  once := h.once
  use u hu := by
    obtain ⟨hpres, htime, hwrong, htried⟩ := h.use u hu
    refine ⟨hpres, htime, hwrong, ?_⟩
    intro hforward
    exact htried (List.pairwise_append.mp hforward).1
  limit := h.limit
  tries huses hwrong htim := h.tries huses hwrong fun e he => htim e (List.mem_append_left _ he)

theorem Code.Sound.refuse (h : c.Sound evs id) (e : Event) {presented : List UInt8} (err : Error) :
    (c.attempt e.now presented (.error err)).Sound (evs ++ [e]) id := by
  rw [Code.attempt]
  split
  · exact h.concat e
  have hc := h.concat e
  refine ⟨hc.named, hc.once, hc.use, ?_, ?_⟩
  · simp only
    split
    · rename_i hlive
      simp only [Code.live, Bool.and_eq_true, decide_eq_true_eq] at hlive
      omega
    · exact h.limit
  -- before the expiry and the limit every wrong secret was tried while the code was live
  intro huses hwrong htim
  simp only at huses hwrong htim ⊢
  have hnow : e.now < unix c.expiresAt := htim e (by simp)
  by_cases hlt : c.wrong < attemptLimit
  · have hlive : c.live e.now = true := by simp [Code.live, huses, hnow, hlt]
    have htried := h.tries huses hlt fun e' he' => htim e' (List.mem_append_left _ he')
    rw [hlive, if_pos rfl, htried]
  have hdead : c.live e.now = false := by simp [Code.live, hlt]
  rw [hdead] at hwrong
  exact absurd hwrong hlt

theorem Code.Sound.accept (h : c.Sound evs id) (e : Event) (hlive : c.live e.now = true) (i : Issued) :
    (c.attempt e.now c.code (.ok i)).Sound (evs ++ [e]) id := by
  simp only [Code.live, Bool.and_eq_true, decide_eq_true_eq, List.isEmpty_iff] at hlive
  obtain ⟨⟨huses, hnow⟩, hwrong⟩ := hlive
  refine ⟨h.named, by simp [Code.attempt, huses], ?_, h.limit, fun hnil => by simp [Code.attempt] at hnil⟩
  intro u hu
  simp only [Code.attempt, huses, List.mem_singleton] at hu
  subst hu
  refine ⟨rfl, hnow, hwrong, ?_⟩
  intro hforward
  have hbefore : ∀ e' ∈ evs, e'.now < unix c.expiresAt := by
    intro e' he'
    have hle : e'.now ≤ e.now := (List.pairwise_append.mp hforward).2.2 e' he' e (by simp)
    exact Int.lt_of_le_of_lt hle hnow
  rw [h.tries huses hwrong hbefore]
  exact hwrong

theorem Enrolled.unchanged (h : Enrolled P evs (db, L)) (e : Event) (hdb : db'.enrollments = db.enrollments) :
    Enrolled P (evs ++ [e]) (db', L) where
  rows id := by
    rw [hdb]
    exact h.rows id
  codes id c hc := (h.codes id c hc).concat e

theorem Enrolled.insert (h : Enrolled P evs (db, L)) (e : Event) {r : EnrollmentRow}
    (hdb : ∀ id', db'.enrollments.lookup id' = if id' = id then some r else db.enrollments.lookup id') (hr : r.Records P c)
    (hc : c.Sound (evs ++ [e]) id) : Enrolled P (evs ++ [e]) (db', L.insert id c) where
  rows id' := by
    rw [hdb, Table.lookup_insert_eq]
    split
    · exact .some hr
    · exact h.rows id'
  codes id' c' hc' := by
    have hlook : (L.insert id c).lookup id' = some c' := hc'
    rw [Table.lookup_insert_eq] at hlook
    split at hlook
    · rename_i hid
      cases hlook
      rw [hid]
      exact hc
    · exact (h.codes id' c' hlook).concat e

theorem Enrolled.create (h : Enrolled P evs (db, L)) (e : Event) {principal : Principal} {userID deviceName : String}
    {expiresAt : Time} {r : Except Error (List UInt8)}
    (hrun : createEnrollmentCode P db e.now e.dice principal userID deviceName expiresAt = (r, db')) :
    Enrolled P (evs ++ [e]) (db', L.record e.now (.createEnrollmentCode principal userID deviceName expiresAt) r) := by
  rcases createEnrollmentCode_cases hrun with ⟨err, rfl, rfl⟩ | ⟨id, code, rfl, hid, _, rfl⟩
  · exact h.unchanged e rfl
  have hrecord : L.record e.now (.createEnrollmentCode principal userID deviceName expiresAt) (.ok code) =
      L.insert id ⟨code, expiresAt, 0, 0, []⟩ := by
    simp only [Ledger.record, hid]
  rw [hrecord]
  exact h.insert e (fun id' => Table.lookup_insert_eq ..) ⟨rfl, rfl, rfl, rfl, rfl⟩
    ⟨hid, by simp, by simp, by simp, fun _ _ _ => rfl⟩

theorem Enrolled.attempt_unknown (h : Enrolled P evs (db, L)) (e : Event)
    (hunkn : ∀ id row, parseEnrollment code = some id → db.enrollments.lookup id ≠ some row)
    (hrun : exchangeEnrollmentCode P db e.now e.dice code = (r, db')) :
    Enrolled P (evs ++ [e]) (db', L.record e.now (.exchangeEnrollmentCode code) r) := by
  rw [exchange_unknown hunkn] at hrun
  cases hrun
  have hrecord : L.record e.now (.exchangeEnrollmentCode code) (.error .unauthenticated) = L := by
    cases hid : parseEnrollment code with
    | none => simp only [Ledger.record, hid]
    | some id =>
      have hrel : Option.Rel (EnrollmentRow.Records P) (db.enrollments.lookup id) (L.lookup id) := h.rows id
      cases hrow : db.enrollments.lookup id with
      | some row => exact absurd hrow (hunkn id row hid)
      | none =>
        rw [hrow] at hrel
        cases hcode : L.lookup id with
        | some c =>
          rw [hcode] at hrel
          cases hrel
        | none => simp only [Ledger.record, hid, hcode]
  rw [hrecord]
  exact h.unchanged e rfl

theorem Enrolled.entry (h : Enrolled P evs s) (hrow : s.1.enrollments.lookup id = some row) :
    ∃ c, s.2.lookup id = some c ∧ row.Records P c := by
  have hrel := h.rows id
  rw [hrow] at hrel
  cases hcode : s.2.lookup id with
  | none =>
    rw [hcode] at hrel
    cases hrel
  | some c =>
    rw [hcode] at hrel
    cases hrel with
    | some hrecord => exact ⟨c, rfl, hrecord⟩

theorem Enrolled.attempt (hP : Function.Injective P.digest) (h : Enrolled P evs (db, L)) (e : Event)
    (hrun : exchangeEnrollmentCode P db e.now e.dice code = (r, db')) :
    Enrolled P (evs ++ [e]) (db', L.record e.now (.exchangeEnrollmentCode code) r) := by
  by_cases hknow : ∃ id row, parseEnrollment code = some id ∧ db.enrollments.lookup id = some row
  · obtain ⟨id, row, hid, hrow⟩ := hknow
    obtain ⟨c, hcode, hrecords⟩ : ∃ c, L.lookup id = some c ∧ row.Records P c := h.entry hrow
    have hsound : c.Sound evs id := h.codes id c hcode
    have hrecord : L.record e.now (.exchangeEnrollmentCode code) r = L.insert id (c.attempt e.now code r) := by
      simp only [Ledger.record, hid, hcode]
    rw [hrecord]
    have hatt := exchange_attempted hid hrow hrun
    have hkept : ∀ id', db.enrollments.lookup id' = if id' = id then some row else db.enrollments.lookup id' := by
      intro id'
      split
      · rename_i hid'
        rw [hid', hrow]
      · rfl
    generalize henr : db'.enrollments = enrollments at hatt
    cases hatt with
    | unusable hbad =>
      have hdead : c.live e.now = false := by rw [← hrecords.usable, hbad]
      refine h.insert e (by rw [henr]; exact hkept) ?_ (hsound.refuse e _)
      rw [Code.attempt, hdead]
      split
      · exact hrecords
      · exact ⟨hrecords.digest, hrecords.expiry, hrecords.failures, hrecords.limit, hrecords.consumed⟩
    | wrong hgood hdigest =>
      have hlive : c.live e.now = true := by rw [← hrecords.usable, hgood]
      have hne : code ≠ c.code := fun heq => hdigest (by rw [heq, hrecords.digest])
      refine h.insert e (by rw [henr]; exact fun id' => Table.lookup_insert_eq ..) ?_ (hsound.refuse e _)
      rw [Code.attempt, if_neg hne, hlive, if_pos rfl]
      exact ⟨hrecords.digest, hrecords.expiry, by rw [hrecords.failures], hrecords.limit, hrecords.consumed⟩
    | failed hgood hdigest err =>
      have heq : code = c.code := hP (hdigest.trans hrecords.digest)
      refine h.insert e (by rw [henr]; exact hkept) ?_ (hsound.refuse e _)
      rw [Code.attempt, if_pos heq]
      exact hrecords
    | issued hgood hdigest i t =>
      have hlive : c.live e.now = true := by rw [← hrecords.usable, hgood]
      have heq : code = c.code := hP (hdigest.trans hrecords.digest)
      subst heq
      refine h.insert e (by rw [henr]; exact fun id' => Table.lookup_insert_eq ..) ?_ (hsound.accept e hlive i)
      exact ⟨hrecords.digest, hrecords.expiry, hrecords.failures, hrecords.limit, rfl⟩
  · exact h.attempt_unknown e (fun id row hid hrow => hknow ⟨id, row, hid, hrow⟩) hrun

theorem Enrolled.enroll (hP : Function.Injective P.digest) (h : Enrolled P evs s) (e : Event) :
    Enrolled P (evs ++ [e]) (e.enroll P s) := by
  obtain ⟨db, L⟩ := s
  obtain ⟨x, now, dice⟩ := e
  by_cases hx : x.enrolls = true
  · cases x with
    | createEnrollmentCode principal userID deviceName expiresAt => exact h.create _ rfl
    | exchangeEnrollmentCode code => exact h.attempt hP _ rfl
    | _ => cases hx
  have hx' : x.enrolls = false := by simpa using hx
  have hrecord : L.record now x (x.run P now dice db).1 = L := record_of_not_enrolls hx'
  simp only [Event.enroll, hrecord]
  exact h.unchanged _ (run_enrollments hx')

theorem enrolled_concat (P : Primitives) (evs : List Event) (e : Event) :
    enrolled P (evs ++ [e]) = e.enroll P (enrolled P evs) := by
  simp [enrolled]

theorem enrolled_sound (hP : Function.Injective P.digest) (evs : List Event) : Enrolled P evs (enrolled P evs) := by
  induction evs using List.reverseRecOn with
  | nil =>
    constructor
    · intro id
      exact .none
    intro id c hc
    cases hc
  | append_singleton evs e ih =>
    rw [enrolled_concat]
    exact ih.enroll hP e

/-! ## Codes in longer histories -/

theorem Code.attempt_grows (c : Code) (now : Time) (presented : List UInt8) (r : Except Error Issued) :
    (c.attempt now presented r).code = c.code ∧ c.wrong ≤ (c.attempt now presented r).wrong := by
  cases r with
  | ok i => exact ⟨rfl, Nat.le_refl _⟩
  | error err =>
    rw [Code.attempt]
    split
    · exact ⟨rfl, Nat.le_refl _⟩
    refine ⟨rfl, ?_⟩
    simp only
    split <;> omega

theorem record_exchange_persists (hc : L.lookup id = some c) :
    ∃ c', (L.record now (.exchangeEnrollmentCode code) r).lookup id = some c' ∧ c'.code = c.code ∧ c.wrong ≤ c'.wrong := by
  have hsame : ∃ c', L.lookup id = some c' ∧ c'.code = c.code ∧ c.wrong ≤ c'.wrong := ⟨c, hc, rfl, Nat.le_refl _⟩
  simp only [Ledger.record]
  split
  · exact hsame
  rename_i id' _
  split
  · exact hsame
  rename_i c0 hc0
  rw [Table.lookup_insert_eq]
  split
  · rename_i hid
    subst hid
    rw [hc] at hc0
    cases hc0
    exact ⟨_, rfl, c.attempt_grows now code r⟩
  · exact hsame

theorem Enrolled.persists (h : Enrolled P evs s) (e : Event) (hc : s.2.lookup id = some c) :
    ∃ c', (e.enroll P s).2.lookup id = some c' ∧ c'.code = c.code ∧ c.wrong ≤ c'.wrong := by
  obtain ⟨db, L⟩ := s
  obtain ⟨x, now, dice⟩ := e
  by_cases hx : x.enrolls = true
  · cases x with
    | createEnrollmentCode principal userID deviceName expiresAt =>
      obtain ⟨r, db', hrun⟩ : ∃ r db', createEnrollmentCode P db now dice principal userID deviceName expiresAt = (r, db') :=
        ⟨_, _, rfl⟩
      have hres : (Event.enroll P (db, L) ⟨.createEnrollmentCode principal userID deviceName expiresAt, now, dice⟩).2 =
          L.record now (.createEnrollmentCode principal userID deviceName expiresAt) r := by
        have hr := congrArg Prod.fst hrun
        exact congrArg (L.record now (.createEnrollmentCode principal userID deviceName expiresAt)) hr
      rw [hres]
      refine ⟨c, ?_, rfl, Nat.le_refl _⟩
      rcases createEnrollmentCode_cases hrun with ⟨err, rfl, _⟩ | ⟨id', code, rfl, hid, hnew, _⟩
      · exact hc
      simp only [Ledger.record, hid]
      rw [Table.lookup_insert_eq, if_neg]
      · exact hc
      -- the new id is not in the table, and so not in the ledger
      rintro rfl
      have hrel : Option.Rel (EnrollmentRow.Records P) (db.enrollments.lookup id) (L.lookup id) := h.rows id
      rw [hnew, hc] at hrel
      cases hrel
    | exchangeEnrollmentCode code => exact record_exchange_persists hc
    | _ => cases hx
  · refine ⟨c, ?_, rfl, Nat.le_refl _⟩
    have hrecord : L.record now x (x.run P now dice db).1 = L := record_of_not_enrolls (by simpa using hx)
    simp only [Event.enroll, hrecord]
    exact hc

theorem enrolled_persists (hP : Function.Injective P.digest) (later : List Event) (hc : (enrolled P evs).2.lookup id = some c) :
    ∃ c', (enrolled P (evs ++ later)).2.lookup id = some c' ∧ c'.code = c.code ∧ c.wrong ≤ c'.wrong := by
  induction later using List.reverseRecOn with
  | nil =>
    rw [List.append_nil]
    exact ⟨c, hc, rfl, Nat.le_refl _⟩
  | append_singleton later e ih =>
    obtain ⟨c1, hc1, hcode1, hwrong1⟩ := ih
    obtain ⟨c2, hc2, hcode2, hwrong2⟩ := (enrolled_sound hP (evs ++ later)).persists e hc1
    rw [← List.append_assoc, enrolled_concat]
    exact ⟨c2, hc2, hcode2.trans hcode1, hwrong1.trans hwrong2⟩

theorem Enrolled.stored (h : Enrolled P evs s) (hc : s.2.lookup id = some c) :
    ∃ r, s.1.enrollments.lookup id = some r ∧ r.Records P c := by
  have hrel := h.rows id
  rw [hc] at hrel
  cases hr : s.1.enrollments.lookup id with
  | none =>
    rw [hr] at hrel
    cases hrel
  | some r =>
    rw [hr] at hrel
    cases hrel with
    | some hrecord => exact ⟨r, rfl, hrecord⟩

theorem exchange_unusable (hid : parseEnrollment code = some id)
    (hrow : db.enrollments.lookup id = some row) (h : row.usable now = false) :
    exchangeEnrollmentCode P db now dice code = (.error .unauthenticated, db) := by
  rw [EnrollmentRow.usable, Bool.not_eq_false'] at h
  simp only [exchangeEnrollmentCode, hid, hrow, h, if_true]

theorem exchange_other (hid : parseEnrollment code ≠ some id) :
    (exchangeEnrollmentCode P db now dice code).2.enrollments.lookup id = db.enrollments.lookup id := by
  obtain ⟨r, db', hrun⟩ : ∃ r db', exchangeEnrollmentCode P db now dice code = (r, db') := ⟨_, _, rfl⟩
  rw [hrun]
  by_cases hknow : ∃ id row, parseEnrollment code = some id ∧ db.enrollments.lookup id = some row
  · obtain ⟨id', row, hid', hrow⟩ := hknow
    have hne : id ≠ id' := by
      rintro rfl
      exact hid hid'
    have hatt := exchange_attempted hid' hrow hrun
    generalize db'.enrollments = enrollments at hatt
    cases hatt with
    | unusable => rfl
    | wrong | issued => exact AList.lookup_insert_ne hne
    | failed => rfl
  rw [exchange_unknown fun id' row hid' hrow => hknow ⟨id', row, hid', hrow⟩] at hrun
  cases hrun
  rfl

theorem Enrolled.exchange_ok (hP : Function.Injective P.digest) (h : Enrolled P evs s) {i : Issued}
    (hok : (exchangeEnrollmentCode P s.1 now dice code).1 = .ok i) :
    ∃ id c, parseEnrollment code = some id ∧ s.2.lookup id = some c ∧ code = c.code ∧ c.live now = true := by
  obtain ⟨r, db', hrun⟩ : ∃ r db', exchangeEnrollmentCode P s.1 now dice code = (r, db') := ⟨_, _, rfl⟩
  rw [hrun] at hok
  by_cases hknow : ∃ id row, parseEnrollment code = some id ∧ s.1.enrollments.lookup id = some row
  · obtain ⟨id, row, hid, hrow⟩ := hknow
    obtain ⟨c, hc, hrecord⟩ := h.entry hrow
    have hatt := exchange_attempted hid hrow hrun
    generalize db'.enrollments = enrollments at hatt
    cases hatt with
    | unusable => cases hok
    | wrong => cases hok
    | failed => cases hok
    | issued husable hdigest =>
      exact ⟨id, c, hid, hc, hP (hdigest.trans hrecord.digest), by rw [← hrecord.usable, husable]⟩
  rw [exchange_unknown fun id row hid hrow => hknow ⟨id, row, hid, hrow⟩] at hrun
  cases hrun
  cases hok

/-- Each code yields at most one token, for its exact text, before its expiry and before five wrong secrets. Every wrong
secret that is tried while the code is live is counted in the table, five of them lock the code forever, and attempts against
one code change no other. -/
theorem enrollment_lockout (P : Primitives) (hP : Function.Injective P.digest) (evs : List Event) :
    (∀ now dice code i, (exchangeEnrollmentCode P (enrolled P evs).1 now dice code).1 = .ok i →
      ∃ id c, parseEnrollment code = some id ∧ (enrolled P evs).2.lookup id = some c ∧ code = c.code ∧ c.live now = true) ∧
    ∀ id c, (enrolled P evs).2.lookup id = some c → c.uses.length ≤ 1 ∧
    (∀ u ∈ c.uses, u.presented = c.code ∧ u.time < unix c.expiresAt ∧ u.wrong < attemptLimit ∧
      (Forward evs → u.tries < attemptLimit)) ∧
    (∃ r, (enrolled P evs).1.enrollments.lookup id = some r ∧ r.failedAttempts = c.wrong) ∧
    (∀ now dice code, parseEnrollment code = some id → code ≠ c.code → c.live now = true →
      (exchangeEnrollmentCode P (enrolled P evs).1 now dice code).1 = .error .unauthenticated ∧
      ∃ r, (exchangeEnrollmentCode P (enrolled P evs).1 now dice code).2.enrollments.lookup id = some r ∧
        r.failedAttempts = c.wrong + 1) ∧
    (∀ later, ∃ c', (enrolled P (evs ++ later)).2.lookup id = some c' ∧ c'.code = c.code ∧ c.wrong ≤ c'.wrong ∧
        (c.wrong = attemptLimit → ∀ now dice code, parseEnrollment code = some id →
          exchangeEnrollmentCode P (enrolled P (evs ++ later)).1 now dice code =
            (.error .unauthenticated, (enrolled P (evs ++ later)).1))) ∧
    ∀ now dice code id', parseEnrollment code ≠ some id' →
      (exchangeEnrollmentCode P (enrolled P evs).1 now dice code).2.enrollments.lookup id' =
        (enrolled P evs).1.enrollments.lookup id' := by
  have hinv := enrolled_sound hP evs
  refine ⟨fun now dice code i => hinv.exchange_ok hP, ?_⟩
  intro id c hc
  have hsound := hinv.codes id c hc
  obtain ⟨row, hrow, hrecords⟩ := hinv.stored hc
  refine ⟨hsound.once, hsound.use, ⟨row, hrow, hrecords.failures⟩, ?_, ?_, fun now dice code id' => exchange_other⟩
  · intro now dice code hid hne hlive
    obtain ⟨r, db', hrun⟩ : ∃ r db', exchangeEnrollmentCode P (enrolled P evs).1 now dice code = (r, db') := ⟨_, _, rfl⟩
    rw [hrun]
    have husable : row.usable now = true := by rw [hrecords.usable, hlive]
    have hattempted := exchange_attempted hid hrow hrun
    generalize db'.enrollments = enrollments at hattempted
    cases hattempted with
    | unusable hbad =>
      rw [husable] at hbad
      cases hbad
    | wrong => exact ⟨rfl, _, AList.lookup_insert _, by rw [hrecords.failures]⟩
    | failed _ hdigest | issued _ hdigest => exact absurd (hP (hdigest.trans hrecords.digest)) hne
  intro later
  obtain ⟨c', hc', hcode, hwrong⟩ := enrolled_persists hP later hc
  refine ⟨c', hc', hcode, hwrong, ?_⟩
  intro hlocked now dice code hid
  have hinv' := enrolled_sound hP (evs ++ later)
  obtain ⟨row', hrow', hrecords'⟩ := hinv'.stored hc'
  apply exchange_unusable hid hrow'
  rw [hrecords'.usable]
  have hnot : ¬ c'.wrong < attemptLimit := by omega
  simp [Code.live, hnot]

def sampleCodeID : String := randomID "tok" (sampleRandom 1)

def enrolling : List Event :=
  [⟨.bootstrap, 0, sampleDice 0⟩,
    ⟨.createEnrollmentCode sampleAdmin sampleAdmin.userID "laptop" (10 * minute), 0, sampleDice 1⟩,
    ⟨.exchangeEnrollmentCode (newSecret (bytes "enr") sampleCodeID (sampleRandom 2)), minute, sampleDice 2⟩,
    ⟨.exchangeEnrollmentCode (newSecret (bytes "enr") sampleCodeID (sampleRandom 1)), 2 * minute, sampleDice 3⟩]

theorem enrollment_lockout_once : ∃ c, (enrolled samplePrimitives enrolling).2.lookup sampleCodeID = some c ∧
    c.wrong = 1 ∧ c.uses ≠ [] ∧ c.uses.length ≤ 1 := by
  have hsome : ((enrolled samplePrimitives enrolling).2.lookup sampleCodeID).isSome = true := by decide +kernel
  have hstate : ((enrolled samplePrimitives enrolling).2.lookup sampleCodeID).map (fun c => (c.wrong, c.uses.isEmpty)) =
      some (1, false) := by decide +kernel
  obtain ⟨c, hc⟩ := Option.isSome_iff_exists.mp hsome
  rw [hc] at hstate
  simp only [Option.map_some, Option.some.injEq, Prod.mk.injEq, List.isEmpty_eq_false_iff] at hstate
  exact ⟨c, hc, hstate.1, hstate.2, ((enrollment_lockout samplePrimitives (fun _ _ h => h) enrolling).2 _ c hc).1⟩

end Auth

end Autback
