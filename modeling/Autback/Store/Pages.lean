import Autback.Store.History
import Autback.Table.Keyset
import Autback.Text.Codec
import Mathlib.Data.Prod.Lex
import Mathlib.Data.String.Basic

/-!
# Pages of jobs

`Store.ListJobs` lists the jobs of a project by pages, newest first. A page that leaves jobs out carries a token, the signed
position of its last job, from which the next call goes on (`PageTokens`). The keys of a listing are the creation times and ids of
the project's jobs, and a page is a page of `Keyset` over them (`listJobs_keys`). Transactions keep the keys that are there
(`DB.Grows`), so a listing is exact for every history (`pages_exact`).
-/

namespace Autback

/-! ## Page tokens -/

def Err.invalidPageToken : Err := ⟨"invalid page token", [.invalidPageToken], false⟩

/-- `jobCursor`: the content of a token. -/
structure PageCursor where
  projectID : String
  createdAt : Time
  id : String
  deriving DecidableEq

/-- The standard library's part of a token: the JSON of a cursor, its HMAC-SHA256 under the pepper of the store, and
`base64.RawURLEncoding`. -/
structure PageTokens where
  marshal : PageCursor → List UInt8
  unmarshal : List UInt8 → Option PageCursor
  (mac encode : List UInt8 → List UInt8)
  decode : List UInt8 → Option (List UInt8)
  unmarshal_marshal : ∀ c, unmarshal (marshal c) = some c
  marshal_ne_nil : ∀ c, marshal c ≠ []
  mac_length : ∀ payload, (mac payload).length = 32
  decode_encode : ∀ value, decode (encode value) = some value
  encode_ne_nil : ∀ value, value ≠ [] → encode value ≠ []

structure JobPage where
  jobs : List Job
  nextPageToken : List UInt8
  deriving DecidableEq

namespace PageTokens

variable (P : PageTokens)

def issue (cursor : PageCursor) : List UInt8 := P.encode (P.marshal cursor ++ P.mac (P.marshal cursor))

def encodeJobCursor (projectID : String) (job : Job) : List UInt8 := P.issue ⟨projectID, job.createdAt, job.id⟩

def decodeJobCursor (projectID : String) (token : List UInt8) : Except Err PageCursor :=
  match P.decode token with
  | none => .error .invalidPageToken
  | some value =>
    if value.length ≤ 32 then .error .invalidPageToken
    else if value.drop (value.length - 32) ≠ P.mac (value.take (value.length - 32)) then .error .invalidPageToken
    else match P.unmarshal (value.take (value.length - 32)) with
      | none => .error .invalidPageToken
      | some cursor =>
        if cursor.projectID ≠ projectID ∨ cursor.createdAt ≤ 0 ∨ cursor.id = "" then .error .invalidPageToken
        else .ok cursor

def position (projectID : String) (pageToken : List UInt8) : Except Err (Option JobCursor) :=
  if pageToken = [] then .ok none
  else do
    let cursor ← P.decodeJobCursor projectID pageToken
    return some ⟨cursor.createdAt, cursor.id⟩

def listJobs (db : DB) (projectID : String) (pageSize : Int) (pageToken : List UInt8) : Except Err JobPage :=
  if pageSize < 1 ∨ pageSize > 100 then .error (.new "job page size must be between 1 and 100")
  else do
    let cursor ← P.position projectID pageToken
    -- one more than asked for tells whether there are more
    let jobs := db.listJobs projectID (pageSize.toNat + 1) cursor
    if pageSize.toNat < jobs.length then
      return ⟨jobs.take pageSize.toNat, (jobs.take pageSize.toNat).getLast?.elim [] (P.encodeJobCursor projectID)⟩
    else return ⟨jobs, []⟩

/-! ### Round trips -/

variable {P}

theorem issue_ne_nil (cursor : PageCursor) : P.issue cursor ≠ [] :=
  P.encode_ne_nil _ fun h => P.marshal_ne_nil cursor (List.append_eq_nil_iff.mp h).1

theorem decodeJobCursor_issue (projectID : String) (cursor : PageCursor) : P.decodeJobCursor projectID (P.issue cursor) =
    if cursor.projectID ≠ projectID ∨ cursor.createdAt ≤ 0 ∨ cursor.id = "" then .error .invalidPageToken else .ok cursor := by
  have hlength : (P.marshal cursor ++ P.mac (P.marshal cursor)).length - 32 = (P.marshal cursor).length := by
    rw [List.length_append, P.mac_length, Nat.add_sub_cancel]
  have hlong : ¬ (P.marshal cursor ++ P.mac (P.marshal cursor)).length ≤ 32 := by
    have hpos := List.length_pos_iff.mpr (P.marshal_ne_nil cursor)
    rw [List.length_append, P.mac_length]
    omega
  rw [decodeJobCursor, issue, P.decode_encode]
  simp only [hlength, List.take_left, List.drop_left, P.unmarshal_marshal, if_neg hlong, ne_eq, not_true_eq_false, if_false]

theorem listJobs_other {db : DB} {projectID : String} {cursor : PageCursor} {pageSize : Int}
    (hsize : 1 ≤ pageSize ∧ pageSize ≤ 100)
    (hother : cursor.projectID ≠ projectID) : P.listJobs db projectID pageSize (P.issue cursor) = .error .invalidPageToken := by
  rw [listJobs, if_neg (by omega), position, if_neg (issue_ne_nil cursor), decodeJobCursor_issue, if_pos (.inl hother)]
  rfl

end PageTokens

/-! ## The keys of a listing -/

abbrev JobKey : Type := Lex (Time × String)

def Job.key (j : Job) : JobKey := toLex (j.createdAt, j.id)

def JobKey.cursor (k : JobKey) : JobCursor := ⟨(ofLex k).1, (ofLex k).2⟩

def rowKey (e : String × JobRow) : JobKey := toLex (e.2.createdAt, e.1)

def DB.jobKeys (db : DB) (projectID : String) : List JobKey :=
  ((Table.rows db.jobs).filter fun e => e.2.projectID == projectID).map rowKey

section Keys

variable {db : DB} {projectID : String}

theorem mem_jobKeys {k : JobKey} : k ∈ db.jobKeys projectID ↔
    ∃ r, db.jobs.lookup (ofLex k).2 = some r ∧ r.projectID = projectID ∧ r.createdAt = (ofLex k).1 := by
  simp only [DB.jobKeys, List.mem_map, List.mem_filter, beq_iff_eq, Prod.exists]
  constructor
  · rintro ⟨id, r, ⟨hr, hproject⟩, rfl⟩
    exact ⟨r, Table.mem_rows.mp hr, hproject, rfl⟩
  rintro ⟨r, hr, hproject, hcreate⟩
  exact ⟨_, r, ⟨Table.mem_rows.mpr hr, hproject⟩, by rw [rowKey, hcreate]; rfl⟩

theorem jobKeys_nodup : (db.jobKeys projectID).Nodup := by
  have hsub : ((Table.rows db.jobs).filter fun e => e.2.projectID == projectID).Sublist (Table.rows db.jobs) :=
    List.filter_sublist
  refine List.Nodup.of_map (fun k : JobKey => (ofLex k).2) ?_
  rw [DB.jobKeys, List.map_map]
  exact (Table.rows_nodup _).sublist (hsub.map Prod.fst)

theorem jobKeys_inj {k k' : JobKey} (hk : k ∈ db.jobKeys projectID) (hk' : k' ∈ db.jobKeys projectID)
    (hid : (ofLex k).2 = (ofLex k').2) : k = k' := by
  obtain ⟨r, hr, -, hcreate⟩ := mem_jobKeys.mp hk
  obtain ⟨r', hr', -, hcreate'⟩ := mem_jobKeys.mp hk'
  rw [hid, hr'] at hr
  cases hr
  exact ofLex.injective (Prod.ext (hcreate.symm.trans hcreate') hid)

theorem listJobs_keys (limit : Nat) (c : Option JobKey) : (db.listJobs projectID limit (c.map JobKey.cursor)).map Job.key =
    Keyset.page (db.jobKeys projectID) c limit := by
  have hfilter : ∀ after : String × JobRow → Bool, (∀ e, after e = Keyset.below c (rowKey e)) →
      ((Table.rows db.jobs).filter fun e => e.2.projectID == projectID && after e).map rowKey =
        (db.jobKeys projectID).filter (Keyset.below c) := by
    intro after hafter
    rw [DB.jobKeys, List.filter_map, List.filter_filter]
    congr 2
    funext e
    rw [hafter, Bool.and_comm]
    rfl
  have hsort : ∀ l : List (String × JobRow),
      (l.insertionSort fun a b => a.2.createdAt > b.2.createdAt ∨ (a.2.createdAt = b.2.createdAt ∧ b.1 ≤ a.1)).map rowKey =
        (l.map rowKey).insertionSort (· ≥ ·) := by
    intro l
    refine List.map_insertionSort _ _ _ _ fun a _ b _ => ?_
    simp only [rowKey, ge_iff_le, gt_iff_lt, Prod.Lex.toLex_le_toLex, eq_comm]
  rw [DB.listJobs, Keyset.page, List.map_map]
  change List.map rowKey _ = _
  rw [List.map_take, hsort, hfilter]
  intro e
  cases c with
  | none => rfl
  | some k => simp [Keyset.below, rowKey, JobKey.cursor, Prod.Lex.lt_iff]

theorem mem_listJobs {limit : Nat} {c : Option JobCursor} {j : Job} (h : j ∈ db.listJobs projectID limit c) :
    ∃ r, db.jobs.lookup j.id = some r ∧ j = scanJob j.id r ∧ r.projectID = projectID := by
  rw [DB.listJobs] at h
  obtain ⟨⟨id, r⟩, he, rfl⟩ := List.mem_map.mp h
  have hfound := List.mem_filter.mp ((List.mem_insertionSort _).mp (List.mem_of_mem_take he))
  have hproject := (Bool.and_eq_true_iff.mp hfound.2).1
  exact ⟨r, Table.mem_rows.mp hfound.1, rfl, eq_of_beq hproject⟩

theorem listJobs_take (n : Nat) (c : Option JobCursor) :
    (db.listJobs projectID (n + 1) c).take n = db.listJobs projectID n c := by
  simp only [DB.listJobs, ← List.map_take, List.take_take, Nat.min_eq_left (Nat.le_succ n)]

end Keys

/-! ## Between two calls -/

def DB.Grows (db db' : DB) : Prop := ∀ id r, db.jobs.lookup id = some r →
  ∃ r', db'.jobs.lookup id = some r' ∧ (r'.projectID, r'.createdAt) = (r.projectID, r.createdAt)

def DB.Dated (db : DB) : Prop := ∀ id r, db.jobs.lookup id = some r → 0 < r.createdAt ∧ id ≠ ""

def StoreEvent.Dated : StoreEvent → Prop
  | call _ now _ => 0 < now
  | failed _ => True
  | restart => True

section Grows

variable {db db' db'' : DB} {now : Time} {fresh : String}

theorem DB.Grows.refl (db : DB) : db.Grows db := fun _ r h => ⟨r, h, rfl⟩

theorem DB.Grows.trans (h : db.Grows db') (h' : db'.Grows db'') : db.Grows db'' := by
  intro id r hr
  obtain ⟨r1, hr1, heq1⟩ := h id r hr
  obtain ⟨r2, hr2, heq2⟩ := h' id r1 hr1
  exact ⟨r2, hr2, heq2.trans heq1⟩

theorem DB.Grows.jobKeys (h : db.Grows db') (projectID : String) : db.jobKeys projectID ⊆ db'.jobKeys projectID := by
  intro k hk
  obtain ⟨r, hr, hproject, hcreate⟩ := mem_jobKeys.mp hk
  obtain ⟨r', hr', heq⟩ := h _ r hr
  rw [Prod.mk.injEq] at heq
  exact mem_jobKeys.mpr ⟨r', hr', heq.1.trans hproject, heq.2.trans hcreate⟩

theorem DB.Dated.jobKeys (h : db.Dated) {projectID : String} {k : JobKey} (hk : k ∈ db.jobKeys projectID) :
    0 < (ofLex k).1 ∧ (ofLex k).2 ≠ "" := by
  obtain ⟨r, hr, -, hcreate⟩ := mem_jobKeys.mp hk
  exact hcreate ▸ h _ r hr

theorem Tx.grows {x : Tx} {a : x.Val} (h : x.run now fresh db = .ok (a, db')) :
    db.Grows db' ∧ (0 < now → db.Dated → db'.Dated) := by
  have hgrow : db.Grows db' := by
    intro id r hr
    obtain ⟨r', hr', rfl | ⟨p, f, hupd, -, rfl⟩⟩ := Tx.job_after h hr
    · exact ⟨r', hr', rfl⟩
    · exact ⟨f r, hr', by cases hupd <;> rfl⟩
  refine ⟨hgrow, fun hnow hdata id r hr => ?_⟩
  cases hbefore : db.jobs.lookup id with
  | none =>
    obtain ⟨-, rfl, input, idempotency, rfl⟩ := Tx.job_new h hr hbefore
    exact ⟨hnow, by simp⟩
  | some r0 =>
    obtain ⟨r', hr', heq⟩ := hgrow id r0 hbefore
    rw [hr] at hr'
    cases hr'
    rw [(Prod.mk.inj heq).2]
    exact hdata id r0 hbefore

theorem foldl_grows (evs : List StoreEvent) (db : DB) : db.Grows (evs.foldl StoreEvent.apply db) ∧
    ((∀ e ∈ evs, e.Dated) → db.Dated → (evs.foldl StoreEvent.apply db).Dated) :=
  ⟨foldl_keeps_all evs (fun hx h => h.trans (Tx.grows hx).1) (.refl db),
    fun hevs hdata => foldl_keeps hevs (fun hnow hx h => (Tx.grows hx).2 hnow h) hdata⟩

end Grows

/-! ## A listing -/

/-- The store at each call: `events 0` is its history before the first, `events (i + 1)` is what happens between the calls `i` and
`i + 1`. -/
def storeAt (events : Nat → List StoreEvent) : Nat → DB
  | 0 => runStore (events 0)
  | i + 1 => (events (i + 1)).foldl StoreEvent.apply (storeAt events i)

namespace PageTokens

section Listing

variable (P : PageTokens) (projectID : String) (db : Nat → DB) (size : Nat → Int)

/-- The calls of a client that follows the tokens: the `i`-th, if it makes one. -/
def call : Nat → Option (Except Err JobPage)
  | 0 => some (P.listJobs (db 0) projectID (size 0) [])
  | i + 1 => match call i with
    | some (.ok page) => if page.nextPageToken = [] then none
      else some (P.listJobs (db (i + 1)) projectID (size (i + 1)) page.nextPageToken)
    | _ => none

def callJobs (i : Nat) : List Job := match call P projectID db size i with
  | some (.ok page) => page.jobs
  | _ => []

def listed (m : Nat) : List Job := (List.range m).flatMap (callJobs P projectID db size)

def token (c : Option JobKey) : List UInt8 := c.elim [] fun k => P.issue ⟨projectID, (ofLex k).1, (ofLex k).2⟩

def pageFrom (i : Nat) (c : Option JobKey) : JobPage where
  jobs := (db i).listJobs projectID (size i).toNat (c.map JobKey.cursor)
  nextPageToken :=
    if (size i).toNat < (Keyset.page ((db i).jobKeys projectID) c ((size i).toNat + 1)).length then
      P.token projectID (Keyset.page ((db i).jobKeys projectID) c (size i).toNat).getLast?
    else []

end Listing

section Calls

variable {P : PageTokens} {projectID : String} {db : Nat → DB} {size : Nat → Int} {i : Nat} {c : Option JobKey}

theorem listJobs_token (hsize : 1 ≤ size i ∧ size i ≤ 100)
    (hc : ∀ k ∈ c, 0 < (ofLex k).1 ∧ (ofLex k).2 ≠ "") :
    P.listJobs (db i) projectID (size i) (P.token projectID c) = .ok (P.pageFrom projectID db size i c) := by
  have hlength : ((db i).listJobs projectID ((size i).toNat + 1) (c.map JobKey.cursor)).length =
      (Keyset.page ((db i).jobKeys projectID) c ((size i).toNat + 1)).length := by
    rw [← listJobs_keys, List.length_map]
  have hcursor : P.position projectID (P.token projectID c) = .ok (c.map JobKey.cursor) := by
    cases c with
    | none => rfl
    | some k =>
      have hk := hc k rfl
      rw [position, token, Option.elim_some, if_neg (issue_ne_nil _), decodeJobCursor_issue, if_neg]
      · rfl
      rintro (h | h | h)
      · exact h rfl
      · exact absurd hk.1 (Int.not_lt.mpr h)
      · exact hk.2 h
  rw [listJobs, if_neg (by omega), hcursor]
  simp only [bind, Except.bind, hlength, listJobs_take, pageFrom]
  split
  · have hlast : (Keyset.page ((db i).jobKeys projectID) c (size i).toNat).getLast? =
        ((db i).listJobs projectID (size i).toNat (c.map JobKey.cursor)).getLast?.map Job.key := by
      rw [← listJobs_keys, List.getLast?_map]
    rw [hlast]
    cases ((db i).listJobs projectID (size i).toNat (c.map JobKey.cursor)).getLast? <;> rfl
  rename_i hall
  have hshort : ((db i).listJobs projectID ((size i).toNat + 1) (c.map JobKey.cursor)).take (size i).toNat =
      (db i).listJobs projectID (size i).toNat (c.map JobKey.cursor) := listJobs_take _ _
  rw [List.take_of_length_le (by rw [hlength]; omega)] at hshort
  rw [hshort]
  rfl

def keysAt (projectID : String) (db : Nat → DB) (i : Nat) : List JobKey := (db i).jobKeys projectID

def sizeAt (size : Nat → Int) (i : Nat) : Nat := (size i).toNat

theorem cursor_dated (hdata : ∀ i, (db i).Dated)
    (h : Keyset.cursor (keysAt projectID db) (sizeAt size) i = some c) : ∀ k ∈ c, 0 < (ofLex k).1 ∧ (ofLex k).2 ≠ "" := by
  cases i with
  | zero =>
    cases h
    intro k hk
    cases hk
  | succ i =>
    rw [Keyset.cursor, Option.bind_eq_some_iff] at h
    obtain ⟨c0, -, h⟩ := h
    split at h
    · cases h
      intro k hk
      exact (hdata i).jobKeys (Keyset.mem_page (List.mem_of_getLast? hk)).1
    · cases h

theorem sizeAt_pos (hsize : ∀ i, 1 ≤ size i ∧ size i ≤ 100) (i : Nat) : 0 < sizeAt size i := by
  have hi := hsize i
  rw [sizeAt]
  omega

theorem nextPageToken_pageFrom (hsize : ∀ i, 1 ≤ size i ∧ size i ≤ 100)
    (h : Keyset.cursor (keysAt projectID db) (sizeAt size) i = some c) :
    (Keyset.cursor (keysAt projectID db) (sizeAt size) (i + 1) = none ∧ (P.pageFrom projectID db size i c).nextPageToken = []) ∨
      ∃ k, Keyset.cursor (keysAt projectID db) (sizeAt size) (i + 1) = some (some k) ∧
        (P.pageFrom projectID db size i c).nextPageToken = P.token projectID (some k) := by
  have hnext := Keyset.cursor_succ (sizeAt_pos hsize) h
  rw [Keyset.cursor, h, Option.bind_some] at hnext ⊢
  by_cases hmore : sizeAt size i < (Keyset.page (keysAt projectID db i) c (sizeAt size i + 1)).length
  · rw [if_pos hmore] at hnext ⊢
    rcases hnext with ⟨hend, -⟩ | ⟨k, hk, -⟩
    · cases hend
    refine .inr ⟨k, hk, ?_⟩
    rw [← Option.some.inj hk]
    exact if_pos hmore
  rw [if_neg hmore]
  exact .inl ⟨rfl, if_neg hmore⟩

theorem call_eq (hsize : ∀ i, 1 ≤ size i ∧ size i ≤ 100) (hdata : ∀ i, (db i).Dated) (i : Nat) :
    call P projectID db size i =
      (Keyset.cursor (keysAt projectID db) (sizeAt size) i).map fun c => .ok (P.pageFrom projectID db size i c) := by
  induction i with
  | zero =>
    exact congrArg some (listJobs_token (hsize 0) (c := none) (by intro k hk; cases hk))
  | succ i ih =>
    rw [call, ih]
    cases hc : Keyset.cursor (keysAt projectID db) (sizeAt size) i with
    | none =>
      rw [Keyset.cursor, hc]
      rfl
    | some c =>
      simp only [Option.map_some]
      rcases nextPageToken_pageFrom (P := P) hsize hc with ⟨hend, htoken⟩ | ⟨k, hnext, htoken⟩
      · rw [hend, if_pos htoken]
        rfl
      rw [hnext, if_neg (by rw [htoken]; exact issue_ne_nil _), htoken,
        listJobs_token (hsize (i + 1)) (cursor_dated hdata hnext)]
      rfl

theorem listed_keys (hsize : ∀ i, 1 ≤ size i ∧ size i ≤ 100) (hdata : ∀ i, (db i).Dated) (m : Nat) :
    (listed P projectID db size m).map Job.key = Keyset.listed (keysAt projectID db) (sizeAt size) m := by
  rw [listed, Keyset.listed, List.map_flatMap]
  congr 1
  funext i
  rw [callJobs, call_eq hsize hdata, Keyset.pageAt]
  cases Keyset.cursor (keysAt projectID db) (sizeAt size) i with
  | none => rfl
  | some c => exact listJobs_keys _ _

end Calls

end PageTokens

theorem storeAt_grows {events : Nat → List StoreEvent} (hevents : ∀ i, ∀ e ∈ events i, e.Dated) (i : Nat) :
    (storeAt events i).Dated ∧ (storeAt events i).Grows (storeAt events (i + 1)) := by
  refine ⟨?_, (foldl_grows _ _).1⟩
  induction i with
  | zero => exact (foldl_grows (events 0) DB.empty).2 (hevents 0) fun id r hr => by cases hr
  | succ i ih => exact (foldl_grows (events (i + 1)) _).2 (hevents (i + 1)) ih

section Exact

variable {P : PageTokens} {projectID : String} {events : Nat → List StoreEvent} {size : Nat → Int}
variable (hevents : ∀ i, ∀ e ∈ events i, e.Dated)
include hevents

theorem keysAt_subset (i : Nat) :
    PageTokens.keysAt projectID (storeAt events) i ⊆ PageTokens.keysAt projectID (storeAt events) (i + 1) :=
  (storeAt_grows hevents i).2.jobKeys projectID

theorem keysAt_stable {i : Nat} (hstop : ∀ id r, (storeAt events (i + 1)).jobs.lookup id = some r → r.projectID = projectID →
      ((storeAt events i).jobs.lookup id).isSome = true) :
    PageTokens.keysAt projectID (storeAt events) (i + 1) ⊆ PageTokens.keysAt projectID (storeAt events) i := by
  intro k hk
  obtain ⟨r, hr, hproject, hcreate⟩ := mem_jobKeys.mp hk
  obtain ⟨r0, hr0⟩ := Option.isSome_iff_exists.mp (hstop _ r hr hproject)
  obtain ⟨r', hr', heq⟩ := (storeAt_grows hevents i).2 _ r0 hr0
  rw [hr] at hr'
  cases hr'
  rw [Prod.mk.injEq] at heq
  exact mem_jobKeys.mpr ⟨r0, hr0, heq.1.symm.trans hproject, heq.2.symm.trans hcreate⟩

variable (hsize : ∀ i, 1 ≤ size i ∧ size i ≤ 100)
include hsize

theorem storeAt_call (i : Nat) : P.call projectID (storeAt events) size i =
    (Keyset.cursor (PageTokens.keysAt projectID (storeAt events)) (PageTokens.sizeAt size) i).map fun c =>
      .ok (P.pageFrom projectID (storeAt events) size i c) :=
  PageTokens.call_eq hsize (fun i => (storeAt_grows hevents i).1) i

theorem storeAt_listed (m : Nat) : (P.listed projectID (storeAt events) size m).map Job.key =
    Keyset.listed (PageTokens.keysAt projectID (storeAt events)) (PageTokens.sizeAt size) m :=
  PageTokens.listed_keys hsize (fun i => (storeAt_grows hevents i).1) m

theorem listed_descending (m : Nat) :
    ((P.listed projectID (storeAt events) size m).map Job.key).Pairwise (· > ·) := by
  rw [storeAt_listed hevents hsize]
  exact Keyset.listed_pairwise (fun _ => jobKeys_nodup) (PageTokens.sizeAt_pos hsize) m

theorem listed_nodup (m : Nat) : ((P.listed projectID (storeAt events) size m).map Job.id).Nodup := by
  have hids : (P.listed projectID (storeAt events) size m).map Job.id =
      ((P.listed projectID (storeAt events) size m).map Job.key).map fun k => (ofLex k).2 := by
    rw [List.map_map]
    rfl
  rw [hids]
  refine List.Nodup.map_on (fun k hk k' hk' hid => ?_) ((listed_descending hevents hsize m).imp fun h => ne_of_gt h)
  rw [storeAt_listed hevents hsize] at hk hk'
  have hsub : Keyset.listed (PageTokens.keysAt projectID (storeAt events)) (PageTokens.sizeAt size) m ⊆
      PageTokens.keysAt projectID (storeAt events) m := Keyset.listed_subset (keysAt_subset hevents) m
  exact jobKeys_inj (hsub hk) (hsub hk') hid

theorem listed_all {m : Nat} (hend : P.call projectID (storeAt events) size m = none) {id : String} {r : JobRow}
    (hr : (storeAt events 0).jobs.lookup id = some r) (hproject : r.projectID = projectID) :
    id ∈ (P.listed projectID (storeAt events) size m).map Job.id := by
  rw [storeAt_call hevents hsize, Option.map_eq_none_iff] at hend
  have hkey : toLex (r.createdAt, id) ∈ (P.listed projectID (storeAt events) size m).map Job.key := by
    rw [storeAt_listed hevents hsize]
    exact Keyset.listed_complete (fun _ => jobKeys_nodup) (PageTokens.sizeAt_pos hsize) (keysAt_subset hevents) hend _
      (mem_jobKeys.mpr ⟨r, hr, hproject, rfl⟩)
  obtain ⟨j, hj, heq⟩ := List.mem_map.mp hkey
  exact List.mem_map.mpr ⟨j, hj, congrArg (fun k => (ofLex k).2) heq⟩

theorem nextPageToken_issued {i : Nat} {page : JobPage} (hcall : P.call projectID (storeAt events) size i = some (.ok page))
    (htoken : page.nextPageToken ≠ []) : ∃ cursor, cursor.projectID = projectID ∧ page.nextPageToken = P.issue cursor := by
  rw [storeAt_call hevents hsize, Option.map_eq_some_iff] at hcall
  obtain ⟨c, hc, heq⟩ := hcall
  cases heq
  rcases PageTokens.nextPageToken_pageFrom (P := P) hsize hc with ⟨-, hnone⟩ | ⟨k, -, hsome⟩
  · exact absurd hnone htoken
  · exact ⟨⟨projectID, (ofLex k).1, (ofLex k).2⟩, rfl, hsome⟩

end Exact

/-- A listing of a project's jobs, with any page sizes and anything that happens to the store before and between the calls:

* no call fails;
* it ends if from some call on no job of the project is inserted;
* when it has ended, each job that was stored at the first call has been returned once;
* the jobs are returned in descending order of creation time and id;
* what a call returns is stored then, for the project;
* a token that it returns is rejected for every other project. -/
theorem pages_exact (P : PageTokens) (projectID : String) (events : Nat → List StoreEvent)
    (hevents : ∀ i, ∀ e ∈ events i, e.Dated) (size : Nat → Int) (hsize : ∀ i, 1 ≤ size i ∧ size i ≤ 100) :
    (∀ i e, P.call projectID (storeAt events) size i ≠ some (.error e)) ∧
    ((∃ N, ∀ i, N ≤ i → ∀ id r, (storeAt events (i + 1)).jobs.lookup id = some r → r.projectID = projectID →
        ((storeAt events i).jobs.lookup id).isSome = true) →
      ∃ m, P.call projectID (storeAt events) size m = none) ∧
    (∀ m, P.call projectID (storeAt events) size m = none →
      ∀ id r, (storeAt events 0).jobs.lookup id = some r → r.projectID = projectID →
        ((P.listed projectID (storeAt events) size m).map Job.id).count id = 1) ∧
    (∀ m, (P.listed projectID (storeAt events) size m).Pairwise fun j j' =>
      j'.createdAt < j.createdAt ∨ (j'.createdAt = j.createdAt ∧ j'.id < j.id)) ∧
    (∀ i page, P.call projectID (storeAt events) size i = some (.ok page) →
      (∀ j ∈ page.jobs, ∃ r, (storeAt events i).jobs.lookup j.id = some r ∧ j = scanJob j.id r ∧ j.projectID = projectID) ∧
      (page.nextPageToken ≠ [] → ∀ db other pageSize, other ≠ projectID → 1 ≤ pageSize ∧ pageSize ≤ 100 →
        P.listJobs db other pageSize page.nextPageToken = .error .invalidPageToken)) := by
  refine ⟨fun i e hcall => ?_, fun ⟨N, hstop⟩ => ?_, fun m hend id r hr hproject => ?_, fun m => ?_, fun i page hcall => ⟨?_, ?_⟩⟩
  · rw [storeAt_call hevents hsize, Option.map_eq_some_iff] at hcall
    obtain ⟨c, -, heq⟩ := hcall
    cases heq
  · have hends : ∃ m, Keyset.cursor (PageTokens.keysAt projectID (storeAt events)) (PageTokens.sizeAt size) m = none :=
      Keyset.cursor_ends (fun _ => jobKeys_nodup) (PageTokens.sizeAt_pos hsize) fun i hi => keysAt_stable hevents (hstop i hi)
    obtain ⟨m, hm⟩ := hends
    exact ⟨m, by rw [storeAt_call hevents hsize, hm]; rfl⟩
  · exact List.count_eq_one_of_mem (listed_nodup hevents hsize m) (listed_all hevents hsize hend hr hproject)
  · refine (List.pairwise_map.mp (listed_descending hevents hsize m)).imp fun {j j'} h => ?_
    exact Prod.Lex.toLex_lt_toLex.mp h
  · intro j hj
    rw [storeAt_call hevents hsize, Option.map_eq_some_iff] at hcall
    obtain ⟨c, -, heq⟩ := hcall
    cases heq
    obtain ⟨r, hr, hscan, hproject⟩ := mem_listJobs hj
    exact ⟨r, hr, hscan, by rw [hscan]; exact hproject⟩
  · intro htoken db other pageSize hother hpageSize
    obtain ⟨cursor, hproject, heq⟩ := nextPageToken_issued hevents hsize hcall htoken
    rw [heq]
    exact PageTokens.listJobs_other hpageSize (by rw [hproject]; exact Ne.symm hother)

/-! ### Tokens in unary -/

/-- A cursor as strings: both ids, the sign of the creation time, and as many characters as its amount. -/
def PageCursor.texts (c : PageCursor) : List String :=
  [c.projectID, c.id, if c.createdAt < 0 then "-" else "", String.ofList (List.replicate c.createdAt.natAbs '1')]

def PageCursor.ofTexts : List String → Option PageCursor
  | [projectID, id, sign, amount] =>
    some ⟨projectID, if sign = "" then amount.toList.length else -amount.toList.length, id⟩
  | _ => none

theorem PageCursor.ofTexts_texts (c : PageCursor) : ofTexts c.texts = some c := by
  obtain ⟨projectID, createdAt, id⟩ := c
  simp only [texts, ofTexts, String.toList_ofList, List.length_replicate, Option.some.injEq, mk.injEq, true_and, and_true]
  grind

def PageCursor.codec : Text.Codec PageCursor (List UInt8) := Text.Codec.octets.via texts ofTexts ofTexts_texts

def unaryTokens : PageTokens where
  marshal := PageCursor.codec.marshal
  unmarshal := PageCursor.codec.unmarshal
  mac payload := List.replicate 31 0 ++ [payload.foldl (fun sum byte => sum + byte) 0]
  encode value := value
  decode value := some value
  unmarshal_marshal := PageCursor.codec.unmarshal_marshal
  marshal_ne_nil c := by
    simp [PageCursor.codec, Text.Codec.via, Text.Codec.octets, Text.Codec.letters, Text.Codec.spell,
      Text.Codec.digits, PageCursor.texts]
  mac_length payload := by simp
  decode_encode value := rfl
  encode_ne_nil value h := h

/-- Three jobs that were created at one time, and a later one that is created between the first two calls. -/
def pagedEvents : Nat → List StoreEvent
  | 0 => ["1", "2", "3"].map fun id => .call (.createPreparedJob ⟨"p", "img", none, "", none, 0, none, none⟩ ⟨id, "h"⟩) 1 id
  | 1 => [.call (.createPreparedJob ⟨"p", "img", none, "", none, 0, none, none⟩ ⟨"4", "h"⟩) 2 "4",
      .call (.requestJobCancellation "job1") 2 ""]
  | _ => []

def pagedSizes (i : Nat) : Int := i % 2 + 1

theorem pages_exact_ties :
    (unaryTokens.call "p" (storeAt pagedEvents) pagedSizes 2 = none ∧
      (unaryTokens.listed "p" (storeAt pagedEvents) pagedSizes 2).map (fun j => (j.id, j.createdAt, j.status)) =
        [("job3", 1, .preparing), ("job2", 1, .preparing), ("job1", 1, .cancelled)]) ∧
    ((unaryTokens.listed "p" (storeAt pagedEvents) pagedSizes 2).map Job.id).count "job2" = 1 ∧
    ∀ i e, unaryTokens.call "p" (storeAt pagedEvents) pagedSizes i ≠ some (.error e) := by
  have hend : unaryTokens.call "p" (storeAt pagedEvents) pagedSizes 2 = none := by decide +kernel
  have hevents : ∀ i, ∀ e ∈ pagedEvents i, e.Dated := by
    intro i e he
    match i with
    | 0 =>
      obtain ⟨id, -, rfl⟩ := List.mem_map.mp he
      exact Int.one_pos
    | 1 =>
      simp only [pagedEvents, List.mem_cons, List.not_mem_nil, or_false] at he
      rcases he with rfl | rfl <;> exact (by decide : (0 : Int) < 2)
    | i + 2 => cases he
  have hsize : ∀ i, 1 ≤ pagedSizes i ∧ pagedSizes i ≤ 100 := by
    intro i
    rw [pagedSizes]
    omega
  have hexact := pages_exact unaryTokens "p" pagedEvents hevents pagedSizes hsize
  exact ⟨⟨hend, by decide +kernel⟩, hexact.2.2.1 2 hend "job2" _ rfl rfl, hexact.1⟩

end Autback
