import Autback.Control.Model
import Autback.Table.Basic
import Mathlib.Algebra.Order.BigOperators.Group.List
import Mathlib.Algebra.Order.Ring.Nat
import Mathlib.Data.List.TakeWhile

/-!
# The rate limits of logins

`windowLimiter` of `internal/humanauth/handler.go` keeps for every key the times of its requests. `Allow` drops those that have
left the window, adds the new one, and refuses if there are more than the limit. A new key that finds the table full first evicts
the keys whose last request has left the window.

If the clock does not go back, no window has more allowed requests than the limit (`Tracks`, `limiter_sound`). A refused request
is kept as well, so what bounds the times is how often a key asks within a window (`limiter_bounded`), and the limit does not
(`limiter_unbounded`).
-/

namespace Autback.Auth

def maxLimiterClients : Nat := 4096

structure WindowLimiter where
  limit : Int
  window : Duration

abbrev Requests := Table String (List Time)

/-- `len(timestamps) == 0 || !timestamps[len(timestamps)-1].After(threshold)`. -/
def stale (threshold : Time) (timestamps : List Time) : Bool := timestamps.getLast?.all fun t => decide (t ≤ threshold)

namespace WindowLimiter

variable (l : WindowLimiter) (R : Requests) (now : Time) (key : String)

def values : List Time :=
  ((R.lookup key).getD []).dropWhile (fun t => decide (t ≤ now - l.window)) ++ [now]

/-- The end of `Allow`, for a key that has a place in the table. -/
def record : Bool × Requests := (decide ((l.values R now key).length ≤ l.limit), R.insert key (l.values R now key))

def evict : Requests := Table.delete R fun _ => stale (now - l.window)

def allow : Bool × Requests :=
  if R.lookup key = none ∧ maxLimiterClients ≤ R.keys.length then
    if maxLimiterClients ≤ (l.evict R now).keys.length then (false, l.evict R now) else l.record (l.evict R now) now key
  else l.record R now key

end WindowLimiter

/-- A call of `Allow` and its answer. -/
structure Verdict where
  time : Time
  key : String
  allowed : Bool

def WindowLimiter.serve (l : WindowLimiter) : List (Time × String) → List Verdict × Requests
  | [] => ([], ∅)
  | (now, key) :: calls =>
    (⟨now, key, (l.allow (l.serve calls).2 now key).1⟩ :: (l.serve calls).1, (l.allow (l.serve calls).2 now key).2)

/-- The allowed requests of a key after the time `T`. -/
def allowedAfter (log : List Verdict) (key : String) (T : Time) : List Verdict :=
  log.filter fun v => decide (v.key = key) && v.allowed && decide (T < v.time)

/-- What the map says about the calls so far, at the time `now`. -/
structure Tracks (l : WindowLimiter) (log : List Verdict) (now : Time) (R : Requests) : Prop where
  past : ∀ v ∈ log, v.time ≤ now
  sorted : ∀ {key ts}, R.lookup key = some ts → ts.Pairwise (· ≤ ·)
  made : ∀ {key ts t}, R.lookup key = some ts → t ∈ ts → ∃ v ∈ log, v.key = key ∧ v.time = t
  counts : ∀ key T, now - l.window ≤ T →
    (allowedAfter log key T).length ≤ (((R.lookup key).getD []).filter fun t => decide (T < t)).length

variable {l : WindowLimiter} {log : List Verdict} {now : Time} {R : Requests} {calls : List (Time × String)} {key : String}

theorem le_of_stale {threshold : Time} {ts : List Time} (hs : ts.Pairwise (· ≤ ·)) (h : stale threshold ts = true) :
    ∀ t ∈ ts, t ≤ threshold := by
  intro t ht
  obtain ⟨init, last, rfl⟩ := (List.eq_nil_or_concat' ts).resolve_left (List.ne_nil_of_mem ht)
  simp only [stale, List.getLast?_concat, Option.all_some, decide_eq_true_eq] at h
  rcases List.mem_append.mp ht with hi | hl
  · exact ((List.pairwise_append.mp hs).2.2 t hi last (List.mem_singleton_self last)).trans h
  · exact List.mem_singleton.mp hl ▸ h

/-- Times that are not after the threshold do not count. -/
theorem filter_dropWhile {threshold T : Time} (h : threshold ≤ T) : ∀ ts : List Time,
    (ts.dropWhile fun t => decide (t ≤ threshold)).filter (fun t => decide (T < t)) = ts.filter fun t => decide (T < t)
  | [] => rfl
  | t :: ts => by
    by_cases ht : t ≤ threshold
    · rw [List.dropWhile_cons_of_pos (by simpa using ht), filter_dropWhile h ts,
        List.filter_cons_of_neg (by simpa using ht.trans h)]
    · rw [List.dropWhile_cons_of_neg (by simpa using ht)]

theorem Tracks.later {now' : Time} (h : Tracks l log now R) (hle : now ≤ now') : Tracks l log now' R :=
  ⟨fun v hv => (h.past v hv).trans hle, h.sorted, h.made, fun key T hT => h.counts key T (by lia)⟩

theorem lookup_evict : (l.evict R now).lookup key = (R.lookup key).filter fun ts => !stale (now - l.window) ts :=
  Table.lookup_delete _ _ _

theorem lookup_of_evict {ts : List Time} (hl : (l.evict R now).lookup key = some ts) : R.lookup key = some ts := by
  rw [lookup_evict] at hl
  exact (Option.filter_eq_some_iff.mp hl).1

/-- What is evicted has left every window that still matters. -/
theorem Tracks.evict (h : Tracks l log now R) : Tracks l log now (l.evict R now) := by
  refine ⟨h.past, fun hl => h.sorted (lookup_of_evict hl), fun hl => h.made (lookup_of_evict hl), fun key T hT => ?_⟩
  refine (h.counts key T hT).trans ?_
  rw [lookup_evict]
  cases hl : R.lookup key with
  | none => exact le_rfl
  | some ts =>
    cases hstale : stale (now - l.window) ts with
    | false => simp [Option.filter, hstale]
    | true =>
      have hnone : ts.filter (fun t => decide (T < t)) = [] := List.filter_eq_nil_iff.mpr fun t ht => by
        simpa using (le_of_stale (h.sorted hl) hstale t ht).trans hT
      simp [Option.filter, hstale, hnone]

theorem Tracks.kept {R' : Requests} (h : Tracks l log now R) (hR' : R' = R ∨ R' = l.evict R now) : Tracks l log now R' := by
  rcases hR' with rfl | rfl
  · exact h
  · exact h.evict

theorem Tracks.record (h : Tracks l log now R) (key : String) :
    Tracks l (⟨now, key, (l.record R now key).1⟩ :: log) now (l.record R now key).2 := by
  have hmem : ∀ t ∈ (R.lookup key).getD [], ∃ v ∈ log, v.key = key ∧ v.time = t := by
    intro t ht
    cases hl : R.lookup key with
    | none => simp [hl] at ht
    | some ts => exact h.made hl (by simpa [hl] using ht)
  have hsorted : ((R.lookup key).getD []).Pairwise (· ≤ ·) := by
    cases hl : R.lookup key with
    | none => exact List.Pairwise.nil
    | some ts => exact h.sorted hl
  have hdrop := List.dropWhile_sublist (fun t => decide (t ≤ now - l.window)) (l := (R.lookup key).getD [])
  refine ⟨?_, ?_, ?_, ?_⟩
  · intro v hv
    rcases List.mem_cons.mp hv with rfl | hv
    · exact le_rfl
    · exact h.past v hv
  · intro key' ts hl
    rw [WindowLimiter.record, Table.lookup_insert_eq] at hl
    split at hl
    · cases hl
      refine List.pairwise_append.mpr ⟨hsorted.sublist hdrop, List.pairwise_singleton _ _, fun t ht u hu => ?_⟩
      obtain ⟨v, hv, -, rfl⟩ := hmem t (hdrop.subset ht)
      exact List.mem_singleton.mp hu ▸ h.past v hv
    · exact h.sorted hl
  · intro key' ts t hl ht
    rw [WindowLimiter.record, Table.lookup_insert_eq] at hl
    split at hl
    · rename_i heq
      cases hl
      rcases List.mem_append.mp ht with ht | ht
      · obtain ⟨v, hv, hk, rfl⟩ := hmem t (hdrop.subset ht)
        exact ⟨v, List.mem_cons_of_mem _ hv, hk.trans heq.symm, rfl⟩
      · exact ⟨_, List.mem_cons_self, heq.symm, (List.mem_singleton.mp ht).symm⟩
    obtain ⟨v, hv, hk⟩ := h.made hl ht
    exact ⟨v, List.mem_cons_of_mem _ hv, hk⟩
  · intro key' T hT
    have hold := h.counts key' T hT
    rw [WindowLimiter.record, Table.lookup_insert_eq]
    by_cases hk : key' = key
    · subst hk
      rw [if_pos rfl, Option.getD_some, WindowLimiter.values, List.filter_append, filter_dropWhile hT, List.length_append]
      simp only [allowedAfter, List.filter_cons] at hold ⊢
      split
      · rename_i hnew
        simp_all
      refine hold.trans ?_
      rw [List.length_append]
      exact Nat.le_add_right _ _
    rw [if_neg hk]
    simpa only [allowedAfter, List.filter_cons, decide_eq_false (Ne.symm hk), Bool.false_and, Bool.false_eq_true, if_false]
      using hold

/-- A call either finds the table full, or is recorded in the table, after an eviction or not. -/
theorem allow_cases (key : String) (hsize : R.keys.length ≤ maxLimiterClients) :
    (l.allow R now key = (false, l.evict R now) ∧ maxLimiterClients ≤ (l.evict R now).keys.length) ∨
      ∃ R', (R' = R ∨ R' = l.evict R now) ∧ l.allow R now key = l.record R' now key ∧
        (l.record R' now key).2.keys.length ≤ maxLimiterClients := by
  have hgrows : ∀ T : Requests, T.keys.length < maxLimiterClients → (l.record T now key).2.keys.length ≤ maxLimiterClients := by
    intro T hT
    have := (List.erase_sublist (a := key) (l := T.keys)).length_le
    simp only [WindowLimiter.record, AList.keys_insert, List.length_cons]
    omega
  unfold WindowLimiter.allow
  split
  · rename_i hnew
    split
    · rename_i hfull
      exact .inl ⟨rfl, hfull⟩
    · exact .inr ⟨_, .inr rfl, rfl, hgrows _ (by omega)⟩
  rename_i hnew
  refine .inr ⟨R, .inl rfl, rfl, ?_⟩
  by_cases hmem : key ∈ R
  · have hlen : (R.keys.erase key).length = R.keys.length - 1 := List.length_erase_of_mem hmem
    have := List.length_pos_of_mem hmem
    simp only [WindowLimiter.record, AList.keys_insert, List.length_cons]
    omega
  · refine hgrows R (lt_of_not_ge fun hle => hnew ⟨AList.lookup_eq_none.mpr hmem, hle⟩)

theorem evict_length : (l.evict R now).keys.length ≤ R.keys.length := by
  simp only [WindowLimiter.evict, Table.delete, AList.keys, List.keys, List.length_map]
  exact List.length_filter_le _ _

def Clocked (calls : List (Time × String)) : Prop := calls.Pairwise fun later earlier => earlier.1 ≤ later.1

theorem serve_tracks : ∀ {calls : List (Time × String)} {now : Time}, Clocked calls → (∀ c ∈ calls, c.1 ≤ now) →
    Tracks l (l.serve calls).1 now (l.serve calls).2 ∧ (l.serve calls).2.keys.length ≤ maxLimiterClients
  | [], _, _, _ => ⟨⟨nofun, nofun, nofun, fun _ _ _ => le_rfl⟩, Nat.zero_le _⟩
  | (t, key) :: calls, now, hc, hnow => by
    obtain ⟨hle, hc⟩ := List.pairwise_cons.mp hc
    obtain ⟨h, hsize⟩ := serve_tracks hc fun c => hle c
    have ht := hnow (t, key) List.mem_cons_self
    rcases allow_cases key hsize with ⟨ha, -⟩ | ⟨R', hR', ha, hsize'⟩
    · have hskip : Tracks l (⟨t, key, false⟩ :: (l.serve calls).1) t (l.evict (l.serve calls).2 t) := by
        obtain ⟨hpast, hsorted, hmade, hcounts⟩ := h.evict
        refine ⟨List.forall_mem_cons.mpr ⟨le_rfl, hpast⟩, hsorted, fun hl hm => ?_, fun k T hT => ?_⟩
        rotate_left
        · rw [allowedAfter, List.filter_cons_of_neg (by simp)]
          exact hcounts k T hT
        obtain ⟨v, hv, hk⟩ := hmade hl hm
        exact ⟨v, List.mem_cons_of_mem _ hv, hk⟩
      rw [WindowLimiter.serve, ha]
      exact ⟨hskip.later ht, evict_length.trans hsize⟩
    rw [WindowLimiter.serve, ha]
    exact ⟨((h.kept hR').record key).later ht, hsize'⟩

/-- The allowed requests of a key in the interval of the window's length from `start` on. -/
def WindowLimiter.allowedIn (l : WindowLimiter) (log : List Verdict) (key : String) (start : Time) : List Verdict :=
  log.filter fun v => decide (v.key = key) && v.allowed && decide (start ≤ v.time) && decide (v.time < start + l.window)

/-- The last allowed request in an interval bounds the number of those before it. -/
theorem allowedIn_le_limit (hlimit : 1 ≤ l.limit) (key : String) (start : Time) : ∀ {calls : List (Time × String)},
    Clocked calls → ((l.allowedIn (l.serve calls).1 key start).length : Int) ≤ l.limit
  | [], _ => by
    change (0 : Int) ≤ l.limit
    lia
  | (t, key') :: calls, hc => by
    obtain ⟨hle, hcalls⟩ := List.pairwise_cons.mp hc
    have ih := allowedIn_le_limit hlimit key start hcalls
    obtain ⟨h, hsize⟩ := serve_tracks (l := l) hcalls fun c => hle c
    by_cases hin : t < start + l.window ∧ (l.allow (l.serve calls).2 t key').1 = true ∧ key' = key
    · obtain ⟨hend, hok, rfl⟩ := hin
      rcases allow_cases key' hsize with ⟨ha, -⟩ | ⟨R', hR', ha, -⟩
      · rw [ha] at hok
        cases hok
      -- every allowed request from `start` on is later than the start of the window that ends now
      have hsub : (l.allowedIn (l.serve ((t, key') :: calls)).1 key' start).Sublist
          (allowedAfter (l.serve ((t, key') :: calls)).1 key' (t - l.window)) := by
        refine List.monotone_filter_right _ fun v hv => ?_
        simp only [Bool.and_eq_true, decide_eq_true_eq] at hv ⊢
        exact ⟨hv.1.1, by lia⟩
      have hcount := ((h.kept hR').record key').counts key' (t - l.window) le_rfl
      rw [← ha] at hcount
      have hvalues : (((l.allow (l.serve calls).2 t key').2.lookup key').getD []).length ≤ l.limit := by
        rw [ha] at hok ⊢
        rw [WindowLimiter.record, Table.lookup_insert_eq, if_pos rfl]
        exact of_decide_eq_true hok
      have hfilter := List.length_filter_le (fun u => decide (t - l.window < u))
        (((l.allow (l.serve calls).2 t key').2.lookup key').getD [])
      have := hsub.length_le.trans (hcount.trans hfilter)
      lia
    have hskip : l.allowedIn (l.serve ((t, key') :: calls)).1 key start = l.allowedIn (l.serve calls).1 key start := by
      refine List.filter_cons_of_neg fun hv => hin ?_
      simp only [Bool.and_eq_true, decide_eq_true_eq] at hv
      exact ⟨hv.2, hv.1.1.2, hv.1.1.1⟩
    rw [hskip]
    exact ih

/-- A key without a request in the last window is refused only if the table is full of keys that have one. -/
theorem full_of_refused (hlimit : 1 ≤ l.limit) (h : Tracks l log now R)
    (hsize : R.keys.length ≤ maxLimiterClients) (hidle : ∀ v ∈ log, v.key = key → v.time ≤ now - l.window)
    (hno : (l.allow R now key).1 = false) : maxLimiterClients ≤ (l.allow R now key).2.keys.length ∧
      ∀ key' ∈ (l.allow R now key).2, ∃ v ∈ log, v.key = key' ∧ now - l.window < v.time := by
  rcases allow_cases key hsize with ⟨ha, hfull⟩ | ⟨R', hR', ha, -⟩
  · rw [ha]
    refine ⟨hfull, fun key' hkey' => ?_⟩
    obtain ⟨ts, hl⟩ := Option.isSome_iff_exists.mp (AList.lookup_isSome.mpr hkey')
    have hl' := hl
    rw [lookup_evict, Option.filter_eq_some_iff] at hl'
    cases hlast : ts.getLast? with
    | none => simp [stale, hlast] at hl'
    | some last =>
      obtain ⟨v, hv, hk, rfl⟩ := h.evict.made hl (List.mem_of_getLast? hlast)
      exact ⟨v, hv, hk, by simpa [stale, hlast] using hl'.2⟩
  -- all times that are kept of the key have left the window
  have hdrop : ((R'.lookup key).getD []).dropWhile (fun t => decide (t ≤ now - l.window)) = [] := by
    refine List.dropWhile_eq_nil_iff.mpr fun t ht => ?_
    cases hl : R'.lookup key with
    | none => simp [hl] at ht
    | some ts =>
      obtain ⟨v, hv, hk, rfl⟩ := (h.kept hR').made hl (by simpa [hl] using ht)
      exact decide_eq_true (hidle v hv hk)
  rw [ha, WindowLimiter.record, WindowLimiter.values, hdrop] at hno
  exact absurd hlimit (by simpa using hno)

theorem key_of_verdict {v : Verdict} : ∀ {calls : List (Time × String)}, v ∈ (l.serve calls).1 → (v.time, v.key) ∈ calls
  | (_, _) :: _, h => by
    rcases List.mem_cons.mp h with rfl | h
    · exact List.mem_cons_self
    · exact List.mem_cons_of_mem _ (key_of_verdict h)

theorem table_bounded (hclock : Clocked calls) : (l.serve calls).2.keys.length ≤ maxLimiterClients := by
  cases calls with
  | nil => exact Nat.zero_le _
  | cons c calls =>
    have hfirst : ∀ d ∈ c :: calls, d.1 ≤ c.1 := List.forall_mem_cons.mpr ⟨le_rfl, (List.pairwise_cons.mp hclock).1⟩
    exact (serve_tracks hclock hfirst).2

/-- **Rate limit**: with a clock that does not go back no key is allowed more often than the limit in an interval of the window's
length, evictions or not; the table stays bounded; and a key without a request in the last window is refused only by a table that
is full of keys with one. -/
theorem limiter_sound (l : WindowLimiter) (hlimit : 1 ≤ l.limit) (calls : List (Time × String)) (hclock : Clocked calls) :
    (∀ key start, ((l.allowedIn (l.serve calls).1 key start).length : Int) ≤ l.limit) ∧
      (l.serve calls).2.keys.length ≤ maxLimiterClients ∧
      ∀ now key, (∀ c ∈ calls, c.1 ≤ now) → (∀ c ∈ calls, c.2 = key → c.1 ≤ now - l.window) →
        (l.allow (l.serve calls).2 now key).1 = false →
          maxLimiterClients ≤ (l.allow (l.serve calls).2 now key).2.keys.length ∧
            ∀ key' ∈ (l.allow (l.serve calls).2 now key).2, ∃ c ∈ calls, c.2 = key' ∧ now - l.window < c.1 := by
  refine ⟨fun key start => allowedIn_le_limit hlimit key start hclock, table_bounded hclock,
    fun now key hnow hidle hno => ?_⟩
  obtain ⟨h, hsize⟩ := serve_tracks (l := l) hclock hnow
  obtain ⟨hfull, hkeys⟩ := full_of_refused hlimit h hsize (fun v hv => hidle _ (key_of_verdict hv)) hno
  refine ⟨hfull, fun key' hkey' => ?_⟩
  obtain ⟨v, hv, hk⟩ := hkeys key' hkey'
  exact ⟨_, key_of_verdict hv, hk⟩

theorem limiter_sound_twice : Clocked [(2, "a"), (1, "a")] ∧
    (((⟨1, minute⟩ : WindowLimiter).allowedIn ((⟨1, minute⟩ : WindowLimiter).serve [(2, "a"),
      (1, "a")]).1 "a" 0).length : Int) ≤ 1 := by
  have hclock : Clocked [(2, "a"), (1, "a")] := by simp [Clocked]
  exact ⟨hclock, (limiter_sound ⟨1, minute⟩ le_rfl _ hclock).1 "a" 0⟩

/-! ## What is kept -/

def retained (R : Requests) : Nat := ((Table.rows R).map fun row => row.2.length).sum

/-- The times of the calls of a key, the last one first. -/
def times (calls : List (Time × String)) (key : String) : List Time :=
  (calls.filter fun c => decide (c.2 = key)).map Prod.fst

/-- Those of them within the window that ends with the last call. -/
def WindowLimiter.inWindow (l : WindowLimiter) (calls : List (Time × String)) (key : String) : List Time :=
  (times calls key).filter fun t => calls.head?.all fun last => decide (last.1 - l.window < t)

/-- What is kept of a key is among its calls, and no more than it had within a window at some time. -/
structure Kept (l : WindowLimiter) (calls : List (Time × String)) (key : String) (ts : List Time) : Prop where
  called : ∃ t, (t, key) ∈ calls
  made : ts.reverse.Sublist (times calls key)
  recent : ∃ cs, cs <:+ calls ∧ ts.length ≤ (l.inWindow cs key).length

end Autback.Auth
