import Autback.Console.Store
import Mathlib.Algebra.BigOperators.Group.List.Basic
import Mathlib.Algebra.Order.Ring.Rat
import Mathlib.Data.List.Dedup

/-!
# Samples and rollups

`CompactResourceSamples` turns old samples into rollups, one for each minute and scope, and merges them into the rollups that are
there. A minute may be compacted in several parts. What a rollup becomes is said once, for one part (`absorb`); the parts of a
minute add up (`absorb_absorb`) except in the three columns that a merge overwrites. Two schedules of the same samples end in the
same rollups, up to these columns (`rollups_schedule`, `rollups_overwritten`).
-/

namespace Autback

namespace Console

/-! ## Peaks and groups -/

section Peaks

variable {α β : Type} [LinearOrder α] [OfNat α 0]

theorem foldl_max_eq {a : α} (ha : 0 ≤ a) (values : List α) : values.foldl max a = max a (peak values) := by
  induction values using List.reverseRecOn with
  | nil => exact (max_eq_left ha).symm
  | append_singleton values v ih =>
    rw [peak, List.foldl_append, List.foldl_append, ih]
    exact max_assoc _ _ _

theorem zero_le_peak (values : List α) : 0 ≤ peak values := by
  rw [peak, foldl_max_eq (le_refl _)]
  exact le_max_left _ _

theorem peak_append (values values' : List α) : peak (values ++ values') = max (peak values) (peak values') := by
  rw [peak, List.foldl_append]
  exact foldl_max_eq (zero_le_peak values) _

theorem peak_perm {values values' : List α} (h : values.Perm values') : peak values = peak values' :=
  h.foldl_eq' (fun _ _ _ _ _ => max_right_comm _ _ _) _

theorem peak_cons {v : α} (hv : 0 ≤ v) (values : List α) : peak (v :: values) = max v (peak values) := by
  rw [peak, List.foldl_cons, max_eq_right hv, foldl_max_eq hv]

theorem peak_flatMap (parts : List β) (f : β → List α) : peak (parts.flatMap f) = peak (parts.map fun b => peak (f b)) := by
  induction parts with
  | nil => rfl
  | cons b parts ih => rw [List.flatMap_cons, peak_append, List.map_cons, peak_cons (zero_le_peak _), ih]

theorem peak_const {values : List α} {v : α} (hne : values ≠ []) (h : ∀ w ∈ values, w = v) : peak values = max 0 v := by
  induction values using List.reverseRecOn with
  | nil => exact absurd rfl hne
  | append_singleton values w ih =>
    have hw : w = v := h w (by simp)
    rw [peak_append, hw]
    by_cases hnil : values = []
    · rw [hnil]
      exact max_eq_right (le_max_left _ _)
    rw [ih hnil fun u hu => h u (by simp [hu])]
    exact max_self _

end Peaks

theorem perm_groups {α κ : Type} [DecidableEq κ] (f : α → κ) {keys : List κ} (hnodup : keys.Nodup) (l : List α)
    (h : ∀ a ∈ l, f a ∈ keys) : (keys.flatMap fun k => l.filter fun a => f a = k).Perm l := by
  induction keys generalizing l with
  | nil =>
    cases l with
    | nil => exact .refl _
    | cons a l => exact absurd (h a (by simp)) (by simp)
  | cons k keys ih =>
    rw [List.nodup_cons] at hnodup
    have hrest : (keys.flatMap fun k' => l.filter fun a => f a = k') =
        keys.flatMap fun k' => (l.filter fun a => ¬ f a = k).filter fun a => f a = k' := by
      refine List.flatMap_congr fun k' hk' => ?_
      rw [List.filter_filter]
      refine List.filter_congr fun a _ => ?_
      by_cases ha : f a = k'
      · have hne : k' ≠ k := fun heq => hnodup.1 (heq ▸ hk')
        simp [ha, hne]
      · simp [ha]
    rw [List.flatMap_cons, hrest]
    refine ((ih hnodup.2 _ ?_).append_left _).trans ?_
    · intro a ha
      simp only [List.mem_filter, decide_eq_true_eq] at ha
      exact (List.mem_cons.mp (h a ha.1)).resolve_left ha.2
    have hsplit := List.filter_append_perm (fun a => decide (f a = k)) l
    simpa using hsplit

/-! ## What a group of samples does to a rollup -/

section Rows

variable {ν : Type}

def RollupRow.peaks (r : RollupRow ν) : Nat × ν × ν × Nat := (r.sampleCount, r.cpuPeak, r.memoryPeak, r.memoryBytesPeak)

def RollupRow.sums (r : RollupRow ν) : ν × ν := (r.cpuSum, r.memorySum)

def RollupRow.levels (r : RollupRow ν) : Nat × Nat × Int := (r.diskUsageBytes, r.diskTotalBytes, r.cpuCores)

def ResourceSample.levels (sample : ResourceSample ν) : Nat × Nat × Int :=
  (sample.diskUsageBytes, sample.diskTotalBytes, sample.cpuCores)

def Level (samples : List (ResourceSample ν)) : Prop := ∀ s ∈ samples, ∀ s' ∈ samples, s.levels = s'.levels

theorem Level.subset {samples samples' : List (ResourceSample ν)} (h : Level samples') (hsub : samples ⊆ samples') :
    Level samples :=
  fun s hs s' hs' => h s (hsub hs) s' (hsub hs')

structure Agree (exact level : Prop) (r r' : Option (RollupRow ν)) : Prop where
  peaks : r.map RollupRow.peaks = r'.map RollupRow.peaks
  sums : exact → r.map RollupRow.sums = r'.map RollupRow.sums
  levels : level → r.map RollupRow.levels = r'.map RollupRow.levels

section Agreement

variable {exact level : Prop} {r r' r'' : Option (RollupRow ν)}

theorem Agree.refl (r : Option (RollupRow ν)) : Agree exact level r r := ⟨rfl, fun _ => rfl, fun _ => rfl⟩

theorem Agree.symm (h : Agree exact level r r') : Agree exact level r' r :=
  ⟨h.peaks.symm, fun he => (h.sums he).symm, fun hl => (h.levels hl).symm⟩

theorem Agree.trans (h : Agree exact level r r') (h' : Agree exact level r' r'') : Agree exact level r r'' :=
  ⟨h.peaks.trans h'.peaks, fun he => (h.sums he).trans (h'.sums he), fun hl => (h.levels hl).trans (h'.levels hl)⟩

theorem Agree.mono {level' : Prop} (h : Agree exact level r r') (hl : level' → level) : Agree exact level' r r' :=
  ⟨h.peaks, h.sums, fun h' => h.levels (hl h')⟩

theorem Agree.eq (h : Agree exact level r r') (he : exact) (hl : level) : r = r' := by
  have hpeak := h.peaks
  have hsums := h.sums he
  have hlev := h.levels hl
  cases r with
  | none =>
    cases r' with
    | none => rfl
    | some r' => cases hpeak
  | some r =>
    cases r' with
    | none => cases hpeak
    | some r' =>
      obtain ⟨⟩ := r
      obtain ⟨⟩ := r'
      simp only [Option.map_some, Option.some.injEq, RollupRow.peaks, RollupRow.sums, RollupRow.levels, Prod.mk.injEq] at *
      simp [hpeak, hsums, hlev]

theorem Agree.peaks_sums (h : Agree exact level r r') (he : exact) :
    r.map (fun r => (r.peaks, r.sums)) = r'.map fun r => (r.peaks, r.sums) := by
  have hpeak := h.peaks
  have hsums := h.sums he
  cases r <;> cases r' <;> simp_all

end Agreement

variable [LinearOrder ν] [AddCommMonoid ν]

def Engine.Exact (E : Engine ν) : Prop := ∀ values, E.sum values = values.sum

def RollupRow.into : Option (RollupRow ν) → RollupRow ν → RollupRow ν
  | none, x => x
  | some r, x => r.merge x

def absorb (E : Engine ν) (r : Option (RollupRow ν)) : List (ResourceSample ν) → Option (RollupRow ν)
  | [] => r
  | s :: group => some (RollupRow.into r (rollupOf E (s :: group)))

variable {E : Engine ν} {exact level : Prop} {r r' : Option (RollupRow ν)} {group' : List (ResourceSample ν)}

theorem into_agree {x y : RollupRow ν} (h : Agree exact level r r') (hx : Agree exact level (some x) (some y)) :
    Agree exact level (some (.into r x)) (some (.into r' y)) := by
  cases r with
  | none =>
    cases r' with
    | none => exact hx
    | some r' => cases h.peaks
  | some r =>
    cases r' with
    | none => cases h.peaks
    | some r' =>
      have hpeak := h.peaks
      have hxpe := hx.peaks
      simp only [Option.map_some, Option.some.injEq, RollupRow.peaks, Prod.mk.injEq] at hpeak hxpe
      refine ⟨?_, fun he => ?_, fun hl => hx.levels hl⟩
      · simp [RollupRow.into, RollupRow.peaks, RollupRow.merge, hpeak, hxpe]
      have hsums := h.sums he
      have hxsum := hx.sums he
      simp only [Option.map_some, Option.some.injEq, RollupRow.sums, Prod.mk.injEq] at hsums hxsum
      simp [RollupRow.into, RollupRow.sums, RollupRow.merge, hsums, hxsum]

theorem into_into (r : Option (RollupRow ν)) (x y : RollupRow ν) : RollupRow.into (some (.into r x)) y = .into r (x.merge y) := by
  cases r with
  | none => rfl
  | some r => simp [RollupRow.into, RollupRow.merge, add_assoc, max_assoc]

omit [LinearOrder ν] [AddCommMonoid ν] in
theorem peak_of_level {α : Type} [LinearOrder α] [OfNat α 0] {group : List (ResourceSample ν)} (hl : Level group')
    (hsub : group ⊆ group') (hne : group ≠ []) {f : ResourceSample ν → α} (hf : ∀ s s', s.levels = s'.levels → f s = f s') :
    peak (group.map f) = peak (group'.map f) := by
  obtain ⟨s, hs⟩ := List.exists_mem_of_ne_nil _ hne
  have hcons : ∀ g ⊆ group', ∀ v ∈ g.map f, v = f s := by
    intro g hg v hv
    obtain ⟨s', hs', rfl⟩ := List.mem_map.mp hv
    exact hf _ _ (hl s' (hg hs') s (hsub hs))
  have hne' : group' ≠ [] := List.ne_nil_of_mem (hsub hs)
  rw [peak_const (by simpa using hne) (hcons group hsub), peak_const (by simpa using hne') (hcons group' (List.Subset.refl _))]

theorem rollupOf_append (group : List (ResourceSample ν)) (hne : group' ≠ []) :
    Agree E.Exact (Level (group ++ group')) (some ((rollupOf E group).merge (rollupOf E group')))
      (some (rollupOf E (group ++ group'))) := by
  refine ⟨?_, fun he => ?_, fun hl => ?_⟩
  · simp [RollupRow.peaks, RollupRow.merge, rollupOf, peak_append]
  · simp [RollupRow.sums, RollupRow.merge, rollupOf, he _]
  have hlast : group' ⊆ group ++ group' := List.subset_append_right _ _
  have hlev : ∀ s s' : ResourceSample ν, s.levels = s'.levels →
      s.diskUsageBytes = s'.diskUsageBytes ∧ s.diskTotalBytes = s'.diskTotalBytes ∧ s.cpuCores = s'.cpuCores := by
    intro s s' h
    simpa [ResourceSample.levels] using h
  simp only [Option.map_some, RollupRow.levels, RollupRow.merge, rollupOf]
  rw [peak_of_level hl hlast hne fun s s' h => (hlev s s' h).1,
    peak_of_level hl hlast hne fun s s' h => (hlev s s' h).2.1,
    peak_of_level hl hlast hne fun s s' h => (hlev s s' h).2.2]

theorem absorb_absorb (E : Engine ν) (r : Option (RollupRow ν)) (group group' : List (ResourceSample ν)) :
    Agree E.Exact (Level (group ++ group')) (absorb E (absorb E r group) group') (absorb E r (group ++ group')) := by
  cases group with
  | nil => exact .refl _
  | cons s group =>
    cases group' with
    | nil =>
      rw [List.append_nil]
      exact .refl _
    | cons s' group' =>
      have happ := rollupOf_append (E := E) (s :: group) (List.cons_ne_nil s' group')
      have hinto := into_agree (Agree.refl r) happ
      rw [← into_into] at hinto
      exact hinto

theorem absorb_perm {group : List (ResourceSample ν)} (h : group.Perm group') :
    Agree E.Exact level (absorb E r group) (absorb E r group') := by
  cases group with
  | nil =>
    rw [h.nil_eq]
    exact .refl _
  | cons s group =>
    cases group' with
    | nil => exact absurd h.symm.nil_eq (by simp)
    | cons s' group' =>
      have hpeak : ∀ {α : Type} [LinearOrder α] [OfNat α 0] (f : ResourceSample ν → α),
          peak ((s :: group).map f) = peak ((s' :: group').map f) := fun f => peak_perm (h.map f)
      refine into_agree (.refl r) ⟨?_, fun he => ?_, fun _ => ?_⟩
      · simp only [Option.map_some, RollupRow.peaks, rollupOf, h.length_eq, hpeak]
      · simp only [Option.map_some, RollupRow.sums, rollupOf, he _, (h.map _).sum_eq]
      · simp only [Option.map_some, RollupRow.levels, rollupOf, hpeak]

end Rows

/-! ## Compaction -/

section Compaction

theorem upsert_lookup {κ ρ : Type} [DecidableEq κ] (merge : ρ → ρ → ρ) (T : Table κ ρ) (k k' : κ) (row : ρ) :
    (upsert merge T k row).lookup k' =
      if k' = k then some (((T.lookup k).map fun old => merge old row).getD row) else T.lookup k' := by
  rw [upsert]
  cases T.lookup k <;> exact Table.lookup_insert_eq _ _ _ _

variable {ν : Type} [LinearOrder ν] [AddCommMonoid ν]

theorem into_eq (r : Option (RollupRow ν)) (x : RollupRow ν) : (r.map fun old => old.merge x).getD x = .into r x := by
  cases r <;> rfl

theorem foldl_upsert_lookup {keys : List RollupKey} (hnodup : keys.Nodup) (row : RollupKey → RollupRow ν)
    (T : Table RollupKey (RollupRow ν)) (k : RollupKey) :
    (keys.foldl (fun T k => upsert RollupRow.merge T k (row k)) T).lookup k =
      if k ∈ keys then some (.into (T.lookup k) (row k)) else T.lookup k := by
  induction keys generalizing T with
  | nil => simp
  | cons k' keys ih =>
    rw [List.nodup_cons] at hnodup
    rw [List.foldl_cons, ih hnodup.2, upsert_lookup, into_eq]
    by_cases hk : k = k'
    · subst hk
      simp [hnodup.1]
    · simp [hk]

namespace DB

variable (E : Engine ν) (db : DB ν)

def oldSamples (rawBefore : Time) : List (ResourceSample ν) :=
  db.samples.filter fun sample => decide (sample.observedAt < rawBefore)

def mergedRollups (rawBefore : Time) : Table RollupKey (RollupRow ν) :=
  ((db.oldSamples rawBefore).map ResourceSample.rollup).dedup.foldl (fun rollups k =>
    upsert RollupRow.merge rollups k (rollupOf E ((db.oldSamples rawBefore).filter fun sample => sample.rollup = k))) db.rollups

theorem mergedRollups_lookup (rawBefore : Time) (k : RollupKey) :
    (db.mergedRollups E rawBefore).lookup k =
      absorb E (db.rollups.lookup k) ((db.oldSamples rawBefore).filter fun sample => sample.rollup = k) := by
  rw [mergedRollups, foldl_upsert_lookup (List.nodup_dedup _)]
  cases hgro : (db.oldSamples rawBefore).filter fun sample => sample.rollup = k with
  | nil =>
    rw [if_neg]
    · rfl
    intro hmem
    obtain ⟨s, hs, hk⟩ := List.mem_map.mp (List.mem_dedup.mp hmem)
    exact absurd (List.filter_eq_nil_iff.mp hgro s hs) (by simpa using hk)
  | cons s group =>
    have hmem : s ∈ (db.oldSamples rawBefore).filter fun sample => sample.rollup = k := by simp [hgro]
    obtain ⟨hs, hk⟩ := List.mem_filter.mp hmem
    rw [if_pos (List.mem_dedup.mpr (List.mem_map.mpr ⟨s, hs, by simpa using hk⟩))]
    rfl

variable {E db} {rawBefore rollupBefore : Time} {db' : DB ν}

theorem compact_ok (h : db.compactResourceSamples E rawBefore rollupBefore = .ok db') :
    db'.summaries = db.summaries ∧ (db'.samples ++ db.oldSamples rawBefore).Perm db.samples ∧
      ∀ k, db'.rollups.lookup k = ((db.mergedRollups E rawBefore).lookup k).filter fun _ => !decide
        (k.bucketAt < rollupBefore) := by
  rw [compactResourceSamples] at h
  split at h
  · cases h
  cases h
  refine ⟨rfl, ?_, fun k => Table.lookup_delete _ _ _⟩
  have hsplit := List.filter_append_perm (fun s : ResourceSample ν => decide (s.observedAt < rawBefore)) db.samples
  exact List.perm_append_comm.trans hsplit

theorem append_ok [Ratio ν] {sample : ResourceSample ν} (h : db.appendResourceSample sample = .ok db') :
    db'.samples = db.samples ++ [sample] ∧ db'.rollups = db.rollups ∧
      db'.summaries = if sample.operationID ≠ "" then
        upsert SummaryRow.merge db.summaries (sample.operationKind, sample.operationID) sample.summary else db.summaries := by
  rw [appendResourceSample] at h
  split at h
  · cases h
  cases h
  exact ⟨rfl, rfl, rfl⟩

end DB

end Compaction

/-! ## Schedules -/

section Schedules

/-- A call of `AppendResourceSample` or of `CompactResourceSamples`. -/
inductive ResourceEvent (ν : Type)
  | append (sample : ResourceSample ν)
  | compact (rawBefore rollupBefore : Time)

variable {ν : Type} [LinearOrder ν] [AddCommMonoid ν] [Ratio ν]

def ResourceEvent.call (E : Engine ν) (db : DB ν) : ResourceEvent ν → Except Err (DB ν)
  | append sample => db.appendResourceSample sample
  | compact rawBefore rollupBefore => db.compactResourceSamples E rawBefore rollupBefore

def DB.after (E : Engine ν) (db : DB ν) (e : ResourceEvent ν) : DB ν := (e.call E db).toOption.getD db

def DB.afterAll (E : Engine ν) (db : DB ν) (events : List (ResourceEvent ν)) : DB ν := events.foldl (DB.after E) db

def ResourceEvent.accepted : ResourceEvent ν → List (ResourceSample ν)
  | append sample => if (validateResourceSample sample).toBool then [sample] else []
  | compact _ _ => []

def accepted (events : List (ResourceEvent ν)) : List (ResourceSample ν) := events.flatMap ResourceEvent.accepted

def ResourceEvent.expired (E : Engine ν) (db : DB ν) : ResourceEvent ν → List RollupKey
  | append _ => []
  | compact rawBefore rollupBefore =>
    if (db.compactResourceSamples E rawBefore rollupBefore).toBool then
      (db.mergedRollups E rawBefore).keys.filter fun k => k.bucketAt < rollupBefore
    else []

def unexpired (E : Engine ν) (P : RollupKey → Bool) : DB ν → List (ResourceEvent ν) → Bool
  | _, [] => true
  | db, e :: events => (e.expired E db).all (fun k => !P k) && unexpired E P (db.after E e) events

variable {E : Engine ν} {db : DB ν}

theorem after_ok {e : ResourceEvent ν} {db' : DB ν} (h : e.call E db = .ok db') : db.after E e = db' := by
  rw [DB.after, h]
  rfl

theorem after_error {e : ResourceEvent ν} {err : Err} (h : e.call E db = .error err) : db.after E e = db := by
  rw [DB.after, h]
  rfl

theorem appendResourceSample_accepted {sample : ResourceSample ν} {db' : DB ν} (h : db.appendResourceSample sample = .ok db') :
    (ResourceEvent.append sample).accepted = [sample] := by
  rw [DB.appendResourceSample] at h
  split at h
  · cases h
  rename_i hvalue
  rw [ResourceEvent.accepted, hvalue]
  rfl

theorem appendResourceSample_refused {sample : ResourceSample ν} {err : Err} (h : db.appendResourceSample sample = .error err) :
    (ResourceEvent.append sample).accepted = [] := by
  rw [DB.appendResourceSample] at h
  split at h
  · rename_i hvalue
    rw [ResourceEvent.accepted, hvalue]
    rfl
  · cases h

/-- What one call does to samples and rollups: it takes `compacted` from the samples and adds it to the rollups. -/
theorem after_rollups {P : RollupKey → Bool} (e : ResourceEvent ν) (hkept : ∀ k ∈ e.expired E db, P k = false) :
    ∃ compacted, (db.samples ++ e.accepted).Perm ((db.after E e).samples ++ compacted) ∧
      ∀ k, P k = true → (db.after E e).rollups.lookup k =
        absorb E (db.rollups.lookup k) (compacted.filter fun s => s.rollup = k) := by
  have hsame : e.accepted = [] → db.after E e = db → ∃ compacted,
      (db.samples ++ e.accepted).Perm ((db.after E e).samples ++ compacted) ∧ ∀ k, P k = true →
        (db.after E e).rollups.lookup k = absorb E (db.rollups.lookup k) (compacted.filter fun s => s.rollup = k) := by
    intro hacc hafter
    rw [hacc, hafter]
    exact ⟨[], .refl _, fun k _ => rfl⟩
  cases hcall : e.call E db with
  | error err =>
    cases e with
    | append sample => exact hsame (appendResourceSample_refused hcall) (after_error hcall)
    | compact rawBefore rollupBefore => exact hsame rfl (after_error hcall)
  | ok db' =>
    rw [after_ok hcall]
    cases e with
    | append sample =>
      obtain ⟨hsample, hrollup, -⟩ := DB.append_ok hcall
      rw [appendResourceSample_accepted hcall, hsample, hrollup]
      exact ⟨[], by simp, fun k _ => rfl⟩
    | compact rawBefore rollupBefore =>
      obtain ⟨-, hsample, hrollup⟩ := DB.compact_ok hcall
      refine ⟨db.oldSamples rawBefore, ?_, fun k hk => ?_⟩
      · simpa [ResourceEvent.accepted] using hsample.symm
      rw [← DB.mergedRollups_lookup, hrollup]
      have hcomp : db.compactResourceSamples E rawBefore rollupBefore = .ok db' := hcall
      cases hmerg : (db.mergedRollups E rawBefore).lookup k with
      | none => rfl
      | some r =>
        -- the rollup is there, and it does not expire
        have hkey : k ∈ (db.mergedRollups E rawBefore).keys := AList.mem_keys.mpr (AList.lookup_isSome.mp (by simp [hmerg]))
        have hbuck : ¬ k.bucketAt < rollupBefore := by
          intro hlt
          have hexpiry := hkept k (by simpa [ResourceEvent.expired, hcomp, Except.toBool, hlt] using hkey)
          rw [hk] at hexpiry
          cases hexpiry
        simp [hbuck]

theorem afterAll_rollups {P : RollupKey → Bool} {events : List (ResourceEvent ν)} (hkept : unexpired E P db events = true) :
    ∃ compacted, (db.samples ++ accepted events).Perm ((db.afterAll E events).samples ++ compacted) ∧
      ∀ k, P k = true → Agree E.Exact (Level ((db.samples ++ accepted events).filter fun s => s.rollup = k))
        ((db.afterAll E events).rollups.lookup k)
        (absorb E (db.rollups.lookup k) (compacted.filter fun s => s.rollup = k)) := by
  induction events generalizing db with
  | nil => exact ⟨[], by simp [accepted, DB.afterAll], fun k _ => .refl _⟩
  | cons e events ih =>
    rw [unexpired, Bool.and_eq_true, List.all_eq_true] at hkept
    obtain ⟨first, hfirst, hrollup⟩ := after_rollups e fun k hk => by simpa using hkept.1 k hk
    obtain ⟨rest, hrest, hagree⟩ := ih hkept.2
    have hall : (db.samples ++ accepted (e :: events)).Perm (first ++ ((db.after E e).samples ++ accepted events)) := by
      have hsplit : accepted (e :: events) = e.accepted ++ accepted events := rfl
      rw [hsplit, ← List.append_assoc, ← List.append_assoc]
      exact (hfirst.trans List.perm_append_comm).append_right _
    refine ⟨first ++ rest, ?_, fun k hk => ?_⟩
    · refine hall.trans ((hrest.append_left first).trans ?_)
      rw [← List.append_assoc, ← List.append_assoc]
      exact List.perm_append_comm.append_right rest
    have hafter := hagree k hk
    rw [hrollup k hk] at hafter
    have hjoin := absorb_absorb E (db.rollups.lookup k) (first.filter fun s => s.rollup = k)
      (rest.filter fun s => s.rollup = k)
    rw [← List.filter_append] at hjoin
    -- the samples of both parts are among all samples
    have hsub : ∀ {part : List (ResourceSample ν)}, part ⊆ first ++ ((db.after E e).samples ++ accepted events) →
        (part.filter fun s => s.rollup = k) ⊆ (db.samples ++ accepted (e :: events)).filter fun s => s.rollup = k :=
      fun hpart => List.filter_subset _ fun s hs => hall.symm.subset (hpart hs)
    refine (hafter.mono fun hl => hl.subset (hsub (List.subset_append_right _ _))).trans
      (hjoin.mono fun hl => hl.subset (hsub ?_))
    refine List.append_subset.mpr ⟨List.subset_append_left _ _, fun s hs => List.mem_append_right _ ?_⟩
    exact hrest.symm.subset (List.mem_append_right _ hs)

end Schedules

/-! ## Rollups of two schedules -/

section Compared

variable {ν : Type} [LinearOrder ν] [AddCommMonoid ν] [Ratio ν]

/-- **Rollups and schedules.** Two schedules that add the same samples to a store, in any order, compact them in any parts, let no
rollup expire and end with all samples compacted, with exact sums: their rollups are the same in the counts, the peaks and the
sums, and as a whole if the samples of each minute and scope have the same levels. -/
theorem rollups_schedule (E : Engine ν) (hE : E.Exact) (db : DB ν) (events events' : List (ResourceEvent ν))
    (hsame : (accepted events).Perm (accepted events'))
    (hkept : unexpired E (fun _ => true) db events = true) (hkept' : unexpired E (fun _ => true) db events' = true)
    (hend : (db.afterAll E events).samples = []) (hend' : (db.afterAll E events').samples = []) (k : RollupKey) :
    ((db.afterAll E events).rollups.lookup k).map (fun r => (r.peaks, r.sums)) =
        ((db.afterAll E events').rollups.lookup k).map (fun r => (r.peaks, r.sums)) ∧
      (Level ((db.samples ++ accepted events).filter fun s => s.rollup = k) →
        (db.afterAll E events).rollups.lookup k = (db.afterAll E events').rollups.lookup k) := by
  obtain ⟨compacted, hperm, hagree⟩ := afterAll_rollups hkept
  obtain ⟨compacted', hperm', hagree'⟩ := afterAll_rollups hkept'
  rw [hend, List.nil_append] at hperm
  rw [hend', List.nil_append] at hperm'
  have hsamples : (db.samples ++ accepted events).Perm (db.samples ++ accepted events') := hsame.append_left _
  have hcompacted : compacted.Perm compacted' := hperm.symm.trans (hsamples.trans hperm')
  have hlevel : Level ((db.samples ++ accepted events).filter fun s => s.rollup = k) →
      Level ((db.samples ++ accepted events').filter fun s => s.rollup = k) :=
    fun hl => hl.subset (List.filter_subset _ hsamples.symm.subset)
  have hboth := ((hagree k rfl).trans (absorb_perm (hcompacted.filter _))).trans ((hagree' k rfl).mono hlevel).symm
  exact ⟨hboth.peaks_sums hE, hboth.eq hE⟩

end Compared

/-! Two samples of the host, taken in one minute. -/

def rationals : Engine ℚ where
  toEngine := Access.lastFirst
  sum := List.sum

instance : Ratio ℚ := ⟨fun v => decide (0 ≤ v) && decide (v ≤ 1)⟩

def hostSample (seconds : Int) (cpu : ℚ) (disk : Nat) : ResourceSample ℚ where
  projectID := ""
  operationKind := ""
  operationID := ""
  observedAt := seconds * second
  cpuUtilization := cpu
  cpuCores := 4
  memoryUtilization := 1 / 2
  memoryUsageBytes := 5
  memoryTotalBytes := 10
  diskUsageBytes := disk
  diskTotalBytes := 100
  diskInodesUsed := 0
  diskInodesTotal := 0
  cpuPressure := 0
  memoryPressure := 0
  memoryFullPressure := 0
  ioPressure := 0
  ioFullPressure := 0
  memoryHighEvents := 0
  oomEvents := 0
  oomKills := 0
  pidsCurrent := 0
  pidsLimit := 0

def noSamples : DB ℚ := ⟨⟨Access.DB.empty, ∅, DB.empty⟩, [], ∅, ∅, Journal.empty⟩

def together (disk disk' : Nat) : List (ResourceEvent ℚ) :=
  [.append (hostSample 70 (1 / 4) disk), .append (hostSample 80 (1 / 2) disk'), .compact (90 * second) second]

def apart (disk disk' : Nat) : List (ResourceEvent ℚ) :=
  [.append (hostSample 70 (1 / 4) disk), .compact (75 * second) second, .append (hostSample 80 (1 / 2) disk'),
    .compact (90 * second) second]

def hostMinute : RollupKey := { projectID := "", operationKind := "", operationID := "", bucketAt := 60 * second }

theorem accepted_together {disk disk' : Nat} (h : (validateResourceSample (hostSample 70 (1 / 4) disk)).toBool = true)
    (h' : (validateResourceSample (hostSample 80 (1 / 2) disk')).toBool = true) :
    accepted (together disk disk') = [hostSample 70 (1 / 4) disk, hostSample 80 (1 / 2) disk'] ∧
      accepted (apart disk disk') = [hostSample 70 (1 / 4) disk, hostSample 80 (1 / 2) disk'] := by
  constructor
  · rw [accepted, together, List.flatMap_cons, List.flatMap_cons, ResourceEvent.accepted, ResourceEvent.accepted, h, h']
    rfl
  rw [accepted, apart, List.flatMap_cons, List.flatMap_cons, List.flatMap_cons, ResourceEvent.accepted, ResourceEvent.accepted,
    ResourceEvent.accepted, h, h']
  rfl

theorem rollups_schedule_apart :
    (noSamples.afterAll rationals (together 7 7)).rollups.lookup hostMinute =
      (noSamples.afterAll rationals (apart 7 7)).rollups.lookup hostMinute := by
  have hsamples : accepted (together 7 7) = [hostSample 70 (1 / 4) 7, hostSample 80 (1 / 2) 7] ∧
      accepted (apart 7 7) = [hostSample 70 (1 / 4) 7, hostSample 80 (1 / 2) 7] :=
    accepted_together (by decide +kernel) (by decide +kernel)
  obtain ⟨htogether, hapart⟩ := hsamples
  refine (rollups_schedule rationals (fun _ => rfl) noSamples (together 7 7) (apart 7 7) (.of_eq (htogether.trans hapart.symm))
    (by decide +kernel) (by decide +kernel) (List.isEmpty_iff.mp (by decide +kernel)) (List.isEmpty_iff.mp (by decide +kernel))
    hostMinute).2 ?_
  rw [htogether]
  intro s hs s' hs'
  simp only [noSamples, List.nil_append, List.mem_filter, List.mem_cons, List.not_mem_nil, or_false] at hs hs'
  rcases hs.1 with rfl | rfl <;> rcases hs'.1 with rfl | rfl <;> rfl

/-- The disk is fuller at the first sample than at the second: compacted apart, the rollup has the usage of the second. -/
theorem rollups_overwritten :
    (accepted (together 9 7)).Perm (accepted (apart 9 7)) ∧
    (unexpired rationals (fun _ => true) noSamples (together 9 7) = true ∧
      (noSamples.afterAll rationals (together 9 7)).samples = [] ∧
      ((noSamples.afterAll rationals (together 9 7)).rollups.lookup hostMinute).map (·.diskUsageBytes) = some 9) ∧
    unexpired rationals (fun _ => true) noSamples (apart 9 7) = true ∧
    (noSamples.afterAll rationals (apart 9 7)).samples = [] ∧
    ((noSamples.afterAll rationals (apart 9 7)).rollups.lookup hostMinute).map (·.diskUsageBytes) = some 7 := by
  have hsamples : accepted (together 9 7) = [hostSample 70 (1 / 4) 9, hostSample 80 (1 / 2) 7] ∧
      accepted (apart 9 7) = [hostSample 70 (1 / 4) 9, hostSample 80 (1 / 2) 7] :=
    accepted_together (by decide +kernel) (by decide +kernel)
  obtain ⟨htogether, hapart⟩ := hsamples
  exact ⟨.of_eq (htogether.trans hapart.symm),
    ⟨by decide +kernel, List.isEmpty_iff.mp (by decide +kernel), by decide +kernel⟩,
    by decide +kernel, List.isEmpty_iff.mp (by decide +kernel), by decide +kernel⟩

end Console

end Autback
