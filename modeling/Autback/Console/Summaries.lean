import Autback.Console.Rollups

/-!
# The summary of an operation

`AppendResourceSample` keeps a summary of each operation beside its samples, and `CompactResourceSamples` moves samples into
rollups. As long as no rollup of an operation expires, its summary counts its samples and the samples in its rollups, and has
their peaks (`summary_agrees`): both sides are compared with the samples that were accepted (`summarize`, `afterAll_rollups`).
-/

namespace Autback

namespace Console

section Summaries

variable {ν : Type} [LinearOrder ν] [AddCommMonoid ν]

def ResourceScope.isOf (scope : ResourceScope) (kind id : String) : Bool := scope.operationKind == kind && scope.operationID == id

def summarize (r : Option (SummaryRow ν)) (samples : List (ResourceSample ν)) : Option (SummaryRow ν) :=
  samples.foldl (fun r s => some ((r.map fun old => old.merge s.summary).getD s.summary)) r

def peaksOf (samples : List (ResourceSample ν)) : Nat × ν × ν × Nat :=
  (samples.length, peak (samples.map (·.cpuUtilization)), peak (samples.map (·.memoryUtilization)),
    peak (samples.map (·.memoryUsageBytes)))

variable {samples : List (ResourceSample ν)} {s : ResourceSample ν}

theorem peaksOf_perm {samples' : List (ResourceSample ν)} (h : samples.Perm samples') : peaksOf samples = peaksOf samples' := by
  rw [peaksOf, h.length_eq, peak_perm (h.map _), peak_perm (h.map (·.memoryUtilization)), peak_perm (h.map (·.memoryUsageBytes))]
  rfl

def SummaryRow.peaks (r : SummaryRow ν) : Nat × ν × ν × Nat := (r.sampleCount, r.cpuPeak, r.memoryPeak, r.memoryBytesPeak)

def ResourceSample.Nonneg (s : ResourceSample ν) : Prop := 0 ≤ s.cpuUtilization ∧ 0 ≤ s.memoryUtilization

theorem summary_peaks (hs : s.Nonneg) : s.summary.peaks = peaksOf [s] := by
  have hpeak : ∀ {α : Type} [LinearOrder α] [OfNat α 0] {v : α}, 0 ≤ v → peak [v] = v := fun hv => max_eq_right hv
  simp [SummaryRow.peaks, peaksOf, ResourceSample.summary, hpeak hs.1, hpeak hs.2, hpeak (Nat.zero_le _)]

theorem merge_peaks {r : SummaryRow ν} (h : r.peaks = peaksOf samples) (hs : s.Nonneg) :
    (r.merge s.summary).peaks = peaksOf (samples ++ [s]) := by
  have hsummary := summary_peaks hs
  simp only [SummaryRow.peaks, peaksOf, Prod.mk.injEq] at h hsummary
  simp [SummaryRow.peaks, SummaryRow.merge, peaksOf, peak_append, h, hsummary]

theorem summarize_eq (hne : samples ≠ []) (hnonn : ∀ s ∈ samples, s.Nonneg) :
    ∃ r, summarize none samples = some r ∧ r.peaks = peaksOf samples := by
  induction samples using List.reverseRecOn with
  | nil => exact absurd rfl hne
  | append_singleton samples s ih =>
    have hs : s.Nonneg := hnonn s (by simp)
    rw [summarize, List.foldl_append]
    by_cases hnil : samples = []
    · subst hnil
      exact ⟨s.summary, rfl, summary_peaks hs⟩
    obtain ⟨r, hr, hpeak⟩ := ih hnil fun s' hs' => hnonn s' (by simp [hs'])
    rw [summarize] at hr
    rw [hr]
    exact ⟨r.merge s.summary, rfl, merge_peaks hpeak hs⟩

variable [Ratio ν] {E : Engine ν}

theorem after_summary (db : DB ν) (e : ResourceEvent ν) {kind id : String} (hid : id ≠ "") :
    (db.after E e).summaries.lookup (kind, id) =
      summarize (db.summaries.lookup (kind, id)) (e.accepted.filter fun s => s.isOf kind id) := by
  cases hcall : e.call E db with
  | error err =>
    have hacc : e.accepted = [] := by
      cases e with
      | append sample => exact appendResourceSample_refused hcall
      | compact rawBefore rollupBefore => rfl
    rw [after_error hcall, hacc]
    rfl
  | ok db' =>
    rw [after_ok hcall]
    cases e with
    | compact rawBefore rollupBefore =>
      rw [(DB.compact_ok hcall).1]
      rfl
    | append sample =>
      rw [(DB.append_ok hcall).2.2, appendResourceSample_accepted hcall]
      by_cases hof : sample.isOf kind id = true
      · have hfilter : [sample].filter (fun s => s.isOf kind id) = [sample] := by simp [hof]
        obtain ⟨rfl, rfl⟩ : sample.operationKind = kind ∧ sample.operationID = id := by simpa [ResourceScope.isOf] using hof
        rw [if_pos hid, upsert_lookup, if_pos rfl, hfilter]
        rfl
      have hfilter : [sample].filter (fun s => s.isOf kind id) = [] := by simp [hof]
      have hkey : (kind, id) ≠ (sample.operationKind, sample.operationID) := by
        rintro ⟨⟩
        exact hof (by simp [ResourceScope.isOf])
      rw [hfilter]
      split
      · rw [upsert_lookup, if_neg hkey]
        rfl
      · rfl

theorem afterAll_summary (db : DB ν) (events : List (ResourceEvent ν)) {kind id : String} (hid : id ≠ "") :
    (db.afterAll E events).summaries.lookup (kind, id) =
      summarize (db.summaries.lookup (kind, id)) ((accepted events).filter fun s => s.isOf kind id) := by
  induction events generalizing db with
  | nil => rfl
  | cons e events ih =>
    have hsplit : accepted (e :: events) = e.accepted ++ accepted events := rfl
    rw [DB.afterAll, List.foldl_cons, ← DB.afterAll, ih, after_summary db e hid, hsplit, List.filter_append]
    exact (List.foldl_append ..).symm

omit [LinearOrder ν] [AddCommMonoid ν] in
theorem accepted_valid {events : List (ResourceEvent ν)} (hs : s ∈ accepted events) :
    Ratio.valid s.cpuUtilization = true ∧ Ratio.valid s.memoryUtilization = true := by
  obtain ⟨e, -, he⟩ := List.mem_flatMap.mp hs
  cases e with
  | compact rawBefore rollupBefore => cases he
  | append sample =>
    rw [ResourceEvent.accepted] at he
    split at he
    · rename_i hvalue
      obtain rfl := List.mem_singleton.mp he
      rw [validateResourceSample] at hvalue
      split at hvalue
      · cases hvalue
      split at hvalue
      · cases hvalue
      rename_i hrat
      simp only [Bool.or_eq_true, Bool.not_eq_true', not_or, Bool.not_eq_false] at hrat
      exact ⟨hrat.1.1.1.1.1.1, hrat.1.1.1.1.1.2⟩
    · cases he

end Summaries

/-! ## Rollups of an operation -/

section Detail

variable {ν : Type}

def DB.rawOf (db : DB ν) (kind id : String) : List (ResourceSample ν) := db.samples.filter fun s => s.isOf kind id

def DB.rollupsOf (db : DB ν) (kind id : String) : List (RollupKey × RollupRow ν) :=
  (Table.rows db.rollups).filter fun row => row.1.isOf kind id

variable [LinearOrder ν] [AddCommMonoid ν]

structure Rolled (samples : List (ResourceSample ν)) (rollups : List (RollupKey × RollupRow ν)) : Prop where
  nodup : (rollups.map Prod.fst).Nodup
  keys : ∀ k, k ∈ rollups.map Prod.fst ↔ ∃ s ∈ samples, s.rollup = k
  peaks : ∀ row ∈ rollups, row.2.peaks = peaksOf (samples.filter fun s => s.rollup = row.1)

structure SummaryRow.Agrees (r : SummaryRow ν) (raw : List (ResourceSample ν)) (rollups : List (RollupRow ν)) : Prop where
  count : r.sampleCount = raw.length + (rollups.map (·.sampleCount)).sum
  cpu : r.cpuPeak = peak (raw.map (·.cpuUtilization) ++ rollups.map (·.cpuPeak))
  memory : r.memoryPeak = peak (raw.map (·.memoryUtilization) ++ rollups.map (·.memoryPeak))
  memoryBytes : r.memoryBytesPeak = peak (raw.map (·.memoryUsageBytes) ++ rollups.map (·.memoryBytesPeak))

namespace Rolled

variable {samples : List (ResourceSample ν)} {rollups : List (RollupKey × RollupRow ν)}

theorem perm (h : Rolled samples rollups) :
    (rollups.flatMap fun row => samples.filter fun s => s.rollup = row.1).Perm samples := by
  have hgro := perm_groups ResourceSample.rollup h.nodup samples fun s hs => (h.keys _).mpr ⟨s, hs, rfl⟩
  rwa [List.flatMap_map] at hgro

theorem length_eq (h : Rolled samples rollups) : samples.length = ((rollups.map Prod.snd).map (·.sampleCount)).sum := by
  rw [← h.perm.length_eq, List.length_flatMap, List.map_map]
  refine congrArg List.sum (List.map_congr_left fun row hrow => ?_)
  exact (congrArg Prod.fst (h.peaks row hrow)).symm

theorem peak_eq {α : Type} [LinearOrder α] [OfNat α 0] (h : Rolled samples rollups) {f : ResourceSample ν → α}
    {g : RollupRow ν → α}
    (hg : ∀ (r : RollupRow ν) (group : List (ResourceSample ν)), r.peaks = peaksOf group → g r = peak (group.map f)) :
    peak (samples.map f) = peak ((rollups.map Prod.snd).map g) := by
  rw [← peak_perm (h.perm.map f), List.map_flatMap, peak_flatMap, List.map_map]
  refine congrArg peak (List.map_congr_left fun row hrow => ?_)
  exact (hg row.2 _ (h.peaks row hrow)).symm

theorem agrees (h : Rolled samples rollups) {r : SummaryRow ν} {raw : List (ResourceSample ν)}
    (hr : r.peaks = peaksOf (raw ++ samples)) : r.Agrees raw (rollups.map Prod.snd) := by
  simp only [SummaryRow.peaks, peaksOf, Prod.mk.injEq, List.map_append, List.length_append, peak_append] at hr
  obtain ⟨hcounts, hcpu, hmem, hbytes⟩ := hr
  constructor
  · rw [hcounts, h.length_eq]
  · rw [hcpu, peak_append, h.peak_eq fun r group hrow => congrArg (fun x => x.2.1) hrow]
    rfl
  · rw [hmem, peak_append, h.peak_eq fun r group hrow => congrArg (fun x => x.2.2.1) hrow]
    rfl
  · rw [hbytes, peak_append, h.peak_eq fun r group hrow => congrArg (fun x => x.2.2.2) hrow]
    rfl

end Rolled

omit [LinearOrder ν] [AddCommMonoid ν] in
theorem rollup_isOf (s : ResourceSample ν) (kind id : String) : s.rollup.isOf kind id = s.isOf kind id := rfl

variable {kind id : String}

theorem rolled_of_lookup (E : Engine ν) {db : DB ν} {compacted : List (ResourceSample ν)}
    (h : ∀ k : RollupKey, k.isOf kind id = true → (db.rollups.lookup k).map RollupRow.peaks =
      (absorb E none (compacted.filter fun s => s.rollup = k)).map RollupRow.peaks) :
    Rolled (compacted.filter fun s => s.isOf kind id) (db.rollupsOf kind id) := by
  have hgro : ∀ k : RollupKey, k.isOf kind id = true →
      (compacted.filter fun s => s.isOf kind id).filter (fun s => s.rollup = k) = compacted.filter fun s => s.rollup = k := by
    intro k hk
    rw [List.filter_filter]
    refine List.filter_congr fun s _ => ?_
    by_cases hs : s.rollup = k
    · simp [hs, ← rollup_isOf, hk]
    · simp [hs]
  refine ⟨(Table.rows_nodup _).sublist (List.filter_sublist.map _), fun k => ⟨?_, ?_⟩, ?_⟩
  · intro hk
    obtain ⟨⟨k, r⟩, hrow, rfl⟩ := List.mem_map.mp hk
    obtain ⟨hmem, hof⟩ := List.mem_filter.mp hrow
    have hlook := h k hof
    rw [Table.mem_rows.mp hmem, ← hgro k hof] at hlook
    cases hcons : (compacted.filter fun s => s.isOf kind id).filter fun s => s.rollup = k with
    | nil =>
      rw [hcons] at hlook
      cases hlook
    | cons s group =>
      obtain ⟨hs, hrollup⟩ := List.mem_filter.mp (hcons ▸ List.mem_cons_self)
      exact ⟨s, hs, by simpa using hrollup⟩
  · rintro ⟨s, hs, rfl⟩
    obtain ⟨hmem, hof⟩ := List.mem_filter.mp hs
    have hne : (compacted.filter fun s' => s'.rollup = s.rollup) ≠ [] := List.ne_nil_of_mem (List.mem_filter.mpr ⟨hmem, by simp⟩)
    obtain ⟨s', group, hcons⟩ := List.exists_cons_of_ne_nil hne
    have hlook := h s.rollup hof
    rw [hcons] at hlook
    obtain ⟨r, hr, -⟩ := Option.map_eq_some_iff.mp hlook
    exact List.mem_map.mpr ⟨(s.rollup, r), List.mem_filter.mpr ⟨Table.mem_rows.mpr hr, hof⟩, rfl⟩
  rintro ⟨k, r⟩ hrow
  obtain ⟨hmem, hof⟩ := List.mem_filter.mp hrow
  have hlook := h k hof
  rw [Table.mem_rows.mp hmem] at hlook
  rw [hgro k hof]
  cases hcons : compacted.filter fun s => s.rollup = k with
  | nil =>
    rw [hcons] at hlook
    cases hlook
  | cons s group =>
    rw [hcons] at hlook
    exact Option.some.inj hlook

variable [Ratio ν] {E : Engine ν}

theorem afterAll_rolled {db : DB ν} (hsample : db.samples = []) (hrollup : db.rollups = ∅) {events : List (ResourceEvent ν)}
    (hkept : unexpired E (fun k => k.isOf kind id) db events = true) :
    ∃ compacted, ((accepted events).filter fun s => s.isOf kind id).Perm ((db.afterAll E events).rawOf kind id ++ compacted) ∧
      Rolled compacted ((db.afterAll E events).rollupsOf kind id) := by
  obtain ⟨compacted, hperm, hagree⟩ := afterAll_rollups hkept
  rw [hsample, List.nil_append] at hperm
  refine ⟨compacted.filter fun s => s.isOf kind id, ?_, rolled_of_lookup E fun k hk => ?_⟩
  · rw [DB.rawOf, ← List.filter_append]
    exact hperm.filter _
  rw [(hagree k hk).peaks, hrollup]
  rfl

/-- After any calls of `AppendResourceSample` and `CompactResourceSamples` that expire no rollup of an operation, its summary has
the number and the peaks of its samples and rollups. Every sample that was appended is a sample still or is counted by the rollup
of its minute and scope, and by no other. -/
theorem summary_agrees (hratio : ∀ v : ν, Ratio.valid v = true → 0 ≤ v) {db : DB ν} (hsamples : db.samples = [])
    (hrollups : db.rollups = ∅) (hsummaries : db.summaries = ∅) (events : List (ResourceEvent ν)) (hid : id ≠ "")
    (hkept : unexpired E (fun k => k.isOf kind id) db events = true) :
    (∀ r, (db.afterAll E events).summaries.lookup (kind, id) = some r →
        r.Agrees ((db.afterAll E events).rawOf kind id) (((db.afterAll E events).rollupsOf kind id).map Prod.snd)) ∧
      ((db.afterAll E events).summaries.lookup (kind, id) = none →
        (db.afterAll E events).rawOf kind id = [] ∧ (db.afterAll E events).rollupsOf kind id = []) ∧
      ∃ compacted,
        ((accepted events).filter fun s => s.isOf kind id).Perm ((db.afterAll E events).rawOf kind id ++ compacted) ∧
          Rolled compacted ((db.afterAll E events).rollupsOf kind id) := by
  obtain ⟨compacted, hperm, hrolled⟩ := afterAll_rolled hsamples hrollups hkept
  have hnonneg : ∀ s ∈ (accepted events).filter fun s => s.isOf kind id, s.Nonneg := by
    intro s hs
    obtain ⟨hcpu, hmemory⟩ := accepted_valid (List.mem_filter.mp hs).1
    exact ⟨hratio _ hcpu, hratio _ hmemory⟩
  have hsummary : (db.afterAll E events).summaries.lookup (kind, id) =
      summarize none ((accepted events).filter fun s => s.isOf kind id) := by
    rw [afterAll_summary db events hid, hsummaries]
    rfl
  rw [hsummary]
  refine ⟨fun r hr => ?_, fun hnone => ?_, compacted, hperm, hrolled⟩
  · by_cases hne : (accepted events).filter (fun s => s.isOf kind id) = []
    · rw [hne] at hr
      cases hr
    obtain ⟨r', hr', hpeaks⟩ := summarize_eq hne hnonneg
    obtain rfl : r' = r := Option.some.inj (hr'.symm.trans hr)
    exact hrolled.agrees (hpeaks.trans (peaksOf_perm hperm))
  have hnil : (accepted events).filter (fun s => s.isOf kind id) = [] := by
    by_contra hne
    obtain ⟨r, hr, -⟩ := summarize_eq hne hnonneg
    rw [hnone] at hr
    cases hr
  rw [hnil] at hperm
  obtain ⟨hraw, hcompacted⟩ := List.append_eq_nil_iff.mp hperm.nil_eq.symm
  refine ⟨hraw, List.eq_nil_iff_forall_not_mem.mpr fun row hrow => ?_⟩
  obtain ⟨s, hs, -⟩ := (hrolled.keys row.1).mp (List.mem_map.mpr ⟨row, hrow, rfl⟩)
  rw [hcompacted] at hs
  cases hs

end Detail

def jobSample (seconds : Int) (cpu : ℚ) : ResourceSample ℚ :=
  { hostSample seconds cpu 7 with projectID := "project", operationKind := "job", operationID := "build" }

def late : List (ResourceEvent ℚ) :=
  [.append (jobSample 70 (1 / 4)), .compact (75 * second) second, .append (jobSample 65 (1 / 2))]

theorem summary_agrees_late :
    ((noSamples.afterAll rationals late).summaries.lookup ("job", "build")).map (fun r => (r.sampleCount, r.cpuPeak)) =
        some (2, 1 / 2) ∧
      ∀ r, (noSamples.afterAll rationals late).summaries.lookup ("job", "build") = some r →
        r.Agrees ((noSamples.afterAll rationals late).rawOf "job" "build")
          (((noSamples.afterAll rationals late).rollupsOf "job" "build").map Prod.snd) := by
  have hratio : ∀ v : ℚ, Ratio.valid v = true → 0 ≤ v := by
    intro v hv
    exact of_decide_eq_true (Bool.and_eq_true_iff.mp hv).1
  exact ⟨by decide +kernel, (summary_agrees hratio rfl rfl rfl late (by decide) (by decide +kernel)).1⟩

end Console

end Autback
