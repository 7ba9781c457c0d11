import Autback.Capacity.Reclaim
import Autback.Text.Path

/-!
# Pruning the caches of projects

`Host.pruneCaches` of `internal/capacity/host.go` removes the oldest cache directories until their total is at most the low
watermark. The total is a `uint64`: where one is needed, the shortest such prefix is removed exactly if the sizes add up to less
than `2^64` (`caches_pruned`); a total that has wrapped around keeps caches that should go (`caches_overlooked`).
-/

namespace Autback.Host

open Conc (Prog)
open Text (IsName Path)

/-- A directory entry, with the sizes of the regular files that `filepath.WalkDir` finds below it. -/
structure CacheEntry where
  name : String
  isName : IsName name.toList
  isDir : Bool
  modTime : Time
  files : List UInt64

structure ProjectEntry where
  name : String
  isName : IsName name.toList
  isDir : Bool
  entries : List CacheEntry

def directorySize (files : List UInt64) : UInt64 := files.foldl (· + ·) 0

/-- `cacheDirectories` of a root that can be read. -/
def cacheDirectories (root : String) (projects : List ProjectEntry) : List CacheDirectory :=
  projects.flatMap fun project =>
    if !project.isDir || !safeChild project.name then []
    else project.entries.filterMap fun entry =>
      if !entry.isDir || !safeChild entry.name then none
      else some ⟨String.ofList (Path.join [root.toList, project.name.toList, entry.name.toList]),
        entry.modTime, directorySize entry.files⟩

/-! ## Removed directories -/

theorem safeChild_isName {value : String} (h : safeChild value = true) (hroot : value ≠ "/") : IsName value.toList := by
  simp only [safeChild, Bool.and_eq_true, bne_iff_ne, beq_iff_eq] at h
  obtain ⟨⟨⟨hnil, hdot⟩, hdots⟩, hbase⟩ := h
  refine ⟨fun h => hnil (String.toList_inj.mp h), fun h => hdot (String.toList_inj.mp h), fun h => hdots (String.toList_inj.mp h),
    fun hslash => ?_⟩
  rw [base, if_neg hnil] at hbase
  simp only at hbase
  split at hbase
  · exact hroot hbase.symm
  rw [← hbase, String.toList_ofList, List.mem_reverse] at hslash
  cases List.mem_takeWhile_imp hslash

/-- **Retention removes children.** Whatever ids the store lists, an id whose directory is removed is the name of a child of the
jobs root, or `/`, which `filepath.Base` returns as it is. -/
theorem retention_confined (h : HostConfig) (retention : Duration) :
    (removeTerminalJobs h retention).Only fun c => ∀ id, c = .removeJob id → IsName id.toList ∨ id = "/" := by
  refine only_removeTerminalJobs (fun _ h => by cases h) (fun _ _ h => by cases h) ?_ retention
  rintro id hsafe _ ⟨⟩
  exact or_iff_not_imp_right.mpr (safeChild_isName hsafe)

theorem cache_path {root : String} {projects : List ProjectEntry} {cache : CacheDirectory}
    (hc : cache ∈ cacheDirectories root projects) : ∃ (p e : List Char) (hp : IsName p) (he : IsName e),
      Path.clean cache.path.toList = ((Path.clean root.toList).child p hp).child e he := by
  obtain ⟨project, -, hc⟩ := List.mem_flatMap.mp hc
  split at hc
  · cases hc
  obtain ⟨entry, -, hc⟩ := List.mem_filterMap.mp hc
  split at hc
  · cases hc
  cases hc
  refine ⟨_, _, project.isName, entry.isName, ?_⟩
  rw [String.toList_ofList, ← Path.extend_name, ← Path.extend_name]
  by_cases hroot : root.toList = []
  · -- `filepath.Join` leaves out an empty root
    have hstart : Path.start project.name.toList = Path.here :=
      if_neg fun hhead => project.isName.2.2.2 (List.mem_of_head? hhead)
    rw [hroot, Path.join, List.dropWhile_cons_of_pos rfl]
    refine (Path.clean_join project.isName.1 [entry.name.toList]).trans ?_
    rw [Path.clean, hstart]
    rfl
  · exact Path.clean_join hroot _

def sizes (caches : List CacheDirectory) : List Nat := caches.map fun cache => cache.size.toNat

/-- What the files below an entry take. -/
def CacheEntry.bytes (entry : CacheEntry) : Nat := (entry.files.map UInt64.toNat).sum

/-- What is stored in each cache directory, without a wrap-around. -/
def stored (projects : List ProjectEntry) : List Nat :=
  (projects.filter fun project => project.isDir && safeChild project.name).flatMap fun project =>
    (project.entries.filter fun entry => entry.isDir && safeChild entry.name).map CacheEntry.bytes

/-- `n` is the least number such that what is left after the first `n` is at most `bound`. -/
def Shortest (sizes : List Nat) (bound n : Nat) : Prop := (sizes.drop n).sum ≤ bound ∧ ∀ m < n, bound < (sizes.drop m).sum

def removals (caches : List CacheDirectory) : HostTrace := caches.map fun cache => ⟨.removeCache cache.path, .ok ()⟩

section Loop

variable {h : HostConfig} {f : (c : HostCall) → c.Ret}

theorem cacheLoop_done {low total : UInt64} {removed : Nat} (hle : total ≤ low) (caches : List CacheDirectory) :
    cacheLoop h low caches total removed = return (removed, none) := by
  cases caches with
  | nil => rfl
  | cons cache caches => rw [cacheLoop, if_pos hle]

theorem rest_toNat {size total : UInt64} {rest : Nat} (htotal : total.toNat = size.toNat + rest) :
    (if size ≥ total then 0 else total - size).toNat = rest := by
  split
  · rename_i hge
    have := UInt64.le_iff_toNat_le.mp hge
    change 0 = rest
    omega
  · rename_i hlt
    have hle : size ≤ total := UInt64.le_iff_toNat_le.mpr (by omega)
    rw [UInt64.toNat_sub_of_le _ _ hle]
    omega

theorem run_perform {α : Type} {c : HostCall} {k : c.Ret → HostProg α} :
    (perform c >>= k).run f = (⟨c, f c⟩ :: ((k (f c)).run f).1, ((k (f c)).run f).2) := rfl

/-- The running total is the sum of what is left. -/
theorem cacheLoop_run (hremove : ∀ path, f (.removeCache path) = .ok ()) (low : UInt64) :
    ∀ (caches : List CacheDirectory) (total : UInt64) (removed : Nat), total.toNat = (sizes caches).sum →
      ∃ n, Shortest (sizes caches) low.toNat n ∧ (cacheLoop h low caches total removed).run f =
        (if h.dryRun then [] else removals (caches.take n), removed + n, none)
  | [], total, removed, _ => ⟨0, ⟨Nat.zero_le _, nofun⟩, by cases h.dryRun <;> rfl⟩
  | cache :: caches, total, removed, htotal => by
    by_cases hle : total ≤ low
    · refine ⟨0, ⟨?_, nofun⟩, ?_⟩
      · rw [List.drop_zero, ← htotal]
        exact UInt64.le_iff_toNat_le.mp hle
      rw [cacheLoop_done hle]
      cases h.dryRun <;> rfl
    obtain ⟨n, hn, hrun⟩ := cacheLoop_run hremove low caches _ (removed + 1) (rest_toNat htotal)
    refine ⟨n + 1, ⟨hn.1, fun m hm => ?_⟩, ?_⟩
    · cases m with
      | zero =>
        rw [List.drop_zero, ← htotal]
        exact Nat.lt_of_not_le fun hle' => hle (UInt64.le_iff_toNat_le.mpr hle')
      | succ m => exact hn.2 m (Nat.lt_of_succ_lt_succ hm)
    rw [cacheLoop, if_neg hle, show removed + (n + 1) = removed + 1 + n by omega]
    cases hdry : h.dryRun with
    | true =>
      rw [hdry] at hrun
      exact hrun
    | false =>
      rw [hdry] at hrun
      rw [if_neg Bool.false_ne_true, run_perform, hremove]
      exact congrArg (fun run : HostTrace × Nat × Option Err => (⟨.removeCache cache.path, .ok ()⟩ :: run.1, run.2)) hrun

theorem foldl_add {α : Type} (size : α → UInt64) (l : List α) (sum : UInt64) :
    (l.foldl (fun sum x => sum + size x) sum).toNat = (sum.toNat + (l.map fun x => (size x).toNat).sum) % 2 ^ 64 := by
  induction l generalizing sum with
  | nil => exact (Nat.mod_eq_of_lt sum.toNat_lt).symm
  | cons x l ih =>
    rw [List.foldl_cons, ih, UInt64.toNat_add, List.map_cons, List.sum_cons, Nat.mod_add_mod, Nat.add_assoc]

/-- If no directory is too large for `directorySize`, the sizes are those of what is stored. -/
theorem sizes_cacheDirectories (root : String) {projects : List ProjectEntry}
    (hfiles : ∀ project ∈ projects, ∀ entry ∈ project.entries, entry.bytes < 2 ^ 64) :
    sizes (cacheDirectories root projects) = stored projects := by
  have hsize : ∀ entry : CacheEntry, entry.bytes < 2 ^ 64 → (directorySize entry.files).toNat = entry.bytes := by
    intro entry hentry
    have hfold := foldl_add id entry.files 0
    exact hfold.trans ((congrArg (· % 2 ^ 64) (Nat.zero_add _)).trans (Nat.mod_eq_of_lt hentry))
  rw [sizes, cacheDirectories, stored, List.map_flatMap]
  induction projects with
  | nil => rfl
  | cons project projects ih =>
    rw [List.flatMap_cons, ih fun p hp => hfiles p (List.mem_cons_of_mem _ hp), List.filter_cons]
    by_cases hproject : (project.isDir && safeChild project.name) = true
    · rw [if_pos hproject, List.flatMap_cons, if_neg (by grind)]
      congr 1
      have hentries := hfiles project List.mem_cons_self
      generalize project.entries = entries at hentries
      induction entries with
      | nil => rfl
      | cons entry entries ih =>
        have hrest := ih fun e he => hentries e (List.mem_cons_of_mem _ he)
        have hentry := hsize entry (hentries entry List.mem_cons_self)
        grind
    · rw [if_neg hproject, if_pos (by grind)]
      rfl

theorem watermark (high low : UInt64) : (if low > high && high != 0 then high else low).toNat =
    if high = 0 then low.toNat else min low.toNat high.toNat := by
  by_cases hhigh : high = 0
  · simp [hhigh]
  by_cases hlow : low > high
  · have := UInt64.lt_iff_toNat_lt.mp hlow
    simp [hhigh, hlow]
    omega
  · have := mt UInt64.lt_iff_toNat_lt.mpr hlow
    simp [hhigh, hlow]
    omega

/-- With a total that is too small by a wrap-around, the loop ends too early. -/
theorem cacheLoop_early (hremove : ∀ path, f (.removeCache path) = .ok ()) (low : UInt64) :
    ∀ (caches : List CacheDirectory) (total : UInt64) (removed : Nat),
      total.toNat + 2 ^ 64 ≤ (sizes caches).sum ∨ total ≤ low ∧ low.toNat < (sizes caches).sum →
      ∃ n, ((cacheLoop h low caches total removed).run f).2 = (removed + n, none) ∧ ¬ Shortest (sizes caches) low.toNat n
  | [], total, removed, hshort => by simp [sizes] at hshort
  | cache :: caches, total, removed, hshort => by
    have hlow := low.toNat_lt
    have hsize := cache.size.toNat_lt
    have hsum : (sizes (cache :: caches)).sum = cache.size.toNat + (sizes caches).sum := rfl
    by_cases hle : total ≤ low
    · rw [cacheLoop_done hle]
      refine ⟨0, rfl, fun hn => ?_⟩
      have hall : (sizes (cache :: caches)).sum ≤ low.toNat := hn.1
      omega
    have hbound := hshort.resolve_right fun h => hle h.1
    rw [UInt64.le_iff_toNat_le] at hle
    have hrest : (if cache.size ≥ total then 0 else total - cache.size).toNat + 2 ^ 64 ≤ (sizes caches).sum ∨
        (if cache.size ≥ total then 0 else total - cache.size) ≤ low ∧ low.toNat < (sizes caches).sum := by
      split
      · rename_i hge
        have := UInt64.le_iff_toNat_le.mp hge
        exact .inr ⟨UInt64.zero_le, by omega⟩
      · rename_i hlt
        rw [ge_iff_le, UInt64.le_iff_toNat_le] at hlt
        rw [UInt64.toNat_sub_of_le _ _ (UInt64.le_iff_toNat_le.mpr (by omega))]
        omega
    obtain ⟨n, hrun, hn⟩ := cacheLoop_early hremove low caches _ (removed + 1) hrest
    refine ⟨n + 1, ?_, fun h => hn ⟨h.1, fun m hm => h.2 (m + 1) (Nat.succ_lt_succ hm)⟩⟩
    rw [cacheLoop, if_neg (mt UInt64.le_iff_toNat_le.mp hle), show removed + (n + 1) = removed + 1 + n by omega]
    cases hdry : h.dryRun with
    | true => exact hrun
    | false => rwa [if_neg Bool.false_ne_true, run_perform, hremove]

/-- **Pruning is minimal and oldest first.** Where the directories can be read and removed, all caches lie two levels below the
root, and those that go are the shortest prefix by time and path that brings the total of what is stored to the watermark, none
without pressure and below the high watermark, exactly if the total is less than `2^64` or not needed. -/
theorem caches_pruned (h : HostConfig) (root : String) (projects : List ProjectEntry) (high low : UInt64) (pressure : Bool)
    (f : (c : HostCall) → c.Ret) (hread : f .cacheDirectories = .ok (cacheDirectories root projects))
    (hremove : ∀ path, f (.removeCache path) = .ok ())
    (hfiles : ∀ project ∈ projects, ∀ entry ∈ project.entries, entry.bytes < 2 ^ 64) :
    let sorted := h.caches.sort (cacheDirectories root projects)
    sorted.Perm (cacheDirectories root projects) ∧ sorted.Pairwise (fun a b => b.less a = false) ∧
      sizes (cacheDirectories root projects) = stored projects ∧
      (∀ cache ∈ sorted, ∃ (p e : List Char) (hp : IsName p) (he : IsName e),
        Path.clean cache.path.toList = ((Path.clean root.toList).child p hp).child e he) ∧
      ((∃ n, (pruneCaches h high low pressure).run f = (⟨.cacheDirectories, .ok (cacheDirectories root projects)⟩ ::
          if h.dryRun then [] else removals (sorted.take n), n, none) ∧
        if pressure = false ∧ (high = 0 ∨ (stored projects).sum ≤ high.toNat) then n = 0
          else Shortest (sizes sorted) (if high = 0 then low.toNat else min low.toNat high.toNat) n) ↔
        (stored projects).sum < 2 ^ 64 ∨ pressure = false ∧ high = 0) := by
  have hsizes := sizes_cacheDirectories root hfiles
  rw [← hsizes]
  have hpath := fun cache hc => @cache_path root projects cache hc
  generalize cacheDirectories root projects = caches at hread hpath ⊢
  have hperm := h.caches.perm caches
  refine ⟨hperm, h.caches.sorted caches, rfl, fun cache hc => hpath cache (hperm.subset hc), ?_⟩
  have hsum : (sizes (h.caches.sort caches)).sum = (sizes caches).sum := (hperm.map _).sum_nat
  have htotal : (caches.foldl (fun sum (cache : CacheDirectory) => sum + cache.size) 0).toNat = (sizes caches).sum % 2 ^ 64 := by
    rw [foldl_add CacheDirectory.size, UInt64.toNat_zero, Nat.zero_add]
    rfl
  rw [pruneCaches, run_perform, hread]
  dsimp only
  by_cases hquiet : pressure = false ∧ high = 0
  · refine iff_of_true ⟨0, ?_, by rw [if_pos ⟨hquiet.1, .inl hquiet.2⟩]⟩ (.inr hquiet)
    rw [if_pos (by simp [hquiet])]
    cases h.dryRun <;> rfl
  rw [or_iff_left hquiet]
  refine ⟨fun ⟨n, hrun, hn⟩ => Nat.lt_of_not_le fun hwrap => ?_, fun hless => ?_⟩
  · -- the test on the total holds too early, or the loop ends too early
    have hhigh := high.toNat_lt
    rw [if_neg fun hcalm => hcalm.2.elim (fun hzero => hquiet ⟨hcalm.1, hzero⟩) (by omega), ← watermark] at hn
    have hresult := congrArg Prod.snd hrun
    split at hresult
    · obtain rfl : 0 = n := congrArg Prod.fst hresult
      have hlow := (if low > high && high != 0 then high else low).toNat_lt
      have hall : (sizes (h.caches.sort caches)).sum ≤ _ := hn.1
      omega
    · obtain ⟨n', hrun', hn'⟩ := cacheLoop_early (h := h) hremove (if low > high && high != 0 then high else low)
        (h.caches.sort caches) _ 0 (.inl (by rw [htotal, hsum]; omega))
      obtain rfl : 0 + n' = n := congrArg Prod.fst (hrun'.symm.trans hresult)
      exact hn' (Nat.zero_add n' ▸ hn)
  · rw [Nat.mod_eq_of_lt hless] at htotal
    have hidle : (!pressure && (high == 0 || decide (caches.foldl (fun sum cache => sum + cache.size) 0 ≤ high))) = true ↔
        pressure = false ∧ (high = 0 ∨ (sizes caches).sum ≤ high.toNat) := by
      simp [UInt64.le_iff_toNat_le, htotal]
    by_cases hcalm : pressure = false ∧ (high = 0 ∨ (sizes caches).sum ≤ high.toNat)
    · refine ⟨0, ?_, by rw [if_pos hcalm]⟩
      rw [if_pos (hidle.mpr hcalm)]
      cases h.dryRun <;> rfl
    · obtain ⟨n, hn, hrun⟩ := cacheLoop_run (h := h) hremove (if low > high && high != 0 then high else low)
        (h.caches.sort caches) _ 0 (htotal.trans hsum.symm)
      refine ⟨n, ?_, by rw [if_neg hcalm, ← watermark]; exact hn⟩
      rw [if_neg (mt hidle.mp hcalm), hrun, Nat.zero_add]

end Loop

/-- The caches are those given, and every removal succeeds. -/
def findsCaches (caches : List CacheDirectory) : (c : HostCall) → c.Ret
  | .cacheDirectories => .ok caches
  | c => steady ⟨0, 0, 0, 0⟩ [] [] c

def twoCaches : List ProjectEntry :=
  [⟨"p", by decide, true, [⟨"a", by decide, true, 1, [3, 2]⟩, ⟨"b", by decide, true, 0, [4]⟩]⟩]

theorem caches_pruned_two : ((pruneCaches sampleHost 0 5 true).run (findsCaches (cacheDirectories "/cache" twoCaches))).2 =
    (1, none) := by
  obtain ⟨-, -, -, -, h⟩ := caches_pruned sampleHost "/cache" twoCaches 0 5 true (findsCaches _) rfl (fun _ => rfl)
    (by decide +kernel)
  obtain ⟨n, hrun, hn⟩ := h.mpr (.inl (by decide +kernel))
  have hsizes : sizes (sampleHost.caches.sort (cacheDirectories "/cache" twoCaches)) = [4, 5] := by decide +kernel
  obtain ⟨hrest, hleast⟩ : Shortest [4, 5] 5 n := hsizes ▸ hn
  rw [hrun]
  match n with
  | 0 => exact absurd hrest (by decide)
  | 1 => rfl
  | n + 2 => exact absurd (hleast 1 (by omega)) (by decide)

def twoHuge : List ProjectEntry :=
  [⟨"p", by decide, true, [⟨"a", by decide, true, 0, [0x8000000000000000]⟩,
    ⟨"b", by decide, true, 0, [0x8000000000000000]⟩]⟩]

/-- Two caches of `2^63` bytes have a total of zero: under pressure, with watermarks of zero, both stay. -/
theorem caches_overlooked : (stored twoHuge).sum = 2 ^ 64 ∧
    ((pruneCaches sampleHost 0 0 true).run (findsCaches (cacheDirectories "/cache" twoHuge))).2 = (0, none) := by
  constructor
  · decide +kernel
  change (Prog.run _ (cacheLoop sampleHost 0 _ _ 0)).2 = _
  rw [cacheLoop_done (by decide +kernel)]
  rfl

end Autback.Host
