import Autback.Control.Model
import Mathlib.Data.UInt

/-!
# Capacity policy

The thresholds of `internal/capacity/policy.go` and the tests of `controller.go` on a snapshot of the worker's file
system. Byte and inode counts are `uint64`, with its wrap-around (`capacity_exact`, `capacity_wraps`).
-/

namespace Autback

def gib : UInt64 := 1024 * 1024 * 1024

structure Policy where
  (softFreePercent softFreeMinimumBytes hardFreePercent hardFreeMinimumBytes sweepPercent sweepMinimumBytes : UInt64)
  minimumFreeInodes : UInt64
  jobRetention : Duration
  (cacheHighPercent cacheLowPercent : UInt64)
  (normalObjectAge pressureThrottle : Duration)

def defaultPolicy : Policy where
  softFreePercent := 20
  softFreeMinimumBytes := 20 * gib
  hardFreePercent := 5
  hardFreeMinimumBytes := 8 * gib
  sweepPercent := 5
  sweepMinimumBytes := 5 * gib
  minimumFreeInodes := 10
  jobRetention := 7 * 24 * 60 * minute
  cacheHighPercent := 10
  cacheLowPercent := 8
  normalObjectAge := 24 * 60 * minute
  pressureThrottle := 30 * second

structure Thresholds where
  (softFreeBytes targetFreeBytes hardFreeBytes : UInt64)
  deriving DecidableEq

def Policy.thresholds (p : Policy) (total : UInt64) : Thresholds :=
  let soft := max (total * p.softFreePercent / 100) p.softFreeMinimumBytes
  let hard := max (total * p.hardFreePercent / 100) p.hardFreeMinimumBytes
  let sweep := max (total * p.sweepPercent / 100) p.sweepMinimumBytes
  ⟨soft, soft + sweep, hard⟩

structure Snapshot where
  (totalBytes freeBytes totalInodes freeInodes : UInt64)
  deriving DecidableEq

def inodePressure (s : Snapshot) (minimumPercent : UInt64) : Bool :=
  decide (s.totalInodes > 0) && decide (s.freeInodes * 100 < s.totalInodes * minimumPercent)

def Policy.pressure (p : Policy) (t : Thresholds) (s : Snapshot) : Bool :=
  decide (s.freeBytes < t.softFreeBytes) || inodePressure s p.minimumFreeInodes

def Policy.hardPressure (p : Policy) (t : Thresholds) (s : Snapshot) : Bool :=
  decide (s.freeBytes < t.hardFreeBytes) || inodePressure s p.minimumFreeInodes

def capacityError (s : Snapshot) (t : Thresholds) (minimumInodes : UInt64) : Err :=
  .new ("worker capacity exhausted: " ++ toString s.freeBytes ++ " bytes and " ++ toString s.freeInodes ++
    " inodes free; require " ++ toString t.softFreeBytes ++ " bytes and " ++
    toString (s.totalInodes * minimumInodes / 100) ++ " inodes")

inductive Trigger
  | admission
  | periodic
  | pressure
  | manual
  deriving DecidableEq

structure ReclaimRequest where
  trigger : Trigger
  pressure : Bool
  targetFreeBytes : UInt64
  jobRetention : Duration
  (cacheHighBytes cacheLowBytes : UInt64)
  normalObjectAge : Duration
  deriving DecidableEq

/-- The request that `runLocked` makes. -/
def Policy.reclaimRequest (p : Policy) (trigger : Trigger) (pressure : Bool) (before : Snapshot) : ReclaimRequest where
  trigger := trigger
  pressure := pressure
  targetFreeBytes := (p.thresholds before.totalBytes).targetFreeBytes
  jobRetention := p.jobRetention
  cacheHighBytes := before.totalBytes * p.cacheHighPercent / 100
  cacheLowBytes := before.totalBytes * p.cacheLowPercent / 100
  normalObjectAge := p.normalObjectAge

/-! The same in exact arithmetic. -/

/-- What the thresholds and the test for inodes are meant to be at a snapshot, over the natural numbers. -/
structure Policy.Exact (p : Policy) (s : Snapshot) : Prop where
  soft : (p.thresholds s.totalBytes).softFreeBytes.toNat =
    max (s.totalBytes.toNat * p.softFreePercent.toNat / 100) p.softFreeMinimumBytes.toNat
  hard : (p.thresholds s.totalBytes).hardFreeBytes.toNat =
    max (s.totalBytes.toNat * p.hardFreePercent.toNat / 100) p.hardFreeMinimumBytes.toNat
  target : (p.thresholds s.totalBytes).targetFreeBytes.toNat = (p.thresholds s.totalBytes).softFreeBytes.toNat +
    max (s.totalBytes.toNat * p.sweepPercent.toNat / 100) p.sweepMinimumBytes.toNat
  hard_le_soft : (p.thresholds s.totalBytes).hardFreeBytes ≤ (p.thresholds s.totalBytes).softFreeBytes
  soft_lt_target : (p.thresholds s.totalBytes).softFreeBytes < (p.thresholds s.totalBytes).targetFreeBytes
  inodes : inodePressure s p.minimumFreeInodes = true ↔
    0 < s.totalInodes.toNat ∧ s.freeInodes.toNat * 100 < s.totalInodes.toNat * p.minimumFreeInodes.toNat

/-- The products for the inodes wrap around equally often, or the one that does so more often is left with the larger remainder.
-/
def Snapshot.InodesComparable (s : Snapshot) : Prop :=
  (s.freeInodes.toNat * 100 / 2 ^ 64 < s.totalInodes.toNat * 10 / 2 ^ 64 →
    s.freeInodes.toNat * 100 % 2 ^ 64 < s.totalInodes.toNat * 10 % 2 ^ 64) ∧
  (s.totalInodes.toNat * 10 / 2 ^ 64 < s.freeInodes.toNat * 100 / 2 ^ 64 →
    s.totalInodes.toNat * 10 % 2 ^ 64 ≤ s.freeInodes.toNat * 100 % 2 ^ 64)

theorem floor_toNat (total percent minimum : UInt64) : (max (total * percent / 100) minimum).toNat =
    max (total.toNat * percent.toNat % 2 ^ 64 / 100) minimum.toNat := by
  have hdiv : (total * percent / 100).toNat = total.toNat * percent.toNat % 2 ^ 64 / 100 := by
    rw [UInt64.toNat_div, UInt64.toNat_mul]
    rfl
  rw [← hdiv]
  change (if total * percent / 100 ≤ minimum then minimum else total * percent / 100).toNat = _
  split <;> rename_i hle <;> rw [UInt64.le_iff_toNat_le] at hle <;> omega

theorem inodePressure_iff (s : Snapshot) (percent : UInt64) : inodePressure s percent = true ↔ 0 < s.totalInodes.toNat ∧
    s.freeInodes.toNat * 100 % 2 ^ 64 < s.totalInodes.toNat * percent.toNat % 2 ^ 64 := by
  simp only [inodePressure, Bool.and_eq_true, decide_eq_true_eq, gt_iff_lt, UInt64.lt_iff_toNat_lt, UInt64.toNat_mul]
  rfl

/-- **Exactness**: the thresholds of the default policy and its test for inodes are what they are meant to be exactly if a fifth
of the total does not wrap around, and the products for the inodes, if there are any, keep their order. -/
theorem capacity_exact (s : Snapshot) : defaultPolicy.Exact s ↔
    s.totalBytes.toNat * 20 < 2 ^ 64 ∧ (s.totalInodes = 0 ∨ s.InodesComparable) := by
  have hsoft : (defaultPolicy.thresholds s.totalBytes).softFreeBytes.toNat =
      max (s.totalBytes.toNat * 20 % 2 ^ 64 / 100) (20 * 2 ^ 30) := floor_toNat ..
  have hhard : (defaultPolicy.thresholds s.totalBytes).hardFreeBytes.toNat =
      max (s.totalBytes.toNat * 5 % 2 ^ 64 / 100) (8 * 2 ^ 30) := floor_toNat ..
  have hsweep : (max (s.totalBytes * 5 / 100) (5 * gib)).toNat =
      max (s.totalBytes.toNat * 5 % 2 ^ 64 / 100) (5 * 2 ^ 30) := floor_toNat ..
  have hinodes : inodePressure s 10 = true ↔ 0 < s.totalInodes.toNat ∧
      s.freeInodes.toNat * 100 % 2 ^ 64 < s.totalInodes.toNat * 10 % 2 ^ 64 := inodePressure_iff s 10
  have hzero : s.totalInodes = 0 ↔ s.totalInodes.toNat = 0 := UInt64.toNat_inj.symm
  rw [hzero, Snapshot.InodesComparable]
  constructor
  · intro h
    have hfloor : _ = max (s.totalBytes.toNat * 20 / 100) (20 * 2 ^ 30) := h.soft
    have hpressure : _ ↔ 0 < s.totalInodes.toNat ∧ s.freeInodes.toNat * 100 < s.totalInodes.toNat * 10 := h.inodes
    have := hinodes.symm.trans hpressure
    refine ⟨Nat.lt_of_not_le fun hwrap => ?_, by omega⟩
    have hrest : s.totalBytes.toNat * 20 % 2 ^ 64 + 2 ^ 64 ≤ s.totalBytes.toNat * 20 := by omega
    generalize s.totalBytes.toNat * 20 % 2 ^ 64 = rest at hsoft hrest
    omega
  rintro ⟨hb, hi⟩
  rw [Nat.mod_eq_of_lt hb] at hsoft
  rw [Nat.mod_eq_of_lt (show s.totalBytes.toNat * 5 < 2 ^ 64 by omega)] at hhard hsweep
  have htarget : (defaultPolicy.thresholds s.totalBytes).targetFreeBytes.toNat =
      (defaultPolicy.thresholds s.totalBytes).softFreeBytes.toNat + max (s.totalBytes.toNat * 5 / 100) (5 * 2 ^ 30) := by
    rw [← hsweep]
    refine (UInt64.toNat_add _ _).trans (Nat.mod_eq_of_lt ?_)
    change (defaultPolicy.thresholds s.totalBytes).softFreeBytes.toNat + (max (s.totalBytes * 5 / 100) (5 * gib)).toNat < 2 ^ 64
    omega
  refine ⟨hsoft, hhard, htarget, UInt64.le_iff_toNat_le.mpr (by omega), UInt64.lt_iff_toNat_lt.mpr (by omega),
    hinodes.trans ?_⟩
  change _ ↔ _ ∧ s.freeInodes.toNat * 100 < s.totalInodes.toNat * 10
  omega

/-- On an exbibyte the soft floor wraps around and falls below the hard one; with `2 ^ 63` inodes none free are enough. -/
theorem capacity_wraps : (defaultPolicy.thresholds (2 ^ 60)).softFreeBytes.toNat < 2 ^ 60 * 20 / 100 ∧
    (defaultPolicy.thresholds (2 ^ 60)).softFreeBytes < (defaultPolicy.thresholds (2 ^ 60)).hardFreeBytes ∧
    inodePressure ⟨2 ^ 60, 0, 2 ^ 63, 0⟩ defaultPolicy.minimumFreeInodes = false := by
  decide +kernel

end Autback
