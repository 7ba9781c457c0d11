import Autback.Control.Model

/-!
# The event counters of the worker

`Collector.CollectOnce` of `internal/hostmetrics/collector.go` stores with each sample by how much the event counters of the
kernel have grown since the sample before. It takes the sampled values as the previous ones before it appends the sample. If no
append fails, the differences that are stored add up to the growth of the counter (`counters_conserved`); a difference whose
append fails is lost (`counters_lost`).
-/

namespace Autback.Console

inductive Counter
  | memoryHigh
  | oom
  | oomKills
  deriving DecidableEq

structure Collector where
  /-- `none` is the zero time. -/
  lastCompaction : Option Time := none
  eventsReady : Bool := false
  previous : Counter → UInt64 := fun _ => 0

inductive Sampled
  | notReady
  | failed (e : Err)
  | sample (events : Counter → UInt64)

/-- What one call of `CollectOnce` meets: the sample, the errors of the scope, of the append and of the compaction, and the time.
-/
structure Attempt where
  sampled : Sampled
  (scope append compact : Option Err)
  now : Time

structure Appended where
  (value stored : Counter → UInt64)

def counterDelta (current previous : UInt64) : UInt64 := if current < previous then current else current - previous

namespace Collector

def deltas (c : Collector) (events : Counter → UInt64) : Counter → UInt64 :=
  if c.eventsReady then fun k => counterDelta (events k) (c.previous k) else fun _ => 0

def collectOnce (c : Collector) (a : Attempt) : Collector × Option Appended × Option Err :=
  match a.sampled, a.scope with
  | .notReady, _ => (c, none, none)
  | .failed e, _ => (c, none, some e)
  | .sample _, some e => (c, none, some e)
  | .sample events, none =>
    let collected := { c with previous := events, eventsReady := true }
    match a.append with
    | some e => (collected, none, some e)
    | none =>
      let compact := c.lastCompaction.all fun last => decide (60 * minute ≤ a.now - last)
      (if compact then { collected with lastCompaction := some a.now } else collected,
        some ⟨events, c.deltas events⟩, if compact then a.compact else none)

/-- A sequence of calls, the last one first: the collector, and the samples that were appended, the last one first. -/
def collect : List Attempt → Collector × List Appended
  | [] => ({}, [])
  | a :: attempts =>
    (((collect attempts).1.collectOnce a).1, ((collect attempts).1.collectOnce a).2.1.toList ++ (collect attempts).2)

end Collector

def Attempt.values (a : Attempt) (k : Counter) : List UInt64 :=
  match a.sampled with
  | .sample events => [events k]
  | _ => []

def Growing (attempts : List Attempt) : Prop :=
  ∀ k, (attempts.flatMap fun a => a.values k).Pairwise fun later earlier => earlier ≤ later

def stored (k : Counter) (appended : List Appended) : Nat := (appended.map fun s => (s.stored k).toNat).sum

theorem counterDelta_toNat {current previous : UInt64} (h : previous ≤ current) :
    (counterDelta current previous).toNat = current.toNat - previous.toNat := by
  rw [counterDelta, if_neg (by simpa using h), UInt64.toNat_sub_of_le _ _ h]

/-- What a call does if its append does not fail: nothing, or it appends the sample and keeps its values. -/
theorem collectOnce_cases {c : Collector} {a : Attempt} (h : a.append = none) :
    (c.collectOnce a).1 = c ∧ (c.collectOnce a).2.1 = none ∨ ∃ events, a.sampled = .sample events ∧
      (c.collectOnce a).1.eventsReady = true ∧ (c.collectOnce a).1.previous = events ∧
      (c.collectOnce a).2.1 = some ⟨events, c.deltas events⟩ := by
  unfold Collector.collectOnce
  split
  · exact .inl ⟨rfl, rfl⟩
  · exact .inl ⟨rfl, rfl⟩
  · exact .inl ⟨rfl, rfl⟩
  rename_i events hsampled _
  rw [h]
  refine .inr ⟨events, hsampled, ?_, ?_, rfl⟩ <;> dsimp only <;> split <;> rfl

/-- After calls without a failed append the collector holds the last sample, and what is stored is the growth since the first. -/
structure Settled (k : Counter) (attempts : List Attempt) (c : Collector) (appended : List Appended) : Prop where
  sampled : ∀ s ∈ appended, s.value k ∈ attempts.flatMap fun a => a.values k
  fresh : appended = [] → c.eventsReady = false
  held : ∀ {s rest}, appended = s :: rest → c.eventsReady = true ∧ c.previous k = s.value k
  grown : ∀ {last first}, appended.head? = some last → appended.getLast? = some first →
    stored k appended + (first.value k).toNat = (last.value k).toNat

theorem Settled.append {k : Counter} {attempts : List Attempt} {c c' : Collector} {a : Attempt} {events : Counter → UInt64}
    {appended : List Appended} (h : Settled k attempts c appended) (ha : a.sampled = .sample events)
    (hgrow : ∀ v ∈ attempts.flatMap fun a => a.values k, v ≤ events k) (hready : c'.eventsReady = true)
    (hprevious : c'.previous = events) : Settled k (a :: attempts) c' (⟨events, c.deltas events⟩ :: appended) := by
  have hvalues : a.values k = [events k] := by rw [Attempt.values, ha]
  refine ⟨?_, nofun, ?_, ?_⟩
  · rw [List.flatMap_cons, hvalues]
    exact List.forall_mem_cons.mpr ⟨List.mem_cons_self, fun s hs => List.mem_cons_of_mem _ (h.sampled s hs)⟩
  · rintro s rest heq
    cases heq
    exact ⟨hready, by rw [hprevious]⟩
  rintro last first hlast hfirst
  cases hlast
  cases appended with
  | nil =>
    cases hfirst
    simp [stored, Collector.deltas, h.fresh rfl]
  | cons s rest =>
    obtain ⟨hr, hp⟩ := h.held rfl
    have hle := hgrow _ (h.sampled s List.mem_cons_self)
    have hbefore := h.grown rfl (by rwa [List.getLast?_cons_cons] at hfirst)
    have hdelta : (c.deltas events k).toNat = (events k).toNat - (s.value k).toNat := by
      rw [Collector.deltas, if_pos hr, hp, counterDelta_toNat hle]
    have := UInt64.le_iff_toNat_le.mp hle
    simp only [stored, List.map_cons, List.sum_cons, hdelta] at hbefore ⊢
    omega

theorem collect_settled (k : Counter) : ∀ {attempts : List Attempt}, Growing attempts → (∀ a ∈ attempts, a.append = none) →
    Settled k attempts (Collector.collect attempts).1 (Collector.collect attempts).2
  | [], _, _ => ⟨nofun, fun _ => rfl, nofun, nofun⟩
  | a :: attempts, hgrow, hok => by
    obtain ⟨ha, hok⟩ := List.forall_mem_cons.mp hok
    have hvalues : ∀ k, _ := fun k => List.pairwise_append.mp (by simpa only [List.flatMap_cons] using hgrow k)
    have ih := collect_settled k (fun k => (hvalues k).2.1) hok
    rw [Collector.collect]
    rcases collectOnce_cases (c := (Collector.collect attempts).1) ha with ⟨hc, hnone⟩ | ⟨events, hsampled, hready, hprev, hsome⟩
    · rw [hc, hnone]
      refine ⟨fun s hs => ?_, ih.fresh, ih.held, ih.grown⟩
      rw [List.flatMap_cons]
      exact List.mem_append_right _ (ih.sampled s hs)
    rw [hsome]
    refine ih.append hsampled (fun v hv => (hvalues k).2.2 (events k) ?_ v hv) hready hprev
    rw [Attempt.values, hsampled]
    exact List.mem_singleton_self _

/-- **Conservation**: if no append fails, what is stored of a counter is its value at the last appended sample less its value at
the first; sampling, scopes and compactions may fail at any call. -/
theorem counters_conserved (attempts : List Attempt) (hgrow : Growing attempts) (hok : ∀ a ∈ attempts, a.append = none)
    (k : Counter) (last first : Appended) (hlast : (Collector.collect attempts).2.head? = some last)
    (hfirst : (Collector.collect attempts).2.getLast? = some first) :
    stored k (Collector.collect attempts).2 + (first.value k).toNat = (last.value k).toNat :=
  (collect_settled k hgrow hok).grown hlast hfirst

/-- A call that samples the value `n` of every counter. -/
def samples (n : UInt64) (append : Option Err) : Attempt := ⟨.sample fun _ => n, none, append, none, 1⟩

theorem counters_conserved_twice : stored .oom (Collector.collect [samples 7 none, samples 2 none]).2 + 2 = 7 :=
  counters_conserved [samples 7 none, samples 2 none] (by intro k; simp [samples, Attempt.values]) (by simp [samples]) .oom
    ⟨fun _ => 7, fun _ => counterDelta 7 2⟩ ⟨fun _ => 2, fun _ => 0⟩ rfl rfl

/-- The counter goes from 0 to 7, the append at 5 fails, and 2 is stored. -/
theorem counters_lost : Growing [samples 7 none, samples 5 (some (.new "database is locked")), samples 0 none] ∧
    ((Collector.collect [samples 7 none, samples 5 (some (.new "database is locked")), samples 0 none]).2.map fun s =>
      ((s.value .oom).toNat, (s.stored .oom).toNat)) = [(7, 2), (0, 0)] :=
  ⟨by intro k; simp [samples, Attempt.values], by decide⟩

end Autback.Console
