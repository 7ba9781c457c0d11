import Autback.Control.Model

/-!
# The workers of the dispatcher and of the coordinator

`Advance` of `internal/control/dispatcher/dispatcher.go` and of `internal/operation/cleanup/coordinator.go` sets a flag and starts
a worker unless one runs. The worker clears the flag, calls `RunOnce`, and goes on after an error, after a claimed teardown, or if
the flag has been set again; else it gives up its place in the same section in which it looks at the flag. These sections are the
steps here, without drain and cancellation.

A call that no `RunOnce` has followed yet is either in the flag or in the hands of a worker that is about to begin one
(`wakeups_kept`).
-/

namespace Autback

inductive Component
  | dispatcher
  | coordinator
  deriving DecidableEq

/-- Where a worker stands in its loop: before it clears the flag, before `RunOnce`, in it, waiting after an error, before it looks
at the flag. -/
inductive Point
  | top
  | ready
  | busy
  | failed
  | idle
  deriving DecidableEq

structure Workers where
  (running pending wake : Bool)
  workers : List Point

inductive Move
  | advance
  | clear (i : Nat)
  | begin (i : Nat)
  | fails (i : Nat)
  | succeeds (i : Nat) (claimed : Bool)
  | retry (i : Nat) (woken : Bool)
  | look (i : Nat)

namespace Workers

def init : Workers := ⟨false, false, false, []⟩

/-- Worker `i` goes from `p` to `q`. -/
def go (s : Workers) (i : Nat) (p q : Point) : Option Workers :=
  if s.workers[i]? = some p then some { s with workers := s.workers.set i q } else none

def advance (k : Component) (s : Workers) : Workers :=
  if s.running then { s with pending := true, wake := s.wake || k = .dispatcher }
  else { s with pending := true, running := true, workers := s.workers ++ [.top] }

def step (k : Component) (s : Workers) : Move → Option Workers
  | .advance => some (advance k s)
  | .clear i => (s.go i .top .ready).map fun s => { s with pending := false }
  | .begin i => s.go i .ready .busy
  | .fails i => s.go i .busy .failed
  -- only the coordinator returns to the top because of what it has claimed
  | .succeeds i claimed => s.go i .busy (if claimed && k = .coordinator then .top else .idle)
  | .retry i false => s.go i .failed .top
  | .retry i true => if s.wake then (s.go i .failed .top).map fun s => { s with wake := false } else none
  | .look i =>
    if s.workers[i]? = some .idle then
      if s.pending then s.go i .idle .top else some { s with running := false, workers := s.workers.eraseIdx i }
    else none

def run (k : Component) : List Move → Option Workers
  | [] => some init
  | m :: ms => (run k ms).bind fun s => s.step k m

/-- `Advance` was called and no `RunOnce` has begun since. -/
def owed : List Move → Bool
  | [] => false
  | .advance :: _ => true
  | .begin _ :: _ => false
  | _ :: ms => owed ms

/-- There is a worker just if `running` says so, and it is the only one; what is owed is in the flag or at hand. -/
structure Sound (ms : List Move) (s : Workers) (w : Option Point) : Prop where
  workers : s.workers = w.toList
  running : s.running = w.isSome
  pending : s.pending = true → w.isSome = true
  kept : owed ms = true → s.pending = true ∨ w = some .ready

variable {k : Component} {ms : List Move} {s s' : Workers} {w : Option Point} {i : Nat} {p q : Point}

theorem Sound.at (h : Sound ms s w) (hi : s.workers[i]? = some p) : i = 0 ∧ w = some p := by
  rw [h.workers] at hi
  cases w with
  | none => cases hi
  | some x => cases i <;> simp_all

theorem Sound.go (h : Sound ms s w) (hgo : s.go i p q = some s') :
    w = some p ∧ s' = { s with workers := [q] } := by
  obtain ⟨hi, hs⟩ := Option.ite_none_right_eq_some.mp hgo
  obtain ⟨rfl, rfl⟩ := h.at hi
  cases hs
  exact ⟨rfl, by rw [h.workers]; rfl⟩

/-- A worker that is not ready goes on: what is owed stays in the flag. -/
theorem Sound.goes {m : Move} (h : Sound ms s (some p)) (hp : p ≠ .ready) (hm : owed (m :: ms) = owed ms) (wake : Bool) :
    Sound (m :: ms) { s with wake := wake, workers := [q] } (some q) :=
  ⟨rfl, h.running, h.pending, fun ho => (h.kept (hm ▸ ho)).imp_right fun heq => absurd (Option.some.inj heq) hp⟩

theorem Sound.step {m : Move} (h : Sound ms s w) (hs : s.step k m = some s') : ∃ w', Sound (m :: ms) s' w' := by
  cases m with
  | advance =>
    cases hs
    cases w with
    | none => exact ⟨some .top, by simp [advance, h.running, h.workers], by simp [advance, h.running], fun _ => rfl,
        fun _ => .inl (by simp [advance, h.running])⟩
    | some p => exact ⟨some p, by simp [advance, h.running, h.workers], by simp [advance, h.running], fun _ => rfl,
        fun _ => .inl (by simp [advance, h.running])⟩
  | clear i =>
    obtain ⟨s1, hgo, rfl⟩ := Option.map_eq_some_iff.mp hs
    obtain ⟨rfl, rfl⟩ := h.go hgo
    exact ⟨some .ready, rfl, h.running, nofun, fun _ => .inr rfl⟩
  | begin i =>
    obtain ⟨rfl, rfl⟩ := h.go hs
    exact ⟨some .busy, rfl, h.running, h.pending, nofun⟩
  | fails i =>
    obtain ⟨rfl, rfl⟩ := h.go hs
    exact ⟨_, h.goes nofun rfl s.wake⟩
  | succeeds i claimed =>
    obtain ⟨rfl, rfl⟩ := h.go hs
    exact ⟨_, h.goes nofun rfl s.wake⟩
  | retry i woken =>
    cases woken with
    | false =>
      obtain ⟨rfl, rfl⟩ := h.go hs
      exact ⟨_, h.goes nofun rfl s.wake⟩
    | true =>
      obtain ⟨-, hs⟩ := Option.ite_none_right_eq_some.mp hs
      obtain ⟨s1, hgo, rfl⟩ := Option.map_eq_some_iff.mp hs
      obtain ⟨rfl, rfl⟩ := h.go hgo
      exact ⟨_, h.goes nofun rfl false⟩
  | look i =>
    obtain ⟨hi, hs⟩ := Option.ite_none_right_eq_some.mp hs
    obtain ⟨rfl, rfl⟩ := h.at hi
    split at hs
    · obtain ⟨-, rfl⟩ := h.go hs
      exact ⟨_, h.goes nofun rfl s.wake⟩
    rename_i hpending
    cases hs
    refine ⟨none, by rw [h.workers]; rfl, rfl, fun hp => absurd hp hpending, fun ho => ?_⟩
    rcases h.kept ho with hp | hp
    · exact absurd hp hpending
    · cases hp

theorem run_sound : ∀ {ms : List Move} {s : Workers}, run k ms = some s → ∃ w, Sound ms s w
  | [], _, h => by
    cases h
    exact ⟨none, rfl, rfl, nofun, nofun⟩
  | _ :: _, _, h => by
    obtain ⟨s, hrun, hs⟩ := Option.bind_eq_some_iff.mp h
    obtain ⟨w, hw⟩ := run_sound hrun
    exact hw.step hs

theorem owed_append (earlier : List Move) : ∀ {mid : List Move}, (∀ i, Move.begin i ∉ mid) →
    owed (mid ++ .advance :: earlier) = true
  | [], _ => rfl
  | m :: mid, h => by
    have ih := owed_append earlier fun i hi => h i (List.mem_cons_of_mem _ hi)
    cases m with
    | advance => rfl
    | begin i => exact absurd List.mem_cons_self (h i)
    | _ => exact ih

/-- **Wake-ups are not lost**: there is at most one worker, and one if the flag is set; and when there is none, a `RunOnce` has
begun after every call of `Advance`. -/
theorem wakeups_kept (k : Component) (moves : List Move) (s : Workers) (hrun : run k moves = some s) :
    s.workers.length ≤ 1 ∧ (s.pending = true → s.workers ≠ []) ∧
      ∀ mid earlier, moves = mid ++ .advance :: earlier → s.workers = [] → ∃ i, Move.begin i ∈ mid := by
  obtain ⟨w, hw⟩ := run_sound hrun
  refine ⟨?_, fun hp => ?_, ?_⟩
  · rw [hw.workers]
    cases w <;> simp
  · obtain ⟨p, rfl⟩ := Option.isSome_iff_exists.mp (hw.pending hp)
    simp [hw.workers]
  rintro mid earlier rfl hnone
  by_contra hno
  rw [hw.workers, Option.toList_eq_nil_iff] at hnone
  subst hnone
  rcases hw.kept (owed_append _ (by simpa using hno)) with hp | hp
  · cases hw.pending hp
  · cases hp

theorem wakeups_kept_once : ∃ i, Move.begin i ∈ [Move.look 0, .succeeds 0 false, .begin 0, .clear 0] :=
  (wakeups_kept .dispatcher [.look 0, .succeeds 0 false, .begin 0, .clear 0, .advance, .advance] ⟨false, false, true, []⟩ rfl).2.2
    _ [.advance] rfl rfl

end Workers

end Autback
