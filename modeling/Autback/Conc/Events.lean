import Mathlib.Logic.Basic

/-!
# Systems that move by events

A system has states and events; an event takes a state to another one, or cannot happen in it. A run is a sequence of events
that can happen, each allowed in its state by the conditions under which the run is considered (`Reaches`).
-/

namespace Conc

section Runs

variable {S E : Type} {step : S → E → Option S} {allowed : S → E → Prop} {s0 s : S}

inductive Reaches (step : S → E → Option S) (allowed : S → E → Prop) (s0 : S) : S → Prop
  | refl : Reaches step allowed s0 s0
  | step {s s' : S} (h : Reaches step allowed s0 s) (e : E) (ha : allowed s e) (hs : step s e = some s') :
    Reaches step allowed s0 s'

theorem Reaches.invariant {I : S → Prop} (h : Reaches step allowed s0 s) (hstart : I s0)
    (hstep : ∀ s e s', I s → allowed s e → step s e = some s' → I s') : I s := by
  induction h with
  | refl => exact hstart
  | step _ e ha hs ih => exact hstep _ e _ ih ha hs

theorem Reaches.trans {s' : S} (h : Reaches step allowed s0 s) (h' : Reaches step allowed s s') : Reaches step allowed s0 s' := by
  induction h' with
  | refl => exact h
  | step _ e ha hs ih => exact ih.step e ha hs

/-- One event after the other, as long as `p` allows them and they can happen. -/
def runIf (step : S → E → Option S) (p : S → E → Bool) (s : S) (es : List E) : Option S :=
  es.foldlM (fun s e => if p s e then step s e else none) s

theorem Reaches.runIf {p : S → E → Bool} (hp : ∀ s e, p s e = true → allowed s e) {es : List E} {s' : S}
    (h : Reaches step allowed s0 s) (hrun : runIf step p s es = some s') : Reaches step allowed s0 s' := by
  induction es generalizing s with
  | nil =>
    cases hrun
    exact h
  | cons e es ih =>
    rw [Conc.runIf, List.foldlM_cons, Option.bind_eq_bind, Option.bind_eq_some_iff] at hrun
    obtain ⟨s1, hstep, hrest⟩ := hrun
    split at hstep
    · rename_i hall
      exact ih (h.step e (hp s e hall) hstep) hrest
    · cases hstep

end Runs

theorem concat_eq_append_cons {α : Type _} {l earlier later : List α} {a b : α} (h : l ++ [a] = earlier ++ b :: later) :
    (l = earlier ∧ b = a) ∨ ∃ later', l = earlier ++ b :: later' := by
  rcases List.eq_nil_or_concat later with rfl | ⟨later', c, rfl⟩
  · obtain ⟨hl, ha⟩ := List.append_inj' h rfl
    exact .inl ⟨hl, (List.cons.inj ha).1.symm⟩
  rw [List.concat_eq_append, ← List.cons_append, ← List.append_assoc] at h
  exact .inr ⟨later', (List.append_inj' h rfl).1⟩

end Conc
