import Autback.Conc.History

/-!
# Programs that can be cut off

A program that runs on its own changes a state with each call: `step s c r t` says that the call `c` can be answered `r` in the
state `s` and leaves the state `t`. It can be cut off after any of its calls.

`Prog.Always step X s p Q`: from the state `s` the program keeps `X`, which therefore holds wherever it is cut off, and `Q` holds
at its end (`Always.of_after`).
-/

namespace Conc

variable {S C : Type} {R : C → Type} {ε ε' α β : Type} {step : S → (c : C) → R c → S → Prop}

inductive Steps (step : S → (c : C) → R c → S → Prop) : S → Trace C R → S → Prop
  | nil (s : S) : Steps step s [] s
  | cons {s t u : S} {c : C} {r : R c} {tr : Trace C R} (h : step s c r t) (hrest : Steps step t tr u) :
    Steps step s (⟨c, r⟩ :: tr) u

def recorded (step : S → (c : C) → R c → S → Prop) (s : S × Trace C R) (c : C) (r : R c) (t : S × Trace C R) : Prop :=
  step s.1 c r t.1 ∧ t.2 = s.2 ++ [⟨c, r⟩]

theorem Steps.recorded {s t : S} {tr : Trace C R} (h : Steps step s tr t) (before : Trace C R) :
    Steps (recorded step) (s, before) tr (t, before ++ tr) := by
  induction h generalizing before with
  | nil s =>
    rw [List.append_nil]
    exact .nil _
  | @cons s t u c r tr h _ ih =>
    have hrest := ih (before ++ [⟨c, r⟩])
    rw [List.append_assoc] at hrest
    exact .cons ⟨h, rfl⟩ hrest

namespace Prog

/-- `X` holds from the state on and after every call of the program, and `Q` at its end. -/
def Always (step : S → (c : C) → R c → S → Prop) (X : S → Prop) : S → Prog C R α → (S → α → Prop) → Prop
  | s, ret a, Q => X s ∧ Q s a
  | s, call c k, Q => X s ∧ ∀ r t, step s c r t → Always step X t (k r) Q

variable {X : S → Prop} {s : S} {Q Q' : S → α → Prop}

variable {p : Prog C R α}

theorem Always.now (h : Always step X s p Q) : X s := by
  cases p with
  | ret a => exact h.1
  | call c k => exact h.1

theorem Always.mono (hQ : ∀ t a, X t → Q t a → Q' t a) :
    ∀ {p : Prog C R α} {s : S}, Always step X s p Q → Always step X s p Q'
  | ret _, _, h => ⟨h.1, hQ _ _ h.1 h.2⟩
  | call _ _, _, h => ⟨h.1, fun r t ht => (h.2 r t ht).mono hQ⟩

theorem always_bind {Q : S → β → Prop} {f : α → Prog C R β} :
    ∀ {p : Prog C R α} {s : S}, Always step X s p (fun t a => Always step X t (f a) Q) → Always step X s (p >>= f) Q
  | ret _, _, h => h.2
  | call _ _, _, h => ⟨h.1, fun r t ht => always_bind (h.2 r t ht)⟩

theorem always_lift {c : C} {Q : S → R c → Prop} (hX : X s) (h : ∀ r t, step s c r t → X t ∧ Q t r) :
    Always step X s (lift c) Q :=
  ⟨hX, h⟩

theorem always_ite {c : Prop} [Decidable c] {q : Prog C R α} (hp : c → Always step X s p Q) (hq : ¬ c → Always step X s q Q) :
    Always step X s (if c then p else q) Q := by
  split
  · exact hp ‹_›
  · exact hq ‹_›

theorem Always.of_after {q : Prog C R α} {t : S} {tr : Trace C R} (h : Always step X s p Q) (hafter : p.After tr q)
    (hsteps : Steps step s tr t) : Always step X t q Q := by
  induction hafter generalizing s with
  | nil p =>
    cases hsteps
    exact h
  | cons r _ ih =>
    cases hsteps with
    | cons hstep hrest => exact ih (h.2 r _ hstep) hrest

theorem Always.of_runs {a : α} {t : S} {tr : Trace C R} (h : Always step X s p Q) (hruns : p.Runs tr a)
    (hsteps : Steps step s tr t) : Q t a := by
  induction p generalizing s tr with
  | ret b =>
    obtain ⟨rfl, rfl⟩ := runs_ret.mp hruns
    cases hsteps
    exact h.2
  | call c k ih =>
    obtain ⟨r, tr', rfl, hk⟩ := runs_call.mp hruns
    cases hsteps with
    | cons hstep hrest => exact ih r (h.2 r _ hstep) hk hrest

end Prog

/-! ## Code that can fail -/

section Fallible

variable {X : S → Prop} {s : S}

variable {p : Fallible C R ε α} {f : α → Fallible C R ε β}

theorem always_try {Q : S → Except ε β → Prop}
    (h : Prog.Always step X s p fun t r => match r with | .ok a => Prog.Always step X t (f a) Q | .error e => Q t (.error e)) :
    Prog.Always step X s (p >>= f : Fallible C R ε β) Q := by
  refine Prog.always_bind (p := p) (h.mono ?_)
  rintro t (e | a) hX hr
  · exact ⟨hX, hr⟩
  · exact hr

/-- Code that leads to `I`, followed by code that leads from there to `J`. -/
theorem always_seq {I J : S → Prop} (hIJ : ∀ t, I t → J t) (hp : Prog.Always step X s p fun t _ => I t)
    (hf : ∀ a t, I t → Prog.Always step X t (f a) fun t _ => J t) :
    Prog.Always step X s (p >>= f : Fallible C R ε β) fun t _ => J t := by
  refine always_try (hp.mono ?_)
  rintro t (e | a) _ ht
  · exact hIJ t ht
  · exact hf a t ht

theorem always_attempt {Q : S → Except ε (Except ε α) → Prop} (h : Prog.Always step X s p fun t r => Q t (.ok r)) :
    Prog.Always step X s (Fallible.attempt p) Q :=
  Prog.always_bind (p := p) (h.mono fun _ _ hX hr => ⟨hX, hr⟩)

theorem always_mapError {Q : S → Except ε' α → Prop} {f : ε → ε'} (h : Prog.Always step X s p fun t r => Q t (r.mapError f)) :
    Prog.Always step X s (Fallible.mapError f p) Q := by
  refine Prog.always_bind (p := p) (h.mono ?_)
  rintro t (e | a) hX hr
  · exact ⟨hX, hr⟩
  · exact ⟨hX, hr⟩

/-! ### Runs without an error -/

/-- `Q` holds at the end of every run without an error. -/
def Ensures (step : S → (c : C) → R c → S → Prop) (s : S) (p : Fallible C R ε α) (Q : S → α → Prop) : Prop :=
  Prog.Always step (fun _ => True) s p fun t r => ∀ a, r = .ok a → Q t a

variable {Q : S → α → Prop}

theorem ensures_pure {a : α} (h : Q s a) : Ensures step s (pure a : Fallible C R ε α) Q := by
  refine ⟨trivial, fun b hb => ?_⟩
  cases hb
  exact h

theorem ensures_throw (e : ε) : Ensures step s (Fallible.throw e : Fallible C R ε α) Q := ⟨trivial, nofun⟩

theorem ensures_ite {c : Prop} [Decidable c] {q : Fallible C R ε α} (hp : c → Ensures step s p Q)
    (hq : ¬ c → Ensures step s q Q) : Ensures step s (if c then p else q) Q :=
  Prog.always_ite hp hq

theorem ensures_bind {Q : S → β → Prop} (h : Ensures step s p fun t a => Ensures step t (f a) Q) :
    Ensures step s (p >>= f : Fallible C R ε β) Q := by
  refine always_try (h.mono ?_)
  rintro t (e | a) _ hr
  · exact nofun
  · exact hr a rfl

theorem ensures_mapError {f : ε → ε'} (h : Ensures step s p Q) : Ensures step s (Fallible.mapError f p) Q := by
  refine always_mapError (h.mono ?_)
  rintro t (e | a) _ hr
  · exact nofun
  · exact fun b hb => hr b (by cases hb; rfl)

theorem ensures_attempt {Q : S → Except ε α → Prop} (h : Prog.Always step (fun _ => True) s p Q) :
    Ensures step s (Fallible.attempt p) Q := by
  refine always_attempt (h.mono ?_)
  intro t r _ hr b hb
  cases hb
  exact hr

theorem Ensures.of_runs {a : α} {t : S} {tr : Trace C R} (h : Ensures step s p Q) (hruns : Prog.Runs p tr (.ok a))
    (hstep : Steps step s tr t) : Q t a :=
  Prog.Always.of_runs h hruns hstep a rfl

end Fallible

end Conc
