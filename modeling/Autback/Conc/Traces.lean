import Autback.Conc.Reads

/-!
# What a program does on its own

`Prog.Runs p tr a`: with some answers to its calls the program `p` makes the calls of `tr` and ends with `a`. It is an execution
(`Exec`) in which the answers do not depend on a state. The rules take a run apart along the program: its calls, and its
sequential composition.
-/

namespace Conc

variable {C : Type} {R : C → Type} {α β : Type}

namespace Prog

/-- The program can make the calls of `tr` with the answers there and end with `a`. -/
def Runs (p : Prog C R α) (tr : Trace C R) (a : α) : Prop :=
  Exec (fun _ _ : Unit => False) (fun _ _ _ => True) () p tr a ()

variable {tr : Trace C R} {b : α} {c : C}

@[simp]
theorem runs_ret {a : α} : (ret a : Prog C R α).Runs tr b ↔ tr = [] ∧ b = a := by
  constructor
  · intro h
    have hret := Exec.of_ret h
    exact ⟨hret.2, hret.1⟩
  rintro ⟨rfl, rfl⟩
  exact .ret _ _

@[simp]
theorem runs_call {k : R c → Prog C R α} :
    (call c k).Runs tr b ↔ ∃ r tr', tr = ⟨c, r⟩ :: tr' ∧ (k r).Runs tr' b := by
  constructor
  · intro h
    obtain ⟨_, r, tr', -, -, htr, hk⟩ := Exec.of_call h
    exact ⟨r, tr', htr, hk⟩
  rintro ⟨r, tr', rfl, hk⟩
  exact .call r trivial hk

theorem Runs.of_bind {p : Prog C R α} {f : α → Prog C R β} {b : β} (h : (p >>= f).Runs tr b) :
    ∃ tr1 a tr2, tr = tr1 ++ tr2 ∧ p.Runs tr1 a ∧ (f a).Runs tr2 b := by
  obtain ⟨tr1, a, _, tr2, htr, h1, h2⟩ := Exec.of_bind h
  exact ⟨tr1, a, tr2, htr, h1, h2⟩

theorem Runs.of_lift {f : R c → Prog C R α} (h : (lift c >>= f).Runs tr b) :
    ∃ r tr', tr = ⟨c, r⟩ :: tr' ∧ (f r).Runs tr' b :=
  runs_call.mp h

theorem Runs.eq_of_lift {r : R c} (h : (lift c).Runs tr r) : tr = [⟨c, r⟩] := by
  obtain ⟨r', tr', rfl, hret⟩ := runs_call.mp h
  obtain ⟨rfl, rfl⟩ := runs_ret.mp hret
  rfl

theorem Only.of_runs {P : C → Prop} {p : Prog C R α} {a : α} (hp : p.Only P) (h : p.Runs tr a) : ∀ x ∈ tr, P x.1 :=
  Exec.only h hp

theorem runs_run (f : (c : C) → R c) (p : Prog C R α) : p.Runs (p.run f).1 (p.run f).2 :=
  Exec.run (fun _ => trivial) p

/-- In that run every call is answered by `f`. -/
theorem mem_run {f : (c : C) → R c} {x : Σ c : C, R c} : ∀ {p : Prog C R α}, x ∈ (p.run f).1 → x.2 = f x.1
  | ret _, hx => by cases hx
  | call c k, hx => by
    rcases List.mem_cons.mp hx with rfl | hx
    · rfl
    · exact mem_run hx

end Prog

namespace Fallible

variable {ε : Type} {tr : Trace C R} {p : Fallible C R ε α} {f : α → Fallible C R ε β}

theorem runs_bind {r : Except ε β}
    (h : Prog.Runs (p >>= f : Fallible C R ε β) tr r) :
    (∃ tr1 a tr2, tr = tr1 ++ tr2 ∧ Prog.Runs p tr1 (.ok a) ∧ Prog.Runs (f a) tr2 r) ∨
      ∃ e, Prog.Runs p tr (.error e) ∧ r = .error e := by
  obtain ⟨tr1, x, tr2, rfl, h1, h2⟩ := Prog.Runs.of_bind (p := p) h
  cases x with
  | ok a => exact .inl ⟨tr1, a, tr2, rfl, h1, h2⟩
  | error e =>
    obtain ⟨rfl, rfl⟩ := Prog.runs_ret.mp h2
    rw [List.append_nil]
    exact .inr ⟨e, h1, rfl⟩

theorem runs_mapError {ε' : Type} {f : ε → ε'} {r : Except ε' α}
    (h : Prog.Runs (mapError f p) tr r) : ∃ x : Except ε α, Prog.Runs p tr x ∧ r = x.mapError f := by
  obtain ⟨tr1, x, tr2, rfl, h1, h2⟩ := Prog.Runs.of_bind (p := p) h
  cases x with
  | ok a =>
    obtain ⟨rfl, rfl⟩ := Prog.runs_ret.mp h2
    exact ⟨.ok a, by rwa [List.append_nil], rfl⟩
  | error e =>
    obtain ⟨rfl, rfl⟩ := Prog.runs_ret.mp h2
    exact ⟨.error e, by rwa [List.append_nil], rfl⟩

theorem runs_bind_ok {b : β}
    (h : Prog.Runs (p >>= f : Fallible C R ε β) tr (.ok b)) :
    ∃ tr1 a tr2, tr = tr1 ++ tr2 ∧ Prog.Runs p tr1 (.ok a) ∧ Prog.Runs (f a) tr2 (.ok b) := by
  obtain ⟨tr1, a, _, tr2, htr, h1, h2⟩ := Exec.of_bind_ok h
  exact ⟨tr1, a, tr2, htr, h1, h2⟩

theorem runs_mapError_ok {ε' : Type} {f : ε → ε'} {a : α}
    (h : Prog.Runs (mapError f p) tr (.ok a)) : Prog.Runs p tr (.ok a) := by
  obtain ⟨x, hx, heq⟩ := runs_mapError h
  cases x with
  | ok a' =>
    cases heq
    exact hx
  | error e => cases heq

theorem runs_ofProg_bind {p : Prog C R α} {r : Except ε β}
    (h : Prog.Runs (ofProg p >>= f : Fallible C R ε β) tr r) :
    ∃ tr1 a tr2, tr = tr1 ++ tr2 ∧ p.Runs tr1 a ∧ Prog.Runs (f a) tr2 r := by
  obtain ⟨tr1, r', tr2, rfl, h1, h2⟩ := Prog.Runs.of_bind (p := ofProg p) h
  obtain ⟨tr3, a, tr4, rfl, h3, h4⟩ := Prog.Runs.of_bind (p := p) h1
  obtain ⟨rfl, rfl⟩ := Prog.runs_ret.mp h4
  exact ⟨tr3, a, tr2, by rw [List.append_nil], h3, h2⟩

end Fallible

end Conc
