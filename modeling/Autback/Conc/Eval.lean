import Autback.Conc.Reads

/-!
# A program on its own

Where one program runs and nothing else, its calls are answered one after the other by a function of a state (`Prog.eval`). The
calls and answers of that run are its trace (`Prog.calls`). What a run does depends on the answers to the calls that the program
can make only (`eval_congr`), and what all of these calls keep is kept by the run (`eval_keeps`).
-/

namespace Conc

namespace Prog

variable {S C : Type} {R : C → Type} {α β : Type} {f g : S → (c : C) → R c × S} {P : C → Prop}

def eval (f : S → (c : C) → R c × S) : S → Prog C R α → α × S
  | s, ret a => (a, s)
  | s, call c k => eval f (f s c).2 (k (f s c).1)

def calls (f : S → (c : C) → R c × S) : S → Prog C R α → Trace C R
  | _, ret _ => []
  | s, call c k => ⟨c, (f s c).1⟩ :: calls f (f s c).2 (k (f s c).1)

theorem eval_bind (h : α → Prog C R β) : ∀ (p : Prog C R α) (s : S),
    eval f s (p >>= h) = eval f (eval f s p).2 (h (eval f s p).1)
  | ret _, _ => rfl
  | call c k, s => eval_bind h (k (f s c).1) (f s c).2

theorem calls_bind (h : α → Prog C R β) : ∀ (p : Prog C R α) (s : S),
    calls f s (p >>= h) = calls f s p ++ calls f (eval f s p).2 (h (eval f s p).1)
  | ret _, _ => rfl
  | call c k, s => congrArg (_ :: ·) (calls_bind h (k (f s c).1) (f s c).2)

theorem eval_congr (hfg : ∀ s c, P c → f s c = g s c) : ∀ {p : Prog C R α}, p.Only P → ∀ s, eval f s p = eval g s p
  | ret _, _, _ => rfl
  | call c k, hp, s => by
    rw [eval, eval, hfg s c hp.1]
    exact eval_congr hfg (hp.2 _) _

theorem eval_keeps {I : S → Prop} (hI : ∀ s c, P c → I s → I (f s c).2) :
    ∀ {p : Prog C R α}, p.Only P → ∀ {s}, I s → I (eval f s p).2
  | ret _, _, _, h => h
  | call c _, hp, s, h => eval_keeps hI (hp.2 _) (hI s c hp.1 h)

theorem Only.of_mem_calls {x : Σ c : C, R c} : ∀ {p : Prog C R α}, p.Only P → ∀ {s}, x ∈ calls f s p → P x.1
  | ret _, _, _, hx => by cases hx
  | call c k, hp, s, hx => by
    rcases List.mem_cons.mp hx with rfl | hx
    · exact hp.1
    · exact Only.of_mem_calls (hp.2 _) hx

theorem mem_calls_of_bind {x : Σ c : C, R c} {p : Prog C R α} {h : α → Prog C R β} {s : S} (hp : p.Only P) (hx : ¬ P x.1)
    (hmem : x ∈ calls f s (p >>= h)) : x ∈ calls f (eval f s p).2 (h (eval f s p).1) := by
  rw [calls_bind] at hmem
  rcases List.mem_append.mp hmem with hmem | hmem
  · exact absurd (hp.of_mem_calls hmem) hx
  · exact hmem

end Prog

end Conc
