import Autback.Conc.Prog
import Mathlib.Logic.Relation

/-!
# Programs that read a state which others change

The calls of a program are reads: which answers a read may get depends on the state at that moment, and between two reads the
state may move. If every move that changes what some reads answer also raises a revision, and the revision is the same before and
after an execution, then the program has read a single state (`Guards.answers_of_exec`).
-/

namespace Conc

variable {S C : Type} {R : C → Type} {α β ε : Type}

namespace Prog

/-- The program makes only calls that satisfy `P`. -/
def Only (P : C → Prop) : Prog C R α → Prop
  | ret _ => True
  | call c k => P c ∧ ∀ r, (k r).Only P

theorem Only.mono {P Q : C → Prop} (himp : ∀ c, P c → Q c) : ∀ {p : Prog C R α}, p.Only P → p.Only Q
  | ret _, _ => trivial
  | call c _, h => ⟨himp c h.1, fun r => Only.mono himp (h.2 r)⟩

theorem Only.bind {P : C → Prop} {f : α → Prog C R β} (hf : ∀ a, (f a).Only P) :
    ∀ {p : Prog C R α}, p.Only P → (Prog.bind p f).Only P
  | ret a, _ => hf a
  | call _ _, h => ⟨h.1, fun r => Only.bind hf (h.2 r)⟩

end Prog

namespace Fallible

variable {P : C → Prop} {p : Fallible C R ε α}

theorem only_bind {f : α → Fallible C R ε β} (hp : Prog.Only P p)
    (hf : ∀ a, Prog.Only P (f a)) : Prog.Only P (p >>= f : Fallible C R ε β) := by
  apply Prog.Only.bind _ hp
  intro r
  cases r with
  | ok a => exact hf a
  | error e => trivial

end Fallible

abbrev Trace (C : Type) (R : C → Type) := List (Σ c : C, R c)

/-- The program runs from state `s` to state `t` with the reads `tr` and returns `a`. -/
inductive Exec (move : S → S → Prop) (answers : S → (c : C) → R c → Prop) : S → Prog C R α → Trace C R → α → S → Prop
  | ret (s : S) (a : α) : Exec move answers s (.ret a) [] a s
  | move {s s' t : S} {p : Prog C R α} {tr : Trace C R} {a : α} (hmove : move s s') (h : Exec move answers s' p tr a t) :
    Exec move answers s p tr a t
  | call {s t : S} {c : C} {k : R c → Prog C R α} {tr : Trace C R} {a : α} (r : R c) (hr : answers s c r)
      (h : Exec move answers s (k r) tr a t) : Exec move answers s (.call c k) (⟨c, r⟩ :: tr) a t

section Executions

variable {move : S → S → Prop} {answers : S → (c : C) → R c → Prop} {s t : S} {tr : Trace C R} {a : α} {p : Prog C R α}

theorem Exec.moves (h : Exec move answers s p tr a t) : Relation.ReflTransGen move s t := by
  induction h with
  | ret => exact .refl
  | move hmove _ ih => exact .head hmove ih
  | call _ _ _ ih => exact ih

theorem Exec.of_ret {b : α} (h : Exec move answers s (.ret a) tr b t) : b = a ∧ tr = [] := by
  generalize hp : Prog.ret a = p at h
  induction h with
  | ret s b =>
    cases hp
    exact ⟨rfl, rfl⟩
  | move _ _ ih => exact ih hp
  | call _ _ _ _ => cases hp

theorem Exec.of_call {c : C} {k : R c → Prog C R α} (h : Exec move answers s (.call c k) tr a t) :
    ∃ u r tr', Relation.ReflTransGen move s u ∧ answers u c r ∧ tr = ⟨c, r⟩ :: tr' ∧ Exec move answers u (k r) tr' a t := by
  generalize hp : Prog.call c k = p at h
  induction h with
  | ret => cases hp
  | move hmove _ ih =>
    obtain ⟨u, r, tr', hmov, hr, htr, h⟩ := ih hp
    exact ⟨u, r, tr', .head hmove hmov, hr, htr, h⟩
  | call r hr h _ =>
    cases hp
    exact ⟨_, r, _, .refl, hr, rfl, h⟩

theorem Exec.of_bind {f : α → Prog C R β} {b : β} (h : Exec move answers s (Prog.bind p f) tr b t) :
    ∃ tr1 a u tr2, tr = tr1 ++ tr2 ∧ Exec move answers s p tr1 a u ∧ Exec move answers u (f a) tr2 b t := by
  generalize hq : Prog.bind p f = q at h
  induction h generalizing p with
  | ret s b =>
    cases p with
    | ret a =>
      have hf : f a = .ret b := hq
      refine ⟨[], a, s, [], rfl, .ret s a, ?_⟩
      rw [hf]
      exact .ret s b
    | call c k => cases hq
  | move hmove h ih =>
    obtain ⟨tr1, a, u, tr2, rfl, h1, h2⟩ := ih hq
    exact ⟨tr1, a, u, tr2, rfl, .move hmove h1, h2⟩
  | @call s t c k tr b r hr h ih =>
    cases p with
    | ret a =>
      have hf : f a = .call c k := hq
      refine ⟨[], a, s, ⟨c, r⟩ :: tr, rfl, .ret s a, ?_⟩
      rw [hf]
      exact .call r hr h
    | call c' k' =>
      cases hq
      obtain ⟨tr1, a, u, tr2, rfl, h1, h2⟩ := ih rfl
      exact ⟨⟨c, r⟩ :: tr1, a, u, tr2, rfl, .call r hr h1, h2⟩

theorem Exec.of_bind_ok {p : Fallible C R ε α} {f : α → Fallible C R ε β} {b : β}
    (h : Exec move answers s (p >>= f : Fallible C R ε β) tr (.ok b) t) :
    ∃ tr1 a u tr2, tr = tr1 ++ tr2 ∧ Exec move answers s p tr1 (.ok a) u ∧ Exec move answers u (f a) tr2 (.ok b) t := by
  obtain ⟨tr1, r, u, tr2, htr, h1, h2⟩ := Exec.of_bind h
  cases r with
  | ok a => exact ⟨tr1, a, u, tr2, htr, h1, h2⟩
  | error e => cases h2.of_ret.1

theorem Exec.only {P : C → Prop} (h : Exec move answers s p tr a t) (hp : p.Only P) :
    ∀ x ∈ tr, P x.1 := by
  induction h with
  | ret => exact nofun
  | move _ _ ih => exact ih hp
  | call r _ _ ih =>
    intro x hx
    rcases List.mem_cons.mp hx with rfl | hx
    · exact hp.1
    · exact ih (hp.2 r) x hx

/-- If all its answers are answers in state `u`, the program can be run in that state alone. -/
theorem Exec.atomic (h : Exec move answers s p tr a t) {u : S} (hall : ∀ x ∈ tr, answers u x.1 x.2) :
    Exec (fun _ _ => False) answers u p tr a u := by
  induction h with
  | ret => exact .ret u _
  | move _ _ ih => exact ih hall
  | call r _ _ ih =>
    exact .call r (hall _ List.mem_cons_self) (ih fun x hx => hall x (List.mem_cons_of_mem _ hx))

/-- Run a program with the answers that `f` gives. -/
def Prog.run (f : (c : C) → R c) : Prog C R α → Trace C R × α
  | .ret a => ([], a)
  | .call c k => (⟨c, f c⟩ :: ((k (f c)).run f).1, ((k (f c)).run f).2)

theorem Exec.run {f : (c : C) → R c} (hf : ∀ c, answers s c (f c)) :
    ∀ p : Prog C R α, Exec move answers s p (p.run f).1 (p.run f).2 s
  | .ret a => .ret s a
  | .call c k => .call (f c) (hf c) (Exec.run hf (k (f c)))

end Executions

/-! ## Revisions -/

/-- The revision `rev` guards the reads `steady`: it never decreases, and where it stays the same, so do their answers. -/
structure Guards (move : S → S → Prop) (answers : S → (c : C) → R c → Prop) (rev : S → Nat) (steady : C → Prop) : Prop where
  le : ∀ s s', move s s' → rev s ≤ rev s'
  same : ∀ s s', move s s' → rev s = rev s' → ∀ c, steady c → ∀ r, answers s c r ↔ answers s' c r

section Revisions

variable {move : S → S → Prop} {answers : S → (c : C) → R c → Prop} {rev : S → Nat} {steady : C → Prop} {s t : S}

theorem Guards.le_of_moves (hg : Guards move answers rev steady) (h : Relation.ReflTransGen move s t) : rev s ≤ rev t := by
  induction h with
  | refl => exact Nat.le_refl _
  | tail _ hmove ih => exact Nat.le_trans ih (hg.le _ _ hmove)

theorem Guards.answers_iff (hg : Guards move answers rev steady) (h : Relation.ReflTransGen move s t) (heq : rev s = rev t)
    {c : C} (hc : steady c) (r : R c) : answers s c r ↔ answers t c r := by
  induction h with
  | refl => exact Iff.rfl
  | @tail u t h hmove ih =>
    have hle := hg.le_of_moves h
    have hle' := hg.le u t hmove
    exact (ih (by omega)).trans (hg.same u t hmove (by omega) c hc r)

theorem Guards.answers_of_exec (hg : Guards move answers rev steady) {p : Prog C R α} {tr : Trace C R} {a : α}
    (h : Exec move answers s p tr a t) (heq : rev s = rev t) : ∀ x ∈ tr, steady x.1 → answers t x.1 x.2 := by
  induction h with
  | ret => exact nofun
  | @move s s' t p tr a hmove h ih =>
    have hle := hg.le s s' hmove
    have hle' := hg.le_of_moves h.moves
    exact ih (by omega)
  | @call s t c k tr a r hr h ih =>
    intro x hx hx'
    rcases List.mem_cons.mp hx with rfl | hx
    · exact (hg.answers_iff h.moves heq hx' r).mp hr
    · exact ih heq x hx hx'

end Revisions

end Conc
