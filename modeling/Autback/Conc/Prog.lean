import Mathlib.Logic.Function.Basic

/-!
# Programs that make calls

A program is a tree: it ends with a value or makes a call `c : C` and goes on with the answer, a value of `R c`
(`Prog`). What a call does is not part of the program; a machine (`Machine.lean`) answers it, one call at a time, so that
the calls of several programs interleave.

`Fallible` is the same with an error channel, as code has it that returns a value or an error and usually passes an
error on to its caller.
-/

namespace Conc

/-- A program over calls `C` with answers `R`. -/
inductive Prog (C : Type) (R : C → Type) (α : Type) : Type
  | ret (a : α)
  | call (c : C) (k : R c → Prog C R α)

namespace Prog

variable {C : Type} {R : C → Type} {α β γ : Type}

/-- Run `p`, then go on with its value. -/
def bind : Prog C R α → (α → Prog C R β) → Prog C R β
  | ret a, f => f a
  | call c k, f => call c fun r => (k r).bind f

instance : Monad (Prog C R) where
  pure := ret
  bind := bind

/-- Every value that the program can end with, whatever the answers to its calls, satisfies `P`. -/
def Returns (P : α → Prop) : Prog C R α → Prop
  | ret a => P a
  | call _ k => ∀ r, (k r).Returns P

def lift (c : C) : Prog C R (R c) := call c ret

theorem returns_bind {P : β → Prop} {f : α → Prog C R β} (h : ∀ a, (f a).Returns P) :
    ∀ p : Prog C R α, (p >>= f).Returns P
  | ret a => h a
  | call _ k => fun r => returns_bind h (k r)

end Prog

def Fallible (C : Type) (R : C → Type) (ε α : Type) : Type := Prog C R (Except ε α)

namespace Fallible

variable {C : Type} {R : C → Type} {ε α β : Type}

/-- Go on with the value of `p`, or end with its error. -/
def bind (p : Fallible C R ε α) (f : α → Fallible C R ε β) : Fallible C R ε β :=
  Prog.bind p fun
    | .ok a => f a
    | .error e => .ret (.error e)

instance : Monad (Fallible C R ε) where
  pure a := Prog.ret (.ok a)
  bind := bind

def throw (e : ε) : Fallible C R ε α := Prog.ret (.error e)

/-- Hand the result of `p`, value or error, to the code that follows. -/
def attempt (p : Fallible C R ε α) : Fallible C R ε (Except ε α) := Prog.bind p fun r => .ret (.ok r)

def ofProg (p : Prog C R α) : Fallible C R ε α := Prog.bind p fun a => .ret (.ok a)

def ofExcept (r : Except ε α) : Fallible C R ε α := Prog.ret r

def mapError {ε' : Type} (f : ε → ε') (p : Fallible C R ε α) : Fallible C R ε' α :=
  Prog.bind p fun
    | .ok a => .ret (.ok a)
    | .error e => .ret (.error (f e))

end Fallible

end Conc
