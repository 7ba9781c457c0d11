import Autback.Conc.Prog

/-!
# Machines that interleave programs

A machine runs any number of threads over a shared state. A thread is the program of a label (`body`); each of its calls is
answered by `exec` in one step, which may also start a new thread. A program ends with `none` or with a label whose program the
thread goes on with, so a loop of the source is a label and its program one round.

The world (`World`) is the shared state, the table of live threads and the log of all calls and answers, newest first; a
configuration (`Conf`) adds what each thread has still to do. The events of a run are those that `Rules` allow.
-/

namespace Conc

inductive Entry (C : Type) (R : C → Type) (L : Type) : Type
  | call (t : Nat) (c : C) (r : R c)
  | start (t : Nat) (l : L)
  | jump (t : Nat) (l : L)
  | finish (t : Nat)
  | crash

/-- The shared state, the live threads (numbered in the order in which they start) and the log. -/
structure World (S C : Type) (R : C → Type) (L : Type) where
  st : S
  next : Nat
  procs : Nat → Option L
  log : List (Entry C R L)
  fresh : ∀ t, next ≤ t → procs t = none

namespace World

variable {S C : Type} {R : C → Type} {L : Type}

def init (st : S) : World S C R L := ⟨st, 0, fun _ => none, [], fun _ _ => rfl⟩

def moved (w : World S C R L) (st : S) : World S C R L := { w with st := st }

/-- Thread `t` has been answered `r` and the state is now `st`. -/
def called (w : World S C R L) (t : Nat) (c : C) (r : R c) (st : S) : World S C R L :=
  { w with st := st, log := .call t c r :: w.log }

/-- A new thread at label `l`. -/
def spawn (w : World S C R L) (l : L) : World S C R L where
  st := w.st
  next := w.next + 1
  procs := Function.update w.procs w.next (some l)
  log := .start w.next l :: w.log
  fresh t ht := by
    rw [Function.update_of_ne (by omega)]
    exact w.fresh t (by omega)

def spawn? (w : World S C R L) : Option L → World S C R L
  | none => w
  | some l => w.spawn l

def answer (w : World S C R L) (t : Nat) (c : C) (r : R c) (st : S) (sp : Option L) : World S C R L :=
  (w.called t c r st).spawn? sp

/-- Thread `t` goes on at label `l`. -/
def jump (w : World S C R L) (t : Nat) (l : L) (h : t < w.next) : World S C R L where
  st := w.st
  next := w.next
  procs := Function.update w.procs t (some l)
  log := .jump t l :: w.log
  fresh t' ht := by
    rw [Function.update_of_ne (by omega)]
    exact w.fresh t' ht

/-- Thread `t` is gone. -/
def finish (w : World S C R L) (t : Nat) : World S C R L where
  st := w.st
  next := w.next
  procs := Function.update w.procs t none
  log := .finish t :: w.log
  fresh t' ht := by
    by_cases h : t' = t
    · rw [h, Function.update_self]
    rw [Function.update_of_ne h]
    exact w.fresh t' ht

/-- The process is gone; `st` is what survives of the state. -/
def crashed (w : World S C R L) (st : S) : World S C R L where
  st := st
  next := w.next
  procs _ := none
  log := .crash :: w.log
  fresh _ _ := rfl

variable {t : Nat}

theorem lt_next {w : World S C R L} {l : L} (h : w.procs t = some l) : t < w.next := by
  by_contra hn
  rw [w.fresh t (by omega)] at h
  cases h

variable (w : World S C R L) (st : S) (l : L)

@[simp] theorem moved_st : (w.moved st).st = st := rfl

@[simp] theorem spawn_log : (w.spawn l).log = .start w.next l :: w.log := rfl
@[simp] theorem spawn_procs : (w.spawn l).procs = Function.update w.procs w.next (some l) := rfl

@[simp] theorem jump_log (h : t < w.next) : (w.jump t l h).log = .jump t l :: w.log := rfl
@[simp] theorem jump_procs (h : t < w.next) : (w.jump t l h).procs = Function.update w.procs t (some l) := rfl

@[simp] theorem finish_log (t : Nat) : (w.finish t).log = .finish t :: w.log := rfl
@[simp] theorem finish_procs (t : Nat) : (w.finish t).procs = Function.update w.procs t none := rfl

@[simp] theorem answer_st (t : Nat) (c : C) (r : R c) (st : S) (sp : Option L) : (w.answer t c r st sp).st = st := by
  cases sp <;> rfl

end World

structure Conf (S C : Type) (R : C → Type) (L : Type) extends World S C R L where
  code : Nat → Prog C R (Option L)

/-- What can happen next: a new thread, the next step of a thread (`ch` resolves what the call leaves open), a move of
the environment, a crash of the process. -/
inductive Event (L Ch E : Type) : Type
  | start (l : L)
  | run (t : Nat) (ch : Ch)
  | env (e : E)
  | crash

structure Machine (S C : Type) (R : C → Type) (L Ch E : Type) where
  /-- The program of a label. -/
  body : L → Prog C R (Option L)
  /-- The labels at which the environment may start a thread. -/
  entry : S → L → Bool
  /-- `exec t ch s c`: the answer to call `c` of thread `t`, the next state and the label of a thread to start; `none` if
  the call has to wait or `ch` does not fit it. -/
  exec : Nat → Ch → S → (c : C) → Option (R c × S × Option L)
  env : E → S → Option S
  /-- What survives a crash. -/
  crash : S → S

/-- Which events of a run are considered: a condition on the world before the event and, for a call, on its answer. -/
structure Rules (S C : Type) (R : C → Type) (L E : Type) where
  call : World S C R L → Nat → (c : C) → R c → Prop
  start : World S C R L → L → Prop
  env : World S C R L → E → Prop
  crash : World S C R L → Prop

def Rules.all {S C : Type} {R : C → Type} {L E : Type} : Rules S C R L E :=
  ⟨fun _ _ _ _ => True, fun _ _ => True, fun _ _ => True, fun _ => True⟩

namespace Machine

variable {S C : Type} {R : C → Type} {L Ch E : Type} (M : Machine S C R L Ch E)

def init (st : S) : Conf S C R L := ⟨World.init st, fun _ => .ret none⟩

def resume (σ : Conf S C R L) (t : Nat) (c : C) (k : R c → Prog C R (Option L)) :
    R c × S × Option L → Conf S C R L
  | (r, st, none) => ⟨σ.answer t c r st none, Function.update σ.code t (k r)⟩
  | (r, st, some l) =>
    ⟨σ.answer t c r st (some l), Function.update (Function.update σ.code t (k r)) σ.next (M.body l)⟩

def runThread (σ : Conf S C R L) (t : Nat) (ch : Ch) : Option (Conf S C R L) :=
  match σ.procs t with
  | none => none
  | some _ =>
    match σ.code t with
    | .call c k => (M.exec t ch σ.st c).map (M.resume σ t c k)
    | .ret none => some ⟨σ.finish t, σ.code⟩
    | .ret (some l) =>
      if h : t < σ.next then some ⟨σ.jump t l h, Function.update σ.code t (M.body l)⟩ else none

def step (σ : Conf S C R L) : Event L Ch E → Option (Conf S C R L)
  | .start l =>
    if M.entry σ.st l then some ⟨σ.spawn l, Function.update σ.code σ.next (M.body l)⟩ else none
  | .run t ch => M.runThread σ t ch
  | .env e => (M.env e σ.st).map fun st => ⟨σ.moved st, σ.code⟩
  | .crash => some ⟨σ.crashed (M.crash σ.st), σ.code⟩

def steps (σ : Conf S C R L) : List (Event L Ch E) → Option (Conf S C R L)
  | [] => some σ
  | ev :: evs => (M.step σ ev).bind fun σ' => steps σ' evs

/-- An event of `σ` that the rules allow. -/
inductive Step (K : Rules S C R L E) (σ : Conf S C R L) : Conf S C R L → Prop
  | start (l : L) (hl : M.entry σ.st l = true) (hK : K.start σ.toWorld l) :
      Step K σ ⟨σ.spawn l, Function.update σ.code σ.next (M.body l)⟩
  | call (t : Nat) (l : L) (c : C) (k : R c → Prog C R (Option L)) (ch : Ch) (a : R c × S × Option L)
      (hl : σ.procs t = some l) (hc : σ.code t = .call c k) (ha : M.exec t ch σ.st c = some a)
      (hK : K.call σ.toWorld t c a.1) : Step K σ (M.resume σ t c k a)
  | finish (t : Nat) (l : L) (hl : σ.procs t = some l) (hc : σ.code t = .ret none) :
      Step K σ ⟨σ.finish t, σ.code⟩
  | jump (t : Nat) (l l' : L) (hl : σ.procs t = some l) (hc : σ.code t = .ret (some l')) (h : t < σ.next) :
      Step K σ ⟨σ.jump t l' h, Function.update σ.code t (M.body l')⟩
  | env (e : E) (st : S) (he : M.env e σ.st = some st) (hK : K.env σ.toWorld e) : Step K σ ⟨σ.moved st, σ.code⟩
  | crash (hK : K.crash σ.toWorld) : Step K σ ⟨σ.crashed (M.crash σ.st), σ.code⟩

/-- The configurations that runs from `s0` reach with events that the rules allow. -/
inductive Reach (K : Rules S C R L E) (s0 : S) : Conf S C R L → Prop
  | init : Reach K s0 (Machine.init s0)
  | step {σ σ' : Conf S C R L} : Reach K s0 σ → M.Step K σ σ' → Reach K s0 σ'

variable {M}

variable {K : Rules S C R L E} {s0 : S} {σ : Conf S C R L} {p : World S C R L → Nat → (c : C) → R c → Bool}

theorem Reach.all (h : M.Reach K s0 σ) : M.Reach Rules.all s0 σ := by
  induction h with
  | init => exact .init
  | step _ hs ih =>
    refine ih.step ?_
    cases hs with
    | start l hl _ => exact .start l hl trivial
    | call t l c k ch a hl hc ha _ => exact .call t l c k ch a hl hc ha trivial
    | finish t l hl hc => exact .finish t l hl hc
    | jump t l l' hl hc h => exact .jump t l l' hl hc h
    | env e st he _ => exact .env e st he trivial
    | crash _ => exact .crash trivial

def Allowed (M : Machine S C R L Ch E) (K : Rules S C R L E) (σ : Conf S C R L) : Event L Ch E → Prop
  | .start l => K.start σ.toWorld l
  | .run t ch => ∀ c k a, σ.code t = .call c k → M.exec t ch σ.st c = some a → K.call σ.toWorld t c a.1
  | .env e => K.env σ.toWorld e
  | .crash => K.crash σ.toWorld

theorem allowed_all (ev : Event L Ch E) : M.Allowed Rules.all σ ev := by
  cases ev <;> simp [Allowed, Rules.all]

theorem step_of_eq {σ' : Conf S C R L} {ev : Event L Ch E} (hK : M.Allowed K σ ev) (h : M.step σ ev = some σ') :
    M.Step K σ σ' := by
  cases ev with
  | start l =>
    simp only [step, Option.ite_none_right_eq_some, Option.some.injEq] at h
    obtain ⟨hl, rfl⟩ := h
    exact .start l hl hK
  | run t ch =>
    simp only [step, runThread] at h
    split at h
    · cases h
    rename_i l hl
    split at h
    · rename_i c k hc
      obtain ⟨a, ha, rfl⟩ := Option.map_eq_some_iff.mp h
      exact .call t l c k ch a hl hc ha (hK c k a hc ha)
    · rename_i hc
      cases h
      exact .finish t l hl hc
    rename_i l' hc
    rw [dif_pos (World.lt_next hl)] at h
    cases h
    exact .jump t l l' hl hc (World.lt_next hl)
  | env e =>
    obtain ⟨st, he, rfl⟩ := Option.map_eq_some_iff.mp h
    exact .env e st he hK
  | crash =>
    cases h
    exact .crash hK

/-- What `steps` computes from a reachable configuration is reachable. -/
theorem reach_steps : ∀ {evs : List (Event L Ch E)} {σ σ' : Conf S C R L}, M.Reach Rules.all s0 σ →
    M.steps σ evs = some σ' → M.Reach Rules.all s0 σ'
  | [], _, _, h, he => by
    cases he
    exact h
  | ev :: _, _, _, h, he => by
    obtain ⟨σ1, h1, h2⟩ := Option.bind_eq_some_iff.mp he
    exact reach_steps (h.step (step_of_eq (allowed_all ev) h1)) h2

/-! Runs under rules can be computed as well, if there is a test `p` for the calls that they allow. -/

def accepts (M : Machine S C R L Ch E) (p : World S C R L → Nat → (c : C) → R c → Bool) (σ : Conf S C R L) :
    Event L Ch E → Bool
  | .run t ch =>
    match σ.code t with
    | .call c _ => (M.exec t ch σ.st c).all fun a => p σ.toWorld t c a.1
    | .ret _ => true
  | .crash => false
  | .start _ | .env _ => true

/-- A sequence of events that `p` accepts. -/
def stepsIf (M : Machine S C R L Ch E) (p : World S C R L → Nat → (c : C) → R c → Bool) (σ : Conf S C R L) :
    List (Event L Ch E) → Option (Conf S C R L)
  | [] => some σ
  | ev :: evs => if M.accepts p σ ev then (M.step σ ev).bind fun σ' => stepsIf M p σ' evs else none

theorem allowed_of_accepts (hstart : ∀ w l, K.start w l) (henv : ∀ w e, K.env w e)
    (hcall : ∀ w t c r, p w t c r = true → K.call w t c r) : ∀ {ev : Event L Ch E}, M.accepts p σ ev = true → M.Allowed K σ ev
  | .start l, _ => hstart _ l
  | .env e, _ => henv _ e
  | .run t ch, h => by
    intro c k a hc ha
    simp only [accepts, hc, ha, Option.all_some] at h
    exact hcall _ t c a.1 h

theorem reach_stepsIf (hstart : ∀ w l, K.start w l) (henv : ∀ w e, K.env w e)
    (hcall : ∀ w t c r, p w t c r = true → K.call w t c r) :
    ∀ {evs : List (Event L Ch E)} {σ σ' : Conf S C R L}, M.Reach K s0 σ → M.stepsIf p σ evs = some σ' →
      M.Reach K s0 σ'
  | [], _, _, h, he => by
    cases he
    exact h
  | ev :: _, _, _, h, he => by
    obtain ⟨hp, he⟩ := Option.ite_none_right_eq_some.mp he
    obtain ⟨σ1, h1, h2⟩ := Option.bind_eq_some_iff.mp he
    exact reach_stepsIf hstart henv hcall (h.step (step_of_eq (allowed_of_accepts hstart henv hcall hp) h1)) h2

/-! The same with a test `q` for the moves of the environment. -/

def acceptsAll (M : Machine S C R L Ch E) (p : World S C R L → Nat → (c : C) → R c → Bool) (q : World S C R L → E → Bool)
    (σ : Conf S C R L) : Event L Ch E → Bool
  | .env e => q σ.toWorld e
  | ev => M.accepts p σ ev

/-- A sequence of events that `p` and `q` accept. -/
def stepsIfAll (M : Machine S C R L Ch E) (p : World S C R L → Nat → (c : C) → R c → Bool) (q : World S C R L → E → Bool)
    (σ : Conf S C R L) : List (Event L Ch E) → Option (Conf S C R L)
  | [] => some σ
  | ev :: evs => if M.acceptsAll p q σ ev then (M.step σ ev).bind fun σ' => stepsIfAll M p q σ' evs else none

theorem reach_stepsIfAll {q : World S C R L → E → Bool} (hstart : ∀ w l, K.start w l) (henv : ∀ w e, q w e = true → K.env w e)
    (hcall : ∀ w t c r, p w t c r = true → K.call w t c r) :
    ∀ {evs : List (Event L Ch E)} {σ σ' : Conf S C R L}, M.Reach K s0 σ → M.stepsIfAll p q σ evs = some σ' →
      M.Reach K s0 σ'
  | [], _, _, h, he => by
    cases he
    exact h
  | ev :: _, σ, _, h, he => by
    obtain ⟨hp, he⟩ := Option.ite_none_right_eq_some.mp he
    obtain ⟨σ1, h1, h2⟩ := Option.bind_eq_some_iff.mp he
    have hall : M.Allowed K σ ev := by
      cases ev with
      | start l => exact hstart _ l
      | env e => exact henv _ e hp
      | run t ch =>
        intro c k a hc ha
        simp only [acceptsAll, accepts, hc, ha, Option.all_some] at hp
        exact hcall _ t c a.1 hp
      | crash => cases hp
    exact reach_stepsIfAll hstart henv hcall (h.step (step_of_eq hall h1)) h2

end Machine

end Conc
