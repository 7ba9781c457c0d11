import Autback.Conc.Machine

/-!
# Reasoning about interleaved programs

What a thread has done so far is summed up by a ghost, a value that each of its calls and answers updates (`Ghost.next`). A
program is safe from a ghost (`Ghost.Safe`) if every call it makes satisfies the guard of the ghost at that point, for all
answers that its calls may get (`Ghost.fact`), and it may end with the ghost at its end. Most code leaves the ghost where it
is (`Within`).

In every run of a machine whose programs are safe, the ghost of a thread (`Ghost.of`) is one from which the rest of its program
is safe. So an invariant has to be kept only by calls that satisfy the guard of the caller's ghost, and has to show that the
answers are the expected ones (`Keeps`, `run_invariant`).
-/

namespace Conc

open Function (update update_apply update_of_ne update_self)

structure Ghost (C : Type) (R : C → Type) (L G : Type) where
  /-- The ghost of a thread at a label. -/
  start : L → G
  /-- The ghost after a call and its answer. -/
  next : G → (c : C) → R c → G
  /-- The calls that a thread makes. -/
  guard : G → C → Prop
  /-- The answers that a call gets. -/
  fact : G → (c : C) → R c → Prop
  /-- The ghosts with which a thread ends or goes on at a label. -/
  exit : G → Option L → Prop

namespace Ghost

variable {S C : Type} {R : C → Type} {L G G' Ch E ε ε' α β : Type} (γ : Ghost C R L G)

/-- Every call of the program satisfies the guard, and `Q` holds of the ghost and the value at its end. -/
def Safe : G → Prog C R α → (G → α → Prop) → Prop
  | g, .ret a, Q => Q g a
  | g, .call c k, Q => γ.guard g c ∧ ∀ r, γ.fact g c r → Safe (γ.next g c r) (k r) Q

/-- A call that does not leave the set `A` of ghosts. -/
def Still (A : G → Prop) (c : C) : Prop := ∀ g, A g → γ.guard g c ∧ ∀ r, γ.fact g c r → A (γ.next g c r)

/-- A program that does not leave the set `A` of ghosts. -/
def Within (A : G → Prop) (p : Prog C R α) : Prop := ∀ g, A g → γ.Safe g p fun g' _ => A g'

/-- The ghost of thread `t`, if it is live. -/
def of (t : Nat) : List (Entry C R L) → Option G
  | [] => none
  | .call t' c r :: log => if t' = t then (of t log).map fun g => γ.next g c r else of t log
  | .start t' l :: log => if t' = t then some (γ.start l) else of t log
  | .jump t' l :: log => if t' = t then some (γ.start l) else of t log
  | .finish t' :: log => if t' = t then none else of t log
  | .crash :: _ => none

/-- The ghost that thread `t` has or had last. -/
def last (t : Nat) : List (Entry C R L) → Option G
  | [] => none
  | .call t' c r :: log => if t' = t then (last t log).map fun g => γ.next g c r else last t log
  | .start t' l :: log => if t' = t then some (γ.start l) else last t log
  | .jump t' l :: log => if t' = t then some (γ.start l) else last t log
  | .finish _ :: log => last t log
  | .crash :: log => last t log

def ghosts (w : World S C R L) (t : Nat) : Option G := γ.of t w.log

def Fits (w : World S C R L) : Prop := ∀ t, (γ.ghosts w t).isSome = (w.procs t).isSome

variable {γ}

/-! ## Rules for programs -/

section Safe

variable {g : G} {Q Q' : G → α → Prop}

theorem Safe.mono (hQ : ∀ g a, Q g a → Q' g a) : ∀ {p : Prog C R α} {g : G}, γ.Safe g p Q → γ.Safe g p Q'
  | .ret _, _, h => hQ _ _ h
  | .call _ _, _, ⟨hg, hk⟩ => ⟨hg, fun r hr => (hk r hr).mono hQ⟩

theorem Safe.and_returns {P : α → Prop} : ∀ {p : Prog C R α} {g : G}, γ.Safe g p Q → p.Returns P →
    γ.Safe g p fun g' a => Q g' a ∧ P a
  | .ret _, _, h, hP => ⟨h, hP⟩
  | .call _ _, _, ⟨hg, hk⟩, hP => ⟨hg, fun r hr => (hk r hr).and_returns (hP r)⟩

theorem safe_bind {Q : G → β → Prop} {f : α → Prog C R β} :
    ∀ {p : Prog C R α} {g : G}, γ.Safe g (p >>= f) Q ↔ γ.Safe g p fun g' a => γ.Safe g' (f a) Q
  | .ret _, _ => Iff.rfl
  | .call _ _, _ => and_congr Iff.rfl (forall_congr' fun _ => imp_congr_right fun _ => safe_bind)

theorem safe_ite {c : Prop} [Decidable c] {p q : Prog C R α} (hp : c → γ.Safe g p Q) (hq : ¬ c → γ.Safe g q Q) :
    γ.Safe g (if c then p else q) Q := by
  split
  · exact hp ‹_›
  · exact hq ‹_›

variable {p : Fallible C R ε α}

theorem safe_try {Q : G → Except ε β → Prop} {f : α → Fallible C R ε β} :
    γ.Safe g (p >>= f : Fallible C R ε β) Q ↔ γ.Safe g p fun g' r => match r with
      | .ok a => γ.Safe g' (f a) Q
      | .error e => Q g' (.error e) := by
  refine safe_bind.trans ⟨fun h => h.mono ?_, fun h => h.mono ?_⟩
  · rintro g' (e | a) h <;> exact h
  · rintro g' (e | a) h <;> exact h

theorem safe_attempt {Q : G → Except ε (Except ε α) → Prop} :
    γ.Safe g (Fallible.attempt p) Q ↔ γ.Safe g p fun g' r => Q g' (.ok r) :=
  safe_bind

theorem safe_ofProg {Q : G → Except ε α → Prop} {p : Prog C R α} :
    γ.Safe g (Fallible.ofProg p) Q ↔ γ.Safe g p fun g' a => Q g' (.ok a) :=
  safe_bind

theorem safe_mapError {Q : G → Except ε' α → Prop} {f : ε → ε'} :
    γ.Safe g (Fallible.mapError f p) Q ↔ γ.Safe g p fun g' r => Q g' (r.mapError f) := by
  refine safe_bind.trans ⟨fun h => h.mono ?_, fun h => h.mono ?_⟩
  · rintro g' (e | a) h <;> exact h
  · rintro g' (e | a) h <;> exact h

end Safe

section Within

variable {A : G → Prop}

theorem within_pure (a : α) : γ.Within A (pure a : Prog C R α) := fun _ h => h

theorem within_lift {c : C} (h : γ.Still A c) : γ.Within A (Prog.lift c) := h

theorem within_bind {p : Prog C R α} {f : α → Prog C R β} (hp : γ.Within A p) (hf : ∀ a, γ.Within A (f a)) :
    γ.Within A (p >>= f) :=
  fun g hg => safe_bind.mpr ((hp g hg).mono fun g' a hg' => hf a g' hg')

theorem within_of_forall_still (h : ∀ c, γ.Still A c) : ∀ p : Prog C R α, γ.Within A p
  | .ret _ => fun _ hg => hg
  | .call c k => fun g hg => ⟨(h c g hg).1, fun r hr => within_of_forall_still h (k r) _ ((h c g hg).2 r hr)⟩

theorem within_ok (a : α) : γ.Within A (pure a : Fallible C R ε α) := fun _ h => h

theorem within_throw (e : ε) : γ.Within A (Fallible.throw e : Fallible C R ε α) := fun _ h => h

theorem within_ofExcept (r : Except ε α) : γ.Within A (Fallible.ofExcept r : Fallible C R ε α) := fun _ h => h

variable {p : Fallible C R ε α}

theorem within_try {f : α → Fallible C R ε β} (hp : γ.Within A p) (hf : ∀ a, γ.Within A (f a)) :
    γ.Within A (p >>= f : Fallible C R ε β) := by
  refine fun g hg => safe_try.mpr ((hp g hg).mono ?_)
  rintro g' (e | a) hg'
  · exact hg'
  · exact hf a g' hg'

theorem within_attempt (hp : γ.Within A p) : γ.Within A (Fallible.attempt p) :=
  fun g hg => safe_attempt.mpr (hp g hg)

theorem within_ofProg {p : Prog C R α} (hp : γ.Within A p) : γ.Within A (Fallible.ofProg p : Fallible C R ε α) :=
  fun g hg => safe_ofProg.mpr (hp g hg)

theorem within_mapError {f : ε → ε'} (hp : γ.Within A p) : γ.Within A (Fallible.mapError f p) :=
  fun g hg => safe_mapError.mpr (hp g hg)

end Within

/-! ## Ghosts after an event -/

section Events

variable {w : World S C R L} {t : Nat}

theorem Fits.eq_none (h : γ.Fits w) (ht : w.next ≤ t) : γ.ghosts w t = none := by
  have := h t
  rw [w.fresh t ht] at this
  simpa using this

variable {g : G} {c : C} {r : R c} {st : S} {sp : Option L} {t' : Nat}

theorem Fits.lt_next (h : γ.Fits w) (hg : γ.ghosts w t = some g) : t < w.next := by
  by_contra hn
  rw [h.eq_none (by omega)] at hg
  cases hg

@[simp] theorem ghosts_spawn (l : L) :
    γ.ghosts (w.spawn l) = update (γ.ghosts w) w.next (some (γ.start l)) := by
  funext t'
  by_cases h : w.next = t'
  · subst h
    simp [ghosts, of]
  rw [update_of_ne (Ne.symm h)]
  simp [ghosts, of, h]

@[simp] theorem ghosts_jump (l : L) (ht : t < w.next) :
    γ.ghosts (w.jump t l ht) = update (γ.ghosts w) t (some (γ.start l)) := by
  funext t'
  by_cases h : t = t'
  · subst h
    simp [ghosts, of]
  rw [update_of_ne (Ne.symm h)]
  simp [ghosts, of, h]

@[simp] theorem ghosts_finish : γ.ghosts (w.finish t) = update (γ.ghosts w) t none := by
  funext t'
  by_cases h : t = t'
  · subst h
    simp [ghosts, of]
  rw [update_of_ne (Ne.symm h)]
  simp [ghosts, of, h]

theorem ghosts_called (r : R c) (st : S) (hg : γ.ghosts w t = some g) :
    γ.ghosts (w.called t c r st) = update (γ.ghosts w) t (some (γ.next g c r)) := by
  funext t'
  by_cases h : t = t'
  · subst h
    rw [ghosts] at hg
    simp [ghosts, of, World.called, hg]
  rw [update_of_ne (Ne.symm h)]
  simp [ghosts, of, World.called, h]

theorem ghosts_answer_none (r : R c) (st : S) (hg : γ.ghosts w t = some g) :
    γ.ghosts (w.answer t c r st none) = update (γ.ghosts w) t (some (γ.next g c r)) :=
  ghosts_called r st hg

theorem ghosts_answer_some (r : R c) (st : S) (l : L) (hg : γ.ghosts w t = some g) : γ.ghosts (w.answer t c r st (some l)) =
      update (update (γ.ghosts w) t (some (γ.next g c r))) w.next (some (γ.start l)) := by
  rw [World.answer, World.spawn?, ghosts_spawn, ghosts_called r st hg]
  rfl

theorem ghosts_answer_cases {g' : G} (hg : γ.ghosts w t = some g) (h : γ.ghosts (w.answer t c r st sp) t' = some g') :
    (t' = t ∧ g' = γ.next g c r) ∨ (t' ≠ t ∧ γ.ghosts w t' = some g') ∨ ∃ l, sp = some l ∧ g' = γ.start l := by
  cases sp with
  | none =>
    rw [ghosts_answer_none r st hg, update_apply] at h
    split at h
    · cases h
      exact .inl ⟨‹_›, rfl⟩
    · exact .inr (.inl ⟨‹_›, h⟩)
  | some l =>
    rw [ghosts_answer_some r st l hg, update_apply, update_apply] at h
    split at h
    · cases h
      exact .inr (.inr ⟨l, rfl, rfl⟩)
    split at h
    · cases h
      exact .inl ⟨‹_›, rfl⟩
    · exact .inr (.inl ⟨‹_›, h⟩)

theorem ghosts_answer_self (hfits : γ.Fits w) (hg : γ.ghosts w t = some g) :
    γ.ghosts (w.answer t c r st sp) t = some (γ.next g c r) := by
  cases sp with
  | none => rw [ghosts_answer_none r st hg, update_self]
  | some l =>
    have := hfits.lt_next hg
    rw [ghosts_answer_some r st l hg, update_of_ne (by omega), update_self]

theorem ghosts_answer_of_ne {g' : G} (hfits : γ.Fits w) (hg : γ.ghosts w t = some g) (hne : t' ≠ t)
    (hg' : γ.ghosts w t' = some g') : γ.ghosts (w.answer t c r st sp) t' = some g' := by
  cases sp with
  | none => rw [ghosts_answer_none r st hg, update_of_ne hne, hg']
  | some l =>
    have := hfits.lt_next hg'
    rw [ghosts_answer_some r st l hg, update_of_ne (by omega), update_of_ne hne, hg']

theorem ghosts_spawn_cases {l : L} (h : γ.ghosts (w.spawn l) t' = some g) : g = γ.start l ∨ γ.ghosts w t' = some g := by
  rw [ghosts_spawn, update_apply] at h
  split at h
  · cases h
    exact .inl rfl
  · exact .inr h

theorem ghosts_jump_cases {l : L} {ht : t < w.next} (h : γ.ghosts (w.jump t l ht) t' = some g) :
    (t' = t ∧ g = γ.start l) ∨ (t' ≠ t ∧ γ.ghosts w t' = some g) := by
  rw [ghosts_jump, update_apply] at h
  split at h
  · cases h
    exact .inl ⟨‹_›, rfl⟩
  · exact .inr ⟨‹_›, h⟩

theorem ghosts_finish_cases (h : γ.ghosts (w.finish t) t' = some g) : t' ≠ t ∧ γ.ghosts w t' = some g := by
  rw [ghosts_finish, update_apply] at h
  split at h
  · cases h
  · exact ⟨‹_›, h⟩

end Events

end Ghost

/-! ## Runs -/

section Runs

variable {S C : Type} {R : C → Type} {L G Ch E : Type} {M : Machine S C R L Ch E} {γ : Ghost C R L G}
  {K : Rules S C R L E} {s0 : S}

/-- What has to be shown of an invariant `I`, given another one, `J`: it holds at the beginning, every event keeps it and
calls are answered as the ghost expects. -/
structure Keeps (M : Machine S C R L Ch E) (K : Rules S C R L E) (γ : Ghost C R L G) (s0 : S)
    (J I : World S C R L → Prop) : Prop where
  init : I (World.init s0)
  start : ∀ w l, J w → I w → γ.Fits w → M.entry w.st l = true → K.start w l → I (w.spawn l)
  call : ∀ w t g c ch r st sp, J w → I w → γ.Fits w → γ.ghosts w t = some g → γ.guard g c →
    M.exec t ch w.st c = some (r, st, sp) → K.call w t c r → γ.fact g c r ∧ I (w.answer t c r st sp)
  finish : ∀ w t g, J w → I w → γ.Fits w → γ.ghosts w t = some g → γ.exit g none → I (w.finish t)
  jump : ∀ w t g l h, J w → I w → γ.Fits w → γ.ghosts w t = some g → γ.exit g (some l) → I (w.jump t l h)
  env : ∀ w e st, J w → I w → γ.Fits w → M.env e w.st = some st → K.env w e → I (w.moved st)
  crash : ∀ w, J w → I w → γ.Fits w → K.crash w → I (w.crashed (M.crash w.st))

def Ghost.Fit (γ : Ghost C R L G) (o : Option G) (live : Option L) (p : Prog C R (Option L)) : Prop :=
  match o, live with
  | none, none => True
  | some g, some _ => γ.Safe g p γ.exit
  | _, _ => False

variable {l : L} {σ : Conf S C R L} {J : World S C R L → Prop} {V : S → Prop}

theorem Ghost.Fit.eq_some {o : Option G} {p : Prog C R (Option L)} (h : γ.Fit o (some l) p) :
    ∃ g, o = some g ∧ γ.Safe g p γ.exit := by
  cases o with
  | none => exact h.elim
  | some g => exact ⟨g, rfl, h⟩

def Ghost.Follows (γ : Ghost C R L G) (σ : Conf S C R L) : Prop :=
  ∀ t, γ.Fit (γ.ghosts σ.toWorld t) (σ.procs t) (σ.code t)

theorem Ghost.Follows.fits (h : γ.Follows σ) : γ.Fits σ.toWorld := by
  intro t
  have := h t
  cases hg : γ.ghosts σ.toWorld t <;> cases hp : σ.procs t <;> simp_all [Ghost.Fit]

theorem Ghost.Follows.resume (hbody : ∀ l, γ.Safe (γ.start l) (M.body l) γ.exit) {t0 : Nat} {c : C}
    {k : R c → Prog C R (Option L)} {g : G} {r : R c} {st : S} {sp : Option L} (h : γ.Follows σ) (hl : σ.procs t0 = some l)
    (hg : γ.ghosts σ.toWorld t0 = some g) (hk : γ.Safe (γ.next g c r) (k r) γ.exit) :
    γ.Follows (M.resume σ t0 c k (r, st, sp)) := by
  cases sp with
  | none =>
    intro t
    change γ.Fit (γ.ghosts (σ.answer t0 c r st none) t) (σ.procs t) (update σ.code t0 (k r) t)
    rw [ghosts_answer_none r st hg, update_apply, update_apply]
    split
    · rename_i ht
      rw [ht, hl]
      exact hk
    · exact h t
  | some l' =>
    intro t
    change γ.Fit (γ.ghosts (σ.answer t0 c r st (some l')) t) (update σ.procs σ.next (some l') t)
      (update (update σ.code t0 (k r)) σ.next (M.body l') t)
    rw [ghosts_answer_some r st l' hg]
    simp only [update_apply]
    by_cases ht : t = σ.next
    · simp only [ht, if_true]
      exact hbody l'
    simp only [ht, if_false]
    split
    · rename_i ht'
      rw [ht', hl]
      exact hk
    · exact h t

/-- **Invariants of runs.** If all programs are safe, an invariant that they keep holds in every configuration reached,
and so does what the ghosts say about the threads. -/
theorem run_invariant {I : World S C R L → Prop} (hbody : ∀ l, γ.Safe (γ.start l) (M.body l) γ.exit)
    (hJ : ∀ σ, M.Reach K s0 σ → J σ.toWorld) (hI : Keeps M K γ s0 J I) (h : M.Reach K s0 σ) : γ.Follows σ ∧ I σ.toWorld := by
  induction h with
  | init => exact ⟨fun _ => trivial, hI.init⟩
  | @step σ σ' hr hs ih =>
    obtain ⟨hfollows, hinv⟩ := ih
    have hj := hJ σ hr
    have hfit := hfollows.fits
    cases hs with
    | start l hl hK =>
      refine ⟨fun t => ?_, hI.start _ l hj hinv hfit hl hK⟩
      simp only [Ghost.ghosts_spawn, World.spawn_procs, update_apply]
      split
      · exact hbody l
      · exact hfollows t
    | call t l c k ch a hl hc ha hK =>
      obtain ⟨r, st, sp⟩ := a
      obtain ⟨g, hg, hsafe⟩ := (hl ▸ hfollows t).eq_some
      rw [hc] at hsafe
      obtain ⟨hfact, hinv'⟩ := hI.call _ t g c ch r st sp hj hinv hfit hg hsafe.1 ha hK
      refine ⟨hfollows.resume hbody hl hg (hsafe.2 r hfact), ?_⟩
      cases sp <;> exact hinv'
    | finish t0 l hl hc =>
      obtain ⟨g, hg, hsafe⟩ := (hl ▸ hfollows t0).eq_some
      rw [hc] at hsafe
      refine ⟨fun t => ?_, hI.finish _ t0 g hj hinv hfit hg hsafe⟩
      simp only [Ghost.ghosts_finish, World.finish_procs, update_apply]
      split
      · trivial
      · exact hfollows t
    | jump t0 l l' hl hc hlt =>
      obtain ⟨g, hg, hsafe⟩ := (hl ▸ hfollows t0).eq_some
      rw [hc] at hsafe
      refine ⟨fun t => ?_, hI.jump _ t0 g l' hlt hj hinv hfit hg hsafe⟩
      simp only [Ghost.ghosts_jump, World.jump_procs, update_apply]
      split
      · exact hbody l'
      · exact hfollows t
    | env e st he hK => exact ⟨hfollows, hI.env _ e st hj hinv hfit he hK⟩
    | crash hK => exact ⟨fun _ => trivial, hI.crash _ hj hinv hfit hK⟩

theorem Ghost.part_eq_start {β : Type} {π : G → β} (hnext : ∀ g c r, π (γ.next g c r) = π g) (h : M.Reach K s0 σ) {t : Nat}
    {g : G} (hg : γ.ghosts σ.toWorld t = some g) (hl : σ.procs t = some l) : π g = π (γ.start l) := by
  induction h generalizing t g l with
  | init => cases hl
  | @step σ σ' hr hs ih =>
    have called : ∀ {t0 : Nat} {c : C} {r : R c} {st : S}, γ.ghosts (σ.called t0 c r st) t = some g →
        σ.procs t = some l → π g = π (γ.start l) := by
      intro t0 c r st hg hl
      simp only [ghosts, World.called, of] at hg
      split at hg
      · obtain ⟨g0, hg0, rfl⟩ := Option.map_eq_some_iff.mp hg
        rw [hnext]
        exact ih hg0 hl
      · exact ih hg hl
    have updated : ∀ {t0 : Nat} {l0 : L} {gs : Nat → Option G} {ps : Nat → Option L},
        (gs t = some g → ps t = some l → π g = π (γ.start l)) →
        update gs t0 (some (γ.start l0)) t = some g → update ps t0 (some l0) t = some l →
        π g = π (γ.start l) := by
      intro t0 l0 gs ps hold hg hl
      rw [update_apply] at hg hl
      split at hg
      · cases hg
        simp_all
      · simp_all
    cases hs with
    | start l0 _ _ | jump t0 _ l0 _ _ hlt => exact updated ih (by simpa using hg) (by simpa using hl)
    | call t0 l0 c k ch a _ _ _ _ =>
      obtain ⟨r, st, sp⟩ := a
      cases sp with
      | none => exact called hg hl
      | some l1 =>
        change γ.ghosts ((σ.called t0 c r st).spawn l1) t = some g at hg
        rw [ghosts_spawn] at hg
        exact updated called hg hl
    | finish t0 _ _ _ =>
      simp only [ghosts_finish, update_apply] at hg
      split at hg
      · cases hg
      refine ih hg ?_
      simpa [update_apply, *] using hl
    | env e st _ _ => exact ih hg hl
    | crash _ => cases hl

def Ghost.HoldsAt (γ : Ghost C R L G) (V : S → Prop) (Sound : Nat → G → S → Prop) (w : World S C R L) : Prop :=
  V w.st ∧ ∀ t g, γ.ghosts w t = some g → Sound t g w.st

/-- What has to be shown of such an invariant: a thread establishes what its own ghost says, and no step of another
breaks it. -/
structure LocalAt (M : Machine S C R L Ch E) (K : Rules S C R L E) (γ : Ghost C R L G) (s0 : S)
    (J : World S C R L → Prop) (V : S → Prop) (Sound : Nat → G → S → Prop) : Prop where
  init : V s0
  start : ∀ s l t, V s → M.entry s l = true → Sound t (γ.start l) s
  call : ∀ w t g c ch r s sp, γ.Fits w → J w → V w.st → γ.ghosts w t = some g → Sound t g w.st → γ.guard g c →
    M.exec t ch w.st c = some (r, s, sp) → K.call w t c r → γ.fact g c r ∧ V s ∧ Sound t (γ.next g c r) s ∧
      ∀ t' g', t' ≠ t → γ.ghosts w t' = some g' → Sound t' g' w.st → Sound t' g' s
  spawn : ∀ t g c ch r s s' l t', γ.guard g c → M.exec t ch s c = some (r, s', some l) → Sound t' (γ.start l) s'
  jump : ∀ s g l t, V s → Sound t g s → γ.exit g (some l) → Sound t (γ.start l) s
  env : ∀ w e s, J w → V w.st → M.env e w.st = some s → K.env w e → V s ∧ ∀ t g, Sound t g w.st → Sound t g s
  crash : ∀ w, J w → V w.st → K.crash w → V (M.crash w.st)

theorem LocalAt.keeps {Sound : Nat → G → S → Prop} (h : LocalAt M K γ s0 J V Sound) : Keeps M K γ s0 J (γ.HoldsAt V Sound) where
  init := ⟨h.init, nofun⟩
  start w l _ hI _ hl _ := by
    refine ⟨hI.1, fun t g hg => ?_⟩
    rcases Ghost.ghosts_spawn_cases hg with rfl | hg
    · exact h.start _ l t hI.1 hl
    · exact hI.2 t g hg
  call w t g c ch r st sp hJ hI hfits hg hguard hexec hK := by
    obtain ⟨hfact, hV, hself, hother⟩ := h.call w t g c ch r st sp hfits hJ hI.1 hg (hI.2 t g hg) hguard hexec hK
    refine ⟨hfact, by rw [World.answer_st]; exact hV, fun t' g' hg' => ?_⟩
    rw [World.answer_st]
    rcases Ghost.ghosts_answer_cases hg hg' with ⟨rfl, rfl⟩ | ⟨hne, hg'⟩ | ⟨l, rfl, rfl⟩
    · exact hself
    · exact hother t' g' hne hg' (hI.2 t' g' hg')
    · exact h.spawn t g c ch r w.st st l t' hguard hexec
  finish w t g _ hI _ _ _ := ⟨hI.1, fun t' g' hg' => hI.2 t' g' (Ghost.ghosts_finish_cases hg').2⟩
  jump w t g l hlt _ hI _ hg hexit := by
    refine ⟨hI.1, fun t' g' hg' => ?_⟩
    rcases Ghost.ghosts_jump_cases hg' with ⟨rfl, rfl⟩ | ⟨-, hg'⟩
    · exact h.jump _ g l t' hI.1 (hI.2 t' g hg) hexit
    · exact hI.2 t' g' hg'
  env w e st hJ hI _ he hK := by
    obtain ⟨hV, hother⟩ := h.env w e st hJ hI.1 he hK
    exact ⟨hV, fun t g hg => hother t g (hI.2 t g hg)⟩
  crash w hJ hI _ hK := ⟨h.crash w hJ hI.1 hK, nofun⟩

def Logged (Q : (c : C) → R c → S → Prop) (w : World S C R L) : Prop :=
  ∀ t c r, Entry.call t c r ∈ w.log → Q c r w.st

theorem Keeps.logged {I : World S C R L → Prop} {Q : (c : C) → R c → S → Prop} (h : Keeps M K γ s0 J I)
    (hcall : ∀ w t g c ch r s sp, J w → I w → γ.ghosts w t = some g → γ.guard g c → M.exec t ch w.st c = some (r, s, sp) →
      K.call w t c r → Q c r s ∧ ∀ c' r', Q c' r' w.st → Q c' r' s)
    (henv : ∀ w e s, J w → I w → M.env e w.st = some s → K.env w e → ∀ c r, Q c r w.st → Q c r s)
    (hcras : ∀ w, J w → I w → K.crash w → ∀ c r, Q c r w.st → Q c r (M.crash w.st)) :
    Keeps M K γ s0 J fun w => I w ∧ Logged Q w where
  init := ⟨h.init, nofun⟩
  start w l hJ hI hfits hl hK := by
    refine ⟨h.start w l hJ hI.1 hfits hl hK, fun t c r hm => ?_⟩
    rcases List.mem_cons.mp hm with hm | hm
    · cases hm
    · exact hI.2 t c r hm
  call w t g c ch r s sp hJ hI hfits hg hguard hexec hK := by
    obtain ⟨hfact, hI'⟩ := h.call w t g c ch r s sp hJ hI.1 hfits hg hguard hexec hK
    obtain ⟨hnew, hold⟩ := hcall w t g c ch r s sp hJ hI.1 hg hguard hexec hK
    refine ⟨hfact, hI', fun t' c' r' hm => ?_⟩
    rw [World.answer_st]
    have hm : Entry.call t' c' r' ∈ Entry.call t c r :: w.log := by
      cases sp with
      | none => exact hm
      | some l =>
        rcases List.mem_cons.mp hm with hm | hm
        · cases hm
        · exact hm
    rcases List.mem_cons.mp hm with hm | hm
    · cases hm
      exact hnew
    · exact hold c' r' (hI.2 t' c' r' hm)
  finish w t g hJ hI hfits hg hexit := by
    refine ⟨h.finish w t g hJ hI.1 hfits hg hexit, fun t' c r hm => ?_⟩
    rcases List.mem_cons.mp hm with hm | hm
    · cases hm
    · exact hI.2 t' c r hm
  jump w t g l hlt hJ hI hfits hg hexit := by
    refine ⟨h.jump w t g l hlt hJ hI.1 hfits hg hexit, fun t' c r hm => ?_⟩
    rcases List.mem_cons.mp hm with hm | hm
    · cases hm
    · exact hI.2 t' c r hm
  env w e s hJ hI hfits he hK :=
    ⟨h.env w e s hJ hI.1 hfits he hK, fun t c r hm => henv w e s hJ hI.1 he hK c r (hI.2 t c r hm)⟩
  crash w hJ hI hfits hK := by
    refine ⟨h.crash w hJ hI.1 hfits hK, fun t c r hm => ?_⟩
    rcases List.mem_cons.mp hm with hm | hm
    · cases hm
    · exact hcras w hJ hI.1 hK c r (hI.2 t c r hm)

theorem Ghost.last_of_eq_some {t : Nat} {g : G} : ∀ {log : List (Entry C R L)}, γ.of t log = some g → γ.last t log = some g
  | [], h => by cases h
  | .call t' c r :: log, h => by
    simp only [Ghost.of, Ghost.last] at h ⊢
    split at h
    · obtain ⟨g', hg', rfl⟩ := Option.map_eq_some_iff.mp h
      simp [*, Ghost.last_of_eq_some hg']
    · simp [*, Ghost.last_of_eq_some h]
  | .start t' l :: log, h | .jump t' l :: log, h => by
    simp only [Ghost.of, Ghost.last] at h ⊢
    split at h
    · simp [*]
    · simp [*, Ghost.last_of_eq_some h]
  | .finish t' :: log, h => by
    simp only [Ghost.of, Ghost.last] at h ⊢
    split at h
    · cases h
    · exact Ghost.last_of_eq_some h
  | .crash :: log, h => by cases h

/-- What holds of the state and, for each thread, live or gone, of its last ghost and the state. -/
def Ghost.HoldsLast (γ : Ghost C R L G) (V : S → Prop) (Sound : G → S → Prop) (w : World S C R L) : Prop :=
  V w.st ∧ ∀ t g, γ.last t w.log = some g → Sound g w.st

structure Lasting (M : Machine S C R L Ch E) (K : Rules S C R L E) (γ : Ghost C R L G) (s0 : S) (V : S → Prop)
    (Sound : G → S → Prop) : Prop where
  init : V s0
  start : ∀ s l, Sound (γ.start l) s
  call : ∀ w t g c ch r s sp, V w.st → Sound g w.st → γ.guard g c → M.exec t ch w.st c = some (r, s, sp) →
    K.call w t c r → γ.fact g c r ∧ V s ∧ Sound (γ.next g c r) s ∧ ∀ g', Sound g' w.st → Sound g' s
  env : ∀ w e s, V w.st → M.env e w.st = some s → K.env w e → V s ∧ ∀ g, Sound g w.st → Sound g s
  crash : ∀ w, V w.st → K.crash w → V (M.crash w.st) ∧ ∀ g, Sound g w.st → Sound g (M.crash w.st)

theorem Lasting.keeps {Sound : G → S → Prop} (h : Lasting M K γ s0 V Sound) :
    Keeps M K γ s0 (fun _ => True) (γ.HoldsLast V Sound) where
  init := ⟨h.init, nofun⟩
  start w l _ hI _ _ _ := by
    refine ⟨hI.1, fun t g hg => ?_⟩
    simp only [World.spawn_log, Ghost.last] at hg
    split at hg
    · cases hg
      exact h.start _ l
    · exact hI.2 t g hg
  call w t g c ch r s sp _ hI _ hg hguard hexec hK := by
    have hlast := Ghost.last_of_eq_some hg
    obtain ⟨hfact, hV, hself, hother⟩ := h.call w t g c ch r s sp hI.1 (hI.2 t g hlast) hguard hexec hK
    refine ⟨hfact, by rw [World.answer_st]; exact hV, fun t' g' hg' => ?_⟩
    rw [World.answer_st]
    have hcall : ∀ {t' g'}, γ.last t' (.call t c r :: w.log) = some g' → Sound g' s := by
      intro t' g' hg'
      simp only [Ghost.last] at hg'
      split at hg'
      · rename_i ht
        rw [← ht, hlast] at hg'
        cases hg'
        exact hself
      · exact hother g' (hI.2 t' g' hg')
    cases sp with
    | none => exact hcall hg'
    | some l =>
      change γ.last t' (.start w.next l :: .call t c r :: w.log) = some g' at hg'
      rw [Ghost.last] at hg'
      split at hg'
      · cases hg'
        exact h.start _ l
      · exact hcall hg'
  finish w t g _ hI _ _ _ := hI
  jump w t g l hlt _ hI _ hg hexit := by
    refine ⟨hI.1, fun t' g' hg' => ?_⟩
    simp only [World.jump_log, Ghost.last] at hg'
    split at hg'
    · cases hg'
      exact h.start _ l
    · exact hI.2 t' g' hg'
  env w e s _ hI _ he hK := by
    obtain ⟨hV, hother⟩ := h.env w e s hI.1 he hK
    exact ⟨hV, fun t g hg => hother g (hI.2 t g hg)⟩
  crash w _ hI _ hK := by
    obtain ⟨hV, hother⟩ := h.crash w hI.1 hK
    exact ⟨hV, fun t g hg => hother g (hI.2 t g hg)⟩

def Ghost.Holds (γ : Ghost C R L G) (V : S → Prop) (Sound : G → S → Prop) (w : World S C R L) : Prop :=
  V w.st ∧ ∀ t g, γ.ghosts w t = some g → Sound g w.st

structure Local (M : Machine S C R L Ch E) (K : Rules S C R L E) (γ : Ghost C R L G) (s0 : S)
    (J : World S C R L → Prop) (V : S → Prop) (Sound : G → S → Prop) : Prop where
  init : V s0
  start : ∀ s l, V s → M.entry s l = true → Sound (γ.start l) s
  call : ∀ w t g c ch r s sp, J w → V w.st → Sound g w.st → γ.guard g c → M.exec t ch w.st c = some (r, s, sp) →
    K.call w t c r → γ.fact g c r ∧ V s ∧ Sound (γ.next g c r) s ∧ ∀ g', Sound g' w.st → Sound g' s
  spawn : ∀ t g c ch r s s' l, γ.guard g c → M.exec t ch s c = some (r, s', some l) → Sound (γ.start l) s'
  jump : ∀ s g l, V s → Sound g s → γ.exit g (some l) → Sound (γ.start l) s
  env : ∀ w e s, J w → V w.st → M.env e w.st = some s → K.env w e → V s ∧ ∀ g, Sound g w.st → Sound g s
  crash : ∀ w, J w → V w.st → K.crash w → V (M.crash w.st)

theorem Local.keeps {Sound : G → S → Prop} (h : Local M K γ s0 J V Sound) : Keeps M K γ s0 J (γ.Holds V Sound) := by
  have hat : LocalAt M K γ s0 J V fun _ => Sound :=
    { init := h.init
      start := fun s l _ => h.start s l
      call := fun w t g c ch r s sp _ hJ hV _ hs hguard hexec hK => by
        obtain ⟨hfact, hV', hself, hother⟩ := h.call w t g c ch r s sp hJ hV hs hguard hexec hK
        exact ⟨hfact, hV', hself, fun _ g' _ _ hs' => hother g' hs'⟩
      spawn := fun t g c ch r s s' l _ => h.spawn t g c ch r s s' l
      jump := fun s g l _ => h.jump s g l
      env := fun w e s hJ hV he hK => by
        obtain ⟨hV', hother⟩ := h.env w e s hJ hV he hK
        exact ⟨hV', fun _ => hother⟩
      crash := h.crash }
  exact hat.keeps

end Runs

end Conc
