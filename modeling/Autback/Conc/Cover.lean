import Autback.Conc.Ghost

/-!
# Duties that some thread always has

A state may need something done (`Need s i`), and a thread whose ghost is `g` may be the one that will see to it
(`Cov g s i`). The invariant `Covered` says that whatever is needed, some live thread sees to it. `Cover` lists what has to
be shown of the single events: who makes something necessary takes it on or starts a thread that does, a thread passes its
duties on before it ends, and no step of another thread makes a thread forget a duty.
-/

namespace Conc

variable {S C : Type} {R : C → Type} {L G Ch E ι : Type} {M : Machine S C R L Ch E} {γ : Ghost C R L G}
  {K : Rules S C R L E} {s0 : S} {J : World S C R L → Prop} {V : S → Prop} {Sound : G → S → Prop}
  {Need : S → ι → Prop} {Cov : G → S → ι → Prop}

def Ghost.Covered (γ : Ghost C R L G) (Need : S → ι → Prop) (Cov : G → S → ι → Prop) (w : World S C R L) : Prop :=
  ∀ i, Need w.st i → ∃ t g, γ.ghosts w t = some g ∧ Cov g w.st i

structure Cover (M : Machine S C R L Ch E) (K : Rules S C R L E) (γ : Ghost C R L G) (s0 : S)
    (J : World S C R L → Prop) (V : S → Prop) (Sound : G → S → Prop) (Need : S → ι → Prop)
    (Cov : G → S → ι → Prop) : Prop extends Local M K γ s0 J V Sound where
  idle : ∀ i, ¬ Need s0 i
  /-- After a call the caller sees to what is needed, or the thread that it started, or somebody who saw to it, or to
  something else, before. -/
  duty : ∀ w t g c ch r s sp i, J w → V w.st → Sound g w.st → γ.ghosts w t = some g → γ.guard g c →
    M.exec t ch w.st c = some (r, s, sp) → K.call w t c r → Need s i →
    Cov (γ.next g c r) s i ∨ (∃ l, sp = some l ∧ Cov (γ.start l) s i) ∨
      ∃ j, Need w.st j ∧ ¬ Cov g w.st j ∧ ∀ g', Sound g' w.st → Cov g' w.st j → Cov g' s i
  leave : ∀ s g i, V s → Sound g s → γ.exit g none → Need s i → ¬ Cov g s i
  goOn : ∀ s g l i, V s → Sound g s → γ.exit g (some l) → Need s i → Cov g s i → Cov (γ.start l) s i
  around : ∀ w e s i, J w → V w.st → M.env e w.st = some s → K.env w e → Need s i →
    Need w.st i ∧ ∀ g, Sound g w.st → Cov g w.st i → Cov g s i
  gone : ∀ w i, J w → V w.st → K.crash w → ¬ Need (M.crash w.st) i

theorem Cover.covered_call (h : Cover M K γ s0 J V Sound Need Cov) {w : World S C R L} {t : Nat} {g : G} {c : C} {ch : Ch}
    {r : R c} {s : S} {sp : Option L} (hJ : J w) (hI : γ.Holds V Sound w) (hcov : γ.Covered Need Cov w)
    (hfits : γ.Fits w) (hg : γ.ghosts w t = some g) (hguard : γ.guard g c) (hexec : M.exec t ch w.st c = some (r, s, sp))
    (hK : K.call w t c r) : γ.Covered Need Cov (w.answer t c r s sp) := by
  intro i hn
  rw [World.answer_st] at hn ⊢
  rcases h.duty w t g c ch r s sp i hJ hI.1 (hI.2 t g hg) hg hguard hexec hK hn with hself | ⟨l, rfl, hnew⟩ | ⟨j, hn, hno, hkeep⟩
  · exact ⟨t, _, Ghost.ghosts_answer_self hfits hg, hself⟩
  · refine ⟨w.next, γ.start l, ?_, hnew⟩
    rw [Ghost.ghosts_answer_some r s l hg, Function.update_self]
  -- somebody else saw to `j`, and now sees to `i`
  obtain ⟨t', g', hg', hc⟩ := hcov j hn
  have hne : t' ≠ t := by
    rintro rfl
    rw [hg] at hg'
    cases hg'
    exact hno hc
  exact ⟨t', g', Ghost.ghosts_answer_of_ne hfits hg hne hg', hkeep g' (hI.2 t' g' hg') hc⟩

theorem Cover.keeps (h : Cover M K γ s0 J V Sound Need Cov) :
    Keeps M K γ s0 J fun w => γ.Holds V Sound w ∧ γ.Covered Need Cov w where
  init := ⟨h.toLocal.keeps.init, fun i hn => absurd hn (h.idle i)⟩
  start w l hJ hI hfits hl hK := by
    refine ⟨h.toLocal.keeps.start w l hJ hI.1 hfits hl hK, fun i hn => ?_⟩
    obtain ⟨t, g, hg, hc⟩ := hI.2 i hn
    refine ⟨t, g, ?_, hc⟩
    have := hfits.lt_next hg
    rw [Ghost.ghosts_spawn, Function.update_of_ne (by omega), hg]
  call w t g c ch r s sp hJ hI hfits hg hguard hexec hK := by
    obtain ⟨hfact, hhold⟩ := h.toLocal.keeps.call w t g c ch r s sp hJ hI.1 hfits hg hguard hexec hK
    exact ⟨hfact, hhold, h.covered_call hJ hI.1 hI.2 hfits hg hguard hexec hK⟩
  finish w t g hJ hI hfits hg hexit := by
    refine ⟨h.toLocal.keeps.finish w t g hJ hI.1 hfits hg hexit, fun i hn => ?_⟩
    obtain ⟨t', g', hg', hc⟩ := hI.2 i hn
    have hne : t' ≠ t := by
      rintro rfl
      rw [hg] at hg'
      cases hg'
      exact h.leave _ g i hI.1.1 (hI.1.2 _ _ hg) hexit hn hc
    refine ⟨t', g', ?_, hc⟩
    rw [Ghost.ghosts_finish, Function.update_of_ne hne, hg']
  jump w t g l hlt hJ hI hfits hg hexit := by
    refine ⟨h.toLocal.keeps.jump w t g l hlt hJ hI.1 hfits hg hexit, fun i hn => ?_⟩
    obtain ⟨t', g', hg', hc⟩ := hI.2 i hn
    by_cases hne : t' = t
    · subst hne
      rw [hg] at hg'
      cases hg'
      refine ⟨t', γ.start l, ?_, h.goOn _ g l i hI.1.1 (hI.1.2 _ _ hg) hexit hn hc⟩
      rw [Ghost.ghosts_jump, Function.update_self]
    refine ⟨t', g', ?_, hc⟩
    rw [Ghost.ghosts_jump, Function.update_of_ne hne, hg']
  env w e s hJ hI hfits he hK := by
    refine ⟨h.toLocal.keeps.env w e s hJ hI.1 hfits he hK, fun i hn => ?_⟩
    obtain ⟨hn, hkeep⟩ := h.around w e s i hJ hI.1.1 he hK hn
    obtain ⟨t, g, hg, hc⟩ := hI.2 i hn
    exact ⟨t, g, hg, hkeep g (hI.1.2 t g hg) hc⟩
  crash w hJ hI hfits hK :=
    ⟨h.toLocal.keeps.crash w hJ hI.1 hfits hK, fun i hn => absurd hn (h.gone w i hJ hI.1.1 hK)⟩

end Conc
