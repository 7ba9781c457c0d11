import Mathlib.Data.List.Infix
import Mathlib.Data.List.Sort

/-!
# Leftmost-longest replacement

Scan a list from the left. Where one of the words `S` starts, the longest such word is replaced by `R`; elsewhere one element
is copied. The scan is first a list of pieces (`pieces`), then the text that the pieces stand for (`replaceAll`).

- a prefix that no word can still grow out of is scanned in the same way whatever follows (`longest_append`), which is what a
  scanner that sees its input in parts relies on;
- a word in the result lies in `R` or crosses an edge of a replacement (`infix_replaceAll_iff`): copied elements alone never
  spell one.
-/

namespace Text

variable {α : Type} {S : List (List α)} {R s t u x y : List α}

/-! ## Pieces -/

inductive Piece (α : Type)
  | copied (a : α)
  | replaced
  deriving DecidableEq

def Piece.text (R : List α) : Piece α → List α
  | .copied a => [a]
  | .replaced => R

def render (R : List α) (ps : List (Piece α)) : List α := ps.flatMap (Piece.text R)

variable {ps : List (Piece α)}

@[simp] theorem render_nil : render R [] = [] := rfl

@[simp] theorem render_cons {p : Piece α} : render R (p :: ps) = p.text R ++ render R ps := rfl

@[simp] theorem render_append {qs : List (Piece α)} : render R (ps ++ qs) = render R ps ++ render R qs :=
  List.flatMap_append

/-- `u` crosses an edge of a replacement in the text of `ps`: it starts before and ends after the point between `l` and `r`,
and the piece on one side of that point is a replacement. -/
def Straddles (R : List α) (ps : List (Piece α)) (u : List α) : Prop :=
  ∃ l r a b, ps = l ++ r ∧ (l.getLast? = some .replaced ∨ r.head? = some .replaced) ∧ u = a ++ b ∧ a ≠ [] ∧ b ≠ [] ∧
    a <:+ render R l ∧ b <+: render R r

theorem Straddles.isInfix (h : Straddles R ps u) : u <:+: render R ps := by
  obtain ⟨l, r, a, b, rfl, _, rfl, _, _, ⟨x, hx⟩, ⟨y, hy⟩⟩ := h
  refine ⟨x, y, ?_⟩
  rw [render_append, ← hx, ← hy]
  simp

theorem Straddles.cons (p : Piece α) (h : Straddles R ps u) : Straddles R (p :: ps) u := by
  obtain ⟨l, r, a, b, rfl, hedge, rfl, ha, hb, hx, hy⟩ := h
  refine ⟨p :: l, r, a, b, rfl, ?_, rfl, ha, hb, hx.trans ?_, hy⟩
  · rcases hedge with h | h
    · cases l with
      | nil => cases h
      | cons q l => exact .inl (by simpa using h)
    · exact .inr h
  · exact List.suffix_append _ _

theorem prefix_cases (h : u <+: render R ps) :
    u.map Piece.copied <+: ps ∨ ps.head? = some .replaced ∨
      ∃ l r v, ps = l ++ r ∧ r.head? = some .replaced ∧ u = render R l ++ v ∧ render R l ≠ [] ∧ v ≠ [] ∧ v <+: render R r := by
  induction ps generalizing u with
  | nil =>
    rw [render_nil, List.prefix_nil] at h
    subst h
    exact .inl List.nil_prefix
  | cons p ps ih =>
    cases p with
    | replaced => exact .inr (.inl rfl)
    | copied a =>
      rw [render_cons, Piece.text, List.singleton_append] at h
      rcases List.prefix_cons_iff.mp h with rfl | ⟨v, rfl, hv⟩
      · exact .inl List.nil_prefix
      by_cases hne : v = []
      · subst hne
        exact .inl (by simp)
      rcases ih hv with hc | hc | ⟨l, r, w, rfl, hr, rfl, hl, hw, hpre⟩
      · exact .inl (by simpa using hc)
      · exact .inr (.inr ⟨[.copied a], ps, v, rfl, hc, rfl, by simp [Piece.text], hne, hv⟩)
      · exact .inr (.inr ⟨.copied a :: l, r, w, rfl, hr, by simp [Piece.text], by simp [Piece.text], hw, hpre⟩)

theorem infix_cases (hne : u ≠ []) (h : u <:+: render R ps) :
    u.map Piece.copied <:+: ps ∨ u <:+: R ∨ Straddles R ps u := by
  induction ps with
  | nil =>
    rw [render_nil, List.infix_nil] at h
    exact absurd h hne
  | cons p ps ih =>
    have later : u <:+: render R ps →
        u.map Piece.copied <:+: p :: ps ∨ u <:+: R ∨ Straddles R (p :: ps) u := by
      intro h
      rcases ih h with hc | hc | hc
      · exact .inl (hc.trans (List.suffix_cons _ _).isInfix)
      · exact .inr (.inl hc)
      · exact .inr (.inr (hc.cons p))
    obtain ⟨x, y, hxy⟩ := h
    rw [render_cons, List.append_assoc] at hxy
    rcases List.append_eq_append_iff.mp hxy with ⟨z, hp, hrest⟩ | ⟨z, hx, hrest⟩
    · -- the word starts in the first piece, of which `z` is the rest
      by_cases hz : z = []
      · subst hz
        exact later ⟨[], y, hrest⟩
      cases p with
      | copied a =>
        have hx : x = [] := by
          rcases List.append_eq_singleton_iff.mp hp.symm with ⟨hx, _⟩ | ⟨_, hz'⟩
          · exact hx
          · exact absurd hz' hz
        have hpre : u <+: render R (.copied a :: ps) := ⟨y, by rw [hrest, render_cons, hp, hx]; rfl⟩
        rcases prefix_cases hpre with hc | hc | ⟨l, r, v, hps, hr, rfl, hl, hv, hv'⟩
        · exact .inl hc.isInfix
        · cases hc
        · exact .inr (.inr ⟨l, r, _, v, hps, .inr hr, rfl, hl, hv, List.suffix_rfl, hv'⟩)
      | replaced =>
        have hR : z <:+ R := ⟨x, hp.symm⟩
        rcases List.append_eq_append_iff.mp hrest with ⟨w, rfl, _⟩ | ⟨w, rfl, hw⟩
        · exact .inr (.inl ((List.prefix_append u w).isInfix.trans hR.isInfix))
        by_cases hw' : w = []
        · subst hw'
          exact .inr (.inl (by simpa using hR.isInfix))
        · exact .inr (.inr ⟨[.replaced], ps, z, w, rfl, .inl rfl, rfl, hz, hw', by simpa [Piece.text] using hR, y, hw.symm⟩)
    · exact later ⟨z, y, by rw [List.append_assoc]; exact hrest.symm⟩

variable [DecidableEq α]

/-! ## The longest word at a position -/

def longest (S : List (List α)) (s : List α) : Nat := ((S.filter fun u => decide (u <+: s)).map List.length).max?.getD 0

theorem le_longest (hu : u ∈ S) (hp : u <+: s) : u.length ≤ longest S s := by
  apply List.le_max?_getD_of_mem
  apply List.mem_map_of_mem
  simp [hu, hp]

theorem exists_of_longest (h : longest S s ≠ 0) : ∃ u ∈ S, u <+: s ∧ u.length = longest S s := by
  cases hm : ((S.filter fun u => decide (u <+: s)).map List.length).max? with
  | none => exact absurd (by simp [longest, hm]) h
  | some n =>
    obtain ⟨u, hu, hlen⟩ := List.mem_map.mp (List.max?_mem hm)
    simp only [List.mem_filter, decide_eq_true_eq] at hu
    exact ⟨u, hu.1, hu.2, by simp [longest, hm, hlen]⟩

theorem longest_le : longest S s ≤ s.length := by
  by_cases h : longest S s = 0
  · omega
  obtain ⟨u, _, hp, hlen⟩ := exists_of_longest h
  rw [← hlen]
  exact hp.length_le

theorem longest_eq {n : Nat} (hle : ∀ u ∈ S, u <+: s → u.length ≤ n) (hn : n ≠ 0 → ∃ u ∈ S, u <+: s ∧ u.length = n) :
    longest S s = n := by
  apply Nat.le_antisymm
  · by_cases h : longest S s = 0
    · omega
    obtain ⟨u, hu, hp, hlen⟩ := exists_of_longest h
    rw [← hlen]
    exact hle u hu hp
  by_cases h : n = 0
  · omega
  obtain ⟨u, hu, hp, hlen⟩ := hn h
  rw [← hlen]
  exact le_longest hu hp

theorem longest_cons : longest (u :: S) s = if u <+: s then max u.length (longest S s) else longest S s := by
  split
  · rename_i hp
    apply longest_eq
    · intro v hv hv'
      rcases List.mem_cons.mp hv with rfl | hv
      · exact Nat.le_max_left _ _
      · exact (le_longest hv hv').trans (Nat.le_max_right _ _)
    intro hn
    rcases Nat.le_total (longest S s) u.length with hle | hle
    · exact ⟨u, List.mem_cons_self, hp, (Nat.max_eq_left hle).symm⟩
    rw [Nat.max_eq_right hle] at hn ⊢
    obtain ⟨v, hv, hv', hlen⟩ := exists_of_longest hn
    exact ⟨v, List.mem_cons_of_mem _ hv, hv', hlen⟩
  rename_i hp
  simp [longest, hp]

theorem longest_congr {S' : List (List α)} (h : ∀ u, u ∈ S ↔ u ∈ S') : longest S s = longest S' s := by
  apply longest_eq
  · intro u hu hp
    exact le_longest ((h u).mp hu) hp
  intro hn
  obtain ⟨u, hu, hp, hlen⟩ := exists_of_longest hn
  exact ⟨u, (h u).mpr hu, hp, hlen⟩

/-- `s` may still grow into a word. -/
def Grows (S : List (List α)) (s : List α) : Prop := ∃ u ∈ S, s <+: u ∧ s.length < u.length

theorem longest_append (h : ¬ Grows S s) : longest S (s ++ t) = longest S s := by
  apply longest_eq
  · intro u hu hp
    apply le_longest hu
    rcases List.prefix_or_prefix_of_prefix hp (List.prefix_append s t) with h' | h'
    · exact h'
    rcases Nat.lt_or_ge s.length u.length with hlt | hge
    · exact absurd ⟨u, hu, h', hlt⟩ h
    · rw [h'.eq_of_length_le hge]
  intro hn
  obtain ⟨u, hu, hp, hlen⟩ := exists_of_longest hn
  exact ⟨u, hu, hp.trans (List.prefix_append s t), hlen⟩

/-! ## The scan -/

def pieces (S : List (List α)) : List α → List (Piece α)
  | [] => []
  | a :: s =>
    if longest S (a :: s) = 0 then .copied a :: pieces S s
    else .replaced :: pieces S ((a :: s).drop (longest S (a :: s)))
termination_by s => s.length
decreasing_by
  · simp
  simp only [List.length_drop, List.length_cons]
  omega

/-- Leftmost-longest replacement of the words `S` by `R`. -/
def replaceAll (S : List (List α)) (R s : List α) : List α := render R (pieces S s)

@[simp] theorem pieces_nil : pieces S [] = [] := by
  rw [pieces]

theorem pieces_copied {a : α} (h : longest S (a :: s) = 0) : pieces S (a :: s) = .copied a :: pieces S s := by
  rw [pieces, if_pos h]

theorem pieces_replaced (h : longest S s ≠ 0) : pieces S s = .replaced :: pieces S (s.drop (longest S s)) := by
  cases s with
  | nil => exact absurd (Nat.le_zero.mp longest_le) h
  | cons a s => rw [pieces, if_neg h]

@[simp] theorem replaceAll_nil : replaceAll S R [] = [] := by
  simp [replaceAll]

theorem replaceAll_copied {a : α} (h : longest S (a :: s) = 0) : replaceAll S R (a :: s) = a :: replaceAll S R s := by
  simp [replaceAll, pieces_copied h, Piece.text]

theorem replaceAll_replaced (h : longest S s ≠ 0) :
    replaceAll S R s = R ++ replaceAll S R (s.drop (longest S s)) := by
  simp [replaceAll, pieces_replaced h, Piece.text]

theorem pieces_congr {S' : List (List α)} (h : ∀ u, u ∈ S ↔ u ∈ S') (s : List α) : pieces S s = pieces S' s := by
  induction s using pieces.induct S with
  | case1 => simp
  | case2 a s hl ih =>
    have hl' := hl
    rw [longest_congr h] at hl'
    rw [pieces_copied hl, pieces_copied hl', ih]
  | case3 a s hl ih =>
    have hl' := hl
    rw [longest_congr h] at hl'
    rw [pieces_replaced hl, pieces_replaced hl', ih, longest_congr h]

/-! ## Words in the result -/

theorem pieces_append {l r : List (Piece α)} (h : pieces S s = l ++ r) : ∃ t, pieces S t = r := by
  induction l generalizing s with
  | nil => exact ⟨s, h⟩
  | cons p l ih =>
    cases s with
    | nil => simp at h
    | cons a s =>
      by_cases hl : longest S (a :: s) = 0
      · rw [pieces_copied hl] at h
        exact ih (List.cons.inj h).2
      rw [pieces_replaced hl] at h
      exact ih (List.cons.inj h).2

theorem prefix_of_copied {r : List (Piece α)} (h : pieces S s = u.map .copied ++ r) : u <+: s := by
  induction u generalizing s with
  | nil => exact List.nil_prefix
  | cons a u ih =>
    cases s with
    | nil => simp at h
    | cons b s =>
      by_cases hl : longest S (b :: s) = 0
      · rw [pieces_copied hl, List.map_cons, List.cons_append] at h
        obtain ⟨hab, hrest⟩ := List.cons.inj h
        cases hab
        exact (List.prefix_cons_inj a).mpr (ih hrest)
      rw [pieces_replaced hl, List.map_cons, List.cons_append] at h
      cases (List.cons.inj h).1

theorem not_copied (hu : u ∈ S) (hne : u ≠ []) : ¬ u.map Piece.copied <:+: pieces S s := by
  rintro ⟨l, r, h⟩
  rw [List.append_assoc] at h
  obtain ⟨t, ht⟩ := pieces_append h.symm
  have hlen : 0 < longest S t := (List.length_pos_iff.mpr hne).trans_le (le_longest hu (prefix_of_copied ht))
  cases u with
  | nil => exact hne rfl
  | cons a u =>
    rw [pieces_replaced (Nat.ne_of_gt hlen), List.map_cons, List.cons_append] at ht
    cases (List.cons.inj ht).1

/-- A word of `S` is in the result exactly if it crosses an edge of a replacement, or is in `R` and so in the text of one. -/
theorem infix_replaceAll_iff (hu : u ∈ S) (hne : u ≠ []) (hR : ¬ u <:+: R) :
    u <:+: replaceAll S R s ↔ Straddles R (pieces S s) u := by
  constructor
  · intro h
    rcases infix_cases hne h with hc | hc | hc
    · exact absurd hc (not_copied hu hne)
    · exact absurd hc hR
    · exact hc
  intro h
  exact h.isInfix

end Text
