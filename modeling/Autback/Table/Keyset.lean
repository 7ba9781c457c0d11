import Mathlib.Data.List.Sort
import Mathlib.Data.List.Perm.Subperm
import Mathlib.Tactic.Common

/-!
# Keyset pagination

A listing by pages of a set of keys that may grow between two pages. A page holds the largest keys below the cursor (`page`); the
next cursor is the last key of a page that leaves some out (`cursor`). For every growing sequence of sets and all page sizes, what
has been listed is strictly descending (`listed_pairwise`), a listing that has ended holds every key that was there at the first
page (`listed_complete`), and if the set stops growing, the listing ends (`cursor_ends`).
-/

namespace Keyset

variable {κ : Type} [LinearOrder κ]

def below (c : Option κ) (k : κ) : Bool := c.all fun c => decide (k < c)

/-- The first `n` keys below the cursor, in descending order. -/
def page (keys : List κ) (c : Option κ) (n : Nat) : List κ := ((keys.filter (below c)).insertionSort (· ≥ ·)).take n

/-! ## One page -/

section Page

variable {keys : List κ} {c : Option κ} {n : Nat} {k : κ}

theorem below_some {b : κ} : below (some b) k = true ↔ k < b := by
  simp [below]

theorem sorted_pairwise (hkeys : keys.Nodup) (c : Option κ) :
    ((keys.filter (below c)).insertionSort (· ≥ ·)).Pairwise (· > ·) := by
  have hsort := List.pairwise_insertionSort (· ≥ ·) (keys.filter (below c))
  have hnodup : ((keys.filter (below c)).insertionSort (· ≥ ·)).Nodup :=
    (List.perm_insertionSort _ _).nodup_iff.mpr (hkeys.filter _)
  exact (hsort.and hnodup).imp fun {a b} h => lt_of_le_of_ne h.1 (Ne.symm h.2)

theorem page_pairwise (hkeys : keys.Nodup) : (page keys c n).Pairwise (· > ·) :=
  (sorted_pairwise hkeys c).sublist (List.take_sublist _ _)

theorem mem_page (hk : k ∈ page keys c n) : k ∈ keys ∧ below c k = true :=
  List.mem_filter.mp ((List.mem_insertionSort _).mp (List.mem_of_mem_take hk))

theorem page_full (h : n < (page keys c (n + 1)).length) : (page keys c n).length = n := by
  rw [page, List.length_take] at h ⊢
  omega

theorem page_all (h : ¬ n < (page keys c (n + 1)).length) (hk : k ∈ keys) (hbelow : below c k = true) : k ∈ page keys c n := by
  rw [page, List.length_take] at h
  rw [page, List.take_of_length_le (by omega), List.mem_insertionSort]
  exact List.mem_filter.mpr ⟨hk, hbelow⟩

theorem mem_page_or_lt (hkeys : keys.Nodup) (n : Nat) (hk : k ∈ keys) (hbelow : below c k = true) :
    k ∈ page keys c n ∨ ∀ x ∈ page keys c n, k < x := by
  have hsort : k ∈ (keys.filter (below c)).insertionSort (· ≥ ·) :=
    (List.mem_insertionSort _).mpr (List.mem_filter.mpr ⟨hk, hbelow⟩)
  have hpair := sorted_pairwise hkeys c
  rw [← List.take_append_drop n ((keys.filter (below c)).insertionSort (· ≥ ·))] at hsort hpair
  rcases List.mem_append.mp hsort with hfirst | hrest
  · exact .inl hfirst
  · exact .inr fun x hx => (List.pairwise_append.mp hpair).2.2 x hx k hrest

theorem last_le (hkeys : keys.Nodup) {last : κ} (hlast : (page keys c n).getLast? = some last) :
    ∀ x ∈ page keys c n, last ≤ x := by
  intro x hx
  obtain ⟨front, hfron⟩ := List.getLast?_eq_some_iff.mp hlast
  have hpair := page_pairwise (c := c) (n := n) hkeys
  rw [hfron] at hx hpair
  rcases List.mem_append.mp hx with hx | hx
  · exact ((List.pairwise_append.mp hpair).2.2 x hx last List.mem_cons_self).le
  · exact (List.mem_singleton.mp hx).ge

end Page

/-! ## A listing -/

section Listing

variable (keys : Nat → List κ) (size : Nat → Nat)

/-- Whether the `i`-th page is asked for, and with which cursor. -/
def cursor : Nat → Option (Option κ)
  | 0 => some none
  | i + 1 => (cursor i).bind fun c =>
    if size i < (page (keys i) c (size i + 1)).length then some (page (keys i) c (size i)).getLast? else none

def pageAt (i : Nat) : List κ := (cursor keys size i).elim [] fun c => page (keys i) c (size i)

def listed (m : Nat) : List κ := (List.range m).flatMap (pageAt keys size)

variable {keys size}

theorem listed_succ (m : Nat) : listed keys size (m + 1) = listed keys size m ++ pageAt keys size m := by
  simp [listed, List.range_succ]

theorem pageAt_of_cursor {i : Nat} {c : Option κ} (h : cursor keys size i = some c) :
    pageAt keys size i = page (keys i) c (size i) := by
  rw [pageAt, h]
  rfl

/-- The cursor after a page: the listing has ended with all keys below the last cursor, or goes on below the last key of a page
that is not empty. -/
theorem cursor_succ (hsize : ∀ i, 0 < size i) {i : Nat} {c : Option κ} (h : cursor keys size i = some c) :
    (cursor keys size (i + 1) = none ∧ ∀ k ∈ keys i, below c k = true → k ∈ page (keys i) c (size i)) ∨
      ∃ last, cursor keys size (i + 1) = some (some last) ∧ (page (keys i) c (size i)).getLast? = some last := by
  rw [cursor, h, Option.bind_some]
  split
  next hmore =>
    right
    have hlength := page_full hmore
    have hne : page (keys i) c (size i) ≠ [] := by
      intro hnil
      rw [hnil] at hlength
      have hpos := hsize i
      rw [← hlength] at hpos
      exact absurd hpos (Nat.lt_irrefl 0)
    exact ⟨_, by rw [List.getLast?_eq_some_getLast hne], List.getLast?_eq_some_getLast hne⟩
  next hmore => exact .inl ⟨rfl, fun k hk hbelow => page_all hmore hk hbelow⟩

theorem listed_subset (hgrow : ∀ i, keys i ⊆ keys (i + 1)) (m : Nat) : listed keys size m ⊆ keys m := by
  induction m with
  | zero => exact List.nil_subset _
  | succ m ih =>
    rw [listed_succ]
    refine List.append_subset.mpr ⟨fun k hk => hgrow m (ih hk), fun k hk => hgrow m ?_⟩
    cases hc : cursor keys size m with
    | none =>
      rw [pageAt, hc] at hk
      cases hk
    | some c =>
      rw [pageAt_of_cursor hc] at hk
      exact (mem_page hk).1

variable (hkeys : ∀ i, (keys i).Nodup) (hsize : ∀ i, 0 < size i)
include hkeys hsize

theorem listed_above (m : Nat) : (listed keys size m).Pairwise (· > ·) ∧
    ∀ c, cursor keys size m = some c → ∀ x ∈ listed keys size m, ∃ b ∈ c, b ≤ x := by
  induction m with
  | zero => exact ⟨List.Pairwise.nil, fun c _ x hx => by cases hx⟩
  | succ m ih =>
    obtain ⟨hpair, habove⟩ := ih
    rw [listed_succ]
    cases hc : cursor keys size m with
    | none =>
      have hpage : pageAt keys size m = [] := by rw [pageAt, hc]; rfl
      rw [hpage, List.append_nil]
      refine ⟨hpair, fun c hcursor => ?_⟩
      rw [cursor, hc] at hcursor
      cases hcursor
    | some c =>
      rw [pageAt_of_cursor hc]
      -- a key of the page lies below the cursor, and so below what was listed before
      have hlt : ∀ x ∈ listed keys size m, ∀ y ∈ page (keys m) c (size m), y < x := by
        intro x hx y hy
        obtain ⟨b, hb, hle⟩ := habove c hc x hx
        have hbelow := (mem_page hy).2
        rw [Option.mem_def.mp hb, below_some] at hbelow
        exact hbelow.trans_le hle
      refine ⟨List.pairwise_append.mpr ⟨hpair, page_pairwise (hkeys m), hlt⟩, fun c' hcursor x hx => ?_⟩
      rcases cursor_succ hsize hc with ⟨hend, -⟩ | ⟨last, hnext, hlast⟩
      · rw [hend] at hcursor
        cases hcursor
      rw [hnext] at hcursor
      cases hcursor
      refine ⟨last, rfl, ?_⟩
      rcases List.mem_append.mp hx with hx | hx
      · exact (hlt x hx last (List.mem_of_getLast? hlast)).le
      · exact last_le (hkeys m) hlast x hx

theorem listed_pairwise (m : Nat) : (listed keys size m).Pairwise (· > ·) := (listed_above hkeys hsize m).1

theorem listed_or_below (hgrow : ∀ i, keys i ⊆ keys (i + 1)) {k : κ} (hk : k ∈ keys 0) (m : Nat) :
    k ∈ keys m ∧ (k ∈ listed keys size m ∨ ∃ c, cursor keys size m = some c ∧ below c k = true) := by
  induction m with
  | zero => exact ⟨hk, .inr ⟨none, rfl, rfl⟩⟩
  | succ m ih =>
    obtain ⟨hmem, hcase⟩ := ih
    refine ⟨hgrow m hmem, ?_⟩
    rw [listed_succ, List.mem_append]
    rcases hcase with hlist | ⟨c, hc, hbelow⟩
    · exact .inl (.inl hlist)
    rw [pageAt_of_cursor hc]
    rcases cursor_succ hsize hc with ⟨-, hall⟩ | ⟨last, hnext, hlast⟩
    · exact .inl (.inr (hall k hmem hbelow))
    rcases mem_page_or_lt (hkeys m) (size m) hmem hbelow with hpage | hlt
    · exact .inl (.inr hpage)
    · exact .inr ⟨some last, hnext, below_some.mpr (hlt last (List.mem_of_getLast? hlast))⟩

theorem listed_complete (hgrow : ∀ i, keys i ⊆ keys (i + 1)) {m : Nat} (hend : cursor keys size m = none) :
    ∀ k ∈ keys 0, k ∈ listed keys size m := by
  intro k hk
  rcases (listed_or_below hkeys hsize hgrow hk m).2 with hlist | ⟨c, hc, -⟩
  · exact hlist
  rw [hend] at hc
  cases hc

/-- If no key is inserted from the `N`-th page on, the listing ends. -/
theorem cursor_ends {N : Nat} (hstop : ∀ i, N ≤ i → keys (i + 1) ⊆ keys i) : ∃ m, cursor keys size m = none := by
  -- every page takes a key from those below the cursor
  have hends : ∀ n i c, N ≤ i → cursor keys size i = some c → ((keys i).filter (below c)).length ≤ n →
      ∃ m, cursor keys size m = none := by
    intro n
    induction n with
    | zero =>
      intro i c _ hc hlength
      rcases cursor_succ hsize hc with ⟨hend, -⟩ | ⟨last, -, hlast⟩
      · exact ⟨i + 1, hend⟩
      have hmem := List.mem_filter.mpr (mem_page (List.mem_of_getLast? hlast))
      rw [List.length_eq_zero_iff.mp (Nat.le_zero.mp hlength)] at hmem
      cases hmem
    | succ n ih =>
      intro i c hi hc hlength
      rcases cursor_succ hsize hc with ⟨hend, -⟩ | ⟨last, hnext, hlast⟩
      · exact ⟨i + 1, hend⟩
      refine ih (i + 1) (some last) (by omega) hnext ?_
      have hlastmem := mem_page (List.mem_of_getLast? hlast)
      have hnodup : (last :: (keys (i + 1)).filter (below (some last))).Nodup := by
        refine List.nodup_cons.mpr ⟨fun hmem => ?_, (hkeys (i + 1)).filter _⟩
        exact lt_irrefl last (below_some.mp (List.mem_filter.mp hmem).2)
      have hsub : last :: (keys (i + 1)).filter (below (some last)) ⊆ (keys i).filter (below c) := by
        intro k hk
        rcases List.mem_cons.mp hk with rfl | hk
        · exact List.mem_filter.mpr hlastmem
        obtain ⟨hk, hbelow⟩ := List.mem_filter.mp hk
        refine List.mem_filter.mpr ⟨hstop i hi hk, ?_⟩
        cases c with
        | none => rfl
        | some b => exact below_some.mpr ((below_some.mp hbelow).trans (below_some.mp hlastmem.2))
      have hle := (hnodup.subperm hsub).length_le
      rw [List.length_cons] at hle
      omega
  cases hc : cursor keys size N with
  | none => exact ⟨N, hc⟩
  | some c => exact hends _ N c le_rfl hc le_rfl

end Listing

end Keyset
