import Mathlib.Data.List.Basic

/-!
# Wildcards

Patterns with two wildcards: `one` stands for one element, `many` for any run of elements. The relation is declarative; what
a matcher has to keep in mind is where it may go back to (`WildMatch.drop_many`), and only the last run matters, since the part
before it takes a fixed number of elements (`WildMatch.drop_fixed`).
-/

namespace Text

variable {α : Type} {one many : α} {p v : List α}

/-- The pattern `p` matches `v`. -/
inductive WildMatch (one many : α) : List α → List α → Prop
  | nil : WildMatch one many [] []
  | same (a : α) {p v : List α} : a ≠ one → a ≠ many → WildMatch one many p v → WildMatch one many (a :: p) (a :: v)
  | one (a : α) {p v : List α} : WildMatch one many p v → WildMatch one many (one :: p) (a :: v)
  | many (u : List α) {p v : List α} : WildMatch one many p v → WildMatch one many (many :: p) (u ++ v)

theorem WildMatch.cons_self (a : α) (h : WildMatch one many p v) : WildMatch one many (a :: p) (a :: v) := by
  by_cases ho : a = one
  · subst ho
    exact .one a h
  by_cases hm : a = many
  · subst hm
    exact .many [a] h
  · exact .same a ho hm h

theorem WildMatch.append_self (u : List α) (h : WildMatch one many p v) : WildMatch one many (u ++ p) (u ++ v) := by
  induction u with
  | nil => exact h
  | cons a u ih => exact ih.cons_self a

theorem WildMatch.drop_many {j k : Nat} (hjk : j ≤ k) (h : WildMatch one many p (v.drop k)) :
    WildMatch one many (many :: p) (v.drop j) := by
  have hsplit : v.drop j = (v.drop j).take (k - j) ++ v.drop k := by
    have hdrop : (v.drop j).drop (k - j) = v.drop k := by
      rw [List.drop_drop]
      congr 1
      omega
    rw [← hdrop, List.take_append_drop]
  rw [hsplit]
  exact .many _ h

theorem WildMatch.of_all_many (h : ∀ a ∈ p, a = many) : WildMatch one many p [] := by
  induction p with
  | nil => exact .nil
  | cons a p ih =>
    have hrest := ih fun b hb => h b (List.mem_cons_of_mem a hb)
    rw [h a List.mem_cons_self]
    exact .many [] hrest

theorem WildMatch.all_many (h : WildMatch one many p []) : ∀ a ∈ p, a = many := by
  generalize hv : ([] : List α) = v at h
  induction h with
  | nil => simp
  | same a _ _ _ _ => cases hv
  | one a _ _ => cases hv
  | many u h ih =>
    have hrest := List.append_eq_nil_iff.mp hv.symm
    simpa using ih hrest.2.symm

theorem WildMatch.head {a b : α} (h : WildMatch one many (a :: p) (b :: v)) (ha : a ≠ many) :
    (a = one ∨ a = b) ∧ WildMatch one many p v := by
  generalize hw : b :: v = w at h
  cases h with
  | same _ _ _ h =>
    cases hw
    exact ⟨.inr rfl, h⟩
  | one _ h =>
    cases hw
    exact ⟨.inl rfl, h⟩
  | many u h => exact absurd rfl ha

theorem WildMatch.drop_fixed {n : Nat} (h : WildMatch one many p v) (hn : ∀ a ∈ p.take n, a ≠ many) :
    WildMatch one many (p.drop n) (v.drop n) := by
  induction n generalizing p v with
  | zero => exact h
  | succ n ih =>
    cases p with
    | nil =>
      cases h
      exact .nil
    | cons a p =>
      have ha : a ≠ many := hn a (by simp)
      cases v with
      | nil => exact absurd (h.all_many a (by simp)) ha
      | cons b v =>
        refine ih (h.head ha).2 fun c hc => hn c ?_
        simp [hc]

theorem WildMatch.of_many (h : WildMatch one many (many :: p) v) : ∃ k, WildMatch one many p (v.drop k) := by
  cases h with
  | same _ _ hne _ => exact absurd rfl hne
  | one a h => exact ⟨1, h⟩
  | many u h => exact ⟨u.length, by simpa using h⟩

end Text
