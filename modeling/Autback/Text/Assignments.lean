import Mathlib.Data.List.Basic

/-!
# Lists of assignments

An assignment is a text with a separator: the key before the first one, the value after it. In a list of assignments the last one
of a key counts (`valueOf`). The value after two lists is that of the second if it has one (`valueOf_append`); assignments of
other keys may be dropped (`valueOf_filter`); and the assignments of pairs with different keys have the values of the pairs
(`valueOf_of_mem`).
-/

namespace Text

variable {α : Type} [DecidableEq α]

def cut (sep : α) : List α → Option (List α × List α)
  | [] => none
  | a :: as => if a = sep then some ([], as) else (cut sep as).map fun e => (a :: e.1, e.2)

def valueOf (sep : α) (items : List (List α)) (key : List α) : Option (List α) :=
  (items.reverse.filterMap (cut sep)).lookup key

def assign (sep : α) (e : List α × List α) : List α := e.1 ++ sep :: e.2

variable {sep : α} {key : List α}

theorem cut_assign (hkey : sep ∉ key) (value : List α) : cut sep (assign sep (key, value)) = some (key, value) := by
  induction key with
  | nil => simp [assign, cut]
  | cons a key ih =>
    have hrest := ih fun h => hkey (List.mem_cons_of_mem _ h)
    have ha : a ≠ sep := fun h => hkey (h ▸ List.mem_cons_self)
    simp only [assign, List.cons_append, cut, if_neg ha] at hrest ⊢
    rw [hrest]
    rfl

theorem valueOf_append (items items' : List (List α)) (key : List α) :
    valueOf sep (items ++ items') key = (valueOf sep items' key).or (valueOf sep items key) := by
  rw [valueOf, List.reverse_append, List.filterMap_append, List.lookup_append]
  rfl

theorem valueOf_filter {items : List (List α)} {p : List α → Bool}
    (h : ∀ item ∈ items, ∀ value, cut sep item = some (key, value) → p item = true) :
    valueOf sep (items.filter p) key = valueOf sep items key := by
  have hlook : ∀ l : List (List α), (∀ item ∈ l, ∀ value, cut sep item = some (key, value) → p item = true) →
      ((l.filter p).filterMap (cut sep)).lookup key = (l.filterMap (cut sep)).lookup key := by
    intro l
    induction l with
    | nil => exact fun _ => rfl
    | cons item l ih =>
      intro hl
      have hrest := ih fun item' hitem' => hl item' (List.mem_cons_of_mem _ hitem')
      cases hcut : cut sep item with
      | none => cases hp : p item <;> simp [hp, hcut, hrest]
      | some e =>
        obtain ⟨k, value⟩ := e
        by_cases hk : key = k
        · subst hk
          have hp := hl item List.mem_cons_self value hcut
          simp [hp, hcut]
        have hk' : (key == k) = false := by simpa using hk
        cases hp : p item <;> simp [hp, hcut, List.lookup_cons, hk', hrest]
  rw [valueOf, valueOf, ← List.filter_reverse]
  exact hlook _ fun item hitem => h item (List.mem_reverse.mp hitem)

theorem valueOf_eq_none_iff {items : List (List α)} :
    valueOf sep items key = none ↔ ∀ item ∈ items, ∀ value, cut sep item ≠ some (key, value) := by
  rw [valueOf, List.lookup_eq_none_iff]
  constructor
  · intro h item hitem value hcut
    have hne := h (key, value) (List.mem_filterMap.mpr ⟨item, List.mem_reverse.mpr hitem, hcut⟩)
    simp at hne
  rintro h ⟨k, value⟩ he
  obtain ⟨item, hitem, hcut⟩ := List.mem_filterMap.mp he
  rw [bne_iff_ne]
  rintro rfl
  exact h item (List.mem_reverse.mp hitem) value hcut

theorem valueOf_of_mem {entries : List (List α × List α)} (hkeys : ∀ e ∈ entries, sep ∉ e.1)
    (hnodup : (entries.map Prod.fst).Nodup)
    {value : List α} (h : (key, value) ∈ entries) : valueOf sep (entries.map (assign sep)) key = some value := by
  have hcut : (entries.map (assign sep)).reverse.filterMap (cut sep) = entries.reverse := by
    rw [← List.map_reverse, List.filterMap_map]
    have hall : ∀ e ∈ entries.reverse, (cut sep ∘ assign sep) e = some e :=
      fun e he => cut_assign (hkeys e (List.mem_reverse.mp he)) e.2
    rw [List.filterMap_congr hall, List.filterMap_some]
  have hlook : ∀ l : List (List α × List α), (l.map Prod.fst).Nodup → (key, value) ∈ l → l.lookup key = some value := by
    intro l
    induction l with
    | nil => exact fun _ h => absurd h (by simp)
    | cons e l ih =>
      intro hnodup hmem
      rw [List.map_cons, List.nodup_cons] at hnodup
      rcases List.mem_cons.mp hmem with rfl | hmem
      · simp
      have hne : (key == e.1) = false := by
        rw [beq_eq_false_iff_ne]
        rintro rfl
        exact hnodup.1 (List.mem_map.mpr ⟨_, hmem, rfl⟩)
      rw [List.lookup_cons, hne]
      exact ih hnodup.2 hmem
  rw [valueOf, hcut]
  refine hlook _ ?_ (List.mem_reverse.mpr h)
  rw [List.map_reverse]
  exact (List.reverse_perm _).nodup_iff.mpr hnodup

end Text
