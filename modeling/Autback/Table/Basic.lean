import Mathlib.Data.List.AList
import Mathlib.Data.List.MinMax
import Mathlib.Data.List.Sort

/-!
# Tables with a primary key

The part of a relational store that the statements of a single-row transaction need: a table maps primary keys to rows
(Mathlib's `AList`), `update` is `UPDATE … WHERE key = k AND p`, and `first` is `SELECT … WHERE p ORDER BY f LIMIT 1`.
-/

/-- A table with keys `κ` and rows `ρ`. -/
abbrev Table (κ ρ : Type) : Type := AList fun _ : κ => ρ

namespace Table

variable {κ ρ β : Type} [DecidableEq κ]

def rows (T : Table κ ρ) : List (κ × ρ) := T.entries.map fun e => (e.1, e.2)

variable (T : Table κ ρ) {k k' : κ} {r : ρ}

omit [DecidableEq κ] in
theorem rows_nodup : ((rows T).map Prod.fst).Nodup := by
  rw [rows, List.map_map]
  exact T.nodupKeys

theorem mem_rows {T : Table κ ρ} : (k, r) ∈ rows T ↔ T.lookup k = some r := by
  rw [← Option.mem_def, AList.mem_lookup_iff, rows, List.mem_map]
  constructor
  · rintro ⟨⟨k', r'⟩, he, heq⟩
    cases heq
    exact he
  intro he
  exact ⟨⟨k, r⟩, he, rfl⟩

/-- Set the row of key `k` to `f` of it if there is one that satisfies `p`; the number of rows changed and the new
table. -/
def update (T : Table κ ρ) (k : κ) (p : ρ → Bool) (f : ρ → ρ) : Nat × Table κ ρ :=
  match T.lookup k with
  | none => (0, T)
  | some r => if p r then (1, T.insert k (f r)) else (0, T)

/-- Set every row to `f` of it. -/
def updateAll (T : Table κ ρ) (f : κ → ρ → ρ) : Table κ ρ where
  entries := T.entries.map fun e => ⟨e.1, f e.1 e.2⟩
  nodupKeys := by
    have h := T.nodupKeys
    unfold List.NodupKeys List.keys at *
    rwa [List.map_map]

def delete (T : Table κ ρ) (p : κ → ρ → Bool) : Table κ ρ where
  entries := T.entries.filter fun e => !p e.1 e.2
  nodupKeys := T.nodupKeys.sublist List.filter_sublist

def first [LinearOrder β] (T : Table κ ρ) (p : κ → ρ → Bool) (f : κ → ρ → β) : Option (κ × ρ) :=
  ((rows T).filter fun e => p e.1 e.2).argmin fun e => f e.1 e.2

/-! ## What a statement leaves in the table -/

theorem lookup_insert_eq (k k' : κ) (r : ρ) : (T.insert k r).lookup k' = if k' = k then some r else T.lookup k' := by
  split
  · rename_i h
    rw [h, AList.lookup_insert]
  rename_i h
  exact AList.lookup_insert_ne h

theorem lookup_updateAll (f : κ → ρ → ρ) (k : κ) : (updateAll T f).lookup k = (T.lookup k).map (f k) := by
  ext r
  rw [← Option.mem_def, AList.mem_lookup_iff, Option.map_eq_some_iff]
  constructor
  · intro h
    obtain ⟨⟨k', r'⟩, hm, heq⟩ := List.mem_map.mp h
    cases heq
    exact ⟨r', AList.mem_lookup_iff.mpr hm, rfl⟩
  rintro ⟨r', hm, rfl⟩
  exact List.mem_map.mpr ⟨⟨k, r'⟩, AList.mem_lookup_iff.mp hm, rfl⟩

theorem lookup_delete (p : κ → ρ → Bool) (k : κ) : (delete T p).lookup k = (T.lookup k).filter fun r => !p k r := by
  ext r
  rw [← Option.mem_def, AList.mem_lookup_iff, Option.filter_eq_some_iff, ← Option.mem_def, AList.mem_lookup_iff]
  exact List.mem_filter

theorem lookup_update (k k' : κ) (p : ρ → Bool) (f : ρ → ρ) : (update T k p f).2.lookup k' =
      if k' = k then (T.lookup k).map fun r => if p r then f r else r else T.lookup k' := by
  rw [update]
  cases h : T.lookup k with
  | none =>
    by_cases hk : k' = k
    · subst hk
      simp [h]
    · simp [hk]
  | some r =>
    by_cases hp : p r
    · simp only [hp, if_true, Option.map_some, lookup_insert_eq]
    by_cases hk : k' = k
    · subst hk
      simp [hp, h]
    · simp [hp, hk]

theorem update_count (k : κ) (p : ρ → Bool) (f : ρ → ρ) :
    (update T k p f).1 = 1 ↔ ∃ r, T.lookup k = some r ∧ p r = true := by
  rw [update]
  cases h : T.lookup k with
  | none => simp
  | some r => by_cases hp : p r <;> simp [hp]

theorem update_eq_one {T T' : Table κ ρ} {p : ρ → Bool} {f : ρ → ρ} (h : update T k p f = (1, T')) :
    ∃ r, T.lookup k = some r ∧ p r = true ∧ T' = T.insert k (f r) := by
  rw [update] at h
  split at h
  · cases h
  rename_i r hr
  split at h
  · rename_i hp
    cases h
    exact ⟨r, hr, hp, rfl⟩
  · cases h

theorem update_of_count_ne (k : κ) (p : ρ → Bool) (f : ρ → ρ) (h : (update T k p f).1 ≠ 1) : (update T k p f).2 = T := by
  rw [update] at h ⊢
  cases hl : T.lookup k with
  | none => rfl
  | some r =>
    by_cases hp : p r
    · simp [hl, hp] at h
    · simp [hp]

/-! ## What a query returns -/

theorem first_eq_some [LinearOrder β] {T : Table κ ρ} {p : κ → ρ → Bool} {f : κ → ρ → β}
    (h : first T p f = some (k, r)) :
    T.lookup k = some r ∧ p k r = true ∧ ∀ k' r', T.lookup k' = some r' → p k' r' = true → f k r ≤ f k' r' := by
  have hm := List.argmin_mem h
  rw [List.mem_filter, mem_rows] at hm
  refine ⟨hm.1, hm.2, fun k' r' hl hp => ?_⟩
  have hmem : (k', r') ∈ (rows T).filter fun e => p e.1 e.2 := List.mem_filter.mpr ⟨mem_rows.mpr hl, hp⟩
  exact List.le_of_mem_argmin hmem h

theorem first_eq_none [LinearOrder β] {T : Table κ ρ} {p : κ → ρ → Bool} {f : κ → ρ → β} :
    first T p f = none ↔ ∀ k r, T.lookup k = some r → p k r = false := by
  rw [first, List.argmin_eq_none, List.filter_eq_nil_iff]
  constructor
  · intro h k r hl
    simpa using h (k, r) (mem_rows.mpr hl)
  rintro h ⟨k, r⟩ hm
  simp [h k r (mem_rows.mp hm)]

theorem lookup_update_of_some {T : Table κ ρ} (h : T.lookup k' = some r) (k : κ) (p : ρ → Bool) (f : ρ → ρ) :
    ∃ r', (update T k p f).2.lookup k' = some r' ∧ (r' = r ∨ k' = k ∧ p r = true ∧ r' = f r) := by
  rw [lookup_update]
  split
  · rename_i hk
    subst hk
    refine ⟨if p r then f r else r, by simp [h], ?_⟩
    split
    · exact .inr ⟨rfl, ‹_›, rfl⟩
    · exact .inl rfl
  · exact ⟨r, h, .inl rfl⟩

theorem lookup_update_of_none {T : Table κ ρ} {p : ρ → Bool} {f : ρ → ρ} (h : T.lookup k' = none) :
    (update T k p f).2.lookup k' = none := by
  rw [lookup_update]
  split
  · rename_i hk
    rw [← hk, h]
    rfl
  · exact h

theorem lookup_insert_of_absent {T : Table κ ρ} {r' : ρ} (hk : T.lookup k = none) (h : T.lookup k' = some r') :
    (T.insert k r).lookup k' = some r' := by
  rw [AList.lookup_insert_ne, h]
  rintro rfl
  rw [hk] at h
  cases h

end Table
