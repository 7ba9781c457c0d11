import Autback.Conc.Ghost
import Autback.Conc.Traces

/-!
# The histories of threads

The log of a machine says for each live thread at which label it is and which calls it has made since (`history`). In every run
that history is a partial run of the program of the label: the program makes those calls with those answers and then goes on as
the thread does (`Prog.After`, `Machine.Reach.called`, `Machine.Reach.finished`). So what is proved about the runs of one program
on its own holds of every thread that runs it, whatever the others do.
-/

namespace Conc

variable {S C : Type} {R : C → Type} {L Ch E α β : Type}

namespace Prog

/-- With the answers of `tr` the program makes the calls of `tr` and is then `q`. -/
inductive After : Prog C R α → Trace C R → Prog C R α → Prop
  | nil (p : Prog C R α) : After p [] p
  | cons {c : C} {k : R c → Prog C R α} {tr : Trace C R} {q : Prog C R α} (r : R c) (h : After (k r) tr q) :
    After (.call c k) (⟨c, r⟩ :: tr) q

variable {p q : Prog C R α} {tr : Trace C R} {c : C} {k : R c → Prog C R α}

theorem After.snoc (h : p.After tr (.call c k)) (r : R c) :
    p.After (tr ++ [⟨c, r⟩]) (k r) := by
  generalize hq : Prog.call c k = q at h
  induction h with
  | nil p =>
    subst hq
    exact .cons r (.nil _)
  | cons r' _ ih => exact .cons r' (ih hq)

theorem After.runs {a : α} (h : p.After tr (.ret a)) : p.Runs tr a := by
  generalize hq : Prog.ret a = q at h
  induction h with
  | nil p =>
    subst hq
    exact runs_ret.mpr ⟨rfl, rfl⟩
  | cons r _ ih => exact runs_call.mpr ⟨r, _, rfl, ih hq⟩

theorem After.of_call (h : (Prog.call c k).After tr q) :
    (tr = [] ∧ q = .call c k) ∨ ∃ r tr', tr = ⟨c, r⟩ :: tr' ∧ (k r).After tr' q := by
  cases h with
  | nil => exact .inl ⟨rfl, rfl⟩
  | cons r h => exact .inr ⟨r, _, rfl, h⟩

theorem After.of_ret {a : α} (h : (Prog.ret a).After tr q) : tr = [] ∧ q = .ret a := by
  cases h
  exact ⟨rfl, rfl⟩

theorem After.of_bind {f : α → Prog C R β} {k : R c → Prog C R β}
    (h : (Prog.bind p f).After tr (.call c k)) :
    (∃ k', p.After tr (.call c k')) ∨ ∃ tr1 a tr2, tr = tr1 ++ tr2 ∧ p.Runs tr1 a ∧ (f a).After tr2 (.call c k) := by
  generalize hpf : Prog.bind p f = pf at h
  generalize hq : Prog.call c k = q at h
  induction h generalizing p with
  | nil pf =>
    subst hq
    cases p with
    | ret a =>
      have hf : f a = .call c k := hpf
      refine .inr ⟨[], a, [], rfl, runs_ret.mpr ⟨rfl, rfl⟩, ?_⟩
      rw [hf]
      exact .nil _
    | call c' k' =>
      cases hpf
      exact .inl ⟨k', .nil _⟩
  | @cons c' k' tr q r h ih =>
    cases p with
    | ret a =>
      have hf : f a = .call c' k' := hpf
      refine .inr ⟨[], a, ⟨c', r⟩ :: tr, rfl, runs_ret.mpr ⟨rfl, rfl⟩, ?_⟩
      rw [hf]
      exact .cons r h
    | call c'' k'' =>
      cases hpf
      rcases ih rfl hq with ⟨k1, hk1⟩ | ⟨tr1, a, tr2, rfl, h1, h2⟩
      · exact .inl ⟨k1, .cons r hk1⟩
      · exact .inr ⟨⟨c', r⟩ :: tr1, a, tr2, rfl, runs_call.mpr ⟨r, tr1, rfl, h1⟩, h2⟩

theorem Only.of_after {P : C → Prop} (hp : p.Only P) (h : p.After tr (.call c k)) : P c := by
  generalize hq : Prog.call c k = q at h
  induction h with
  | nil p =>
    subst hq
    exact hp.1
  | cons r _ ih => exact ih (hp.2 r) hq

end Prog

/-! ## Histories -/

/-- The label of thread `t`, if it is live, and its calls since it is there. -/
def history (t : Nat) : List (Entry C R L) → Option (L × Trace C R)
  | [] => none
  | .call t' c r :: log => if t' = t then (history t log).map fun g => (g.1, g.2 ++ [⟨c, r⟩]) else history t log
  | .start t' l :: log => if t' = t then some (l, []) else history t log
  | .jump t' l :: log => if t' = t then some (l, []) else history t log
  | .finish t' :: log => if t' = t then none else history t log
  | .crash :: _ => none

theorem history_split {t : Nat} {l : L} {tr1 : Trace C R} {x : Σ c : C, R c} : ∀ {log : List (Entry C R L)} {tr2 : Trace C R},
    history t log = some (l, tr1 ++ x :: tr2) →
      ∃ newer older, log = newer ++ .call t x.1 x.2 :: older ∧ history t older = some (l, tr1)
  | [], _, h => by cases h
  | .call t' c r :: log, tr2, h => by
    rw [history] at h
    split at h
    · obtain ⟨⟨l', tr'⟩, hlog, heq⟩ := Option.map_eq_some_iff.mp h
      obtain ⟨rfl, htr⟩ := Prod.mk.inj heq
      rcases List.eq_nil_or_concat tr2 with rfl | ⟨tr3, y, rfl⟩
      · obtain ⟨rfl, hx⟩ := List.append_inj' htr rfl
        cases hx
        subst ‹t' = t›
        exact ⟨[], log, rfl, hlog⟩
      rw [List.concat_eq_append, ← List.cons_append, ← List.append_assoc] at htr
      obtain ⟨rfl, -⟩ := List.append_inj' htr rfl
      obtain ⟨newer, older, rfl, hold⟩ := history_split hlog
      exact ⟨.call t' c r :: newer, older, rfl, hold⟩
    obtain ⟨newer, older, rfl, hold⟩ := history_split h
    exact ⟨.call t' c r :: newer, older, rfl, hold⟩
  | .start t' l' :: log, tr2, h => by
    rw [history] at h
    split at h
    · simp at h
    obtain ⟨newer, older, rfl, hold⟩ := history_split h
    exact ⟨.start t' l' :: newer, older, rfl, hold⟩
  | .jump t' l' :: log, tr2, h => by
    rw [history] at h
    split at h
    · simp at h
    obtain ⟨newer, older, rfl, hold⟩ := history_split h
    exact ⟨.jump t' l' :: newer, older, rfl, hold⟩
  | .finish t' :: log, tr2, h => by
    rw [history] at h
    split at h
    · cases h
    obtain ⟨newer, older, rfl, hold⟩ := history_split h
    exact ⟨.finish t' :: newer, older, rfl, hold⟩
  | .crash :: _, _, h => by cases h

theorem mem_log_of_history {t : Nat} {l : L} {tr : Trace C R} {x : Σ c : C, R c} {log : List (Entry C R L)} (hx : x ∈ tr)
    (h : history t log = some (l, tr)) : Entry.call t x.1 x.2 ∈ log := by
  obtain ⟨tr1, tr2, rfl⟩ := List.append_of_mem hx
  obtain ⟨newer, older, rfl, -⟩ := history_split h
  simp

def recording (body : L → Prog C R (Option L)) : Ghost C R L (L × Trace C R) where
  start l := (l, [])
  next g c r := (g.1, g.2 ++ [⟨c, r⟩])
  guard g c := ∃ k, (body g.1).After g.2 (.call c k)
  fact _ _ _ := True
  exit g a := (body g.1).After g.2 (.ret a)

variable {body : L → Prog C R (Option L)} {P : C → Prop}

theorem recording_of (t : Nat) : ∀ log : List (Entry C R L), (recording body).of t log = history t log
  | [] => rfl
  | .call t' c r :: log | .start t' l :: log | .jump t' l :: log => by
    rw [Ghost.of, history, recording_of t log]
    rfl
  | .finish t' :: log => by rw [Ghost.of, history, recording_of t log]
  | .crash :: log => rfl

theorem recording_safe {l : L} : ∀ {p : Prog C R (Option L)} {tr : Trace C R}, (body l).After tr p →
    (recording body).Safe (l, tr) p (recording body).exit
  | .ret _, _, h => h
  | .call _ k, _, h => ⟨⟨k, h⟩, fun r _ => recording_safe (h.snoc r)⟩

/-! ## Which calls a program makes

A walk through a program with `Ghost.Within` also gives the calls that it makes. -/

def allowing (P : C → Prop) : Ghost C R L Unit where
  start _ := ()
  next _ _ _ := ()
  guard _ c := P c
  fact _ _ _ := True
  exit _ _ := True

abbrev anyGhost : Unit → Prop := fun _ => True

theorem allowing_still {c : C} (h : P c) : (allowing P : Ghost C R L Unit).Still anyGhost c :=
  fun _ _ => ⟨h, fun _ _ => trivial⟩

theorem only_of_within : ∀ {p : Prog C R α}, (allowing P : Ghost C R L Unit).Within anyGhost p → p.Only P
  | .ret _, _ => trivial
  | .call _ _, h => ⟨(h () trivial).1, fun r => only_of_within fun _ _ => (h () trivial).2 r trivial⟩

theorem within_of_only : ∀ {p : Prog C R α}, p.Only P → (allowing P : Ghost C R L Unit).Within anyGhost p
  | .ret _, _ => fun _ _ => trivial
  | .call _ _, h => fun _ _ => ⟨h.1, fun r _ => within_of_only (h.2 r) _ trivial⟩

/-! ## Runs of machines -/

section Runs

variable {M : Machine S C R L Ch E} {K : Rules S C R L E} {s0 : S} {σ : Conf S C R L}

theorem Machine.Reach.follows (h : M.Reach K s0 σ) {t : Nat} {l : L} (hl : σ.procs t = some l) :
    ∃ l' tr, history t σ.log = some (l', tr) ∧ (recording M.body).Safe (l', tr) (σ.code t) (recording M.body).exit := by
  have hkeep : Keeps M K (recording M.body) s0 (fun _ => True) fun _ => True :=
    ⟨trivial, fun _ _ _ _ _ _ _ => trivial, fun _ _ _ _ _ _ _ _ _ _ _ _ _ _ _ => ⟨trivial, trivial⟩,
      fun _ _ _ _ _ _ _ _ => trivial, fun _ _ _ _ _ _ _ _ _ _ => trivial, fun _ _ _ _ _ _ _ _ => trivial,
      fun _ _ _ _ _ => trivial⟩
  have hfollows := (run_invariant (fun _ => recording_safe (.nil _)) (fun _ _ => trivial) hkeep h).1 t
  rw [hl] at hfollows
  obtain ⟨⟨l', tr⟩, hg, hsafe⟩ := hfollows.eq_some
  exact ⟨l', tr, (recording_of t σ.log).symm.trans hg, hsafe⟩

/-- What an entry above `log` says about the run: a call was the next one of the caller's program, in a configuration in which
the machine gave that answer; a thread that is gone had come to the end of its program. -/
def Entry.Recorded (M : Machine S C R L Ch E) (K : Rules S C R L E) (s0 : S) (log : List (Entry C R L)) :
    Entry C R L → Prop
  | .call t c r => ∃ σ l tr k ch s sp, M.Reach K s0 σ ∧ σ.log = log ∧ history t log = some (l, tr) ∧
      (M.body l).After tr (.call c k) ∧ M.exec t ch σ.st c = some (r, s, sp)
  | .finish t => ∃ l tr, history t log = some (l, tr) ∧ (M.body l).Runs tr none
  | _ => True

def AllRecorded (M : Machine S C R L Ch E) (K : Rules S C R L E) (s0 : S) : List (Entry C R L) → Prop
  | [] => True
  | e :: log => e.Recorded M K s0 log ∧ AllRecorded M K s0 log

theorem AllRecorded.of_append {e : Entry C R L} {earlier : List (Entry C R L)} : ∀ {later : List (Entry C R L)},
    AllRecorded M K s0 (later ++ e :: earlier) → e.Recorded M K s0 earlier
  | [], h => h.1
  | _ :: _, h => AllRecorded.of_append h.2

theorem Machine.Reach.recorded (h : M.Reach K s0 σ) : AllRecorded M K s0 σ.log := by
  induction h with
  | init => trivial
  | @step σ σ' hr hs ih =>
    cases hs with
    | start l _ _ | jump t l l' _ _ _ | crash _ => exact ⟨trivial, ih⟩
    | call t l c k ch a hl hc ha _ =>
      obtain ⟨r, s, sp⟩ := a
      obtain ⟨l', tr, hhistory, hsafe⟩ := hr.follows hl
      rw [hc] at hsafe
      obtain ⟨k', hk⟩ := hsafe.1
      have hnew : AllRecorded M K s0 (.call t c r :: σ.log) :=
        ⟨⟨σ, l', tr, k', ch, s, sp, hr, rfl, hhistory, hk, ha⟩, ih⟩
      cases sp with
      | none => exact hnew
      | some l1 => exact ⟨trivial, hnew⟩
    | finish t l hl hc =>
      obtain ⟨l', tr, hhistory, hsafe⟩ := hr.follows hl
      rw [hc] at hsafe
      exact ⟨⟨l', tr, hhistory, Prog.After.runs hsafe⟩, ih⟩
    | env e st _ _ => exact ih

variable {later earlier : List (Entry C R L)} {t : Nat}

/-- **A call of the log** is the next one in the program of the caller's label after the caller's history. -/
theorem Machine.Reach.called (h : M.Reach K s0 σ) {c : C} {r : R c} (hlog : σ.log = later ++ .call t c r :: earlier) :
    ∃ l tr k, history t earlier = some (l, tr) ∧ (M.body l).After tr (.call c k) := by
  obtain ⟨_, l, tr, k, _, _, _, _, _, hhistory, hk, _⟩ := (hlog ▸ h.recorded).of_append
  exact ⟨l, tr, k, hhistory, hk⟩

/-- **A thread of the log that is gone** has run the program of its label. -/
theorem Machine.Reach.finished (h : M.Reach K s0 σ) (hlog : σ.log = later ++ .finish t :: earlier) :
    ∃ l tr, history t earlier = some (l, tr) ∧ (M.body l).Runs tr none :=
  (hlog ▸ h.recorded).of_append

/-- **An answer of the log** was given in a configuration whose log is the part below. -/
theorem Machine.Reach.answered (h : M.Reach K s0 σ) {c : C} {r : R c} (hlog : σ.log = later ++ .call t c r :: earlier) :
    ∃ σ1 ch s sp, M.Reach K s0 σ1 ∧ σ1.log = earlier ∧ M.exec t ch σ1.st c = some (r, s, sp) := by
  obtain ⟨σ1, _, _, _, ch, s, sp, hr, hlog1, _, _, hexec⟩ := (hlog ▸ h.recorded).of_append
  exact ⟨σ1, ch, s, sp, hr, hlog1, hexec⟩

end Runs

end Conc
