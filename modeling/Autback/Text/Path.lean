import Mathlib.Data.List.Basic
import Mathlib.Data.List.TakeWhile

/-!
# Lexical paths

Slash-separated paths as they are cleaned without a look at the file system. A cleaned path (`Path`) is absolute or starts with a
number of parent steps, and goes on with names. Cleaning reads the text part by part (`clean`, `extend`), joining texts is going
on from the first (`clean_join`), and a cleaned path lies below another one exactly when its text starts with that of the other
and a slash (`text_slash_isPrefix_iff`).
-/

namespace Text

def IsName (n : List Char) : Prop := n ≠ [] ∧ n ≠ ['.'] ∧ n ≠ ['.', '.'] ∧ '/' ∉ n

instance (n : List Char) : Decidable (IsName n) := inferInstanceAs (Decidable (_ ∧ _ ∧ _ ∧ _))

/-- A cleaned path: whether it is absolute, the parent steps that it starts with, and the names that follow. -/
@[ext] structure Path where
  rooted : Bool
  ups : Nat
  names : List (List Char)
  rooted_ups : rooted = true → ups = 0
  isName : ∀ n ∈ names, IsName n
  deriving DecidableEq

namespace Path

def root : Path := ⟨true, 0, [], fun _ => rfl, by simp⟩

def here : Path := ⟨false, 0, [], by simp, by simp⟩

def child (p : Path) (n : List Char) (h : IsName n) : Path where
  rooted := p.rooted
  ups := p.ups
  names := p.names ++ [n]
  rooted_ups := p.rooted_ups
  isName := by
    intro n' hn'
    rcases List.mem_append.mp hn' with hn' | hn'
    · exact p.isName n' hn'
    · rwa [List.mem_singleton.mp hn']

def dropLast (p : Path) : Path where
  rooted := p.rooted
  ups := p.ups
  names := p.names.dropLast
  rooted_ups := p.rooted_ups
  isName n hn := p.isName n (p.names.dropLast_subset hn)

def parent (p : Path) : Path :=
  if p.names = [] then
    if h : p.rooted = true then p
    else ⟨p.rooted, p.ups + 1, p.names, fun h' => absurd h' h, p.isName⟩
  else p.dropLast

def push (p : Path) (part : List Char) : Path :=
  if h : IsName part then p.child part h
  else if part = ['.', '.'] then p.parent
  else p

def extend (p : Path) (s : List Char) : Path := (s.splitOn '/').foldl push p

def start (s : List Char) : Path := if s.head? = some '/' then root else here

def clean (s : List Char) : Path := (start s).extend s

def parts (p : Path) : List (List Char) := List.replicate p.ups ['.', '.'] ++ p.names

def text (p : Path) : List Char :=
  if p.rooted then '/' :: ['/'].intercalate p.names
  else if p.parts = [] then ['.'] else ['/'].intercalate p.parts

def join (elems : List (List Char)) : List Char :=
  match elems.dropWhile (·.isEmpty) with
  | [] => []
  | first :: rest => (clean (['/'].intercalate (first :: rest))).text

def base (s : List Char) : List Char :=
  if s = [] then ['.']
  else
    let trimmed := (s.reverse.dropWhile (· == '/')).reverse
    if trimmed = [] then ['/'] else (trimmed.reverse.takeWhile (· != '/')).reverse

/-! ## Reading and writing -/

variable {n s m : List Char} {p q : Path} {h : IsName n}

theorem push_name (p : Path) (h : IsName n) : p.push n = p.child n h := dif_pos h

theorem push_nil (p : Path) : p.push [] = p := rfl

theorem extend_name (p : Path) (h : IsName n) : p.extend n = p.child n h := by
  rw [extend, List.splitOn_eq_singleton h.2.2.2]
  exact p.push_name h

theorem extend_append (p : Path) (s t : List Char) : p.extend (s ++ '/' :: t) = (p.extend s).extend t := by
  rw [extend, List.splitOn_append_cons_self, List.foldl_append]
  rfl

theorem push_rooted (p : Path) (part : List Char) : (p.push part).rooted = p.rooted := by
  rw [push]
  split
  · rfl
  split
  · rw [parent]
    split
    · split <;> rfl
    · rfl
  · rfl

theorem clean_rooted (s : List Char) : (clean s).rooted = (s.head? == some '/') := by
  have hfold : ∀ (ns : List (List Char)) (p : Path), (ns.foldl push p).rooted = p.rooted := by
    intro ns
    induction ns with
    | nil => exact fun _ => rfl
    | cons n ns ih => exact fun p => (ih _).trans (p.push_rooted n)
  rw [clean, extend, hfold, start]
  by_cases hhead : s.head? = some '/'
  · rw [if_pos hhead, hhead]
    rfl
  rw [if_neg hhead]
  exact (beq_eq_false_iff_ne.mpr hhead).symm

theorem foldl_push_names {ns : List (List Char)} (h : ∀ n ∈ ns, IsName n) (p : Path) :
    (ns.foldl push p).rooted = p.rooted ∧ (ns.foldl push p).ups = p.ups ∧ (ns.foldl push p).names = p.names ++ ns := by
  induction ns generalizing p with
  | nil => simp
  | cons n ns ih =>
    obtain ⟨hroot, hups, hname⟩ := ih (fun n' hn' => h n' (by simp [hn'])) (p.push n)
    rw [List.foldl_cons, hroot, hups, hname, push_name p (h n (by simp))]
    simp [child]

theorem foldl_push_ups (k : Nat) (hroot : p.rooted = false) (hname : p.names = []) :
    ((List.replicate k ['.', '.']).foldl push p).rooted = false ∧
      ((List.replicate k ['.', '.']).foldl push p).ups = p.ups + k ∧
      ((List.replicate k ['.', '.']).foldl push p).names = [] := by
  induction k generalizing p with
  | zero => simp [hroot, hname]
  | succ k ih =>
    have hpush : p.push ['.', '.'] = ⟨p.rooted, p.ups + 1, p.names, by simp [hroot], p.isName⟩ := by
      rw [push, dif_neg (by decide), if_pos rfl, parent, if_pos hname, dif_neg (by simp [hroot])]
    rw [List.replicate_succ, List.foldl_cons, hpush]
    obtain ⟨h, hups, hn⟩ := @ih ⟨p.rooted, p.ups + 1, p.names, by simp [hroot], p.isName⟩ hroot hname
    exact ⟨h, hups.trans (by change p.ups + 1 + k = p.ups + (k + 1); omega), hn⟩

theorem head?_intercalate (hne : n ≠ []) (ns : List (List Char)) : (['/'].intercalate (n :: ns)).head? = n.head? := by
  obtain ⟨c, n, rfl⟩ := List.exists_cons_of_ne_nil hne
  cases ns with
  | nil => simp [List.intercalate]
  | cons n' ns => rw [List.intercalate_cons_cons]; rfl

theorem mem_parts (hn : n ∈ p.parts) : n ≠ [] ∧ '/' ∉ n := by
  rcases List.mem_append.mp hn with hn | hn
  · rw [List.eq_of_mem_replicate hn]
    decide
  · exact ⟨(p.isName n hn).1, (p.isName n hn).2.2.2⟩

theorem clean_text (p : Path) : clean p.text = p := by
  rw [text]
  cases hroot : p.rooted with
  | true =>
    have hsplit : ('/' :: ['/'].intercalate p.names).splitOn '/' = [] :: (['/'].intercalate p.names).splitOn '/' :=
      List.splitOn_append_cons_self [] (['/'].intercalate p.names)
    have hname : ((['/'].intercalate p.names).splitOn '/').foldl push root = p.names.foldl push root := by
      by_cases hne : p.names = []
      · rw [hne]
        rfl
      · rw [List.splitOn_intercalate '/' (fun n hn => (p.isName n hn).2.2.2) hne]
    have hups := p.rooted_ups hroot
    obtain ⟨h1, h2, h3⟩ := foldl_push_names p.isName root
    rw [if_pos rfl, clean, extend, hsplit, List.foldl_cons, push_nil]
    change ((['/'].intercalate p.names).splitOn '/').foldl push root = p
    rw [hname]
    ext1
    · rw [h1, hroot]
      rfl
    · rw [h2, hups]
      rfl
    rw [h3]
    rfl
  | false =>
    rw [if_neg Bool.false_ne_true]
    have hfold : p.parts.foldl push here = p := by
      obtain ⟨h1, h2, h3⟩ := foldl_push_ups p.ups (p := here) rfl rfl
      obtain ⟨h1', h2', h3'⟩ := foldl_push_names p.isName ((List.replicate p.ups ['.', '.']).foldl push here)
      rw [parts, List.foldl_append]
      ext1
      · rw [h1', h1, hroot]
      · rw [h2', h2]
        simp [here]
      · rw [h3', h3, List.nil_append]
    split
    · rename_i hnil
      rw [hnil] at hfold
      rw [← hfold]
      decide
    rename_i hne
    obtain ⟨n, ns, hcons⟩ := List.exists_cons_of_ne_nil hne
    obtain ⟨hn, hslash⟩ := mem_parts (p := p) (n := n) (by simp [hcons])
    have hhead : (['/'].intercalate p.parts).head? ≠ some '/' := by
      rw [hcons, head?_intercalate hn]
      intro hhead
      exact hslash (List.mem_of_head? hhead)
    rw [clean, start, if_neg hhead, extend, List.splitOn_intercalate '/' (fun n hn => (mem_parts hn).2) hne, hfold]

theorem text_injective (h : p.text = q.text) : p = q := by rw [← clean_text p, h, clean_text]

theorem extend_intercalate (p : Path) (s : List Char) (rest : List (List Char)) :
    p.extend (['/'].intercalate (s :: rest)) = rest.foldl extend (p.extend s) := by
  induction rest generalizing p s with
  | nil => simp [List.intercalate]
  | cons t rest ih =>
    rw [List.intercalate_cons_cons, List.append_assoc]
    change p.extend (s ++ '/' :: ['/'].intercalate (t :: rest)) = _
    rw [extend_append, ih]
    rfl

theorem clean_intercalate (hne : s ≠ []) (rest : List (List Char)) :
    clean (['/'].intercalate (s :: rest)) = rest.foldl extend (clean s) := by
  rw [clean, extend_intercalate, start, head?_intercalate hne]
  rfl

theorem clean_join (hne : s ≠ []) (rest : List (List Char)) : clean (join (s :: rest)) = rest.foldl extend (clean s) := by
  have hdrop : (s :: rest).dropWhile (·.isEmpty) = s :: rest := by simp [hne]
  rw [join, hdrop]
  rw [clean_text, clean_intercalate hne]

theorem ups_eq_zero (hroot : p.rooted = false) (hne : p.text ≠ ['.', '.']) (hnot : ¬ ['.', '.', '/'] <+: p.text) : p.ups = 0 := by
  by_contra hups
  obtain ⟨k, hk⟩ := Nat.exists_eq_succ_of_ne_zero hups
  have hparts : p.parts = ['.', '.'] :: (List.replicate k ['.', '.'] ++ p.names) := by rw [parts, hk]; rfl
  have htext : p.text = ['/'].intercalate p.parts := by rw [text, hroot, if_neg Bool.false_ne_true, if_neg (by simp [hparts])]
  rw [htext, hparts] at hne hnot
  cases hrest : List.replicate k ['.', '.'] ++ p.names with
  | nil => exact hne (by rw [hrest]; rfl)
  | cons n ns =>
    rw [hrest, List.intercalate_cons_cons] at hnot
    exact hnot ⟨_, (List.append_assoc _ _ _).symm⟩

theorem base_of_not_mem (hne : s ≠ []) (hslash : '/' ∉ s) : base s = s := by
  have hall : ∀ c ∈ s.reverse, (c != '/') = true := by
    intro c hc
    rw [bne_iff_ne]
    rintro rfl
    exact hslash (List.mem_reverse.mp hc)
  have htrim : s.reverse.dropWhile (· == '/') = s.reverse := by
    refine List.dropWhile_eq_self_iff.mpr fun hlen => ?_
    have hc := hall _ (List.getElem_mem hlen)
    simpa using hc
  rw [base, if_neg hne, htrim, List.reverse_reverse]
  simp only [hne, if_false]
  rw [List.takeWhile_eq_self_iff.mpr hall, List.reverse_reverse]

/-! ## Paths below a path -/

def Within (p q : Path) : Prop := p.rooted = q.rooted ∧ p.ups = q.ups ∧ p.names <+: q.names

instance (p q : Path) : Decidable (p.Within q) := inferInstanceAs (Decidable (_ ∧ _ ∧ _))

def Overlap (p q : Path) : Prop := p.Within q ∨ q.Within p

instance (p q : Path) : Decidable (p.Overlap q) := inferInstanceAs (Decidable (_ ∨ _))

theorem Within.refl (p : Path) : p.Within p := ⟨rfl, rfl, List.prefix_refl _⟩

theorem Within.trans {r : Path} (h : p.Within q) (h' : q.Within r) : p.Within r :=
  ⟨h.1.trans h'.1, h.2.1.trans h'.2.1, h.2.2.trans h'.2.2⟩

theorem Overlap.refl (p : Path) : p.Overlap p := .inl (.refl p)

theorem Overlap.symm (h : p.Overlap q) : q.Overlap p := Or.symm h

theorem within_child (p : Path) (h : IsName n) : p.Within (p.child n h) :=
  ⟨rfl, rfl, List.prefix_append _ _⟩

theorem extend_text (p : Path) (hroot : q.rooted = false) (hups : q.ups = 0) :
    p.Within (p.extend q.text) ∧ (p.extend q.text).names = p.names ++ q.names := by
  have hparts : q.parts = q.names := by rw [parts, hups]; rfl
  have hfold : p.extend q.text = q.names.foldl push p := by
    rw [text, hroot, if_neg Bool.false_ne_true, hparts]
    split
    · rename_i hnil
      rw [hnil]
      rfl
    · rename_i hne
      rw [extend, List.splitOn_intercalate '/' (fun n hn => (q.isName n hn).2.2.2) hne]
  obtain ⟨hrooted, hups', hnames⟩ := foldl_push_names q.isName p
  rw [hfold]
  exact ⟨⟨hrooted.symm, hups'.symm, hnames ▸ List.prefix_append _ _⟩, hnames⟩

theorem not_within_of_child (hq : (p.child n h).Within q) : ¬ q.Within p := by
  intro hq'
  have hlen : (p.names ++ [n]).length ≤ p.names.length := (hq.trans hq').2.2.length_le
  rw [List.length_append, List.length_singleton] at hlen
  omega

theorem child_ne (p : Path) (h : IsName n) : p.child n h ≠ p := by
  intro heq
  refine not_within_of_child (.refl (p.child n h)) ?_
  rw [heq]
  exact .refl p

theorem parent_child (p : Path) (h : IsName n) : (p.child n h).parent = p := by
  rw [parent, if_neg (by simp [child])]
  ext1
  · rfl
  · rfl
  · exact List.dropLast_concat

theorem child_injective {h' : IsName m} (heq : p.child n h = p.child m h') : n = m := by
  have hname : p.names ++ [n] = p.names ++ [m] := congrArg names heq
  exact (List.cons.inj (List.append_cancel_left hname)).1

theorem not_within_sibling {h' : IsName m} (hne : n ≠ m) (hq : (p.child n h).Within q) : ¬ (p.child m h').Within q := by
  intro hq'
  have hlen : (p.names ++ [n]).length = (p.names ++ [m]).length := by simp
  have hname : p.names ++ [n] = p.names ++ [m] :=
    (List.prefix_of_prefix_length_le hq.2.2 hq'.2.2 hlen.le).eq_of_length hlen
  exact hne (List.cons.inj (List.append_cancel_left hname)).1

def rebase (q p p' : Path) : Path where
  rooted := p'.rooted
  ups := p'.ups
  names := p'.names ++ q.names.drop p.names.length
  rooted_ups := p'.rooted_ups
  isName := by
    intro n hn
    rcases List.mem_append.mp hn with hn | hn
    · exact p'.isName n hn
    · exact q.isName n (List.mem_of_mem_drop hn)

theorem rebase_child (p p' : Path) (h : IsName n) : (p.child n h).rebase p p' = p'.child n h := by
  ext1
  · rfl
  · rfl
  · simp [rebase, child]

theorem Overlap.of_within {r : Path} (h : p.Overlap r) (hr : q.Within r) : p.Overlap q := by
  rcases h with h | h
  · -- both are above `r`, so one is above the other
    rcases List.prefix_or_prefix_of_prefix h.2.2 hr.2.2 with hname | hname
    · exact .inl ⟨h.1.trans hr.1.symm, h.2.1.trans hr.2.1.symm, hname⟩
    · exact .inr ⟨hr.1.trans h.1.symm, hr.2.1.trans h.2.1.symm, hname⟩
  · exact .inr (hr.trans h)

theorem append_slash_isPrefix {x y : List Char} (hn : '/' ∉ n) (hm : '/' ∉ m) (hy : y = [] ∨ ∃ z, y = '/' :: z) :
    n ++ '/' :: x <+: m ++ y ↔ n = m ∧ '/' :: x <+: y := by
  constructor
  · intro h
    induction n generalizing m with
    | nil =>
      cases m with
      | nil => exact ⟨rfl, h⟩
      | cons c m =>
        obtain ⟨rfl, -⟩ := List.cons_prefix_cons.mp h
        exact absurd List.mem_cons_self hm
    | cons c n ih =>
      cases m with
      | nil =>
        rcases hy with rfl | ⟨z, rfl⟩
        · exact absurd (List.prefix_nil.mp h) (by simp)
        obtain ⟨rfl, -⟩ := List.cons_prefix_cons.mp h
        exact absurd List.mem_cons_self hn
      | cons d m =>
        obtain ⟨rfl, hrest⟩ := List.cons_prefix_cons.mp h
        obtain ⟨rfl, hx⟩ := ih (fun h' => hn (List.mem_cons_of_mem _ h')) (fun h' => hm (List.mem_cons_of_mem _ h')) hrest
        exact ⟨rfl, hx⟩
  rintro ⟨rfl, h⟩
  exact (List.prefix_append_right_inj n).mpr h

def slashed (ns : List (List Char)) : List Char := ns.flatMap fun n => '/' :: n

theorem slashed_cons (n : List Char) (ns : List (List Char)) : slashed (n :: ns) = '/' :: (n ++ slashed ns) := rfl

theorem slashed_eq (ns : List (List Char)) : slashed ns = [] ∨ ∃ z, slashed ns = '/' :: z := by
  cases ns with
  | nil => exact .inl rfl
  | cons n ns => exact .inr ⟨_, slashed_cons n ns⟩

theorem text_of_rooted (h : p.rooted = true) (hne : p.names ≠ []) : p.text = slashed p.names := by
  have hslash : ∀ (n : List Char) (ns : List (List Char)), '/' :: ['/'].intercalate (n :: ns) = slashed (n :: ns) := by
    intro n ns
    induction ns generalizing n with
    | nil => simp [List.intercalate, slashed]
    | cons n' ns ih =>
      rw [List.intercalate_cons_cons, slashed_cons, ← ih]
      simp
  obtain ⟨n, ns, hcons⟩ := List.exists_cons_of_ne_nil hne
  rw [text, if_pos h, hcons, hslash]

theorem slashed_slash_isPrefix_iff {ns ms : List (List Char)} (hns : ∀ n ∈ ns, '/' ∉ n) (hms : ∀ m ∈ ms, '/' ∉ m) :
    slashed ns ++ ['/'] <+: slashed ms ↔ ns <+: ms ∧ ns ≠ ms := by
  induction ns generalizing ms with
  | nil =>
    cases ms with
    | nil => simp [slashed]
    | cons m ms => simp [slashed]
  | cons n ns ih =>
    cases ms with
    | nil => simp [slashed]
    | cons m ms =>
      have hnext : ∃ x, slashed ns ++ ['/'] = '/' :: x := by
        rcases slashed_eq ns with h | ⟨z, h⟩
        · exact ⟨[], by rw [h]; rfl⟩
        · exact ⟨z ++ ['/'], by rw [h]; rfl⟩
      obtain ⟨x, hx⟩ := hnext
      rw [slashed_cons, slashed_cons, List.cons_append, List.cons_prefix_cons, List.append_assoc, hx,
        append_slash_isPrefix (hns n (by simp)) (hms m (by simp)) (slashed_eq ms), ← hx,
        ih (fun n' hn' => hns n' (by simp [hn'])) fun m' hm' => hms m' (by simp [hm'])]
      simp only [List.cons_prefix_cons, ne_eq, List.cons.injEq, not_and, true_and]
      tauto

theorem text_slash_isPrefix_iff (hp : p.rooted = true) (hq : q.rooted = true) (hpne : p.names ≠ []) (hqne : q.names ≠ []) :
    p.text ++ ['/'] <+: q.text ↔ p.Within q ∧ p ≠ q := by
  rw [text_of_rooted hp hpne, text_of_rooted hq hqne,
    slashed_slash_isPrefix_iff (fun n hn => (p.isName n hn).2.2.2) fun n hn => (q.isName n hn).2.2.2]
  have hups : p.ups = q.ups := by rw [p.rooted_ups hp, q.rooted_ups hq]
  constructor
  · rintro ⟨hname, hne⟩
    exact ⟨⟨hp.trans hq.symm, hups, hname⟩, fun h => hne (congrArg names h)⟩
  rintro ⟨⟨-, -, hname⟩, hne⟩
  exact ⟨hname, fun h => hne (Path.ext (hp.trans hq.symm) hups h)⟩

theorem overlap_iff_text (hp : p.rooted = true) (hq : q.rooted = true) (hpne : p.names ≠ []) (hqne : q.names ≠ []) :
    p.Overlap q ↔ p.text = q.text ∨ q.text ++ ['/'] <+: p.text ∨ p.text ++ ['/'] <+: q.text := by
  rw [text_slash_isPrefix_iff hq hp hqne hpne, text_slash_isPrefix_iff hp hq hpne hqne]
  by_cases heq : p = q
  · subst heq
    simp [Overlap.refl]
  have htext : p.text ≠ q.text := fun h => heq (text_injective h)
  have heq' : q ≠ p := fun h => heq h.symm
  simp only [htext, heq, heq', ne_eq, not_false_eq_true, and_true, false_or]
  exact or_comm

end Path

end Text
