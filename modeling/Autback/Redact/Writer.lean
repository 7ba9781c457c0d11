import Autback.Text.Replace
import Autback.Gateway.Identity

/-!
# The redacting writer

`internal/operation/redact/writer.go`. A writer that hides secrets in the output of an operation: it keeps back what may still
grow into a secret, and passes on the rest with every secret replaced.

After `Close` the destination has received the leftmost-longest replacement of the whole stream, however it was cut into calls,
and before that a prefix of it (`writer_replaces`). A secret can still come together at an edge of a replacement (`writer_leaks`),
and only there (`writer_secretFree_iff`).
-/

namespace Autback

namespace Redact

open Gateway (bytes)
open Text

abbrev Bytes := List UInt8

inductive Error
  | invalid (text : String)
  | shortWrite
  | destination (text : String)
  deriving DecidableEq

/-- An `io.Writer`: from what it has received and the new contents, how much of them it takes and the error. -/
abbrev Destination := Bytes → Bytes → Nat × Option Error

def Destination.Accepts (d : Destination) : Prop := ∀ received contents, d received contents = (contents.length, none)

def replacementCandidates : List Bytes := [bytes "[REDACTED]", bytes "***", bytes "[HIDDEN]"]

/-- `Writer`, with what its destination has received. -/
structure Writer where
  destination : Destination
  secrets : List Bytes
  (replacement pending : Bytes)
  closed : Bool
  err : Option Error
  received : Bytes

/-! ## NewWriter -/

/-- `safeReplacement`: the first candidate in which no secret lies, or nothing. -/
def safeReplacement (secrets : List Bytes) : Bytes :=
  (replacementCandidates.find? fun candidate => secrets.all fun secret => !decide (secret <:+: candidate)).getD []

/-- The body of the loop of `NewWriter` over the values: an empty one is refused, a repeated one skipped. -/
def addSecret (secrets : List Bytes) (value : Bytes) : Except Error (List Bytes) :=
  if value = [] then .error (.invalid "secret value must not be empty")
  else if value ∈ secrets then .ok secrets else .ok (secrets ++ [value])

def longerFirst (a b : Bytes) : Bool := if a.length = b.length then decide (a < b) else decide (a.length > b.length)

def newWriter (destination : Option Destination) (values : List Bytes) : Except Error Writer :=
  match destination with
  | none => .error (.invalid "redaction destination is required")
  | some destination => match values.foldlM addSecret [] with
    | .error e => .error e
    | .ok secrets =>
      let secrets := secrets.insertionSort fun a b => longerFirst a b = true
      .ok ⟨destination, secrets, safeReplacement secrets, [], false, none, []⟩

/-! ## Write and Close -/

def Writer.writeDestination (w : Writer) (contents : Bytes) : Writer :=
  if contents = [] then w
  else
    let (written, err) := w.destination w.received contents
    { w with
      received := w.received ++ contents.take written
      err := if err.isSome then err else if written ≠ contents.length then some .shortWrite else w.err }

/-- The body of the loop of `matchPrefix`. -/
def matchSecret (pending : Bytes) (found : Nat × Bool) (secret : Bytes) : Nat × Bool :=
  if pending.length ≥ secret.length && pending.take secret.length == secret then
    (if secret.length > found.1 then secret.length else found.1, found.2)
  else if pending.length < secret.length && pending == secret.take pending.length then (found.1, true)
  else found

/-- `matchPrefix`: the longest secret at the start of the pending bytes, and whether they may still become a longer one. -/
def Writer.matchPrefix (w : Writer) : Nat × Bool := w.secrets.foldl (matchSecret w.pending) (0, false)

/-- `process`: the loop over the pending bytes, to the end of the stream if `final`. -/
def Writer.process (final : Bool) (w : Writer) : Writer :=
  if _ : w.pending = [] ∨ w.err.isSome then w
  else if 0 < w.matchPrefix.1 ∧ (final || !w.matchPrefix.2) then
    process final { w.writeDestination w.replacement with pending := w.pending.drop w.matchPrefix.1 }
  else if w.matchPrefix.2 && !final then w
  else process final { w.writeDestination (w.pending.take 1) with pending := w.pending.drop 1 }
termination_by w.pending.length
decreasing_by
  all_goals
    have := List.length_pos_iff.mpr (not_or.mp ‹¬(w.pending = [] ∨ _)›).1
    simp only [List.length_drop]
    omega

def Writer.write (w : Writer) (contents : Bytes) : (Nat × Option Error) × Writer :=
  if w.closed then ((0, some (.invalid "write to closed redactor")), w)
  else if w.err.isSome then ((0, w.err), w)
  else if w.secrets = [] then
    let (written, err) := w.destination w.received contents
    ((written, err), { w with received := w.received ++ contents.take written, err := err })
  else
    let w := { w with pending := w.pending ++ contents }.process false
    ((contents.length, w.err), w)

def Writer.close (w : Writer) : Option Error × Writer :=
  if w.closed then (w.err, w)
  else
    let w := { w with closed := true }
    let w := if w.err.isNone then w.process true else w
    (w.err, w)

/-- The writer after some calls of `Write`. -/
def Writer.writes (w : Writer) (chunks : List Bytes) : Writer := chunks.foldl (fun w contents => (w.write contents).2) w

/-! ## What matchPrefix finds -/

variable {p u s : Bytes} {final : Bool} {w w0 : Writer} {secrets values : List Bytes} {d : Destination}

theorem matchSecret_of_starts (found : Nat × Bool) (h : u <+: p) : matchSecret p found u = (max found.1 u.length, found.2) := by
  have htake : p.take u.length = u := List.prefix_iff_eq_take.mp h ▸ rfl
  have hlen := h.length_le
  simp only [matchSecret, htake, hlen, decide_true, beq_self_eq_true, Bool.and_self, if_true, Prod.mk.injEq, and_true]
  split <;> omega

theorem matchSecret_of_grows (found : Nat × Bool) (h : p <+: u) (hlt : p.length < u.length) :
    matchSecret p found u = (found.1, true) := by
  have htake : u.take p.length = p := (List.prefix_iff_eq_take.mp h).symm
  have hnot : ¬ p.length ≥ u.length := by omega
  simp [matchSecret, htake, hlt, hnot]

theorem matchSecret_of_differs (found : Nat × Bool) (h : ¬ u <+: p) (h' : ¬ (p <+: u ∧ p.length < u.length)) :
    matchSecret p found u = found := by
  rw [matchSecret, if_neg, if_neg]
  · intro hc
    simp only [Bool.and_eq_true, decide_eq_true_eq, beq_iff_eq] at hc
    exact h' ⟨List.prefix_iff_eq_take.mpr hc.2, hc.1⟩
  intro hc
  simp only [Bool.and_eq_true, beq_iff_eq] at hc
  exact h (List.prefix_iff_eq_take.mpr hc.2.symm)

theorem foldl_matchSecret (p : Bytes) (S : List Bytes) (found : Nat × Bool) :
    (S.foldl (matchSecret p) found).1 = max found.1 (longest S p) ∧
    ((S.foldl (matchSecret p) found).2 = true ↔ found.2 = true ∨ Grows S p) := by
  induction S generalizing found with
  | nil => simp [longest, Grows]
  | cons u S ih =>
    have hgrow : Grows (u :: S) p ↔ (p <+: u ∧ p.length < u.length) ∨ Grows S p := by
      simp [Grows]
    obtain ⟨ih1, ih2⟩ := ih (matchSecret p found u)
    rw [List.foldl_cons, ih1, ih2, longest_cons, hgrow]
    by_cases hp : u <+: p
    · have hle := hp.length_le
      have hnot : ¬ (p <+: u ∧ p.length < u.length) := by omega
      rw [matchSecret_of_starts found hp, if_pos hp]
      constructor
      · simp only
        omega
      · simp [hnot]
    by_cases hg : p <+: u ∧ p.length < u.length
    · rw [matchSecret_of_grows found hg.1 hg.2, if_neg hp]
      simp [hg]
    rw [matchSecret_of_differs found hp hg, if_neg hp]
    simp [hg]

theorem Writer.matchPrefix_fst (w : Writer) : w.matchPrefix.1 = longest w.secrets w.pending := by
  rw [matchPrefix, (foldl_matchSecret _ _ _).1]
  simp

theorem Writer.matchPrefix_snd (w : Writer) : w.matchPrefix.2 = true ↔ Grows w.secrets w.pending := by
  rw [matchPrefix, (foldl_matchSecret _ _ _).2]
  simp

/-! ## What the writer has passed on -/

structure Writer.SameSettings (w w' : Writer) : Prop where
  destination : w'.destination = w.destination
  secrets : w'.secrets = w.secrets
  replacement : w'.replacement = w.replacement

def Writer.redacted (w : Writer) (s : Bytes) : Bytes := replaceAll w.secrets w.replacement s

/-- After the stream `s`, whatever follows (nothing, at the end), the destination has a prefix of the replaced stream. Without
an error the rest is what becomes of the pending bytes. -/
structure Writer.Follows (final : Bool) (s : Bytes) (w : Writer) : Prop where
  sent : ∀ t, (final = true → t = []) → w.received <+: w.redacted (s ++ t)
  rest : w.err = none → ∀ t, (final = true → t = []) → w.redacted (s ++ t) = w.received ++ w.redacted (w.pending ++ t)

/-- The writer passes on `c` and keeps `p`. -/
theorem Writer.Follows.emit {c : Bytes} (h : w.Follows final s) (herr : w.err = none)
    (hc : ∀ t, (final = true → t = []) → w.redacted (w.pending ++ t) = c ++ w.redacted (p ++ t)) :
    { w.writeDestination c with pending := p }.Follows final s := by
  by_cases hnil : c = []
  · subst hnil
    simp only [writeDestination, if_true]
    constructor
    · intro t ht
      exact h.sent t ht
    intro _ t ht
    exact (h.rest herr t ht).trans (by rw [hc t ht]; rfl)
  have hall : ∀ t, (final = true → t = []) → w.redacted (s ++ t) = w.received ++ (c ++ w.redacted (p ++ t)) := by
    intro t ht
    rw [h.rest herr t ht, hc t ht]
  simp only [writeDestination, if_neg hnil]
  constructor
  · intro t ht
    show _ <+: w.redacted (s ++ t)
    rw [hall t ht]
    exact (List.prefix_append_right_inj _).mpr ((List.take_prefix _ _).trans (List.prefix_append _ _))
  intro herr' t ht
  have hlen : (w.destination w.received c).1 = c.length := by
    by_contra hne
    simp only at herr'
    split at herr'
    · rename_i hsome
      rw [herr'] at hsome
      cases hsome
    · cases herr'
  refine (hall t ht).trans ?_
  simp only [hlen, List.take_length, List.append_assoc]
  rfl

theorem Writer.writeDestination_settings (w : Writer) (c : Bytes) : w.SameSettings (w.writeDestination c) := by
  rw [writeDestination]
  split <;> exact ⟨rfl, rfl, rfl⟩

theorem Writer.SameSettings.trans {w' w'' : Writer} (h : w.SameSettings w') (h' : w'.SameSettings w'') : w.SameSettings w'' :=
  ⟨h'.destination.trans h.destination, h'.secrets.trans h.secrets, h'.replacement.trans h.replacement⟩

theorem Writer.redacted_replaced {t : Bytes} (hn : 0 < w.matchPrefix.1) (hg : (final || !w.matchPrefix.2) = true)
    (ht : final = true → t = []) :
    w.redacted (w.pending ++ t) = w.replacement ++ w.redacted (w.pending.drop w.matchPrefix.1 ++ t) := by
  have hlong : longest w.secrets (w.pending ++ t) = w.matchPrefix.1 := by
    rw [w.matchPrefix_fst]
    cases final with
    | true => rw [ht rfl, List.append_nil]
    | false =>
      apply longest_append
      rw [← w.matchPrefix_snd]
      simpa using hg
  have hle : w.matchPrefix.1 ≤ w.pending.length := by
    rw [w.matchPrefix_fst]
    exact longest_le
  rw [redacted, replaceAll_replaced (by omega), hlong, List.drop_append_of_le_length hle]
  rfl

theorem Writer.redacted_copied {t : Bytes} (hne : w.pending ≠ [])
    (hn : ¬ (0 < w.matchPrefix.1 ∧ (final || !w.matchPrefix.2) = true)) (hg : ¬ (w.matchPrefix.2 && !final) = true)
    (ht : final = true → t = []) : w.redacted (w.pending ++ t) = w.pending.take 1 ++ w.redacted (w.pending.drop 1 ++ t) := by
  have hlong : longest w.secrets (w.pending ++ t) = 0 := by
    cases final with
    | true =>
      rw [ht rfl, List.append_nil, ← w.matchPrefix_fst]
      simpa using hn
    | false =>
      have hno : w.matchPrefix.2 = false := by simpa using hg
      rw [longest_append (by rw [← w.matchPrefix_snd, hno]; simp), ← w.matchPrefix_fst]
      simpa [hno] using hn
  cases hp : w.pending with
  | nil => exact absurd hp hne
  | cons a p =>
    rw [hp, List.cons_append] at hlong
    rw [redacted, List.cons_append, replaceAll_copied hlong]
    rfl

theorem Writer.writeDestination_accepts (hd : w.destination.Accepts) (c : Bytes) : (w.writeDestination c).err = w.err := by
  rw [writeDestination]
  split
  · rfl
  · simp [hd w.received c]

structure Writer.Processed (final : Bool) (s : Bytes) (w w' : Writer) : Prop where
  follows : w'.Follows final s
  settings : w.SameSettings w'
  closed : w'.closed = w.closed
  accepted : w.destination.Accepts → w.err = none → w'.err = none
  nothingLeft : final = true → w'.err = none → w'.pending = []

theorem Writer.Processed.turn {c : Bytes} {w' : Writer} (h : { w.writeDestination c with pending := p }.Processed final s w') :
    w.Processed final s w' where
  follows := h.follows
  settings := (w.writeDestination_settings c).trans ⟨h.settings.destination, h.settings.secrets, h.settings.replacement⟩
  closed := by
    refine h.closed.trans ?_
    simp only [writeDestination]
    split <;> rfl
  accepted hd herr := by
    apply h.accepted
    · rw [(w.writeDestination_settings c).destination]
      exact hd
    · exact (writeDestination_accepts hd c).trans herr
  nothingLeft := h.nothingLeft

theorem Writer.process_spec (h : w.Follows final s) : w.Processed final s (w.process final) := by
  induction w using Writer.process.induct final with
  | case1 w hdone =>
    rw [process, dif_pos hdone]
    refine ⟨h, ⟨rfl, rfl, rfl⟩, rfl, fun _ herr => herr, ?_⟩
    intro _ herr
    rw [herr] at hdone
    simpa using hdone
  | case2 w hdone hr ih =>
    rw [process, dif_neg hdone, if_pos hr]
    have herr : w.err = none := by simpa using (not_or.mp hdone).2
    exact (ih (h.emit herr fun t ht => redacted_replaced hr.1 hr.2 ht)).turn
  | case3 w hdone hr hg =>
    rw [process, dif_neg hdone, if_neg hr, if_pos hg]
    refine ⟨h, ⟨rfl, rfl, rfl⟩, rfl, fun _ herr => herr, ?_⟩
    intro hfin
    simp [hfin] at hg
  | case4 w hdone hr hg ih =>
    rw [process, dif_neg hdone, if_neg hr, if_neg hg]
    have herr : w.err = none := by simpa using (not_or.mp hdone).2
    exact (ih (h.emit herr fun t ht => redacted_copied (not_or.mp hdone).1 hr hg ht)).turn

/-! ## Whole streams -/

structure Writer.Streaming (w0 : Writer) (s : Bytes) (w : Writer) : Prop where
  follows : w.Follows false s
  settings : w0.SameSettings w
  opened : w.closed = false
  accepted : w0.destination.Accepts → w.err = none

theorem Writer.Follows.mono (h : w.Follows false s) (final : Bool) : w.Follows final s where
  sent t _ := h.sent t nofun
  rest herr t _ := h.rest herr t nofun

theorem Writer.Streaming.write (h : w0.Streaming s w) (hne : w0.secrets ≠ []) (c : Bytes) :
    w0.Streaming (s ++ c) (w.write c).2 := by
  rw [Writer.write, if_neg (by simp [h.opened])]
  split
  · -- a writer that has failed takes nothing more
    rename_i herr
    refine ⟨⟨?_, ?_⟩, h.settings, h.opened, h.accepted⟩
    · intro t _
      rw [List.append_assoc]
      exact h.follows.sent _ nofun
    intro hnone
    rw [hnone] at herr
    cases herr
  rename_i herr
  rw [if_neg (by rw [h.settings.secrets]; exact hne)]
  have hfollows : { w with pending := w.pending ++ c }.Follows false (s ++ c) := by
    constructor
    · intro t _
      rw [List.append_assoc]
      exact h.follows.sent _ nofun
    intro hnone t _
    simp only [List.append_assoc]
    exact h.follows.rest hnone _ nofun
  have hp := process_spec hfollows
  refine ⟨hp.follows, h.settings.trans ⟨hp.settings.destination, hp.settings.secrets, hp.settings.replacement⟩,
    hp.closed.trans h.opened, ?_⟩
  intro hd
  apply hp.accepted
  · rw [h.settings.destination]
    exact hd
  · exact h.accepted hd

theorem Writer.Streaming.writes (h : w0.Streaming s w) (hne : w0.secrets ≠ []) (chunks : List Bytes) :
    w0.Streaming (s ++ chunks.flatten) (w.writes chunks) := by
  induction chunks generalizing s w with
  | nil => simpa [Writer.writes] using h
  | cons c chunks ih =>
    rw [List.flatten_cons, ← List.append_assoc]
    exact ih (h.write hne c)

theorem Writer.Streaming.received (h : w0.Streaming s w) (t : Bytes) : w.received <+: w0.redacted (s ++ t) := by
  have hsent := h.follows.sent t nofun
  rwa [redacted, h.settings.secrets, h.settings.replacement] at hsent

/-- `Close` passes on the rest. -/
theorem Writer.Streaming.close (h : w0.Streaming s w) (hd : w0.destination.Accepts) :
    w.close.1 = none ∧ w.close.2.received = w0.redacted s := by
  have hp : { w with closed := true }.Processed true s ({ w with closed := true }.process true) :=
    process_spec ⟨(h.follows.mono true).sent, (h.follows.mono true).rest⟩
  have herr : ({ w with closed := true }.process true).err = none := by
    apply hp.accepted
    · rw [h.settings.destination]
      exact hd
    · exact h.accepted hd
  have hrecord := hp.follows.rest herr [] (fun _ => rfl)
  rw [hp.nothingLeft rfl herr, List.append_nil, redacted, redacted, hp.settings.secrets, hp.settings.replacement,
    List.nil_append, replaceAll_nil, List.append_nil] at hrecord
  have hnone : w.err.isNone = true := by
    rw [h.accepted hd]
    rfl
  rw [Writer.close, if_neg (by simp [h.opened])]
  simp only [hnone, if_true]
  refine ⟨herr, hrecord.symm.trans ?_⟩
  rw [redacted, h.settings.secrets, h.settings.replacement]

/-! ## The secrets of a writer -/

theorem addSecret_eq_ok {secrets' : List Bytes} {value : Bytes} (h : addSecret secrets value = .ok secrets') :
    value ≠ [] ∧ ∀ u, u ∈ secrets' ↔ u ∈ secrets ∨ u = value := by
  rw [addSecret] at h
  split at h
  · cases h
  rename_i hne
  split at h
  · rename_i hmem
    cases h
    refine ⟨hne, fun u => ⟨.inl, ?_⟩⟩
    rintro (hu | rfl)
    · exact hu
    · exact hmem
  cases h
  exact ⟨hne, fun u => by simp⟩

theorem foldlM_addSecret_mem {acc : List Bytes} (h : values.foldlM addSecret acc = .ok secrets) :
    (∀ v ∈ values, v ≠ []) ∧ ∀ u, u ∈ secrets ↔ u ∈ acc ∨ u ∈ values := by
  induction values generalizing acc with
  | nil =>
    cases h
    simp
  | cons v values ih =>
    rw [List.foldlM_cons] at h
    cases hv : addSecret acc v with
    | error e =>
      rw [hv] at h
      cases h
    | ok acc' =>
      rw [hv] at h
      obtain ⟨hne, hmem⟩ := addSecret_eq_ok hv
      obtain ⟨hne', hmem'⟩ := ih h
      constructor
      · intro u hu
        rcases List.mem_cons.mp hu with rfl | hu
        · exact hne
        · exact hne' u hu
      intro u
      rw [hmem', hmem, List.mem_cons, or_assoc]

theorem foldlM_addSecret_ok (h : ∀ v ∈ values, v ≠ []) (acc : List Bytes) :
    ∃ secrets, values.foldlM addSecret acc = .ok secrets := by
  induction values generalizing acc with
  | nil => exact ⟨acc, rfl⟩
  | cons v values ih =>
    have hv : ∃ acc', addSecret acc v = .ok acc' := by
      rw [addSecret, if_neg (h v List.mem_cons_self)]
      split <;> exact ⟨_, rfl⟩
    obtain ⟨acc', hv⟩ := hv
    obtain ⟨secrets, hs⟩ := ih (fun u hu => h u (List.mem_cons_of_mem v hu)) acc'
    exact ⟨secrets, by rw [List.foldlM_cons, hv]; exact hs⟩

theorem not_infix_safeReplacement (hu : u ∈ secrets) (hne : u ≠ []) : ¬ u <:+: safeReplacement secrets := by
  rw [safeReplacement]
  cases hfind : replacementCandidates.find? fun candidate => secrets.all fun secret => !decide (secret <:+: candidate) with
  | none =>
    rw [Option.getD_none, List.infix_nil]
    exact hne
  | some candidate =>
    have hsafe := List.find?_some hfind
    simpa using List.all_eq_true.mp hsafe u hu

structure Writer.New (d : Destination) (values : List Bytes) (w : Writer) : Prop where
  nonempty : ∀ v ∈ values, v ≠ []
  mem : ∀ u, u ∈ w.secrets ↔ u ∈ values
  safe : ∀ u ∈ values, ¬ u <:+: w.replacement
  destination : w.destination = d
  streaming : w.Streaming [] w

theorem newWriter_eq_ok (h : newWriter (some d) values = .ok w) : w.New d values := by
  rw [newWriter] at h
  cases hs : values.foldlM addSecret [] with
  | error e =>
    rw [hs] at h
    cases h
  | ok secrets =>
    rw [hs] at h
    cases h
    obtain ⟨hne, hmem⟩ := foldlM_addSecret_mem hs
    have hmem' : ∀ u, u ∈ secrets.insertionSort (fun a b => longerFirst a b = true) ↔ u ∈ values := by
      intro u
      simpa using hmem u
    refine ⟨hne, hmem', fun u hu => not_infix_safeReplacement ((hmem' u).mpr hu) (hne u hu), rfl, ?_⟩
    exact ⟨⟨fun t _ => List.nil_prefix, fun _ t _ => rfl⟩, ⟨rfl, rfl, rfl⟩, rfl, fun _ => rfl⟩

theorem newWriter_ok (d : Destination) (h : ∀ v ∈ values, v ≠ []) : ∃ w, newWriter (some d) values = .ok w := by
  obtain ⟨secrets, hs⟩ := foldlM_addSecret_ok h []
  rw [newWriter, hs]
  exact ⟨_, rfl⟩

theorem Writer.New.redacted (h : w.New d values) (s : Bytes) : w.redacted s = replaceAll values w.replacement s := by
  rw [Writer.redacted, replaceAll, replaceAll, pieces_congr h.mem]

theorem Writer.New.streams (h : w.New d values) (hvalue : values ≠ []) (chunks : List Bytes) :
    w.Streaming chunks.flatten (w.writes chunks) := by
  have hsecret : w.secrets ≠ [] := by
    obtain ⟨v, hv⟩ := List.exists_mem_of_ne_nil values hvalue
    exact List.ne_nil_of_mem ((h.mem v).mpr hv)
  exact h.streaming.writes hsecret chunks

/-- What a writer without errors has passed on after `Close`. -/
theorem Writer.New.output (h : w.New d values) (hd : d.Accepts) (hvalue : values ≠ []) (chunks : List Bytes) :
    (w.writes chunks).close.1 = none ∧
      (w.writes chunks).close.2.received = replaceAll values w.replacement chunks.flatten := by
  rw [← h.redacted]
  apply (h.streams hvalue chunks).close
  rw [h.destination]
  exact hd

/-- However the stream is cut into calls, after `Close` the destination has its leftmost-longest replacement, and after every
call of `Write` a prefix of it. -/
theorem writer_replaces (d : Destination) (hd : d.Accepts) (values : List Bytes) (hvalues : values ≠ [])
    (hne : ∀ v ∈ values, v ≠ []) :
    ∃ w, newWriter (some d) values = .ok w ∧ ∀ chunks : List Bytes,
      (w.writes chunks).close.1 = none ∧
      (w.writes chunks).close.2.received = replaceAll values w.replacement chunks.flatten ∧
      ∀ n, (w.writes (chunks.take n)).received <+: replaceAll values w.replacement chunks.flatten := by
  obtain ⟨w, hw⟩ := newWriter_ok d hne
  have hnew := newWriter_eq_ok hw
  refine ⟨w, hw, fun chunks => ?_⟩
  obtain ⟨herr, hclose⟩ := hnew.output hd hvalues chunks
  refine ⟨herr, hclose, ?_⟩
  intro n
  have hreceived := (hnew.streams hvalues (chunks.take n)).received (chunks.drop n).flatten
  rwa [← List.flatten_append, List.take_append_drop, hnew.redacted] at hreceived

def everything : Destination := fun _ contents => (contents.length, none)

theorem everything_accepts : everything.Accepts := fun _ _ => rfl

theorem writer_replaces_token : ∃ w, newWriter (some everything) [bytes "token", bytes "token-long"] = .ok w ∧
    ∀ chunks : List Bytes, (w.writes chunks).close.1 = none ∧
      (w.writes chunks).close.2.received =
        replaceAll [bytes "token", bytes "token-long"] w.replacement chunks.flatten ∧
      ∀ n, (w.writes (chunks.take n)).received <+:
        replaceAll [bytes "token", bytes "token-long"] w.replacement chunks.flatten :=
  writer_replaces everything everything_accepts _ (by simp) (by decide +kernel)

/-! ## Secrets in the output -/

/-- The output is free of secrets exactly if none crosses an edge of a replacement. -/
theorem writer_secretFree_iff (d : Destination) (hd : d.Accepts) (values : List Bytes) (w : Writer)
    (hw : newWriter (some d) values = .ok w) (chunks : List Bytes) :
    (∀ v ∈ values, ¬ v <:+: (w.writes chunks).close.2.received) ↔
      ∀ v ∈ values, ¬ Straddles w.replacement (pieces values chunks.flatten) v := by
  have hnew := newWriter_eq_ok hw
  have hone : ∀ v ∈ values, (v <:+: (w.writes chunks).close.2.received ↔
      Straddles w.replacement (pieces values chunks.flatten) v) := by
    intro v hv
    rw [(hnew.output hd (List.ne_nil_of_mem hv) chunks).2]
    exact infix_replaceAll_iff hv (hnew.nonempty v hv) (hnew.safe v hv)
  constructor
  · intro h v hv hs
    exact h v hv ((hone v hv).mpr hs)
  intro h v hv hi
  exact h v hv ((hone v hv).mp hi)

theorem writer_secretFree_token : ∃ w, newWriter (some everything) [bytes "token"] = .ok w ∧
    ((∀ v ∈ [bytes "token"], ¬ v <:+: (w.writes [bytes "a to", bytes "ken"]).close.2.received) ↔
      ∀ v ∈ [bytes "token"], ¬ Straddles w.replacement (pieces [bytes "token"] [bytes "a to", bytes "ken"].flatten) v) := by
  obtain ⟨w, hw⟩ := newWriter_ok everything (by decide +kernel : ∀ v ∈ [bytes "token"], v ≠ [])
  exact ⟨w, hw, writer_secretFree_iff everything everything_accepts _ w hw _⟩

/-- The secrets `q` and `x[`: the output for `xq` is `x[REDACTED]`. -/
theorem writer_leaks : ∃ w, newWriter (some everything) [bytes "q", bytes "x["] = .ok w ∧
    (w.writes [bytes "xq"]).close.2.received = bytes "x[REDACTED]" ∧
    bytes "x[" <:+: (w.writes [bytes "xq"]).close.2.received :=
  ⟨_, rfl, by decide +kernel, by decide +kernel⟩

end Redact

end Autback
