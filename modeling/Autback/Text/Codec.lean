import Mathlib.Data.List.Basic

/-!
# Encodings and codecs

The URL encoding of base64 (`base64`), and codecs. A codec writes values as texts and reads back what it has written.
`Codec.letters` writes lists of strings with two letters, and `Codec.via` writes other values by way of those.
-/

namespace Text

def base64Char (n : UInt8) : UInt8 :=
  if n < 26 then 65 + n else if n < 52 then 71 + n else if n < 62 then n - 4 else if n = 62 then 45 else 95

/-- Bytes in the URL alphabet of base64, without padding. -/
def base64 : List UInt8 → List UInt8
  | [] => []
  | [a] => [base64Char (a >>> 2), base64Char ((a &&& 3) <<< 4)]
  | [a, b] => [base64Char (a >>> 2), base64Char ((a &&& 3) <<< 4 ||| b >>> 4), base64Char ((b &&& 15) <<< 2)]
  | a :: b :: c :: rest =>
    base64Char (a >>> 2) :: base64Char ((a &&& 3) <<< 4 ||| b >>> 4) :: base64Char ((b &&& 15) <<< 2 ||| c >>> 6) ::
      base64Char (c &&& 63) :: base64 rest

/-- Values of `α` as texts in `β`. -/
structure Codec (α β : Type) where
  marshal : α → β
  unmarshal : β → Option α
  unmarshal_marshal : ∀ a, unmarshal (marshal a) = some a

namespace Codec

variable {α β γ : Type}

/-- Write by way of another type. -/
def via (c : Codec α γ) (f : β → α) (g : α → Option β) (h : ∀ b, g (f b) = some b) : Codec β γ where
  marshal b := c.marshal (f b)
  unmarshal text := (c.unmarshal text).bind g
  unmarshal_marshal b := by rw [c.unmarshal_marshal, Option.bind_some, h]

/-- A number in unary. -/
def digits (zero one : β) (n : Nat) : List β := List.replicate n zero ++ [one]

/-- Strings in unary: the numbers of their characters, each one larger, and a zero after each string. -/
def spell (zero one : β) (texts : List String) : List β :=
  texts.flatMap fun text => text.toList.flatMap (fun c => digits zero one (c.toNat + 1)) ++ digits zero one 0

variable [DecidableEq β]

/-- Read what `spell` writes; `n` has been read of the next number and `acc` of the next string. -/
def unspell (zero : β) : List β → Nat → List Char → List String
  | [], _, _ => []
  | b :: bs, n, acc =>
    if b = zero then unspell zero bs (n + 1) acc
    else if n = 0 then String.ofList acc :: unspell zero bs 0 []
    else unspell zero bs 0 (acc ++ [Char.ofNat (n - 1)])

variable {zero one : β}

theorem unspell_zeros (k n : Nat) (bs : List β) (acc : List Char) :
    unspell zero (List.replicate k zero ++ bs) n acc = unspell zero bs (k + n) acc := by
  induction k generalizing n with
  | zero => rw [List.replicate_zero, List.nil_append, Nat.zero_add]
  | succ k ih => rw [List.replicate_succ, List.cons_append, unspell, if_pos rfl, ih, Nat.add_right_comm, Nat.add_assoc]

theorem unspell_chars (h : one ≠ zero) (cs acc : List Char) (bs : List β) :
    unspell zero (cs.flatMap (fun c => digits zero one (c.toNat + 1)) ++ bs) 0 acc = unspell zero bs 0 (acc ++ cs) := by
  induction cs generalizing acc with
  | nil => rw [List.flatMap_nil, List.nil_append, List.append_nil]
  | cons c cs ih =>
    rw [List.flatMap_cons, digits, List.append_assoc, List.append_assoc, unspell_zeros, List.singleton_append, unspell, if_neg h,
      if_neg (Nat.succ_ne_zero _), ih, Nat.add_zero, Nat.add_sub_cancel, Char.ofNat_toNat, List.append_assoc,
      List.singleton_append]

theorem unspell_spell (h : one ≠ zero) (texts : List String) : unspell zero (spell zero one texts) 0 [] = texts := by
  induction texts with
  | nil => rfl
  | cons text texts ih =>
    have hspell : spell zero one (text :: texts) = text.toList.flatMap (fun c => digits zero one (c.toNat + 1)) ++
        one :: spell zero one texts := by simp [spell, digits]
    rw [hspell, unspell_chars h, unspell, if_neg h, if_pos rfl, ih, List.nil_append, String.ofList_toList]

/-- Lists of strings, written with two letters. -/
def letters (zero one : β) (h : one ≠ zero) : Codec (List String) (List β) where
  marshal := spell zero one
  unmarshal text := some (unspell zero text 0 [])
  unmarshal_marshal texts := congrArg some (unspell_spell h texts)

def octets : Codec (List String) (List UInt8) := letters 0 1 (by decide)

/-- Lists of strings as a string. -/
def strings : Codec (List String) String where
  marshal texts := String.ofList ((letters '0' '1' (by decide)).marshal texts)
  unmarshal text := (letters '0' '1' (by decide)).unmarshal text.toList
  unmarshal_marshal texts := by rw [String.toList_ofList, unmarshal_marshal]

/-- Slices of records, which may be nil, each record by its fields. -/
def records (fields : α → List String) (record : List String → Option α) (h : ∀ a, record (fields a) = some a) :
    Codec (Option (List α)) String :=
  strings.via (fun l => (l.map fun l => l.map (strings.via fields record h).marshal).elim [] ("" :: ·))
    (fun texts => match texts with
      | [] => some none
      | _ :: texts => (texts.mapM (strings.via fields record h).unmarshal).map some) fun l => by
    cases l with
    | none => rfl
    | some l =>
      change Option.map some ((l.map _).mapM _) = _
      induction l with
      | nil => rfl
      | cons a l ih =>
        obtain ⟨l', hl', heq⟩ := Option.map_eq_some_iff.mp ih
        cases heq
        rw [List.map_cons, List.mapM_cons, unmarshal_marshal, hl']
        rfl

end Codec

end Text
