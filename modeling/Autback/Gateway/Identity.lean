import Autback.Control.Model

/-!
# The identity in a data-plane credential

A credential is a certificate for the URI `spiffe://autback/<kind>/<id>`, with the id escaped as a path segment (`Authority.Issue`
in `internal/control/pki/pki.go`); the gateway takes the URI apart again and asks whether the operation is active
(`ServerTLSConfig`). `PathEscape` and `PathUnescape` are those of `net/url`, over bytes. The check passes for the credential of
`op` just if the gateway is one for operations of its kind and `op` is active (`verifyConnection_identity`).
-/

namespace Autback

namespace Gateway

def bytes (s : String) : List UInt8 := s.toUTF8.data.toList

def text (b : List UInt8) : Option String := String.fromUTF8? ⟨b.toArray⟩

theorem text_bytes (s : String) : text (bytes s) = some s := by
  simp [text, bytes, String.fromUTF8?, String.fromUTF8, s.isValidUTF8]

/-! ## Escaping -/

def shouldEscape (b : UInt8) : Bool :=
  let alphanumeric := (97 ≤ b && b ≤ 122) || (65 ≤ b && b ≤ 90) || (48 ≤ b && b ≤ 57)
  -- the bytes of "-_.~" and "$&+:=@"
  !(alphanumeric || [45, 95, 46, 126, 36, 38, 43, 58, 61, 64].contains b)

def upperhex (n : UInt8) : UInt8 := if n < 10 then 48 + n else 55 + n

def unhex (b : UInt8) : Option UInt8 :=
  if 48 ≤ b && b ≤ 57 then some (b - 48)
  else if 97 ≤ b && b ≤ 102 then some (b - 87)
  else if 65 ≤ b && b ≤ 70 then some (b - 55)
  else none

def pathEscape : List UInt8 → List UInt8
  | [] => []
  | b :: bs =>
    if shouldEscape b then 37 :: upperhex (b >>> 4) :: upperhex (b &&& 15) :: pathEscape bs else b :: pathEscape bs

/-- `url.PathUnescape`; 37 is the percent sign. -/
def pathUnescape : List UInt8 → Option (List UInt8)
  | [] => some []
  | b :: bs =>
    if b = 37 then
      match bs with
      | high :: low :: rest => do
        let high ← unhex high
        let low ← unhex low
        return (high <<< 4 ||| low) :: (← pathUnescape rest)
      | _ => none
    else do return b :: (← pathUnescape bs)

theorem hex_byte (b : UInt8) : unhex (upperhex (b >>> 4)) = some (b >>> 4) ∧
    unhex (upperhex (b &&& 15)) = some (b &&& 15) ∧ (b >>> 4) <<< 4 ||| (b &&& 15) = b ∧
    upperhex (b >>> 4) ≠ 47 ∧ upperhex (b &&& 15) ≠ 47 := by
  have hall : ∀ n : Fin 256, let b := UInt8.ofNat n
      unhex (upperhex (b >>> 4)) = some (b >>> 4) ∧ unhex (upperhex (b &&& 15)) = some (b &&& 15) ∧
      (b >>> 4) <<< 4 ||| (b &&& 15) = b ∧ upperhex (b >>> 4) ≠ 47 ∧ upperhex (b &&& 15) ≠ 47 := by
    decide +kernel
  have h := hall ⟨b.toNat, b.toNat_lt⟩
  simpa using h

theorem pathUnescape_pathEscape : ∀ bs : List UInt8, pathUnescape (pathEscape bs) = some bs
  | [] => rfl
  | b :: bs => by
    have ih := pathUnescape_pathEscape bs
    rw [pathEscape]
    split
    · obtain ⟨hhigh, hlow, hbyte, -⟩ := hex_byte b
      simp [pathUnescape, hhigh, hlow, ih, hbyte]
    rename_i hkeep
    have hne : b ≠ 37 := by
      rintro rfl
      exact hkeep (by decide)
    rw [pathUnescape.eq_def]
    simp [hne, ih]

theorem slash_notMem_pathEscape : ∀ bs : List UInt8, 47 ∉ pathEscape bs
  | [] => by simp [pathEscape]
  | b :: bs => by
    have ih := slash_notMem_pathEscape bs
    rw [pathEscape]
    split
    · obtain ⟨-, -, -, hhigh, hlow⟩ := hex_byte b
      simp [ih, Ne.symm hhigh, Ne.symm hlow]
    rename_i hkeep
    have hne : b ≠ 47 := by
      rintro rfl
      exact hkeep (by decide)
    simp [ih, Ne.symm hne]

/-! ## Identities -/

structure Identity where
  (scheme host : String)
  /-- `EscapedPath`. -/
  escapedPath : List UInt8

def identity (op : Op) : Identity where
  scheme := "spiffe"
  host := "autback"
  escapedPath := 47 :: bytes op.kind.text ++ 47 :: pathEscape (bytes op.id)

/-- `strings.TrimPrefix(s, "/")`. -/
def trimSlash : List UInt8 → List UInt8
  | 47 :: bs => bs
  | bs => bs

def verifyConnection (expected : OperationKind) (active : OperationKind → String → Bool) : List Identity → Bool
  | [identity] =>
    match (trimSlash identity.escapedPath).splitOn 47 with
    | [kind, id] =>
      identity.scheme == "spiffe" && identity.host == "autback" &&
        match pathUnescape id with
        | none => false
        | some id => kind == bytes expected.text && (text id).any (active expected)
    | _ => false
  | _ => false

theorem splitOn_pair {kind id : List UInt8} (hkind : 47 ∉ kind) (hid : 47 ∉ id) :
    (kind ++ 47 :: id).splitOn 47 = [kind, id] := by
  rw [List.splitOn_append_cons_self_of_not_mem hkind, List.splitOn_eq_singleton hid]

theorem kind_bytes_inj {k k' : OperationKind} (h : bytes k.text = bytes k'.text) : k = k' := by
  have := congrArg text h
  rw [text_bytes, text_bytes] at this
  cases k <;> cases k' <;> first | rfl | (exact absurd (Option.some.inj this) (by decide))

theorem verifyConnection_identity (expected : OperationKind) (active : OperationKind → String → Bool) (op : Op) :
    verifyConnection expected active [identity op] = true ↔ expected = op.kind ∧ active op.kind op.id = true := by
  have hsplit : (trimSlash (identity op).escapedPath).splitOn 47 = [bytes op.kind.text, pathEscape (bytes op.id)] := by
    refine splitOn_pair ?_ (slash_notMem_pathEscape _)
    cases op.kind <;> decide +kernel
  rw [verifyConnection, hsplit]
  simp only [identity, pathUnescape_pathEscape, text_bytes, Option.any_some, beq_self_eq_true, Bool.and_self, Bool.true_and,
    Bool.and_eq_true, beq_iff_eq]
  constructor
  · rintro ⟨hkind, hactive⟩
    cases kind_bytes_inj hkind
    exact ⟨rfl, hactive⟩
  rintro ⟨rfl, hactive⟩
  exact ⟨rfl, hactive⟩

end Gateway

end Autback
