import Autback.Gateway.Identity
import Autback.Text.Codec

/-!
# Credential secrets

A secret has the form `autback_<kind>_<id>_<secret>` (`newToken` and `newOpaque` in `internal/control/sqlite/store.go`). The
secret part is in the URL alphabet of base64, which has the underscore; what is presented to the server is split at its first
three underscores (`parseToken`, `parseOpaque`). The kind, the id and the secret part of a text are determined by it
(`parts_eq_some`), so no text is a secret of two kinds.
-/

namespace Autback

namespace Auth

open Gateway (bytes text text_bytes)
open Text (base64)

/-! ## Splitting -/

def cut : List UInt8 → Option (List UInt8 × List UInt8)
  | [] => none
  | b :: bs => if b = 95 then some ([], bs) else (cut bs).map fun p => (b :: p.1, p.2)

theorem cut_eq_some : ∀ {s a b : List UInt8}, cut s = some (a, b) ↔ s = a ++ 95 :: b ∧ 95 ∉ a
  | [], a, b => by simp [cut]
  | c :: s, a, b => by
    rw [cut]
    split
    · rename_i hc
      constructor
      · intro h
        cases h
        exact ⟨by rw [hc]; rfl, by simp⟩
      rintro ⟨h, ha⟩
      cases a with
      | nil => rw [(List.cons.inj h).2]
      | cons d a =>
        rw [← (List.cons.inj h).1, hc] at ha
        simp at ha
    rename_i hc
    rw [Option.map_eq_some_iff]
    constructor
    · rintro ⟨⟨x, y⟩, hxy, h⟩
      cases h
      obtain ⟨rfl, hx⟩ := cut_eq_some.mp hxy
      exact ⟨rfl, by simp [hx, Ne.symm hc]⟩
    rintro ⟨h, ha⟩
    cases a with
    | nil => exact absurd (List.cons.inj h).1 hc
    | cons d a =>
      obtain ⟨rfl, hrest⟩ := List.cons.inj h
      exact ⟨(a, b), cut_eq_some.mpr ⟨hrest, fun hm => ha (List.mem_cons_of_mem _ hm)⟩, rfl⟩

def splitN : Nat → List UInt8 → List (List UInt8)
  | 0, s => [s]
  | n + 1, s => match cut s with
    | none => [s]
    | some (a, b) => a :: splitN n b

variable {s kind : List UInt8}

theorem splitN_eq {a b c d : List UInt8} :
    splitN 3 s = [a, b, c, d] ↔ s = a ++ 95 :: (b ++ 95 :: (c ++ 95 :: d)) ∧ 95 ∉ a ∧ 95 ∉ b ∧ 95 ∉ c := by
  constructor
  · intro h
    simp only [splitN] at h
    split at h
    · simp at h
    rename_i s1 h1
    split at h
    · simp at h
    rename_i s2 h2
    split at h
    · simp at h
    rename_i s3 h3
    simp only [List.cons.injEq, and_true] at h
    obtain ⟨rfl, rfl, rfl, rfl⟩ := h
    obtain ⟨rfl, ha⟩ := cut_eq_some.mp h1
    obtain ⟨rfl, hb⟩ := cut_eq_some.mp h2
    obtain ⟨rfl, hc⟩ := cut_eq_some.mp h3
    exact ⟨rfl, ha, hb, hc⟩
  rintro ⟨rfl, ha, hb, hc⟩
  have h1 : cut (a ++ 95 :: (b ++ 95 :: (c ++ 95 :: d))) = some (a, b ++ 95 :: (c ++ 95 :: d)) :=
    cut_eq_some.mpr ⟨rfl, ha⟩
  have h2 : cut (b ++ 95 :: (c ++ 95 :: d)) = some (b, c ++ 95 :: d) := cut_eq_some.mpr ⟨rfl, hb⟩
  have h3 : cut (c ++ 95 :: d) = some (c, d) := cut_eq_some.mpr ⟨rfl, hc⟩
  simp only [splitN, h1, h2, h3]

/-! ## Parsing -/

def compose (kind id secret : List UInt8) : List UInt8 := bytes "autback" ++ 95 :: (kind ++ 95 :: (id ++ 95 :: secret))

def parts (s : List UInt8) : Option (List UInt8 × List UInt8 × List UInt8) :=
  match splitN 3 s with
  | [a, kind, id, secret] => if a = bytes "autback" ∧ id ≠ [] ∧ secret ≠ [] then some (kind, id, secret) else none
  | _ => none

theorem parts_eq_some {id secret : List UInt8} : parts s = some (kind, id, secret) ↔
    s = compose kind id secret ∧ 95 ∉ kind ∧ 95 ∉ id ∧ id ≠ [] ∧ secret ≠ [] := by
  unfold parts
  constructor
  · intro h
    split at h
    · rename_i a kind' id' secret' hs
      split at h
      · rename_i hc
        cases h
        obtain ⟨rfl, -, hk, hi⟩ := splitN_eq.mp hs
        exact ⟨by rw [compose, hc.1], hk, hi, hc.2⟩
      · cases h
    · cases h
  rintro ⟨rfl, hk, hi, hc⟩
  have hs : splitN 3 (compose kind id secret) = [bytes "autback", kind, id, secret] :=
    splitN_eq.mpr ⟨rfl, by decide +kernel, hk, hi⟩
  rw [hs]
  simp [hc]

def kindText : PrincipalKind → List UInt8
  | .device => bytes "dt"
  | .github => bytes "gh"
  | .browser => bytes "ws"
  | .system => []

/-- `parseToken`: the kind and the id of an access token. Bytes that are no text are the id of no row. -/
def parseToken (token : List UInt8) : Option (PrincipalKind × String) := do
  let (kind, id, _) ← parts token
  let kind ← if kind = bytes "dt" then some .device else if kind = bytes "gh" then some .github
    else if kind = bytes "ws" then some PrincipalKind.browser else none
  return (kind, ← text id)

def parseOpaque (value kind : List UInt8) : Option String := do
  let (kind', id, _) ← parts value
  if kind' = kind then text id else none

/-- A secret that `newToken` or `newOpaque` may have made. -/
structure Formed (s kind : List UInt8) (id : String) : Prop where
  form : ∃ secret, s = compose kind (bytes id) secret ∧ secret ≠ []
  kind : 95 ∉ kind
  id : 95 ∉ bytes id ∧ bytes id ≠ []

theorem Formed.parts {id : String} (h : Formed s kind id) :
    ∃ secret, Auth.parts s = some (kind, bytes id, secret) := by
  obtain ⟨secret, rfl, hs⟩ := h.form
  exact ⟨secret, parts_eq_some.mpr ⟨rfl, h.kind, h.id.1, h.id.2, hs⟩⟩

theorem Formed.parseToken {kind : PrincipalKind} {id : String} (h : Formed s (kindText kind) id)
    (hk : kind ≠ .system) : Auth.parseToken s = some (kind, id) := by
  obtain ⟨secret, hs⟩ := h.parts
  have hne : bytes "gh" ≠ bytes "dt" ∧ bytes "ws" ≠ bytes "dt" ∧ bytes "ws" ≠ bytes "gh" := by decide +kernel
  cases kind <;> simp_all [Auth.parseToken, kindText, text_bytes]

theorem Formed.parseToken_eq_none {id : String} (h : Formed s kind id)
    (hk : kind ≠ bytes "dt" ∧ kind ≠ bytes "gh" ∧ kind ≠ bytes "ws") : Auth.parseToken s = none := by
  obtain ⟨secret, hs⟩ := h.parts
  simp [Auth.parseToken, hs, hk]

theorem Formed.parseOpaque {id : String} (h : Formed s kind id) : Auth.parseOpaque s kind = some id := by
  obtain ⟨secret, hs⟩ := h.parts
  simp [Auth.parseOpaque, hs, text_bytes]

theorem Formed.parseOpaque_eq_none {kind' : List UInt8} {id : String} (h : Formed s kind id) (hk : kind ≠ kind') :
    Auth.parseOpaque s kind' = none := by
  obtain ⟨secret, hs⟩ := h.parts
  simp [Auth.parseOpaque, hs, hk]

/-! ## Making secrets -/

def lowerhex (n : UInt8) : Char := if n < 10 then Char.ofNat (48 + n.toNat) else Char.ofNat (87 + n.toNat)

/-- `hex.EncodeToString`. -/
def hex (value : List UInt8) : List Char := value.flatMap fun (b : UInt8) => [lowerhex (b >>> 4), lowerhex (b &&& 15)]

/-- What `rand.Read` returns for a new secret. -/
structure Random where
  id : { v : List UInt8 // v.length = 12 }
  secret : { v : List UInt8 // v.length = 32 }

def randomID (start : String) (r : Random) : String := start ++ String.ofList (hex r.id.1)

def newSecret (kind : List UInt8) (id : String) (r : Random) : List UInt8 := compose kind (bytes id) (base64 r.secret.1)

theorem bytes_append (a b : String) : bytes (a ++ b) = bytes a ++ bytes b := by
  simp [bytes, String.toUTF8]

theorem bytes_ofList (l : List Char) : bytes (String.ofList l) = l.flatMap String.utf8EncodeChar := by
  simp [bytes, String.toUTF8, List.utf8Encode]

theorem underscore_notMem_digits (b : UInt8) :
    95 ∉ [lowerhex (b >>> 4), lowerhex (b &&& 15)].flatMap String.utf8EncodeChar := by
  have hall : ∀ n : Fin 256, 95 ∉ [lowerhex (UInt8.ofNat n >>> 4), lowerhex (UInt8.ofNat n &&& 15)].flatMap
      String.utf8EncodeChar := by
    decide +kernel
  simpa using hall ⟨b.toNat, b.toNat_lt⟩

theorem underscore_notMem_hex (value : List UInt8) : 95 ∉ (hex value).flatMap String.utf8EncodeChar := by
  induction value with
  | nil => simp [hex]
  | cons b value ih =>
    have hcons : hex (b :: value) = [lowerhex (b >>> 4), lowerhex (b &&& 15)] ++ hex value := rfl
    rw [hcons, List.flatMap_append, List.mem_append]
    exact fun h => h.elim (underscore_notMem_digits b) ih

theorem formed_newSecret {start : String} (r : Random) (hk : 95 ∉ kind) (hs : 95 ∉ bytes start)
    (hne : bytes start ≠ []) : Formed (newSecret kind (randomID start r) r) kind (randomID start r) where
  form := by
    refine ⟨_, rfl, ?_⟩
    obtain ⟨v, hv⟩ := r.secret
    match v, hv with
    | a :: b :: c :: _, _ => simp [base64]
  kind := hk
  id := by
    rw [randomID, bytes_append, bytes_ofList]
    refine ⟨fun h => ?_, by simp [hne]⟩
    rcases List.mem_append.mp h with h | h
    · exact hs h
    · exact underscore_notMem_hex _ h

end Auth

end Autback
