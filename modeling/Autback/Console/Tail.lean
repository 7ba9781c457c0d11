import Autback.Redact.Writer

/-!
# The tail of a live log

`tailWriter` of `internal/console/source.go` keeps the last bytes of a log in place, and `liveLogWriter` of
`internal/console/logstream.go` publishes what it holds after every write.

The bytes are always the last ones (`run_held`). The flag says whether bytes were lost (`tail_exact`), unless the first bytes come
in one write of exactly the limit: nothing is lost, and the view is marked as truncated (`tail_whole_marked`).
-/

namespace Autback.Console

open Redact (Bytes Error)

structure TailWriter where
  limit : Int
  bytes : Bytes
  truncated : Bool

/-- Go's `copy`: it stops at the end of the shorter slice. -/
def copyInto (dst src : Bytes) : Bytes := src.take dst.length ++ dst.drop src.length

namespace TailWriter

def shift (w : TailWriter) (overflow : Nat) : TailWriter :=
  { w with bytes := (copyInto w.bytes (w.bytes.drop overflow)).take (w.bytes.length - overflow), truncated := true }

def write (w : TailWriter) (input : Bytes) : (Nat × Option Error) × TailWriter :=
  let written := input.length
  if w.limit ≤ 0 then ((written, none), { w with truncated := w.truncated || decide (input.length > 0) })
  else if input.length ≥ w.limit then
    ((written, none), { w with bytes := input.drop (input.length - w.limit.toNat), truncated := true })
  else
    let overflow := w.bytes.length + input.length - w.limit
    let w := if overflow > 0 then w.shift overflow.toNat else w
    ((written, none), { w with bytes := w.bytes ++ input })

def run (w : TailWriter) : List Bytes → TailWriter
  | [] => w
  | input :: rest => (w.write input).2.run rest

end TailWriter

structure LogView where
  available : Bool
  truncated : Bool
  content : Bytes
  deriving DecidableEq

/-- The channel `output` has room for one view. -/
structure LiveLogWriter where
  tailWriter : TailWriter
  output : Option LogView
  published : Bool

def maxLogTailBytes : Int := 64 * 1024

def newLiveLogWriter (output : Option LogView) : LiveLogWriter := ⟨⟨maxLogTailBytes, [], false⟩, output, false⟩

/-- A `select` with the one case `output <- view` and a `default`: whether it sent, and the channel after it. -/
def trySend (view : LogView) : Option LogView → Bool × Option LogView
  | none => (true, some view)
  | some old => (false, some old)

namespace LiveLogWriter

def view (w : LiveLogWriter) : LogView := ⟨true, w.tailWriter.truncated, w.tailWriter.bytes⟩

def publish (w : LiveLogWriter) : LiveLogWriter :=
  let w := { w with published := true }
  match trySend w.view w.output with
  | (true, output) => { w with output }
  -- the second select leaves the channel empty: it takes the old view, or the subscriber was faster
  | (false, _) => { w with output := (trySend w.view none).2 }

def write (w : LiveLogWriter) (input : Bytes) : (Nat × Option Error) × LiveLogWriter :=
  let (result, tailWriter) := w.tailWriter.write input
  (result, { w with tailWriter }.publish)

/-- The writes of a log, each with what the channel holds when it comes. -/
def run (w : LiveLogWriter) : List (Bytes × Option LogView) → LiveLogWriter
  | [] => w
  | (input, output) :: rest => ({ w with output }.write input).2.run rest

end LiveLogWriter

/-! ## One write -/

namespace TailWriter

variable {w : TailWriter} {all input : Bytes}

theorem shift_bytes {overflow : Nat} : (w.shift overflow).bytes = w.bytes.drop overflow := by
  have hcopy : copyInto w.bytes (w.bytes.drop overflow) = w.bytes.drop overflow ++ w.bytes.drop (w.bytes.length - overflow) := by
    rw [copyInto, List.take_of_length_le (by simp), List.length_drop]
  rw [shift, hcopy, List.take_left' List.length_drop]

/-- The writer holds the last `min limit total` bytes of `all`. -/
structure Holds (w : TailWriter) (all : Bytes) : Prop where
  suffix : w.bytes <:+ all
  length : (w.bytes.length : Int) = min w.limit all.length

structure Exact (w : TailWriter) (all : Bytes) : Prop extends w.Holds all where
  truncated : w.truncated = true ↔ w.limit < all.length

theorem write_limit : (w.write input).2.limit = w.limit := by
  rw [write]
  split
  · rfl
  · split
    · rfl
    · dsimp only
      split <;> rfl

theorem write_held (hl : 0 < w.limit) (h : w.Holds all) : (w.write input).2.Holds (all ++ input) := by
  have hlen := h.length
  rw [write, if_neg (by omega)]
  split
  case isTrue hi =>
    refine ⟨(List.drop_suffix _ _).trans (List.suffix_append _ _), ?_⟩
    simp only [List.length_drop, List.length_append]
    omega
  case isFalse hi =>
    dsimp only
    split
    case isTrue ho =>
      refine ⟨?_, ?_⟩
      · rw [shift_bytes]
        exact List.suffix_append_self_iff.mpr ((List.drop_suffix _ _).trans h.suffix)
      · simp only [shift_bytes, List.length_append, List.length_drop]
        change _ = min w.limit _
        omega
    case isFalse ho =>
      refine ⟨List.suffix_append_self_iff.mpr h.suffix, ?_⟩
      simp only [List.length_append]
      omega

/-- A write of `limit` bytes sets the flag, so it must not be the first to have bytes. -/
theorem write_exact (hl : 0 < w.limit) (hi : all = [] → input.length ≠ w.limit) (h : w.Exact all) :
    (w.write input).2.Exact (all ++ input) := by
  refine ⟨write_held hl h.toHolds, ?_⟩
  have hlen := h.length
  have hall : all = [] ∨ 0 < all.length := by cases all <;> simp
  rw [write_limit, write, if_neg (by omega), List.length_append]
  split
  case isTrue hge =>
    refine iff_of_true rfl ?_
    rcases hall with rfl | hall
    · have := hi rfl
      omega
    · omega
  case isFalse hlt =>
    dsimp only
    split
    case isTrue ho => exact iff_of_true rfl (by omega)
    case isFalse ho =>
      rw [h.truncated]
      omega

/-! ## The writes of a log -/

theorem run_held : ∀ {writes : List Bytes} {w : TailWriter} {all : Bytes}, 0 < w.limit → w.Holds all →
    (w.run writes).Holds (all ++ writes.flatten)
  | [], w, all, _, h => by simpa [run] using h
  | input :: rest, w, all, hl, h => by
    rw [List.flatten_cons, ← List.append_assoc]
    exact run_held (by rw [write_limit]; exact hl) (write_held hl h)

theorem run_exact : ∀ {writes : List Bytes} {w : TailWriter} {all : Bytes}, 0 < w.limit →
    (all = [] → ∀ data, writes.find? (· ≠ []) = some data → data.length ≠ w.limit) → w.Exact all →
    (w.run writes).Exact (all ++ writes.flatten)
  | [], w, all, _, _, h => by simpa [run] using h
  | input :: rest, w, all, hl, hf, h => by
    rw [List.flatten_cons, ← List.append_assoc]
    have hi : all = [] → input.length ≠ w.limit := by
      intro ha hlen
      have hne : input ≠ [] := by rintro rfl; simp at hlen; omega
      exact hf ha input (by simp [hne]) hlen
    refine run_exact (by rw [write_limit]; exact hl) ?_ (write_exact hl hi h)
    intro ha data hd
    obtain ⟨rfl, rfl⟩ := List.append_eq_nil_iff.mp ha
    rw [write_limit]
    exact hf rfl data (by simpa using hd)

end TailWriter

theorem LiveLogWriter.publish_tailWriter {w : LiveLogWriter} : w.publish.tailWriter = w.tailWriter := by
  rw [publish]
  split <;> rfl

theorem LiveLogWriter.run_tailWriter : ∀ {inputs : List (Bytes × Option LogView)} {w : LiveLogWriter},
    (w.run inputs).tailWriter = w.tailWriter.run (inputs.map Prod.fst)
  | [], _ => rfl
  | (input, output) :: rest, w => by
    rw [run, run_tailWriter, write, publish_tailWriter]
    rfl

/-- The last part: inside a live log the writer does the same, whatever the subscriber receives between the writes. -/
theorem tail_exact {limit : Int} (hl : 0 < limit) (writes : List Bytes) :
    (TailWriter.run ⟨limit, [], false⟩ writes).Holds writes.flatten ∧
      ((∀ data, writes.find? (· ≠ []) = some data → data.length ≠ limit) →
        (TailWriter.run ⟨limit, [], false⟩ writes).Exact writes.flatten) ∧
      ∀ w : LiveLogWriter, w.tailWriter = ⟨limit, [], false⟩ → ∀ inputs, inputs.map Prod.fst = writes →
        (w.run inputs).tailWriter = TailWriter.run ⟨limit, [], false⟩ writes := by
  have hnew : TailWriter.Exact ⟨limit, [], false⟩ [] := ⟨⟨List.suffix_refl _, by simp; omega⟩, by simp; omega⟩
  refine ⟨TailWriter.run_held hl hnew.toHolds, ?_, ?_⟩
  · intro hfirst
    exact TailWriter.run_exact hl (fun _ => hfirst) hnew
  · rintro w hw inputs rfl
    rw [LiveLogWriter.run_tailWriter, hw]

theorem tail_exact_shifted :
    (TailWriter.run ⟨2, [], false⟩ [[1], [], [2, 3]]).Exact [1, 2, 3] ∧
      (TailWriter.run ⟨2, [], false⟩ [[1], [], [2, 3]]).bytes = [2, 3] :=
  ⟨(tail_exact (by decide) _).2.1 (by decide), by decide⟩

/-- A log of `maxLogTailBytes` bytes that arrives in one write is held whole, and its view says that it is truncated. -/
theorem tail_whole_marked :
    ((newLiveLogWriter none).write (List.replicate (64 * 1024) 0)).2.output =
        some ⟨true, true, List.replicate (64 * 1024) 0⟩ ∧
      ¬ maxLogTailBytes < (List.replicate (64 * 1024) (0 : UInt8)).length := by
  have hfull : ∀ data : Bytes, (data.length : Int) = maxLogTailBytes →
      ((newLiveLogWriter none).write data).2.output = some ⟨true, true, data⟩ := by
    intro data hlen
    rw [LiveLogWriter.write, TailWriter.write, if_neg (by decide), if_pos (by rw [hlen]; exact le_rfl)]
    have hdrop : data.length - (newLiveLogWriter none).tailWriter.limit.toNat = 0 := by
      rw [show (newLiveLogWriter none).tailWriter.limit = maxLogTailBytes from rfl, ← hlen]
      simp
    rw [hdrop]
    rfl
  refine ⟨hfull _ ?_, ?_⟩ <;> rw [List.length_replicate] <;> decide

end Autback.Console
