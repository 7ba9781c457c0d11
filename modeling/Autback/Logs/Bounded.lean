import Autback.Redact.Writer

/-!
# The durable job log

`boundedLogWriter` of `cmd/autback-job-entrypoint/main.go` writes the output of a job to `job.log` up to a maximum, reports every
write as complete, and is meant to end a log that it cuts with a marker.

A log is whole, or it was cut at one write (`Cut`). The marker is fitted into what is left at that write (`log_bounded`). A write
that fills the file exactly leaves no room, and what follows is dropped without a marker (`log_cut_silently`).
-/

namespace Autback

namespace JobLog

open Gateway (bytes)
open Redact (Bytes Destination Error)

def logTruncationMarker : Bytes := bytes "\n[autback: durable job log reached its configured limit]\n"

structure BoundedLogWriter where
  destination : Destination
  remaining : Int
  truncated : Bool
  file : Bytes

def newBoundedLogWriter (destination : Destination) (file : Bytes) (stat : Option Error) (maximum : Int) :
    Except Error BoundedLogWriter :=
  match stat with
  | some e => .error e
  | none =>
    let remaining := maximum - file.length
    .ok ⟨destination, if remaining < 0 then 0 else remaining, false, file⟩

namespace BoundedLogWriter

/-- `destination.Write`. -/
def append (w : BoundedLogWriter) (data : Bytes) : (Nat × Option Error) × BoundedLogWriter :=
  let (written, err) := w.destination w.file data
  ((written, err), { w with file := w.file ++ data.take written })

def writePayload (w : BoundedLogWriter) (data : Bytes) : Option Error × BoundedLogWriter :=
  let payloadBytes := w.remaining - logTruncationMarker.length
  if payloadBytes > 0 then
    match w.append (data.take payloadBytes.toNat) with
    | ((_, some e), w) => (some e, w)
    | ((_, none), w) => (none, { w with remaining := w.remaining - payloadBytes })
  else (none, w)

def writeMarker (w : BoundedLogWriter) : Option Error × BoundedLogWriter :=
  let marker := if logTruncationMarker.length > w.remaining then logTruncationMarker.take w.remaining.toNat
    else logTruncationMarker
  if marker.length > 0 then
    match w.append marker with
    | ((_, some e), w) => (some e, w)
    | ((_, none), w) => (none, { w with remaining := w.remaining - marker.length })
  else (none, w)

def write (w : BoundedLogWriter) (data : Bytes) : (Nat × Option Error) × BoundedLogWriter :=
  if w.truncated || w.remaining = 0 then ((data.length, none), { w with truncated := true })
  else if data.length ≤ w.remaining then
    let ((written, err), w) := w.append data
    ((written, err), { w with remaining := w.remaining - written })
  else
    match { w with truncated := true }.writePayload data with
    | (some e, w) => ((0, some e), w)
    | (none, w) => match w.writeMarker with
      | (some e, w) => ((0, some e), w)
      | (none, w) => ((data.length, none), w)

def run (w : BoundedLogWriter) : List Bytes → List (Nat × Option Error) × BoundedLogWriter
  | [] => ([], w)
  | data :: rest =>
    let (result, w) := w.write data
    let (results, w) := w.run rest
    (result :: results, w)

end BoundedLogWriter

/-! ## One write -/

section Write

variable {d : Destination} {file data : Bytes} {r : Nat}

theorem write_full {w : BoundedLogWriter} (h : w.truncated = true ∨ w.remaining = 0) :
    w.write data = ((data.length, none), { w with truncated := true }) := by
  rw [BoundedLogWriter.write, if_pos (by simpa using h)]

theorem write_fits (hd : d.Accepts) (hr : r ≠ 0) (hfits : data.length ≤ r) :
    (BoundedLogWriter.mk d r false file).write data =
      ((data.length, none), ⟨d, ((r - data.length : Nat) : Int), false, file ++ data⟩) := by
  have hleft : ((r - data.length : Nat) : Int) = (r : Int) - data.length := by omega
  rw [BoundedLogWriter.write, if_neg (by simpa using hr), if_pos (by simpa using hfits), hleft]
  simp [BoundedLogWriter.append, hd file data]

theorem writePayload_accepts (hd : d.Accepts) :
    (BoundedLogWriter.mk d r true file).writePayload data =
      (none, ⟨d, ((min r logTruncationMarker.length : Nat) : Int), true, file ++ data.take
        (r - logTruncationMarker.length)⟩) := by
  unfold BoundedLogWriter.writePayload
  by_cases hroom : logTruncationMarker.length < r
  · have hpayload : ((r : Int) - logTruncationMarker.length).toNat = r - logTruncationMarker.length := by omega
    have hmin : min r logTruncationMarker.length = logTruncationMarker.length := by omega
    have hleft : (r : Int) - (r - logTruncationMarker.length) = logTruncationMarker.length := by omega
    simp [BoundedLogWriter.append, hd file, hroom, hpayload, hmin, hleft]
  have hpayload : r - logTruncationMarker.length = 0 := by omega
  have hmin : min r logTruncationMarker.length = r := by omega
  simp [hroom, hpayload, hmin]

theorem writeMarker_accepts (hd : d.Accepts) (hr : r ≠ 0) (hle : r ≤ logTruncationMarker.length) :
    (BoundedLogWriter.mk d r true file).writeMarker = (none, ⟨d, 0, true, file ++ logTruncationMarker.take r⟩) := by
  have hmark : (if (logTruncationMarker.length : Int) > r then logTruncationMarker.take (r : Int).toNat
      else logTruncationMarker) = logTruncationMarker.take r := by
    by_cases hlt : r < logTruncationMarker.length
    · simp [hlt]
    have heq : r = logTruncationMarker.length := by omega
    simp [heq]
  have hlength : (logTruncationMarker.take r).length = r := by
    rw [List.length_take]
    omega
  unfold BoundedLogWriter.writeMarker
  simp only [hmark, hlength, BoundedLogWriter.append, hd file]
  rw [if_pos (by omega), List.take_of_length_le (Nat.le_of_eq hlength)]
  simp

/-- What a cut leaves of a write that does not fit into `r` bytes: the marker, or as much of it as fits, and before it what there
is room for. -/
def cutTo (r : Nat) (data : Bytes) : Bytes := data.take (r - logTruncationMarker.length) ++ logTruncationMarker.take r

theorem cutTo_length_le (r : Nat) (data : Bytes) : (cutTo r data).length ≤ r := by
  rw [cutTo, List.length_append, List.length_take, List.length_take]
  omega

theorem write_cut (hd : d.Accepts) (hr : r ≠ 0) (hcut : r < data.length) :
    (BoundedLogWriter.mk d r false file).write data = ((data.length, none), ⟨d, 0, true, file ++ cutTo r data⟩) := by
  have hmark : (0 : Nat) < logTruncationMarker.length := by decide
  have htake : logTruncationMarker.take (min r logTruncationMarker.length) = logTruncationMarker.take r := by
    rw [← List.take_eq_take_min]
  rw [BoundedLogWriter.write, if_neg (by simpa using hr), if_neg (by simpa using hcut)]
  simp only [writePayload_accepts hd]
  rw [writeMarker_accepts hd (by omega) (by omega), htake, cutTo, List.append_assoc]

end Write

/-! ## A sequence of writes -/

section Run

variable (d : Destination) (maximum : Nat) (content : Bytes)

/-- The room that is left in the file after the writes `ws`, if they fit. -/
def room (ws : List Bytes) : Nat := maximum - (content.length + ws.flatten.length)

/-- The log after the writes `ws`, while it has all of them. -/
structure Whole (ws : List Bytes) (w : BoundedLogWriter) : Prop where
  fit : content.length + ws.flatten.length ≤ maximum
  eq : w = ⟨d, room maximum content ws, w.truncated, content ++ ws.flatten⟩
  full : w.truncated = true → room maximum content ws = 0

structure Cut (ws : List Bytes) (w : BoundedLogWriter) (before : List Bytes) (data : Bytes) (after : List Bytes) : Prop where
  split : ws = before ++ data :: after
  fit : content.length + before.flatten.length ≤ maximum
  beyond : room maximum content before < data.length
  eq : w = ⟨d, 0, true, content ++ before.flatten ++ cutTo (room maximum content before) data⟩

variable {d maximum content} {ws : List Bytes} {w : BoundedLogWriter} {data : Bytes}

theorem Whole.write (hd : d.Accepts) (h : Whole d maximum content ws w) : (w.write data).1 = (data.length, none) ∧
    (Whole d maximum content (ws ++ [data]) (w.write data).2 ∨
      Cut d maximum content (ws ++ [data]) (w.write data).2 ws data []) := by
  obtain ⟨hfit, heq, hfull⟩ := h
  have hflat : (ws ++ [data]).flatten = ws.flatten ++ data := by simp
  rw [heq]
  by_cases hclosing : w.truncated = true ∨ room maximum content ws = 0
  · have hroom : room maximum content ws = 0 := hclosing.elim hfull id
    rw [write_full (by simpa using hclosing)]
    refine ⟨rfl, ?_⟩
    cases data with
    | nil =>
      have hsame : room maximum content (ws ++ [[]]) = room maximum content ws := by simp [room]
      left
      exact ⟨by simpa using hfit, by rw [hsame, hflat, List.append_nil], fun _ => hsame.trans hroom⟩
    | cons b data =>
      right
      exact ⟨rfl, hfit, by simp [hroom], by simp [hroom, cutTo]⟩
  obtain ⟨htrun, hroom⟩ := not_or.mp hclosing
  rw [Bool.eq_false_of_not_eq_true htrun]
  by_cases hlt : data.length ≤ room maximum content ws
  · have hrest : room maximum content (ws ++ [data]) = room maximum content ws - data.length := by
      simp only [room, hflat, List.length_append]
      omega
    rw [write_fits hd hroom hlt]
    refine ⟨rfl, .inl ⟨?_, by rw [hrest, hflat, List.append_assoc], nofun⟩⟩
    rw [hflat, List.length_append]
    simp only [room] at hlt
    omega
  rw [write_cut hd hroom (Nat.lt_of_not_le hlt)]
  exact ⟨rfl, .inr ⟨rfl, hfit, Nat.lt_of_not_le hlt, rfl⟩⟩

theorem Cut.write {before after : List Bytes} {cut : Bytes} (h : Cut d maximum content ws w before cut after) :
    (w.write data).1 = (data.length, none) ∧
      Cut d maximum content (ws ++ [data]) (w.write data).2 before cut (after ++ [data]) := by
  obtain ⟨hsplit, hfit, hover, heq⟩ := h
  have htrun : w.truncated = true := by rw [heq]
  rw [write_full (.inl htrun)]
  exact ⟨rfl, by simp [hsplit], hfit, hover, by rw [heq]⟩

variable (d maximum content) in
def Kept (ws : List Bytes) (w : BoundedLogWriter) : Prop :=
  Whole d maximum content ws w ∨ ∃ before data after, Cut d maximum content ws w before data after

theorem Kept.write (hd : d.Accepts) (h : Kept d maximum content ws w) :
    (w.write data).1 = (data.length, none) ∧ Kept d maximum content (ws ++ [data]) (w.write data).2 := by
  rcases h with h | ⟨before, cut, after, h⟩
  · obtain ⟨hres, hwhol | hcut⟩ := h.write hd
    · exact ⟨hres, .inl hwhol⟩
    · exact ⟨hres, .inr ⟨_, _, _, hcut⟩⟩
  · exact ⟨h.write.1, .inr ⟨_, _, _, h.write.2⟩⟩

theorem Kept.run (hd : d.Accepts) (h : Kept d maximum content ws w) (rest : List Bytes) :
    (w.run rest).1 = rest.map (fun data => (data.length, none)) ∧ Kept d maximum content (ws ++ rest) (w.run rest).2 := by
  induction rest generalizing ws w with
  | nil =>
    rw [List.append_nil]
    exact ⟨rfl, h⟩
  | cons data rest ih =>
    obtain ⟨hresult, hkept⟩ : (w.write data).1 = (data.length, none) ∧ Kept d maximum content (ws ++ [data]) (w.write data).2 :=
      h.write hd
    obtain ⟨hres, hrest⟩ := ih hkept
    rw [List.append_assoc, List.singleton_append] at hrest
    refine ⟨?_, hrest⟩
    rw [BoundedLogWriter.run, List.map_cons, ← hresult, ← hres]

theorem newBoundedLogWriter_whole (hcontent : content.length ≤ maximum) :
    ∃ w, newBoundedLogWriter d content none maximum = .ok w ∧ Kept d maximum content [] w := by
  have hleft : (maximum : Int) - content.length = room maximum content [] := by
    simp only [room, List.flatten_nil, List.length_nil]
    omega
  refine ⟨⟨d, room maximum content [], false, content⟩, ?_, .inl ⟨by simpa using hcontent, by simp, nofun⟩⟩
  simp [newBoundedLogWriter, hleft]

end Run

/-! ## The log of a job -/

def RoomForMarker (maximum : Int) (content : Bytes) (writes : List Bytes) : Prop :=
  ∀ before data after, writes = before ++ data :: after →
    (content.length + before.flatten.length : Int) ≤ maximum →
    maximum < content.length + before.flatten.length + data.length →
    (content.length + before.flatten.length + logTruncationMarker.length : Int) ≤ maximum

/-- **The log is bounded.** On a file that takes every write and is not longer than the maximum at first, after any writes: every
write has reported success for its full length; the file is not longer than the maximum; it has the earlier contents, a prefix
of what was written and, only if something was dropped, a part of the marker. If there was room for it, that is the whole
marker. -/
theorem log_bounded (d : Destination) (hd : d.Accepts) (maximum : Int) (content : Bytes) (hcontent : content.length ≤ maximum)
    (writes : List Bytes) : ∃ w, newBoundedLogWriter d content none maximum = .ok w ∧
      (w.run writes).1 = writes.map (fun data => (data.length, none)) ∧ (w.run writes).2.file.length ≤ maximum ∧
      ∃ kept mark, (w.run writes).2.file = content ++ kept ++ mark ∧ kept <+: writes.flatten ∧ mark <+: logTruncationMarker ∧
        (kept = writes.flatten → mark = []) ∧
        (kept ≠ writes.flatten → RoomForMarker maximum content writes → mark = logTruncationMarker) := by
  obtain ⟨m, rfl⟩ := Int.eq_ofNat_of_zero_le (show 0 ≤ maximum by omega)
  obtain ⟨w, hnew, hkept⟩ := newBoundedLogWriter_whole (d := d) (by simpa using hcontent)
  obtain ⟨hresults, hkept⟩ := hkept.run hd writes
  rw [List.nil_append] at hkept
  refine ⟨w, hnew, hresults, ?_⟩
  rcases hkept with h | ⟨before, data, after, h⟩
  · have hfit : ((content ++ writes.flatten).length : Int) ≤ m := by
      have hfit := h.fit
      rw [List.length_append]
      omega
    rw [h.eq]
    refine ⟨hfit, writes.flatten, [], by simp, List.prefix_refl _, List.nil_prefix, fun _ => rfl, ?_⟩
    intro hne
    exact absurd rfl hne
  have hfit := h.fit
  have hover := h.beyond
  have hlength := cutTo_length_le (room m content before) data
  have hroom : room m content before = m - (content.length + before.flatten.length) := rfl
  have hsplit : writes.flatten = before.flatten ++ data ++ after.flatten := by rw [h.split]; simp
  rw [h.eq]
  refine ⟨?_, before.flatten ++ data.take (room m content before - logTruncationMarker.length),
    logTruncationMarker.take (room m content before), by simp [cutTo], ?_, List.take_prefix _ _, ?_, ?_⟩
  · simp only [List.length_append]
    omega
  · rw [hsplit, List.append_assoc]
    exact (List.prefix_append_right_inj _).mpr ((List.take_prefix _ _).trans (List.prefix_append _ _))
  · intro hwhole
    -- the write that is cut is longer than what is left of it
    have hshort := congrArg List.length hwhole
    rw [hsplit] at hshort
    simp only [List.length_append, List.length_take] at hshort
    omega
  · intro _ hmarker
    have hfits := hmarker before data after h.split (by omega) (by omega)
    apply List.take_of_length_le
    omega

/-- A file of one byte, a write of 900 bytes and one of 200, of which the log keeps 67. -/
theorem log_bounded_marked : ∃ w, newBoundedLogWriter Redact.everything [65] none 1024 = .ok w ∧
    (w.run [List.replicate 900 66, List.replicate 200 67]).2.file.length ≤ (1024 : Int) ∧
    ∃ kept, (w.run [List.replicate 900 66, List.replicate 200 67]).2.file = [65] ++ kept ++ logTruncationMarker := by
  obtain ⟨w, hnew, -, hlength, kept, mark, hfile, -, -, -, hmarked⟩ :=
    log_bounded Redact.everything Redact.everything_accepts 1024 [65] (by decide) [List.replicate 900 66, List.replicate 200 67]
  have hroom : RoomForMarker 1024 [65] [List.replicate 900 66, List.replicate 200 67] := by
    intro before data after hsplit hfit hover
    match before, hsplit with
    | [], hsplit =>
      obtain ⟨rfl, -⟩ := List.cons.inj hsplit
      exact absurd hover (by decide +kernel)
    | [_], hsplit =>
      obtain ⟨rfl, -⟩ := List.cons.inj hsplit
      decide +kernel
    | _ :: _ :: before, hsplit =>
      have hends := (List.cons.inj (List.cons.inj hsplit).2).2
      simp at hends
  have hdropped : kept ≠ [List.replicate 900 66, List.replicate 200 67].flatten := by
    rintro rfl
    rw [hfile, List.append_assoc, List.length_append, List.length_append] at hlength
    have hwritten : [List.replicate 900 66, List.replicate 200 (67 : UInt8)].flatten.length = 1100 := by decide +kernel
    omega
  exact ⟨w, hnew, hlength, kept, by rw [hfile, hmarked hdropped hroom]⟩

/-- The first byte fills the file, and the second is dropped: the file ends without the marker. -/
theorem log_cut_silently : ∃ w, newBoundedLogWriter Redact.everything (List.replicate 1023 65) none 1024 = .ok w ∧
    (w.run [[66], [67]]).1 = [(1, none), (1, none)] ∧ (w.run [[66], [67]]).2.file = List.replicate 1023 65 ++ [66] ∧
    ¬ logTruncationMarker <:+ (w.run [[66], [67]]).2.file := by
  refine ⟨_, rfl, ?_⟩
  decide +kernel

end JobLog

end Autback
