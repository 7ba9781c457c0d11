import Autback.Conc.Events
import Autback.Server.Handlers

/-!
# The stream of a job's log

`StreamJobLogs` of `internal/control/controlapi/server.go` byte by byte. While a job is followed, the call of `Scheduler.Logs`
runs in a goroutine of its own, and the handler polls the status of the job beside it. A connection (`Conn`) is where both stand,
and what was sent to the client. The log is a fixed sequence of bytes; a call of `Scheduler.Logs` writes parts of it in order, and
may return at any time.
-/

namespace Autback

namespace Logs

abbrev Bytes := List UInt8

/-- `StreamJobLogsResponse`. -/
structure Frame where
  data : Bytes
  terminalJob : Option Job
  nextOffset : Nat
  deriving DecidableEq

def content (frames : List Frame) : Bytes := frames.flatMap (·.data)

/-! ## Writers -/

structure StreamWriter where
  offset : Nat
  sent : List Frame
  deriving DecidableEq

def StreamWriter.send {ε : Type} (w : StreamWriter) (f : Frame) (err : Option ε) : StreamWriter :=
  match err with
  | none => { w with sent := w.sent ++ [f] }
  | some _ => w

def StreamWriter.write (w : StreamWriter) (data : Bytes) (err : Option Err) : StreamWriter :=
  let w := { w with offset := w.offset + data.length }
  let w := w.send ⟨data, none, w.offset⟩ err
  if err.isSome then { w with offset := w.offset - data.length } else w

structure OffsetWriter where
  remaining : Nat
  destination : StreamWriter
  deriving DecidableEq

def OffsetWriter.write (w : OffsetWriter) (data : Bytes) (err : Option Err) : OffsetWriter × Option Err :=
  if data.length ≤ w.remaining then ({ w with remaining := w.remaining - data.length }, none)
  else ({ remaining := 0, destination := w.destination.write (data.drop w.remaining) err }, err)

/-- The output that the handler passes to `Scheduler.Logs`. -/
inductive Output
  | whole (w : StreamWriter)
  | rest (w : OffsetWriter)
  deriving DecidableEq

namespace Output

def writer : Output → StreamWriter
  | whole w => w
  | rest w => w.destination

/-- The last frame goes past the `offsetWriter`. -/
def send {ε : Type} (f : Frame) (err : Option ε) : Output → Output
  | whole w => whole (w.send f err)
  | rest w => rest { w with destination := w.destination.send f err }

def write (data : Bytes) (err : Option Err) : Output → Output × Option Err
  | whole w => (whole (w.write data err), err)
  | rest w => (rest (w.write data err).1, (w.write data err).2)

end Output

/-! ## Connections -/

/-- The call of `Scheduler.Logs`, and the channel with its result. -/
inductive Call
  | idle
  | running
  | done (err : Option Err)
  | received
  deriving DecidableEq

inductive Pc
  /-- At the head of the first loop of `followJob`. -/
  | waiting (job : Job)
  /-- The job is not active: `refreshJob`. -/
  | refreshing (job : Job)
  /-- The `select` at the end of the first loop. -/
  | sleeping (job : Job)
  /-- At the head of the second loop: `refreshJob`. -/
  | polling (job : Job)
  /-- The `select` at the end of the second loop. -/
  | selecting (job : Job)
  /-- `stopLogs` was called; the handler waits for the call to return. -/
  | stopping (result : Except ApiError Job)
  /-- The call runs in the handler itself, for a job that has ended. -/
  | replaying (job : Job)
  /-- The last frame is to be sent. -/
  | closing (job : Job)
  | ended (result : Except ApiError Unit)

/-- A connection: the offset of its request, the handler, the call of `Scheduler.Logs`, how many bytes of the log that has
written, and the output. -/
structure Conn where
  offset : Nat
  pc : Pc
  call : Call
  written : Nat
  output : Output

inductive Event
  /-- `OperationState` answers. -/
  | state (r : Except Err OperationState)
  /-- `refreshJob` returns. -/
  | refreshed (r : Except Err Job)
  /-- The timer or the ticker fires. -/
  | elapsed
  /-- The context of the request is done. -/
  | cancelled
  /-- The handler takes the result of the call; `ctxErr` says whether the context of the request is done. -/
  | received (ctxErr : Bool)
  /-- The call writes the next `n` bytes of the log; `err` is the error with which they are sent, if they are. -/
  | write (n : Nat) (err : Option Err)
  /-- The call returns. -/
  | returned (err : Option Err)
  /-- The last frame is sent. -/
  | closed (err : Option ApiError)

namespace Conn

variable (L : Bytes) (σ : Conn)

def sent : List Frame := σ.output.writer.sent

def follow : Except ApiError Job → Conn
  | .ok job => { σ with pc := .closing job }
  | .error e => { σ with pc := .ended (.error e) }

/-- `stopLogs`, and `<-logsDone` unless its result was taken before. -/
def stop (result : Except ApiError Job) : Conn :=
  if σ.call = .received then σ.follow result else { σ with pc := .stopping result }

/-- The first loop of `followJob`, after `OperationState`. -/
def wait (job : Job) : Except Err OperationState → Conn
  | .ok state =>
    if state = .active then { σ with pc := .polling job, call := .running } else { σ with pc := .refreshing job }
  | .error e => if e.is .notFound then { σ with pc := .refreshing job } else σ.follow (.error (Api.connectError e))

/-- The first loop of `followJob`, after `refreshJob`. -/
def refresh : Except Err Job → Conn
  | .ok job => if job.status.terminal then σ.follow (.ok job) else { σ with pc := .sleeping job }
  | .error e => σ.follow (.error (Api.connectError e))

/-- The second loop of `followJob`, after `refreshJob`. -/
def poll : Except Err Job → Conn
  | .ok job => if job.status.terminal then σ.stop (.ok job) else { σ with pc := .selecting job }
  | .error e => σ.stop (.error (Api.connectError e))

def failure (err : Option Err) (ctxErr : Bool) : Option ApiError :=
  if ctxErr then none else err.map fun e => ⟨.unavailable, e.text⟩

def receive (err : Option Err) (ctxErr : Bool) : Option Conn :=
  match σ.pc with
  | .selecting job => match failure err ctxErr with
    | none => some { σ with call := .received, pc := .polling job }
    | some e => some { σ with call := .received, pc := .ended (.error e) }
  | .stopping result => some (({ σ with call := .received } : Conn).follow result)
  | .replaying job => match failure err ctxErr with
    | none => some { σ with call := .received, pc := .closing job }
    | some e => some { σ with call := .received, pc := .ended (.error e) }
  | _ => none

/-- The call writes `data`. After an error it returns that error. -/
def write (data : Bytes) (err : Option Err) : Conn :=
  match σ.output.write data err with
  | (output, none) => { σ with output := output, written := σ.written + data.length }
  | (output, some e) => { σ with output := output, call := .done (some e) }

/-- The end of `StreamJobLogs`. -/
def close (job : Job) (err : Option ApiError) : Conn :=
  let nextOffset := if job.status = .preparing then σ.offset else σ.output.writer.offset
  { σ with
    output := σ.output.send ⟨[], some job, nextOffset⟩ err
    pc := .ended (match err with | none => .ok () | some e => .error e) }

def step : Event → Option Conn
  | .state r => match σ.pc with
    | .waiting job => some (σ.wait job r)
    | _ => none
  | .refreshed r => match σ.pc with
    | .refreshing _ => some (σ.refresh r)
    | .polling _ => some (σ.poll r)
    | _ => none
  | .elapsed => match σ.pc with
    | .sleeping job => some { σ with pc := .waiting job }
    | .selecting job => some { σ with pc := .polling job }
    | _ => none
  | .cancelled => match σ.pc with
    | .sleeping _ => some (σ.follow (.error ⟨.canceled, Err.canceled.text⟩))
    | .selecting _ => some (σ.stop (.error ⟨.canceled, Err.canceled.text⟩))
    | _ => none
  | .received ctxErr => match σ.call with
    | .done err => σ.receive err ctxErr
    | _ => none
  | .write n err => if σ.call = .running then some (σ.write ((L.drop σ.written).take n) err) else none
  | .returned err => if σ.call = .running then some { σ with call := .done err } else none
  | .closed err => match σ.pc with
    | .closing job => some (σ.close job err)
    | _ => none

end Conn

def streamJobLogs (offset : Int) (authorized : Except ApiError Job) : Conn :=
  let writer : StreamWriter := ⟨offset.toNat, []⟩
  let output : Output := if 0 < offset then .rest ⟨offset.toNat, writer⟩ else .whole writer
  if offset < 0 then
    ⟨offset.toNat, .ended (.error ⟨.invalidArgument, "log offset cannot be negative"⟩), .idle, 0, output⟩
  else match authorized with
    | .error e => ⟨offset.toNat, .ended (.error e), .idle, 0, output⟩
    | .ok job =>
      if job.status = .preparing then ⟨offset.toNat, .closing job, .idle, 0, output⟩
      else if job.status.terminal then ⟨offset.toNat, .replaying job, .running, 0, output⟩
      else ⟨offset.toNat, .waiting job, .idle, 0, output⟩

abbrev Reaches (L : Bytes) (allowed : Conn → Event → Bool) : Conn → Conn → Prop :=
  Conc.Reaches (Conn.step L) fun σ e => allowed σ e = true

/-! ## What the writers send -/

theorem content_append (frames frames' : List Frame) : content (frames ++ frames') = content frames ++ content frames' :=
  List.flatMap_append

@[simp] theorem content_nil : content [] = [] := rfl

@[simp] theorem content_singleton (f : Frame) : content [f] = f.data := List.append_nil f.data

/-- Every frame has the offset of the request plus the bytes that were sent up to its end, and so has the writer. -/
structure StreamWriter.Counts (offset : Nat) (w : StreamWriter) : Prop where
  now : w.offset = offset + (content w.sent).length
  frames : ∀ before f after, w.sent = before ++ f :: after → f.nextOffset = offset + (content (before ++ [f])).length

section Writers

variable {offset : Nat} {w : StreamWriter} {f : Frame} {data : Bytes} {ε : Type}

theorem StreamWriter.Counts.append (h : w.Counts offset) (f : Frame) (hf : f.nextOffset = w.offset + f.data.length) :
    StreamWriter.Counts offset ⟨w.offset + f.data.length, w.sent ++ [f]⟩ := by
  have hnext : f.nextOffset = offset + (content (w.sent ++ [f])).length := by
    rw [hf, h.now, content_append, content_singleton, List.length_append]
    omega
  constructor
  · rw [← hf]
    exact hnext
  intro before f' after hsent
  rcases Conc.concat_eq_append_cons hsent with ⟨rfl, rfl⟩ | ⟨after', hsent'⟩
  · exact hnext
  · exact h.frames before f' after' hsent'

@[simp] theorem StreamWriter.write_some (e : Err) : w.write data (some e) = w := by
  obtain ⟨offset, sent⟩ := w
  simp [write, send]

theorem StreamWriter.content_write : content (w.write data none).sent = content w.sent ++ data := by
  simp [write, send, content_append]

theorem StreamWriter.Counts.write (h : w.Counts offset) (err : Option Err) : (w.write data err).Counts offset := by
  cases err with
  | none => exact h.append ⟨data, none, w.offset + data.length⟩ rfl
  | some e =>
    rw [StreamWriter.write_some]
    exact h

theorem StreamWriter.Counts.send (h : w.Counts offset) (hdata : f.data = []) (hf : f.nextOffset = w.offset)
    (err : Option ε) : (w.send f err).Counts offset := by
  cases err with
  | none =>
    have happ := h.append f (by rw [hf, hdata]; rfl)
    rw [hdata] at happ
    exact happ
  | some e => exact h

/-- The output will pass over `n` more bytes. -/
def Output.Skips (n : Nat) : Output → Prop
  | whole _ => n = 0
  | rest w => w.remaining = n

/-- What a write does to the output that is to pass over `n` bytes. -/
theorem Output.write_spec {o o' : Output} {n : Nat} {err err' : Option Err} (hskip : o.Skips n)
    (hcounts : o.writer.Counts offset) (h : o.write data err = (o', err')) :
    o'.writer.Counts offset ∧ (∀ e, err' = some e → content o'.writer.sent = content o.writer.sent) ∧
      (err' = none → o'.Skips (n - data.length) ∧
        content o'.writer.sent = content o.writer.sent ++ data.drop n) := by
  cases o with
  | whole w =>
    cases h
    have hn : n = 0 := hskip
    subst hn
    refine ⟨hcounts.write err, ?_, ?_⟩
    · rintro e rfl
      simp [writer]
    rintro rfl
    refine ⟨Nat.zero_sub _, ?_⟩
    exact StreamWriter.content_write
  | rest w =>
    cases h
    have hn : w.remaining = n := hskip
    subst hn
    simp only [OffsetWriter.write]
    split
    · rename_i hle
      refine ⟨hcounts, fun e he => rfl, fun _ => ⟨rfl, ?_⟩⟩
      simp [writer, List.drop_eq_nil_of_le hle]
    rename_i hlt
    refine ⟨StreamWriter.Counts.write hcounts err, ?_, ?_⟩
    · rintro e rfl
      simp [writer]
    rintro rfl
    refine ⟨?_, ?_⟩
    · show 0 = w.remaining - data.length
      omega
    · exact StreamWriter.content_write

@[simp] theorem Output.send_writer (o : Output) (err : Option ε) : (o.send f err).writer = o.writer.send f err := by
  cases o <;> rfl

theorem Output.Skips.send {o : Output} {n : Nat} (h : o.Skips n) (err : Option ε) : (o.send f err).Skips n := by
  cases o <;> exact h

end Writers

/-! ## What holds of every connection -/

/-- What holds where the handler stands; `preparing` says whether the job was preparing when the handler read it. -/
def Pc.Fits (preparing : Bool) (call : Call) (sent : List Frame) : Pc → Prop
  | waiting _ | refreshing _ | sleeping _ => preparing = false ∧ call = .idle
  | polling _ | selecting _ | stopping (.error _) => preparing = false
  | stopping (.ok job) | replaying job => preparing = false ∧ job.status.terminal = true
  | closing job => call ≠ .running ∧
    if preparing then job.status = .preparing ∧ sent = [] else job.status.terminal = true
  | ended (.ok _) => call ≠ .running ∧ ∃ frames job nextOffset, sent = frames ++ [⟨[], some job, nextOffset⟩] ∧
    job.status.terminal = !preparing
  | ended (.error _) => True

/-- What holds of a connection: the bytes sent are those written so far without the ones before the offset. -/
structure Conn.Sound (L : Bytes) (k : Nat) (preparing : Bool) (σ : Conn) : Prop where
  request : σ.offset = k
  within : σ.written ≤ L.length
  counts : σ.output.writer.Counts σ.offset
  sent : content σ.sent = (L.take σ.written).drop σ.offset
  skips : σ.call = .idle ∨ σ.call = .running → σ.output.Skips (σ.offset - σ.written)
  fits : σ.pc.Fits preparing σ.call σ.sent

namespace Conn.Sound

variable {L : Bytes} {k : Nat} {preparing : Bool} {σ τ : Conn} {job : Job} {pc : Pc}

theorem move (h : σ.Sound L k preparing) (hfits : pc.Fits preparing σ.call σ.sent) :
    ({ σ with pc := pc } : Conn).Sound L k preparing :=
  ⟨h.request, h.within, h.counts, h.sent, h.skips, hfits⟩

theorem take (h : σ.Sound L k preparing) (hfits : pc.Fits preparing .received σ.sent) :
    ({ σ with call := .received, pc := pc } : Conn).Sound L k preparing := by
  refine ⟨h.request, h.within, h.counts, h.sent, ?_, hfits⟩
  rintro (hc | hc) <;> cases hc

theorem stop (h : σ.Sound L k preparing) (hprepare : preparing = false) {result : Except ApiError Job}
    (hterm : ∀ job, result = .ok job → job.status.terminal = true) : (σ.stop result).Sound L k preparing := by
  subst hprepare
  rw [Conn.stop]
  split
  · rename_i hcall
    cases result with
    | ok job => exact h.move ⟨by rw [hcall]; nofun, hterm job rfl⟩
    | error e => exact h.move trivial
  cases result with
  | ok job => exact h.move ⟨rfl, hterm job rfl⟩
  | error e => exact h.move rfl

theorem wait (h : σ.Sound L k preparing) (hpc : σ.pc = .waiting job) (r : Except Err OperationState) :
    (σ.wait job r).Sound L k preparing := by
  have hfits := h.fits
  rw [hpc] at hfits
  obtain ⟨hprepare, hidle⟩ := hfits
  cases r with
  | ok state =>
    rw [Conn.wait]
    split
    · exact ⟨h.request, h.within, h.counts, h.sent, fun _ => h.skips (.inl hidle), hprepare⟩
    · exact h.move ⟨hprepare, hidle⟩
  | error e =>
    rw [Conn.wait]
    split
    · exact h.move ⟨hprepare, hidle⟩
    · exact h.move trivial

theorem refresh (h : σ.Sound L k preparing) (hpc : σ.pc = .refreshing job) (r : Except Err Job) :
    (σ.refresh r).Sound L k preparing := by
  have hfits := h.fits
  rw [hpc] at hfits
  obtain ⟨rfl, hidle⟩ := hfits
  cases r with
  | ok job' =>
    rw [Conn.refresh]
    split
    · rename_i hterm
      exact h.move ⟨by rw [hidle]; nofun, hterm⟩
    · exact h.move ⟨rfl, hidle⟩
  | error e => exact h.move trivial

theorem poll (h : σ.Sound L k preparing) (hpc : σ.pc = .polling job) (r : Except Err Job) :
    (σ.poll r).Sound L k preparing := by
  have hprepare := h.fits
  rw [hpc] at hprepare
  cases r with
  | ok job' =>
    rw [Conn.poll]
    split
    · rename_i hterm
      apply h.stop hprepare
      intro job'' hj
      cases hj
      exact hterm
    · exact h.move hprepare
  | error e => exact h.stop hprepare (fun _ hj => by cases hj)

theorem receive (h : σ.Sound L k preparing) {err : Option Err} {ctxErr : Bool} (hs : σ.receive err ctxErr = some τ) :
    τ.Sound L k preparing := by
  have hfits := h.fits
  rw [Conn.receive] at hs
  split at hs
  · rename_i job hpc
    rw [hpc] at hfits
    split at hs
    · cases hs
      exact h.take hfits
    cases hs
    exact h.take trivial
  · rename_i result hpc
    rw [hpc] at hfits
    cases hs
    cases result with
    | ok job =>
      obtain ⟨rfl, hterm⟩ := hfits
      exact h.take ⟨nofun, hterm⟩
    | error e => exact h.take trivial
  · rename_i job hpc
    rw [hpc] at hfits
    obtain ⟨rfl, hterm⟩ := hfits
    split at hs
    · cases hs
      exact h.take ⟨nofun, hterm⟩
    cases hs
    exact h.take trivial
  · cases hs

theorem fits_running {call : Call} {sent sent' : List Frame} (hfits : pc.Fits preparing .running sent) :
    pc.Fits preparing call sent' := by
  cases pc with
  | waiting _ | refreshing _ | sleeping _ => cases hfits.2
  | polling _ | selecting _ | replaying _ => exact hfits
  | stopping result => cases result <;> exact hfits
  | closing _ => exact absurd rfl hfits.1
  | ended result =>
    cases result with
    | ok _ => exact absurd rfl hfits.1
    | error _ => trivial

theorem write (h : σ.Sound L k preparing) (hcall : σ.call = .running) (n : Nat) (err : Option Err) :
    (σ.write ((L.drop σ.written).take n) err).Sound L k preparing := by
  have hfits := h.fits
  rw [hcall] at hfits
  generalize hdata : (L.drop σ.written).take n = data
  have hlength : σ.written + data.length ≤ L.length := by
    have hwithin := h.within
    rw [← hdata, List.length_take, List.length_drop]
    omega
  have htake : L.take (σ.written + data.length) = L.take σ.written ++ data := by
    rw [List.take_add, ← hdata]
    congr 1
    simp
  obtain ⟨output, err', hwrite⟩ : ∃ output err', σ.output.write data err = (output, err') := ⟨_, _, rfl⟩
  obtain ⟨hcounts, hfail, hwrit⟩ := Output.write_spec (h.skips (.inr hcall)) h.counts hwrite
  rw [Conn.write, hwrite]
  cases err' with
  | none =>
    obtain ⟨hskip, hcontent⟩ := hwrit rfl
    refine ⟨h.request, hlength, hcounts, ?_, ?_, ?_⟩
    · show content output.writer.sent = (L.take (σ.written + data.length)).drop σ.offset
      rw [hcontent, htake, List.drop_append, List.length_take_of_le h.within]
      exact congrArg (· ++ _) h.sent
    · intro _
      rw [Nat.sub_add_eq]
      exact hskip
    rw [hcall]
    exact fits_running hfits
  | some e =>
    refine ⟨h.request, h.within, hcounts, (hfail e rfl).trans h.sent, ?_, fits_running hfits⟩
    rintro (hc | hc) <;> cases hc

theorem close (h : σ.Sound L k preparing) (hpc : σ.pc = .closing job) (err : Option ApiError) :
    (σ.close job err).Sound L k preparing := by
  have hfits := h.fits
  rw [hpc] at hfits
  obtain ⟨hcall, hjob⟩ := hfits
  have hnext : (if job.status = .preparing then σ.offset else σ.output.writer.offset) = σ.output.writer.offset := by
    split
    · rename_i hstatus
      have hsent : σ.sent = [] := by
        cases preparing with
        | true => exact hjob.2
        | false =>
          have hterm : job.status.terminal = true := hjob
          rw [hstatus] at hterm
          cases hterm
      have hnow := h.counts.now
      rw [show σ.output.writer.sent = [] from hsent] at hnow
      exact hnow.symm
    · rfl
  have hwrite : (σ.close job err).output.writer = σ.output.writer.send ⟨[], some job, σ.output.writer.offset⟩ err := by
    rw [← hnext]
    exact Output.send_writer ..
  refine ⟨h.request, h.within, ?_, ?_, fun hc => (h.skips hc).send err, ?_⟩
  · rw [hwrite]
    exact h.counts.send rfl rfl err
  · rw [Conn.sent, hwrite]
    refine Eq.trans ?_ h.sent
    cases err with
    | none =>
      show content (σ.sent ++ [_]) = content σ.sent
      rw [content_append, content_singleton, List.append_nil]
    | some e => rfl
  cases err with
  | some e => trivial
  | none =>
    refine ⟨hcall, σ.sent, job, σ.output.writer.offset, by rw [Conn.sent, hwrite]; rfl, ?_⟩
    cases preparing with
    | true =>
      rw [show job.status = .preparing from hjob.1]
      rfl
    | false => exact hjob

theorem step (h : σ.Sound L k preparing) {e : Event} (hs : σ.step L e = some τ) : τ.Sound L k preparing := by
  have hfits := h.fits
  cases e with
  | state r =>
    rw [Conn.step] at hs
    split at hs
    · rename_i hpc
      cases hs
      exact h.wait hpc r
    · cases hs
  | refreshed r =>
    rw [Conn.step] at hs
    split at hs
    · rename_i hpc
      cases hs
      exact h.refresh hpc r
    · rename_i hpc
      cases hs
      exact h.poll hpc r
    · cases hs
  | elapsed =>
    rw [Conn.step] at hs
    split at hs
    · rename_i hpc
      cases hs
      rw [hpc] at hfits
      exact h.move hfits
    · rename_i hpc
      cases hs
      rw [hpc] at hfits
      exact h.move hfits
    · cases hs
  | cancelled =>
    rw [Conn.step] at hs
    split at hs
    · cases hs
      exact h.move trivial
    · rename_i hpc
      cases hs
      rw [hpc] at hfits
      exact h.stop hfits (fun _ hj => by cases hj)
    · cases hs
  | received ctxErr =>
    rw [Conn.step] at hs
    split at hs
    · exact h.receive hs
    · cases hs
  | write n err =>
    rw [Conn.step] at hs
    split at hs
    · rename_i hcall
      cases hs
      exact h.write hcall n err
    · cases hs
  | returned err =>
    rw [Conn.step] at hs
    split at hs
    · rename_i hcall
      cases hs
      rw [hcall] at hfits
      refine ⟨h.request, h.within, h.counts, h.sent, ?_, fits_running hfits⟩
      rintro (hc | hc) <;> cases hc
    · cases hs
  | closed err =>
    rw [Conn.step] at hs
    split at hs
    · rename_i hpc
      cases hs
      exact h.close hpc err
    · cases hs

end Conn.Sound

def isPreparing : Except ApiError Job → Bool
  | .ok job => job.status == .preparing
  | .error _ => false

theorem output_start (offset : Int) :
    (if 0 < offset then Output.rest ⟨offset.toNat, ⟨offset.toNat, []⟩⟩ else .whole ⟨offset.toNat, []⟩).writer =
      ⟨offset.toNat, []⟩ ∧
    (if 0 < offset then Output.rest ⟨offset.toNat, ⟨offset.toNat, []⟩⟩ else .whole ⟨offset.toNat, []⟩).Skips offset.toNat := by
  split
  · exact ⟨rfl, rfl⟩
  refine ⟨rfl, ?_⟩
  show offset.toNat = 0
  omega

theorem sound_start (L : Bytes) (offset : Int) (authorized : Except ApiError Job) :
    (streamJobLogs offset authorized).Sound L offset.toNat (isPreparing authorized) := by
  obtain ⟨hwrite, hskip⟩ := output_start offset
  have hsound : ∀ pc call output, output.writer = ⟨offset.toNat, []⟩ → output.Skips offset.toNat →
      pc.Fits (isPreparing authorized) call [] →
      (Conn.mk offset.toNat pc call 0 output).Sound L offset.toNat (isPreparing authorized) := by
    intro pc call output hw hs hfits
    have hsent : output.writer.sent = [] := by rw [hw]
    refine ⟨rfl, Nat.zero_le _, ?_, ?_, fun _ => hs, ?_⟩
    · rw [hw]
      exact ⟨rfl, fun before f after h => by simp at h⟩
    · show content output.writer.sent = _
      rw [hsent]
      simp
    show pc.Fits _ call output.writer.sent
    rw [hsent]
    exact hfits
  simp only [streamJobLogs]
  split
  · exact hsound _ _ _ hwrite hskip trivial
  split
  · exact hsound _ _ _ hwrite hskip trivial
  split
  · rename_i job hstatus
    refine hsound _ _ _ hwrite hskip ⟨nofun, ?_⟩
    simp [isPreparing, hstatus]
  rename_i job hstatus
  have hprepare : isPreparing (.ok job) = false := by simp [isPreparing, hstatus]
  split
  · rename_i hterm
    exact hsound _ _ _ hwrite hskip ⟨hprepare, hterm⟩
  · exact hsound _ _ _ hwrite hskip ⟨hprepare, rfl⟩

theorem sound_of_reaches {L : Bytes} {allowed : Conn → Event → Bool} {offset : Int} {authorized : Except ApiError Job} {σ : Conn}
    (h : Reaches L allowed (streamJobLogs offset authorized) σ) : σ.Sound L offset.toNat (isPreparing authorized) :=
  h.invariant (sound_start L offset authorized) fun _ _ _ hσ _ hs => hσ.step hs

end Logs

end Autback
