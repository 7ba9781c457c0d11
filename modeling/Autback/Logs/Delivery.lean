import Autback.Logs.Stream

/-!
# What arrives of a job's log

The client of `internal/cli/service.go` reconnects with the offset of the last frame that it has received. Whatever is lost,
it writes a prefix of the log, and its offset is the number of bytes that it has written (`resumable`).

A stream that ends without an error need not have brought the whole log: `followJob` stops the call of `Scheduler.Logs` as soon as
it sees that the job has ended, and does not start one if the job ends before it is seen to be active. It brings the whole log if
the call has written all of it at that moment (`delivered_caughtUp`), and may cut it short otherwise (`logs_cut_short`).
-/

namespace Autback

namespace Logs

/-! ## The client -/

/-- `waitServiceJob`: what was written to the output, the offset, and the job of the last frame. -/
structure Client where
  output : Bytes
  offset : Nat
  terminal : Option Job

def Client.init : Client := ⟨[], 0, none⟩

def Client.receive (c : Client) (f : Frame) : Client where
  output := if f.data.length > 0 then c.output ++ f.data else c.output
  offset := if f.nextOffset ≥ c.offset then f.nextOffset else c.offset
  terminal := if f.terminalJob.isSome then f.terminalJob else c.terminal

/-- The client after any number of connections. Of each connection it has received some of the frames that were sent, up to
where the connection was cut. -/
inductive Session (L : Bytes) : Client → Prop
  | init : Session L .init
  | connect {c : Client} (h : Session L c) (hopen : c.terminal = none) {authorized : Except ApiError Job} {σ : Conn}
      (hrun : Reaches L (fun _ _ => true) (streamJobLogs c.offset authorized) σ) {frames : List Frame}
      (hframes : frames <+: σ.sent) : Session L (frames.foldl Client.receive c)

theorem Client.receive_output (c : Client) (f : Frame) : (c.receive f).output = c.output ++ f.data := by
  rw [Client.receive]
  split
  · rfl
  rename_i hlength
  rw [List.eq_nil_of_length_eq_zero (by omega : f.data.length = 0), List.append_nil]

theorem Client.receive_all (c : Client) (frames : List Frame)
    (hcounts : ∀ before f after, frames = before ++ f :: after →
      f.nextOffset = c.offset + (content (before ++ [f])).length) :
    (frames.foldl Client.receive c).output = c.output ++ content frames ∧
      (frames.foldl Client.receive c).offset = c.offset + (content frames).length := by
  induction frames using List.reverseRecOn with
  | nil => exact ⟨(List.append_nil _).symm, rfl⟩
  | append_singleton frames f ih =>
    obtain ⟨houtput, hoffset⟩ := ih fun before f' after hsplit =>
      hcounts before f' (after ++ [f]) (by rw [hsplit]; simp)
    have hnext := hcounts frames f [] rfl
    rw [List.foldl_append, List.foldl_cons, List.foldl_nil]
    constructor
    · rw [Client.receive_output, houtput, content_append, content_singleton, List.append_assoc]
    show (if f.nextOffset ≥ _ then f.nextOffset else _) = _
    rw [if_pos, hnext]
    rw [hnext, hoffset, content_append, List.length_append]
    omega

variable {L : Bytes} {σ : Conn}

theorem session_sound {c : Client} (h : Session L c) : c.output <+: L ∧ c.offset = c.output.length := by
  induction h with
  | init => exact ⟨⟨L, rfl⟩, rfl⟩
  | @connect c _ _ authorized σ hrun frames hframes ih =>
    obtain ⟨hstart, hlength⟩ := ih
    have hsound := sound_of_reaches hrun
    obtain ⟨lost, hlost⟩ := hframes
    have hreq : σ.offset = c.offset := hsound.request
    obtain ⟨houtput, hoffset⟩ := c.receive_all frames fun before f after hsplit => by
      rw [← hreq]
      apply hsound.counts.frames before f (after ++ lost)
      rw [show σ.output.writer.sent = σ.sent from rfl, ← hlost, hsplit]
      simp
    -- what was written before the connection is the part of the log before its offset
    have hbefore : c.output = L.take c.offset := by
      rw [hlength]
      exact List.prefix_iff_eq_take.mp hstart
    have hdata : content frames <+: L.drop c.offset := by
      have hsent : content frames <+: content σ.sent := ⟨content lost, by rw [← content_append, hlost]⟩
      rw [hsound.sent, hreq, List.drop_take] at hsent
      exact hsent.trans ⟨_, List.take_append_drop _ _⟩
    constructor
    · rw [houtput, hbefore]
      have happ : L.take c.offset ++ content frames <+: L.take c.offset ++ L.drop c.offset :=
        (List.prefix_append_right_inj _).mpr hdata
      rw [List.take_append_drop] at happ
      exact happ
    · rw [hoffset, houtput, List.length_append, hlength]

/-- Over any number of connections, each cut anywhere, the client writes a prefix of the log, and its offset is the number of
bytes that it has written. On each stream the offset of a frame is that of the request plus the bytes sent so far. -/
theorem resumable (L : Bytes) :
    (∀ c, Session L c → c.output <+: L ∧ c.offset = c.output.length) ∧
    ∀ offset authorized σ, Reaches L (fun _ _ => true) (streamJobLogs offset authorized) σ →
      ∀ before f after, σ.sent = before ++ f :: after →
        f.nextOffset = offset.toNat + (content (before ++ [f])).length := by
  constructor
  · intro c h
    exact session_sound h
  intro offset authorized σ hrun before f after hsplit
  have hsound := sound_of_reaches hrun
  rw [← hsound.request]
  exact hsound.counts.frames before f after hsplit

theorem reaches_of_runIf {allowed : Conn → Event → Bool} {τ : Conn} {es : List Event}
    (h : Conc.runIf (Conn.step L) allowed σ es = some τ) : Reaches L allowed σ τ :=
  .runIf (fun _ _ ha => ha) .refl h

def sampleLog : Bytes := [104, 105, 10]

def sampleJob (status : Status) : Job :=
  ⟨"job", "project", "image", none, "", none, "", status, 0, 0, none, none, none, "", false, "", none, none⟩

/-- The first connection is cut after two bytes; the second one finds that the job has ended. -/
theorem resumable_twice : ∃ c, Session sampleLog c ∧ c.output = sampleLog ∧ c.offset = c.output.length := by
  have hfirst : (Conc.runIf (Conn.step sampleLog) (fun _ _ => true) (streamJobLogs 0 (.ok (sampleJob .running)))
      [.state (.ok .active), .write 2 none, .write 1 none]).map (fun σ => σ.sent.take 1) =
      some [⟨[104, 105], none, 2⟩] := by decide +kernel
  have hsecond : (Conc.runIf (Conn.step sampleLog) (fun _ _ => true) (streamJobLogs 2 (.ok (sampleJob .succeeded)))
      [.write 3 none, .returned none, .received false, .closed none]).map (fun σ => σ.sent) =
      some [⟨[10], none, 3⟩, ⟨[], some (sampleJob .succeeded), 3⟩] := by decide +kernel
  obtain ⟨σ, hσ, hsent⟩ := Option.map_eq_some_iff.mp hfirst
  obtain ⟨τ, hτ, hsent'⟩ := Option.map_eq_some_iff.mp hsecond
  have hcut : [⟨[104, 105], none, 2⟩] <+: σ.sent := by
    rw [← hsent]
    exact List.take_prefix _ _
  have hone : Session sampleLog ⟨[104, 105], 2, none⟩ := Session.connect .init rfl (reaches_of_runIf hσ) hcut
  have hall : [⟨[10], none, 3⟩, ⟨[], some (sampleJob .succeeded), 3⟩] <+: τ.sent := by
    refine ⟨[], ?_⟩
    rw [List.append_nil]
    exact hsent'.symm
  have htwo : Session sampleLog ⟨sampleLog, 3, some (sampleJob .succeeded)⟩ := Session.connect hone rfl (reaches_of_runIf hτ) hall
  exact ⟨_, htwo, rfl, ((resumable sampleLog).1 _ htwo).2⟩

/-! ## Complete logs -/

/-- All of the log after the first `k` bytes has arrived, and the last frame has a job that has ended. -/
def Delivered (L : Bytes) (k : Nat) (frames : List Frame) : Prop :=
  (∃ before f job, frames = before ++ [f] ∧ f.terminalJob = some job ∧ job.status.terminal = true) ∧
    content frames = L.drop k

/-- The complete log is there once the job has ended: the call of `Scheduler.Logs` for such a job returns when it has written
all of it. -/
def available (L : Bytes) (σ : Conn) : Event → Bool
  | .returned err => match σ.pc with
    | .replaying _ => err.isNone && σ.written == L.length
    | _ => true
  | _ => true

theorem Conn.Sound.delivers {k : Nat} {preparing : Bool} (h : σ.Sound L k preparing) (hk : k ≤ L.length)
    (hend : σ.pc = .ended (.ok ())) :
    Delivered L k σ.sent ↔ preparing = false ∧ (σ.written = L.length ∨ k = L.length) := by
  have hfits := h.fits
  rw [hend] at hfits
  obtain ⟨-, frames, last, nextOffset, hsent, hlast⟩ := hfits
  have hcontent : content σ.sent = L.drop k ↔ σ.written = L.length ∨ k = L.length := by
    have hwithin := h.within
    rw [h.sent, h.request]
    constructor
    · intro heq
      have hlength := congrArg List.length heq
      rw [List.length_drop, List.length_drop, List.length_take_of_le hwithin] at hlength
      omega
    rintro (hall | hnone)
    · rw [hall, List.take_length]
    rw [hnone, List.drop_length, List.drop_eq_nil_of_le]
    rw [List.length_take]
    omega
  have hterm : last.status.terminal = true ↔ preparing = false := by
    rw [hlast]
    simp
  rw [Delivered, hcontent, ← hterm]
  constructor
  · rintro ⟨⟨before, f, job', hframes, hjob, hdone⟩, hall⟩
    refine ⟨?_, hall⟩
    rw [hsent] at hframes
    have hf := (List.append_inj' hframes rfl).2
    rw [List.cons.injEq] at hf
    rw [← hf.1] at hjob
    cases hjob
    exact hdone
  rintro ⟨hdone, hall⟩
  exact ⟨⟨frames, _, last, hsent, rfl, hdone⟩, hall⟩

/-- The handler decides that the log is complete only when the call has written all of it, or there is nothing left to send. It
decides that when `refreshJob` shows that the job has ended, and when a call for such a job has returned while the context of the
request is done. -/
def caughtUp (L : Bytes) (k : Nat) (σ : Conn) : Event → Bool
  | .refreshed (.ok job) => !job.status.terminal || σ.written == L.length || k == L.length
  | .received ctxErr => match σ.pc with
    | .replaying _ => !ctxErr || σ.written == L.length || k == L.length
    | _ => true
  | _ => true

/-- Where the handler takes the log for complete, `full` holds. -/
def Pc.Settled (full : Prop) (call : Call) : Pc → Prop
  | stopping (.ok _) | closing _ | ended (.ok _) => full
  | replaying _ => call = .done none → full
  | _ => True

section Settled

variable {k : Nat} {full : Prop} {τ : Conn}

theorem Pc.Settled.of_call {pc : Pc} {call call' : Call} (h : pc.Settled full call)
    (hdone : ∀ job, pc = .replaying job → call' = .done none → full) : pc.Settled full call' := by
  cases pc with
  | replaying job => exact hdone job rfl
  | stopping result | ended result => cases result <;> exact h
  | closing job => exact h
  | waiting | refreshing | sleeping | polling | selecting => trivial

theorem Pc.Settled.mono {full' : Prop} {pc : Pc} {call : Call} (h : pc.Settled full call) (hfull : full → full') :
    pc.Settled full' call := by
  cases pc with
  | replaying job => exact fun hdone => hfull (h hdone)
  | stopping result | ended result =>
    cases result with
    | ok => exact hfull h
    | error => trivial
  | closing job => exact hfull h
  | waiting | refreshing | sleeping | polling | selecting => trivial

theorem settled_follow {result : Except ApiError Job} (h : ∀ job, result = .ok job → full) :
    (σ.follow result).pc.Settled full (σ.follow result).call := by
  cases result with
  | ok job => exact h job rfl
  | error e => trivial

theorem settled_stop {result : Except ApiError Job} (h : ∀ job, result = .ok job → full) :
    (σ.stop result).pc.Settled full (σ.stop result).call := by
  rw [Conn.stop]
  split
  · exact settled_follow h
  cases result with
  | ok job => exact h job rfl
  | error e => trivial

theorem settled_receive {err : Option Err} {ctxErr : Bool} (h : σ.pc.Settled full σ.call) (hcall : σ.call = .done err)
    (hcontext : ∀ job, σ.pc = .replaying job → ctxErr = true → full) (hs : σ.receive err ctxErr = some τ) :
    τ.pc.Settled full τ.call := by
  rw [Conn.receive] at hs
  split at hs
  · split at hs <;> cases hs <;> trivial
  · rename_i result hpc
    rw [hpc] at h
    cases hs
    refine settled_follow fun job hjob => ?_
    rw [hjob] at h
    exact h
  · rename_i job hpc
    rw [hpc] at h
    split at hs
    · rename_i hfailure
      cases hs
      cases hcontextErr : ctxErr with
      | true => exact hcontext job hpc hcontextErr
      | false =>
        rw [hcontextErr] at hfailure
        cases err with
        | none => exact h hcall
        | some e => cases hfailure
    · cases hs
      trivial
  · cases hs

theorem settled_step (h : σ.pc.Settled full σ.call) {e : Event}
    (hrefreshed : ∀ job, e = .refreshed (.ok job) → job.status.terminal = true → full)
    (hcontext : ∀ job, e = .received true → σ.pc = .replaying job → full)
    (hreturned : ∀ job, e = .returned none → σ.pc = .replaying job → full) (hs : σ.step L e = some τ) :
    τ.pc.Settled full τ.call := by
  cases e with
  | state r =>
    rw [Conn.step] at hs
    split at hs
    · cases hs
      rw [Conn.wait.eq_def]
      split <;> split <;> trivial
    · cases hs
  | refreshed r =>
    have hjob : ∀ job, r = .ok job → job.status.terminal = true → full := fun job hr => hrefreshed job (by rw [hr])
    rw [Conn.step] at hs
    split at hs
    · cases hs
      cases r with
      | error e => trivial
      | ok job =>
        rw [Conn.refresh]
        split
        · rename_i hterminal
          exact hjob job rfl hterminal
        · trivial
    · cases hs
      cases r with
      | error e => exact settled_stop fun _ hr => by cases hr
      | ok job =>
        rw [Conn.poll]
        split
        · rename_i hterminal
          exact settled_stop fun _ _ => hjob job rfl hterminal
        · trivial
    · cases hs
  | elapsed =>
    rw [Conn.step] at hs
    split at hs <;> cases hs <;> trivial
  | cancelled =>
    rw [Conn.step] at hs
    split at hs
    · cases hs
      trivial
    · cases hs
      exact settled_stop fun _ hr => by cases hr
    · cases hs
  | received ctxErr =>
    rw [Conn.step] at hs
    split at hs
    · rename_i hcall
      exact settled_receive h hcall (fun job hpc hctx => hcontext job (by rw [hctx]) hpc) hs
    · cases hs
  | write n err =>
    rw [Conn.step] at hs
    split at hs
    · rename_i hcall
      cases hs
      rw [Conn.write]
      split
      · exact h
      · exact h.of_call fun _ _ hdone => by cases hdone
    · cases hs
  | returned err =>
    rw [Conn.step] at hs
    split at hs
    · cases hs
      refine h.of_call fun job hpc hdone => ?_
      cases hdone
      exact hreturned job rfl hpc
    · cases hs
  | closed err =>
    rw [Conn.step] at hs
    split at hs
    · rename_i hpc
      cases hs
      rw [hpc] at h
      cases err with
      | none => exact h
      | some e => trivial
    · cases hs

theorem follow_written (result : Except ApiError Job) : (σ.follow result).written = σ.written := by
  cases result <;> rfl

theorem follow_closes (result : Except ApiError Job) (job : Job) :
    (σ.follow result).pc ≠ .polling job ∧ (σ.follow result).pc ≠ .selecting job := by
  cases result <;> exact ⟨nofun, nofun⟩

theorem written_le {e : Event} (hs : σ.step L e = some τ) : σ.written ≤ τ.written := by
  cases e <;> grind [Conn.step, Conn.wait.eq_def, Conn.refresh.eq_def, Conn.poll.eq_def, Conn.stop, follow_written, Conn.receive,
    Conn.write, Conn.close.eq_def]

/-- All of the log has been written, or nothing of it is left to send. -/
def Conn.Full (L : Bytes) (k : Nat) (σ : Conn) : Prop := σ.written = L.length ∨ k = L.length

theorem settled_of_reaches {job : Job} (hjob : job.status ≠ .preparing)
    (hrun : Reaches L (fun σ e => available L σ e && caughtUp L k σ e) (streamJobLogs k (.ok job)) σ) :
    σ.pc.Settled (σ.Full L k) σ.call := by
  have hinvariant : σ.Sound L k (isPreparing (.ok job)) ∧ σ.pc.Settled (σ.Full L k) σ.call := by
    refine Conc.Reaches.invariant (I := fun σ => σ.Sound L k (isPreparing (.ok job)) ∧ σ.pc.Settled (σ.Full L k) σ.call) hrun
      ⟨sound_start L k (.ok job), ?_⟩ fun σ e τ ⟨hsound, hsettled⟩ hallowed hs => ?_
    · simp only [streamJobLogs, if_neg hjob]
      split
      · omega
      split
      · intro hdone
        cases hdone
      · trivial
    have hnext := hsound.step hs
    refine ⟨hnext, ?_⟩
    rw [Bool.and_eq_true] at hallowed
    obtain ⟨havailable, hcaught⟩ := hallowed
    have hfull : σ.Full L k → τ.Full L k := by
      have hle := written_le hs
      have hwithin := hnext.within
      unfold Conn.Full
      omega
    refine (settled_step hsettled ?_ ?_ ?_ hs).mono hfull
    · rintro job' rfl hterminal
      simpa [caughtUp, hterminal, Conn.Full] using hcaught
    · rintro job' rfl hpc
      simpa [caughtUp, hpc, Conn.Full] using hcaught
    · rintro job' rfl hpc
      simp only [available, hpc] at havailable
      exact .inl (by simpa using havailable)
  exact hinvariant.2

/-- The second loop of `followJob` is only entered with a call. -/
theorem started_of_reaches {allowed : Conn → Event → Bool} {offset : Int} {authorized : Except ApiError Job}
    (h : Reaches L allowed (streamJobLogs offset authorized) σ) :
    ∀ job, σ.pc = .polling job ∨ σ.pc = .selecting job → σ.call ≠ .idle := by
  refine Conc.Reaches.invariant (I := fun σ => ∀ job, σ.pc = .polling job ∨ σ.pc = .selecting job → σ.call ≠ .idle) h
    (by grind [streamJobLogs.eq_def]) fun σ e τ hσ _ hs => ?_
  cases e <;> grind [Conn.step, Conn.wait.eq_def, Conn.refresh.eq_def, Conn.poll.eq_def, Conn.stop, follow_closes, Conn.receive,
    Conn.write, Conn.close.eq_def]

theorem ends_of_closing {job : Job} (hpc : σ.pc = .closing job) :
    ∃ ρ, Reaches L (available L) σ ρ ∧ ρ.pc = .ended (.ok ()) ∧ ρ.written = σ.written :=
  ⟨σ.close job none, .step .refl (.closed none) rfl (by rw [Conn.step, hpc]), rfl, rfl⟩

theorem ends_of_done {job : Job} {err : Option Err} (hpc : σ.pc = .stopping (.ok job)) (hcall : σ.call = .done err) :
    ∃ ρ, Reaches L (available L) σ ρ ∧ ρ.pc = .ended (.ok ()) ∧ ρ.written = σ.written := by
  have hreceived : σ.step L (.received false) = some { σ with call := .received, pc := .closing job } := by
    simp [Conn.step, hcall, Conn.receive, hpc, Conn.follow]
  refine ⟨({ σ with call := .received, pc := .closing job } : Conn).close job none, ?_, rfl, rfl⟩
  exact .step (.step .refl _ rfl hreceived) (.closed none) rfl rfl

/-- Once the handler has stopped the call, the stream can end without another byte. -/
theorem ends_of_stop {job : Job} (hstarted : σ.call ≠ .idle) :
    ∃ ρ, Reaches L (available L) (σ.stop (.ok job)) ρ ∧ ρ.pc = .ended (.ok ()) ∧ ρ.written = σ.written := by
  obtain ⟨offset, pc, call, written, output⟩ := σ
  cases call with
  | idle => exact absurd rfl hstarted
  | received => exact ends_of_closing rfl
  | done err => exact ends_of_done rfl rfl
  | running =>
    -- the call returns without writing anything more
    obtain ⟨ρ, hreach, hend, hwritten⟩ := ends_of_done (L := L)
      (σ := ⟨offset, .stopping (.ok job), .done (some .canceled), written, output⟩) rfl rfl
    exact ⟨ρ, .trans (.step .refl (.returned (some .canceled)) rfl rfl) hreach, hend, hwritten⟩

/-- Where the handler takes the log for complete and it is not, the stream can end without an error. -/
theorem cut_short {e : Event} (hstarted : ∀ job, σ.pc = .polling job → σ.call ≠ .idle) (hs : σ.step L e = some τ)
    (hcaught : caughtUp L k σ e = false) :
    ∃ ρ, Reaches L (available L) τ ρ ∧ ρ.pc = .ended (.ok ()) ∧ ¬ ρ.Full L k := by
  have hshort : ¬ σ.Full L k := by
    unfold caughtUp at hcaught
    split at hcaught
    · simp_all [Conn.Full]
    · split at hcaught <;> simp_all [Conn.Full]
    · cases hcaught
  suffices hends : ∃ ρ, Reaches L (available L) τ ρ ∧ ρ.pc = .ended (.ok ()) ∧ ρ.written = σ.written by
    obtain ⟨ρ, hreach, hend, hwritten⟩ := hends
    refine ⟨ρ, hreach, hend, ?_⟩
    rw [Conn.Full, hwritten]
    exact hshort
  unfold caughtUp at hcaught
  split at hcaught
  · rename_i job
    have hterminal : job.status.terminal = true := by simp_all
    rw [Conn.step] at hs
    split at hs
    · cases hs
      rw [Conn.refresh, if_pos hterminal]
      exact ends_of_closing rfl
    · rename_i hpc
      cases hs
      rw [Conn.poll, if_pos hterminal]
      exact ends_of_stop (hstarted _ hpc)
    · cases hs
  · rename_i ctxErr
    split at hcaught
    · rename_i hpc
      have hctx : ctxErr = true := by simp_all
      rw [Conn.step] at hs
      split at hs
      · rw [Conn.receive, hpc, hctx] at hs
        cases hs
        exact ends_of_closing rfl
      · cases hs
    · cases hcaught
  · cases hcaught

end Settled

/-- **When the whole log arrives**: a stream for a job that is preparing never brings it. For another job a stream that ends
without an error brings it if the handler takes the log for complete only when it is. Whenever it does so too early, the stream
can end without an error and without the rest of the log. -/
theorem delivered_caughtUp (L : Bytes) (k : Nat) (hk : k ≤ L.length) (job : Job) :
    (job.status = .preparing → ∀ σ, Reaches L (available L) (streamJobLogs k (.ok job)) σ → σ.pc = .ended (.ok ()) →
      ¬ Delivered L k σ.sent) ∧
    (job.status ≠ .preparing →
      (∀ σ, Reaches L (fun σ e => available L σ e && caughtUp L k σ e) (streamJobLogs k (.ok job)) σ → σ.pc = .ended (.ok ()) →
        Delivered L k σ.sent) ∧
      ∀ σ e τ, Reaches L (available L) (streamJobLogs k (.ok job)) σ → available L σ e = true → σ.step L e = some τ →
        caughtUp L k σ e = false →
        ∃ ρ, Reaches L (available L) τ ρ ∧ ρ.pc = .ended (.ok ()) ∧ ¬ Delivered L k ρ.sent) := by
  have hpreparing : isPreparing (.ok job) = false ↔ job.status ≠ .preparing := by simp [isPreparing]
  refine ⟨fun hjob σ hrun hend hdelivered => ?_, fun hjob => ⟨fun σ hrun hend => ?_, fun σ e τ hrun ha hs hcaught => ?_⟩⟩
  · exact hpreparing.mp (((sound_of_reaches hrun).delivers hk hend).mp hdelivered).1 hjob
  · have hsettled := settled_of_reaches hjob hrun
    rw [hend] at hsettled
    exact ((sound_of_reaches hrun).delivers hk hend).mpr ⟨hpreparing.mpr hjob, hsettled⟩
  · obtain ⟨ρ, hreach, hend, hshort⟩ := cut_short (fun job hpc => started_of_reaches hrun job (.inl hpc)) hs hcaught
    have hsound := sound_of_reaches (.trans (.step hrun e ha hs) hreach)
    exact ⟨ρ, hreach, hend, fun hdelivered => hshort ((hsound.delivers hk hend).mp hdelivered).2⟩

/-- The job is seen active, the call writes `n` bytes, and the job is seen to have ended. -/
def following (n : Nat) : List Event :=
  [.state (.ok .active), .write n none, .refreshed (.ok (sampleJob .succeeded)), .returned (some .canceled), .received false,
    .closed none]

def Conn.succeeded (σ : Conn) : Bool :=
  match σ.pc with
  | .ended (.ok _) => true
  | _ => false

theorem Conn.pc_of_succeeded (h : σ.succeeded = true) : σ.pc = .ended (.ok ()) := by
  rw [Conn.succeeded] at h
  split at h
  · rename_i hpc
    exact hpc
  · cases h

theorem delivered_caughtUp_followed : ∃ σ, Reaches sampleLog (available sampleLog)
    (streamJobLogs 0 (.ok (sampleJob .running))) σ ∧
    σ.pc = .ended (.ok ()) ∧ Delivered sampleLog 0 σ.sent := by
  let allowed (σ : Conn) (e : Event) : Bool := available sampleLog σ e && caughtUp sampleLog 0 σ e
  have hrun : (Conc.runIf (Conn.step sampleLog) allowed (streamJobLogs 0 (.ok (sampleJob .running)))
      (following 3)).map (fun σ => σ.succeeded) = some true := by decide +kernel
  obtain ⟨σ, hσ, hstate⟩ := Option.map_eq_some_iff.mp hrun
  have hend := Conn.pc_of_succeeded hstate
  refine ⟨σ, .runIf (fun _ _ ha => (Bool.and_eq_true_iff.mp ha).1) .refl hσ, hend, ?_⟩
  exact ((delivered_caughtUp sampleLog 0 (Nat.zero_le _) _).2 (by decide)).1 σ (reaches_of_runIf hσ) hend

/-- The job ends while the call has written two of three bytes. The handler stops the call and ends the stream without an
error; the last byte is never sent. -/
theorem logs_cut_short : ∃ σ, Reaches sampleLog (available sampleLog) (streamJobLogs 0 (.ok (sampleJob .running))) σ ∧
    σ.pc = .ended (.ok ()) ∧ ¬ Delivered sampleLog 0 σ.sent := by
  have hrun : (Conc.runIf (Conn.step sampleLog) (available sampleLog) (streamJobLogs 0 (.ok (sampleJob .running)))
      (following 2)).map (fun σ => (σ.succeeded, content σ.sent)) = some (true, [104, 105]) := by decide +kernel
  obtain ⟨σ, hσ, hstate⟩ := Option.map_eq_some_iff.mp hrun
  rw [Prod.mk.injEq] at hstate
  refine ⟨σ, reaches_of_runIf hσ, Conn.pc_of_succeeded hstate.1, ?_⟩
  rintro ⟨-, hcontent⟩
  rw [hstate.2] at hcontent
  revert hcontent
  decide

end Logs

end Autback
