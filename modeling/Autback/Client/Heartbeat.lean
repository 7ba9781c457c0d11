import Autback.Conc.Events
import Autback.Conc.Traces
import Autback.Server.System
import Autback.Store.Lease

/-!
# The heartbeat of a build

While a build runs, the client renews its lease: `runLeaseHeartbeat` of `internal/cli/service.go` waits an interval and then asks
`GetBuild` until an attempt succeeds, with the bounded retries of `Do` in `internal/retry/retry.go`. If it returns an error, the
client stops the build. What the server was asked to do by an attempt may also happen after the attempt is over.

A successful attempt has found the build running and then renewed its lease (`getBuild_running`). So if the lease is at most two
request timeouts old when the loop begins, it is at most three of them, an interval and a failure budget old when the loop returns
(`step_inv`), and it has not expired by then (`lease_given_up`). With an older lease it may have (`lease_expires`).
-/

namespace Autback

namespace Heartbeat

open Conc (Prog Fallible Trace)

/-! ## Policies -/

def millisecond : Duration := 1000000

/-- `retry.Policy`, without the functions for time and randomness. -/
structure RetryPolicy where
  (initialDelay maxDelay : Duration)
  maxAttempts : Int
  (maxElapsed attemptTimeout : Duration)
  deriving DecidableEq

def RetryPolicy.normalize (p : RetryPolicy) : RetryPolicy :=
  let initialDelay := if p.initialDelay ≤ 0 then 250 * millisecond else p.initialDelay
  let maxDelay := if p.maxDelay ≤ 0 then 5 * second else p.maxDelay
  { initialDelay := initialDelay
    maxDelay := if maxDelay < initialDelay then initialDelay else maxDelay
    maxAttempts := if p.maxAttempts ≤ 0 then 5 else p.maxAttempts
    maxElapsed := if p.maxElapsed ≤ 0 then 30 * second else p.maxElapsed
    attemptTimeout := p.attemptTimeout }

structure Policy where
  (interval requestTimeout initialRetryDelay maxRetryDelay failureBudget : Duration)
  deriving DecidableEq

def Policy.normalize (p : Policy) : Policy :=
  let initialRetryDelay := if p.initialRetryDelay ≤ 0 then 250 * millisecond else p.initialRetryDelay
  let maxRetryDelay := if p.maxRetryDelay ≤ 0 then 5 * second else p.maxRetryDelay
  { interval := p.interval
    requestTimeout := if p.requestTimeout ≤ 0 then 10 * second else p.requestTimeout
    initialRetryDelay := initialRetryDelay
    maxRetryDelay := if maxRetryDelay < initialRetryDelay then initialRetryDelay else maxRetryDelay
    failureBudget := if p.failureBudget ≤ 0 then 2 * p.interval else p.failureBudget }

def Policy.retry (p : Policy) : RetryPolicy :=
  RetryPolicy.normalize ⟨p.initialRetryDelay, p.maxRetryDelay, 1000, p.failureBudget, p.requestTimeout⟩

def servicePolicy : Policy := Policy.normalize ⟨30 * second, 0, 0, 0, 0⟩

theorem retry_initialDelay_pos (p : Policy) : 0 < p.retry.initialDelay := by
  simp only [Policy.retry, RetryPolicy.normalize, millisecond]
  split <;> lia

theorem retry_maxDelay_pos (p : Policy) : 0 < p.retry.maxDelay := by
  simp only [Policy.retry, RetryPolicy.normalize, millisecond, second]
  grind

/-! ## The client -/

inductive ConnectCode
  | canceled
  | unknown
  | invalidArgument
  | deadlineExceeded
  | notFound
  | alreadyExists
  | permissionDenied
  | resourceExhausted
  | failedPrecondition
  | aborted
  | outOfRange
  | unimplemented
  | internal
  | unavailable
  | dataLoss
  | unauthenticated
  deriving DecidableEq

def transientHeartbeatError : ConnectCode → Bool
  | .unavailable | .deadlineExceeded | .resourceExhausted | .aborted => true
  | _ => false

/-- The variables of `Do`. -/
structure Loop where
  started : Time
  delay : Duration
  attempt : Int
  deriving DecidableEq

/-- Where `runLeaseHeartbeat` is: in the wait of an interval, in an attempt that began at `since` and for which the server has
made the calls of `trace`, in the wait before the next attempt, or returned with an error. -/
inductive Phase
  | waiting (ends : Time)
  | attempting (loop : Loop) (since : Time) (trace : Trace Call Call.Ret)
  | backingOff (loop : Loop) (ends : Time)
  | failed (time : Time)

def Loop.nextDelay (p : RetryPolicy) (l : Loop) : Duration :=
  if l.delay < p.maxDelay then (if l.delay * 2 > p.maxDelay then p.maxDelay else l.delay * 2) else l.delay

/-- What `Do` does after an attempt that failed with an error that is retryable. -/
def Loop.retry (p : RetryPolicy) (now : Time) (l : Loop) (jitter : Duration) : Phase :=
  if l.attempt ≥ p.maxAttempts then .failed now
  else
    let remaining := p.maxElapsed - (now - l.started)
    if remaining ≤ 0 then .failed now
    else
      let wait := if jitter ≤ 0 then l.delay else jitter
      .backingOff ⟨l.started, l.nextDelay p, l.attempt + 1⟩ (now + if wait > remaining then remaining else wait)

/-- The answer of `GetBuild` that the heartbeat accepts. -/
def accepted : Reply → Bool
  | .build build connection => build.status == .running && connection
  | _ => false

/-! ## Client and server -/

structure State where
  now : Time
  db : DB
  phase : Phase

inductive Event
  | pass (d : Duration)
  /-- A transaction of the server, for whatever reason. -/
  | store (x : Tx) (fresh : String)
  /-- The next call of the handler that serves the attempt. -/
  | serve (c : Call) (r : c.Ret) (fresh : String)
  /-- The client has a new access token and asks again, in the same attempt. -/
  | resend
  /-- The end of a wait. -/
  | wake
  /-- The answer arrives; the credentials in it can be used or not. -/
  | answer (reply : Reply) (updated : Bool)
  | fails (code : ConnectCode) (jitter : Duration)

def called (now : Time) (fresh : String) (db : DB) : (c : Call) → c.Ret → DB
  | .tx x, (.ok _ : Except Err x.Val) => x.commit now fresh db
  | _, _ => db

/-- A transaction that returns a value does so by its code; it may fail, and other calls answer as they like. -/
def Answers (now : Time) (fresh : String) (db : DB) : (c : Call) → c.Ret → Prop
  | .tx x, (.ok a : Except Err x.Val) => ∃ db', x.run now fresh db = .ok (a, db')
  | _, _ => True

section System

variable (p : Policy) (id : String)

def Policy.next (now : Time) : Phase := .waiting (now + p.interval)

def Loop.attempts (l : Loop) (now : Time) : Phase := .attempting l now []

def step (s : State) : Event → Option State
  | .pass d => some { s with now := s.now + d }
  | .store x fresh => some { s with db := x.commit s.now fresh s.db }
  | .serve c r fresh => match s.phase with
    | .attempting l since tr =>
      some { s with db := called s.now fresh s.db c r, phase := .attempting l since (tr ++ [⟨c, r⟩]) }
    | _ => none
  | .resend => match s.phase with
    | .attempting l since _ => some { s with phase := .attempting l since [] }
    | _ => none
  | .wake => match s.phase with
    | .waiting ends =>
      if s.now = ends then some { s with phase := Loop.attempts ⟨s.now, p.retry.initialDelay, 1⟩ s.now } else none
    | .backingOff l ends => if s.now = ends then some { s with phase := l.attempts s.now } else none
    | _ => none
  | .answer reply updated => match s.phase with
    | .attempting _ _ _ => some { s with phase := if accepted reply && updated then p.next s.now else .failed s.now }
    | _ => none
  | .fails code jitter => match s.phase with
    | .attempting l _ _ =>
      some { s with phase := if transientHeartbeatError code then l.retry p.retry s.now jitter else .failed s.now }
    | _ => none

/-- The time until which a phase lasts: waits have the length asked for, attempts end within the request timeout. -/
def Phase.deadline : Phase → Option Time
  | .waiting ends => some ends
  | .attempting _ since _ => some (since + p.requestTimeout)
  | .backingOff _ ends => some ends
  | .failed _ => none

/-- What the server has done for the attempt is `tr`. -/
def Phase.Serves (tr : Trace Call Call.Ret) : Phase → Prop
  | .attempting _ _ tr' => tr = tr'
  | _ => False

/-- Time passes up to the deadline of the phase. The server makes the calls of the handler of `GetBuild`, and what it answers is
the result of the handler. -/
def allowed (s : State) : Event → Prop
  | .pass d => 0 ≤ d ∧ ∀ deadline ∈ s.phase.deadline p, s.now + d ≤ deadline
  | .serve c r fresh => Answers s.now fresh s.db c r ∧
      ∃ tr rest result, s.phase.Serves tr ∧ Prog.Runs (Api.getBuild id) (tr ++ ⟨c, r⟩ :: rest) result
  | .resend => ∃ tr text, s.phase.Serves tr ∧ Prog.Runs (Api.getBuild id) tr (.error ⟨.unauthenticated, text⟩)
  | .answer reply _ => ∃ tr, s.phase.Serves tr ∧ Prog.Runs (Api.getBuild id) tr (.ok reply)
  | _ => True

/-- The loop begins: the build is active, and its lease was written at most `age` ago. The calls before the loop have no timeout,
so the code sets no bound to that. -/
structure State.Begins (age : Duration) (s : State) : Prop where
  history : ∃ evs, s.db = runStore evs
  waiting : s.phase = p.next s.now
  leased : s.db.LeasedSince (buildOp id) (s.now - age)

end System

/-! ## What a successful attempt has done -/

section Served

variable {id : String} {tr : Trace Call Call.Ret}

theorem runs_store_ok {x : Tx} {a : x.Val} (h : Prog.Runs (Api.api (store x)) tr (.ok a)) : tr = [⟨.tx x, .ok a⟩] := by
  have hlift : (Prog.lift (Call.tx x)).Runs tr (.ok a) := Fallible.runs_mapError_ok h
  exact hlift.eq_of_lift

theorem authorizedBuild_reads {principal : Principal} {b : Build}
    (h : Prog.Runs (Api.authorizedBuild principal id) tr (.ok b)) : ∃ after, tr = ⟨.tx (.build id), .ok b⟩ :: after := by
  obtain ⟨tr1, b', tr2, htr, hread, h1⟩ := Fallible.runs_bind_ok h
  obtain ⟨tr3, project, tr4, htr2, -, h2⟩ := Fallible.runs_bind_ok h1
  obtain ⟨-, heq⟩ := Prog.runs_ret.mp h2
  cases heq
  rw [htr, runs_store_ok (x := .build id) hread]
  exact ⟨_, rfl⟩

/-- `GetBuild` answers with credentials when it has read that the build runs and then renewed the lease. -/
theorem getBuild_running {b : Build} (h : Prog.Runs (Api.getBuild id) tr (.ok (.build b true))) :
    ∃ before after, tr = before ++ ⟨.tx (.build id), .ok b⟩ :: after ∧ b.status = .running ∧
      ⟨.tx (.renewOperationLease (buildOp b.id)), .ok ()⟩ ∈ after := by
  obtain ⟨tr1, principal, tr2, htr, -, h1⟩ := Fallible.runs_bind_ok h
  obtain ⟨tr3, b', tr4, htr2, hread, h2⟩ := Fallible.runs_bind_ok h1
  obtain ⟨after, htr3⟩ := authorizedBuild_reads hread
  split at h2
  · obtain ⟨tr5, u, tr6, htr4, hren, h3⟩ := Fallible.runs_bind_ok h2
    rw [Api.buildConnection] at h3
    split at h3
    · rename_i hrunning
      obtain ⟨tr7, r, tr8, htr6, -, h4⟩ := Fallible.runs_ofProg_bind h3
      cases r with
      | ok u' =>
        obtain ⟨-, heq⟩ := Prog.runs_ret.mp h4
        cases heq
        refine ⟨tr1, after ++ tr4, by rw [htr, htr2, htr3, List.cons_append], hrunning, ?_⟩
        rw [htr4, runs_store_ok (x := .renewOperationLease (buildOp b.id)) hren]
        simp
      | error e =>
        obtain ⟨tr9, u', tr10, -, -, h5⟩ := Fallible.runs_bind_ok h4
        obtain ⟨-, heq⟩ := Prog.runs_ret.mp h5
        cases heq
    obtain ⟨-, heq⟩ := Prog.runs_ret.mp h3
    cases heq
  obtain ⟨-, heq⟩ := Prog.runs_ret.mp h2
  cases heq

end Served

/-! ## What the server does meanwhile -/

section Called

variable {now since : Time} {fresh id : String} {op : Op} {db : DB} {c : Call} {r : c.Ret} {tr : Trace Call Call.Ret}

theorem called_cases (now : Time) (fresh : String) (db : DB) (c : Call) (r : c.Ret) :
    called now fresh db c r = db ∨ ∃ x : Tx, called now fresh db c r = x.commit now fresh db := by
  cases c with
  | tx x => cases r with
    | ok a => exact .inr ⟨x, rfl⟩
    | error e => exact .inl rfl
  | _ => exact .inl rfl

theorem called_begun (h : db.Begun op) : (called now fresh db c r).Begun op := by
  rcases called_cases now fresh db c r with heq | ⟨x, heq⟩ <;> rw [heq]
  · exact h
  · exact commit_begun h

theorem called_leasedSince (h : db.LeasedSince op since) (hsince : since ≤ now) :
    (called now fresh db c r).LeasedSince op since := by
  rcases called_cases now fresh db c r with heq | ⟨x, heq⟩ <;> rw [heq]
  · exact h
  · exact commit_leasedSince h hsince

theorem called_runningBegun (h : db.RunningBegun) : (called now fresh db c r).RunningBegun := by
  rcases called_cases now fresh db c r with heq | ⟨x, heq⟩ <;> rw [heq]
  · exact h
  · exact commit_runningBegun h

/-- What the calls of an attempt mean for the tables: if one has found the build running, its operation has begun, and if a later
one has renewed the lease, it was written since the attempt began. -/
structure Served (id : String) (since : Time) (db : DB) (tr : Trace Call Call.Ret) : Prop where
  read : ∀ b, ⟨.tx (.build id), .ok b⟩ ∈ tr → b.id = id ∧ (b.status = .running → db.Begun (buildOp id))
  renewed : ∀ before b after, tr = before ++ ⟨.tx (.build id), .ok b⟩ :: after → b.status = .running →
    ⟨.tx (.renewOperationLease (buildOp id)), .ok ()⟩ ∈ after → db.LeasedSince (buildOp id) since

theorem served_nil (id : String) (since : Time) (db : DB) : Served id since db [] where
  read b hb := by cases hb
  renewed before b after htr := by simp at htr

theorem Served.commit {x : Tx} (h : Served id since db tr) (hsince : since ≤ now) :
    Served id since (x.commit now fresh db) tr where
  read b hb := ⟨(h.read b hb).1, fun hrunning => commit_begun ((h.read b hb).2 hrunning)⟩
  renewed before b after htr hrunning hmem := commit_leasedSince (h.renewed before b after htr hrunning hmem) hsince

theorem Served.called (h : Served id since db tr) (hdb : db.RunningBegun) (hsince : since ≤ now)
    (ha : Answers now fresh db c r) : Served id since (called now fresh db c r) (tr ++ [⟨c, r⟩]) where
  read b hb := by
    rcases List.mem_append.mp hb with hb | hb
    · exact ⟨(h.read b hb).1, fun hrunning => called_begun ((h.read b hb).2 hrunning)⟩
    cases List.mem_singleton.mp hb
    obtain ⟨db', hrun⟩ := ha
    obtain ⟨-, hid, hstatus⟩ := Tx.run_effect hrun
    exact ⟨hid, fun hrunning => called_begun (hdb id (by rw [hstatus, hrunning]))⟩
  renewed before b after htr hrunning hmem := by
    rcases List.eq_nil_or_concat after with rfl | ⟨after', x, rfl⟩
    · cases hmem
    rw [List.concat_eq_append, ← List.cons_append, ← List.append_assoc] at htr
    obtain ⟨rfl, hx⟩ := List.append_inj' htr rfl
    cases (List.cons.inj hx).1
    rcases List.mem_append.mp (List.concat_eq_append ▸ hmem) with hmem | hmem
    · exact called_leasedSince (h.renewed before b after' rfl hrunning hmem) hsince
    -- the renewal is the call that is made now
    cases List.mem_singleton.mp hmem
    obtain ⟨db', hrun⟩ := ha
    have hbegun := (h.read b (by simp)).2 hrunning
    have hdb' : Heartbeat.called now fresh db (.tx (.renewOperationLease (buildOp id))) (.ok ()) = db' := by
      simp only [Heartbeat.called, Tx.commit, hrun]
    rw [hdb']
    exact (renew_leasedSince hrun hbegun).mono hsince

end Called

/-! ## Every run -/

/-- How old the lease can be when the loop returns. -/
def Policy.bound (p : Policy) : Duration := p.interval + 3 * p.requestTimeout + p.retry.maxElapsed

/-- The lease was not written before this time. -/
def Phase.floor (p : Policy) : Phase → Time
  | .waiting ends => ends - p.interval - 2 * p.requestTimeout
  | .attempting l _ _ => l.started - p.interval - 2 * p.requestTimeout
  | .backingOff l _ => l.started - p.interval - 2 * p.requestTimeout
  | .failed time => time - p.bound

def Phase.Timely (p : Policy) (now : Time) : Phase → Prop
  | .waiting ends => ends - p.interval ≤ now ∧ now ≤ ends
  | .attempting l since _ => 0 ≤ l.delay ∧ l.started ≤ since ∧ since ≤ l.started + p.retry.maxElapsed ∧ since ≤ now ∧
      now ≤ since + p.requestTimeout
  | .backingOff l ends => 0 ≤ l.delay ∧ l.started ≤ now ∧ now ≤ ends ∧ ends ≤ l.started + p.retry.maxElapsed
  | .failed time => time ≤ now

structure State.Inv (p : Policy) (id : String) (s : State) : Prop where
  running : s.db.RunningBegun
  timely : s.phase.Timely p s.now
  leased : s.db.LeasedSince (buildOp id) (s.phase.floor p)
  served : ∀ l since tr, s.phase = .attempting l since tr → Served id since s.db tr

section Runs

variable {p : Policy} {id : String} {s s' : State} {ph : Phase} {now t : Time}

theorem retry_maxElapsed_pos (p : Policy) : 0 < p.retry.maxElapsed := by
  simp only [Policy.retry, RetryPolicy.normalize, second]
  split <;> lia

variable {l : Loop} {since : Time} {tr : Trace Call Call.Ret} {db : DB}

theorem nextDelay_nonneg (h : 0 ≤ l.delay) : 0 ≤ l.nextDelay p.retry := by
  have hmax := retry_maxDelay_pos p
  rw [Loop.nextDelay]
  grind

theorem floor_le (hinterval : 0 ≤ p.interval) (htimeout : 0 ≤ p.requestTimeout) (h : ph.Timely p now) :
    ph.floor p ≤ now := by
  have hbudget := retry_maxElapsed_pos p
  cases ph <;> simp only [Phase.Timely, Phase.floor, Policy.bound] at h ⊢ <;> lia

theorem returned (htimeout : 0 ≤ p.requestTimeout) (h : ph.Timely p now) (ht : t ≤ now) (hold : ph.floor p + p.bound < t) :
    ∃ time, ph = .failed time ∧ time < t := by
  have hbudget := retry_maxElapsed_pos p
  cases ph with
  | failed time =>
    simp only [Phase.floor] at hold
    exact ⟨time, rfl, by lia⟩
  | _ =>
    simp only [Phase.Timely, Phase.floor, Policy.bound] at h hold
    lia

theorem floor_failed (h : (Phase.attempting l since tr).Timely p now) :
    (Phase.failed now).floor p ≤ (Phase.attempting l since tr).floor p := by
  simp only [Phase.Timely, Phase.floor, Policy.bound] at h ⊢
  lia

/-- What `Do` does after a failure of an attempt. -/
theorem retry_timely (h : (Phase.attempting l since tr).Timely p now) (jitter : Duration) :
    (l.retry p.retry now jitter).Timely p now ∧ (l.retry p.retry now jitter).floor p ≤ (Phase.attempting l since tr).floor p := by
  have hnext := nextDelay_nonneg (p := p) h.1
  rw [Loop.retry]
  split
  · exact ⟨Int.le_refl now, floor_failed h⟩
  dsimp only
  split
  · exact ⟨Int.le_refl now, floor_failed h⟩
  refine ⟨?_, Int.le_refl _⟩
  simp only [Phase.Timely] at h ⊢
  grind

theorem retry_not_attempting {l' : Loop} {jitter : Duration} : l.retry p.retry now jitter ≠ .attempting l' since tr := by
  rw [Loop.retry]
  split
  · intro h
    cases h
  dsimp only
  split <;> intro h <;> cases h

theorem accepted_leased {reply : Reply} (h : Served id since db tr) (hreply : accepted reply = true)
    (hruns : Prog.Runs (Api.getBuild id) tr (.ok reply)) : db.LeasedSince (buildOp id) since := by
  cases reply with
  | build b connection =>
    obtain ⟨-, hconn⟩ := Bool.and_eq_true_iff.mp hreply
    rw [hconn] at hruns
    obtain ⟨before, after, htr, hrunning, hmem⟩ := getBuild_running hruns
    have hid := (h.read b (by rw [htr]; simp)).1
    rw [hid] at hmem
    exact h.renewed before b after htr hrunning hmem
  | job j connection => cases hreply
  | jobs js => cases hreply

/-! ### One event -/

theorem inv_of (hdb : db.RunningBegun) (htim : ph.Timely p now) (hlease : db.LeasedSince (buildOp id) (ph.floor p))
    (hph : ∀ l since tr, ph ≠ .attempting l since tr) : State.Inv p id ⟨now, db, ph⟩ :=
  ⟨hdb, htim, hlease, fun l since tr heq => absurd heq (hph l since tr)⟩

theorem pass_inv (h : s.Inv p id) {d : Duration} (hd : 0 ≤ d) (hdead : ∀ deadline ∈ s.phase.deadline p, s.now + d ≤ deadline) :
    State.Inv p id { s with now := s.now + d } := by
  refine ⟨h.running, ?_, h.leased, h.served⟩
  have htim := h.timely
  cases hph : s.phase <;>
    simp only [hph, Phase.Timely, Phase.deadline, Option.mem_def, Option.some.injEq, forall_eq', reduceCtorEq] at htim hdead ⊢ <;>
    lia

theorem attempts_inv (htimeout : 0 ≤ p.requestTimeout) (hdb : db.RunningBegun) (hdel : 0 ≤ l.delay)
    (hstart : l.started ≤ now) (hbudget : now ≤ l.started + p.retry.maxElapsed)
    (hlease : db.LeasedSince (buildOp id) (l.started - p.interval - 2 * p.requestTimeout)) :
    State.Inv p id ⟨now, db, l.attempts now⟩ where
  running := hdb
  timely := ⟨hdel, hstart, hbudget, Int.le_refl now, by lia⟩
  leased := hlease
  served l' since tr heq := by
    cases heq
    exact served_nil id now db

theorem failed_inv (h : State.Inv p id ⟨now, db, .attempting l since tr⟩) : State.Inv p id ⟨now, db, .failed now⟩ :=
  inv_of h.running (Int.le_refl now) (h.leased.mono (floor_failed h.timely)) (by intro l since tr heq; cases heq)

variable (hinterval : 0 ≤ p.interval) (htimeout : 0 ≤ p.requestTimeout)
include hinterval htimeout

theorem store_inv (h : s.Inv p id) (x : Tx) (fresh : String) :
    State.Inv p id { s with db := x.commit s.now fresh s.db } where
  running := commit_runningBegun h.running
  timely := h.timely
  leased := commit_leasedSince h.leased (floor_le hinterval htimeout h.timely)
  served l since tr hphase := by
    have htim := h.timely
    rw [show s.phase = _ from hphase] at htim
    exact (h.served l since tr hphase).commit htim.2.2.2.1

theorem serve_inv {c : Call} {r : c.Ret} {fresh : String} (h : State.Inv p id ⟨now, db, .attempting l since tr⟩)
    (ha : Answers now fresh db c r) : State.Inv p id ⟨now, called now fresh db c r, .attempting l since (tr ++ [⟨c, r⟩])⟩ where
  running := called_runningBegun h.running
  timely := h.timely
  leased := called_leasedSince h.leased (floor_le hinterval htimeout h.timely)
  served l' since' tr' heq := by
    cases heq
    exact (h.served l since tr rfl).called h.running h.timely.2.2.2.1 ha

theorem step_inv (h : s.Inv p id) {e : Event} (ha : allowed p id s e) (hstep : step p s e = some s') : s'.Inv p id := by
  obtain ⟨now, db, ph⟩ := s
  cases e with
  | pass d =>
    cases hstep
    exact pass_inv h ha.1 ha.2
  | store x fresh =>
    cases hstep
    exact store_inv hinterval htimeout h x fresh
  | serve c r fresh =>
    cases ph <;> cases hstep
    exact serve_inv hinterval htimeout h ha.1
  | resend =>
    cases ph <;> cases hstep
    exact ⟨h.running, h.timely, h.leased, fun l since tr heq => by cases heq; exact served_nil id _ db⟩
  | wake =>
    have hbudget := retry_maxElapsed_pos p
    have hdel := retry_initialDelay_pos p
    cases ph with
    | waiting ends =>
      simp only [step, Option.ite_none_right_eq_some] at hstep
      obtain ⟨rfl, hs'⟩ := hstep
      cases hs'
      exact attempts_inv htimeout h.running (Int.le_of_lt hdel) (Int.le_refl now) (by lia) h.leased
    | backingOff l ends =>
      simp only [step, Option.ite_none_right_eq_some] at hstep
      obtain ⟨rfl, hs'⟩ := hstep
      cases hs'
      exact attempts_inv htimeout h.running h.timely.1 h.timely.2.1 h.timely.2.2.2 h.leased
    | attempting l since tr => cases hstep
    | failed time => cases hstep
  | answer reply updated =>
    cases ph <;> cases hstep
    rename_i l since tr
    obtain ⟨tr', htr', hruns⟩ := ha
    cases htr'
    split
    · rename_i hok
      have hlease := accepted_leased (h.served l since tr rfl) (Bool.and_eq_true_iff.mp hok).1 hruns
      have htim := h.timely
      simp only [Phase.Timely] at htim
      refine inv_of h.running ?_ (hlease.mono ?_) (by intro l since tr heq; cases heq)
      · simp only [Policy.next, Phase.Timely]
        lia
      simp only [Policy.next, Phase.floor]
      lia
    · exact failed_inv h
  | fails code jitter =>
    cases ph <;> cases hstep
    rename_i l since tr
    split
    · have hretr := retry_timely h.timely jitter
      exact inv_of h.running hretr.1 (h.leased.mono hretr.2) fun _ _ _ => retry_not_attempting
    · exact failed_inv h

theorem reaches_inv {s0 : State} (hbegun : s0.Begins p id (2 * p.requestTimeout))
    (hrun : Conc.Reaches (step p) (allowed p id) s0 s) : s.Inv p id := by
  refine hrun.invariant ?_ fun s e s' h ha hstep => step_inv hinterval htimeout h ha hstep
  obtain ⟨⟨evs, hevs⟩, hwait, hlease⟩ := hbegun
  obtain ⟨now, db, ph⟩ := s0
  have hph : ph = .waiting (now + p.interval) := hwait
  subst hph
  have hdb : db = runStore evs := hevs
  refine inv_of (hdb ▸ runStore_runningBegun evs) ?_ (hlease.mono ?_) (by intro l since tr heq; cases heq)
  · simp only [Phase.Timely]
    lia
  simp only [Phase.floor]
  lia

end Runs

/-! ## The lease -/

theorem mem_staleBuilds {db : DB} {before : Time} {b : Build} (h : b ∈ db.staleBuilds before) :
    ∃ q, db.queue.table.lookup (buildOp b.id) = some q ∧ q.lease < before := by
  rw [DB.staleBuilds] at h
  obtain ⟨e, he, rfl⟩ := List.mem_map.mp h
  rw [List.mem_insertionSort, List.mem_filterMap] at he
  obtain ⟨⟨id, r⟩, -, he⟩ := he
  cases hq : db.queue.table.lookup ⟨.build, id⟩ with
  | none => simp [hq] at he
  | some q =>
    simp only [hq, Option.ite_none_right_eq_some, Option.some.injEq, Bool.and_eq_true, decide_eq_true_eq] at he
    obtain ⟨⟨-, hlease⟩, rfl⟩ := he
    exact ⟨q, hq, hlease⟩

/-- The client gives up the lease of its build before the server expires it, if the lease is at most 20 seconds old when the loop
begins. Whatever the server does and however the attempts end: if the reconciler, which has read the clock at `t`, finds the lease
of the build stale, the heartbeat has returned an error before `t`. -/
theorem lease_given_up (cfg : Config) (hcfg : cfg.buildLeaseTimeout = 2 * minute) (id : String) (s₀ s : State)
    (hbegins : s₀.Begins servicePolicy id (20 * second)) (hrun : Conc.Reaches (step servicePolicy)
      (allowed servicePolicy id) s₀ s)
    (t : Time) (ht : t ≤ s.now) (b : Build) (hb : b ∈ s.db.staleBuilds (t - Reconciler.buildLeaseTimeout cfg)) (hid : b.id = id) :
    ∃ time, s.phase = .failed time ∧ time < t := by
  have hinv := reaches_inv (by decide) (by decide) hbegins hrun
  obtain ⟨q, hq, hlease⟩ := mem_staleBuilds hb
  obtain ⟨q', l, hq', -, hl, hle⟩ := hinv.leased
  rw [hid, hq'] at hq
  cases hq
  rw [QueueRow.lease, hl, Option.getD_some] at hlease
  refine returned (by decide) hinv.timely ht ?_
  have hbound : servicePolicy.bound = 120 * second := by decide
  have htimeout : Reconciler.buildLeaseTimeout cfg = 120 * second := by
    rw [Reconciler.buildLeaseTimeout, hcfg]
    decide
  rw [htimeout] at hlease
  rw [hbound]
  simp only [second] at hlease ⊢
  lia

/-- A build is acquired and started at once; the client begins its loop at `now`. -/
def runningBuild (now : Time) : State where
  now := now
  db := runStore [.call (.createBuild "p" ⟨"k", "h"⟩) 0 "1", .call .acquireNextOperation 0 "",
    .call (.activateOperation (buildOp "bld1")) 0 ""]
  phase := servicePolicy.next now

/-- The loop up to its thirteenth attempt, when all before have failed. -/
def unavailable : List Event :=
  .pass (30 * second) :: .wake :: (List.replicate 12 [.fails .unavailable (5 * second), .pass (5 * second), .wake]).flatten

def silent (s : State) : Event → Bool
  | .pass d => decide (0 ≤ d) && (s.phase.deadline servicePolicy).all fun deadline => decide (s.now + d ≤ deadline)
  | .wake => true
  | .fails _ _ => true
  | _ => false

theorem allowed_of_silent (id : String) (s : State) (e : Event) (h : silent s e = true) : allowed servicePolicy id s e := by
  cases e with
  | pass d =>
    obtain ⟨hd, hdead⟩ := Bool.and_eq_true_iff.mp h
    refine ⟨of_decide_eq_true hd, fun deadline hmem => ?_⟩
    rw [Option.mem_def.mp hmem, Option.all_some] at hdead
    exact of_decide_eq_true hdead
  | wake => trivial
  | fails code jitter => trivial
  | _ => cases h

theorem runningBuild_begins (now : Time) : (runningBuild now).Begins servicePolicy "bld1" now :=
  ⟨⟨_, rfl⟩, rfl, _, _, rfl, rfl, rfl, by simp [runningBuild]⟩

theorem lease_given_up_unavailable : ∃ s, (runningBuild (20 * second)).Begins servicePolicy "bld1" (20 * second) ∧
    Conc.Reaches (step servicePolicy) (allowed servicePolicy "bld1") (runningBuild (20 * second)) s ∧ s.now = 210 * second ∧
    (∃ b ∈ s.db.staleBuilds (s.now - 2 * minute), b.id = "bld1") ∧ ∃ time, s.phase = .failed time ∧ time < s.now := by
  have hrun : (Conc.runIf (step servicePolicy) silent (runningBuild (20 * second))
      (unavailable ++ [.fails .unavailable (5 * second), .pass (100 * second)])).any (fun s =>
        decide (s.now = 210 * second) && (s.db.staleBuilds (s.now - 2 * minute)).any fun b => b.id == "bld1") = true := by
    decide +kernel
  obtain ⟨s, hs, htest⟩ := (Option.any_eq_true ..).mp hrun
  obtain ⟨hnow, hstale⟩ := Bool.and_eq_true_iff.mp htest
  obtain ⟨b, hb, hid⟩ := List.any_eq_true.mp hstale
  have hbegins := runningBuild_begins (20 * second)
  have hreaches := Conc.Reaches.refl.runIf (allowed_of_silent "bld1") hs
  refine ⟨s, hbegins, hreaches, of_decide_eq_true hnow, ⟨b, hb, eq_of_beq hid⟩, ?_⟩
  exact lease_given_up { sampleConfig with buildLeaseTimeout := 2 * minute } rfl "bld1" _ s hbegins hreaches s.now
    (Int.le_refl _) b hb (eq_of_beq hid)

def Phase.isAttempting : Phase → Bool
  | .attempting _ _ _ => true
  | _ => false

/-- The answer that told the client of its build came 25 seconds late. 121 seconds after the lease was written the reconciler
finds it stale, and the client is still in its last attempt. -/
theorem lease_expires : ∃ s, (runningBuild (25 * second)).Begins servicePolicy "bld1" (25 * second) ∧
    Conc.Reaches (step servicePolicy) (allowed servicePolicy "bld1") (runningBuild (25 * second)) s ∧ s.now = 121 * second ∧
    (∃ b ∈ s.db.staleBuilds (s.now - 2 * minute), b.id = "bld1") ∧ s.phase.isAttempting = true := by
  have hrun : (Conc.runIf (step servicePolicy) silent (runningBuild (25 * second)) (unavailable ++ [.pass (6 * second)])).any
      (fun s => decide (s.now = 121 * second) && ((s.db.staleBuilds (s.now - 2 * minute)).any (fun b => b.id == "bld1") &&
        s.phase.isAttempting)) = true := by
    decide +kernel
  obtain ⟨s, hs, htest⟩ := (Option.any_eq_true ..).mp hrun
  obtain ⟨hnow, htest⟩ := Bool.and_eq_true_iff.mp htest
  obtain ⟨hstale, hattempting⟩ := Bool.and_eq_true_iff.mp htest
  obtain ⟨b, hb, hid⟩ := List.any_eq_true.mp hstale
  exact ⟨s, runningBuild_begins _, Conc.Reaches.refl.runIf (allowed_of_silent "bld1") hs, of_decide_eq_true hnow,
    ⟨b, hb, eq_of_beq hid⟩, hattempting⟩

end Heartbeat

end Autback
