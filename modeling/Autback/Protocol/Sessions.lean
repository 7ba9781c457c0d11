import Autback.Protocol.Gateway

/-!
# Data-plane sessions

The gateway checks a connection once, in its handshake (`ServerTLSConfig`), and then forwards bytes until one side closes it
or the process ends (`proxyConnection` in `internal/control/mtlsproxy/proxy.go`). A `Plane` is the server with the
connections that its gateway forwards.

A connection ends before the row of its operation is released if no transaction releases the row of an operation that is
still connected (`sessions_end`); nothing in the gateway sees to that (`session_outlives`).
-/

namespace Autback

open Conc

structure Plane where
  conf : Conf
  conns : List Op

/-- The steps of the server and its gateway; `K conns` says which events of the server are considered while the connections
`conns` are open. -/
inductive Plane.Step (cfg : Config) (K : List Op → Rules) : Plane → Plane → Prop
  | system (σ σ' : Conf) (conns : List Op)
      (h : (machine cfg).Step { K conns with crash := fun _ => False } σ σ') : Step cfg K ⟨σ, conns⟩ ⟨σ', conns⟩
  /-- The process ends, and its gateway with it. -/
  | crash (σ : Conf) (conns : List Op) (h : (K conns).crash σ.toWorld) :
      Step cfg K ⟨σ, conns⟩ ⟨⟨σ.crashed σ.st.crash, σ.code⟩, []⟩
  /-- A client with a credential for `op` passes the handshake of the gateway for operations of kind `expected`. -/
  | connect (σ : Conf) (conns : List Op) (expected : OperationKind) (op : Op) (hup : σ.st.booted = true)
      (h : Opens σ expected op) : Step cfg K ⟨σ, conns⟩ ⟨σ, op :: conns⟩
  /-- One side closes a connection. -/
  | close (σ : Conf) (conns : List Op) (op : Op) : Step cfg K ⟨σ, conns⟩ ⟨σ, conns.erase op⟩

/-- What a server with configuration `cfg` and its gateway reach from a new machine, at any time of day. -/
inductive Plane.Reaches (cfg : Config) (K : List Op → Rules) : Plane → Prop
  | init (now : Time) : Reaches cfg K ⟨Machine.init (Sys.fresh now), []⟩
  | step {p p' : Plane} : Reaches cfg K p → Plane.Step cfg K p p' → Reaches cfg K p'

def Plane.Ended (p : Plane) : Prop :=
  ∀ op q, p.conf.st.db.queue.table.lookup op = some q → q.state = .released → op ∉ p.conns

/-- The transactions that release the row of `op`, by the view before them. -/
def Tx.releases (v : View) (op : Op) : Tx → Bool
  | .completeOperationCleanup op' => op == op' && (v.row op).any fun r => r.state.tearing
  | .requestJobCancellation id => op == jobOp id && (v.row op).any fun r => r.state == .queued
  | .finishBuild id _ _ => op == buildOp id && (v.row op).any fun r => r.state == .queued
  | .cancelQueuedOperation op' => op == op' && (v.row op).any fun r => r.state == .queued
  | _ => false

def Orderly (conns : List Op) (w : World) (c : Call) (r : c.Ret) : Prop :=
  match c, r with
  | .tx x, Except.ok _ => ∀ op ∈ conns, x.releases w.st.db.view op = false
  | _, _ => True

/-- The test for `Orderly`. -/
def inOrder (conns : List Op) (w : World) (c : Call) (r : c.Ret) : Bool :=
  match c, r with
  | .tx x, Except.ok _ => conns.all fun op => !x.releases w.st.db.view op
  | _, _ => true

theorem inOrder_iff {conns : List Op} {w : World} {c : Call} {r : c.Ret} : inOrder conns w c r = true ↔ Orderly conns w c r := by
  unfold inOrder Orderly
  split <;> simp

instance (conns : List Op) (w : World) (c : Call) (r : c.Ret) : Decidable (Orderly conns w c r) :=
  decidable_of_bool _ inOrder_iff

def orderly (conns : List Op) : Rules :=
  { heedful with call := fun w t c r => Heedful w t c r ∧ Orderly conns w c r }

/-! ## Sessions end -/

section Steps

variable {cfg : Config} {p : Plane} {σ σ' : Conf} {conns : List Op} {op : Op}

theorem Plane.Reaches.conf (h : Plane.Reaches cfg orderly p) :
    ∃ now, (machine cfg).Reach heedful (Sys.fresh now) p.conf := by
  induction h with
  | init now => exact ⟨now, .init⟩
  | step _ hs ih =>
    obtain ⟨now, ih⟩ := ih
    cases hs with
    | system σ σ' conns h =>
      refine ⟨now, ih.step ?_⟩
      cases h with
      | start l hl hK => exact .start l hl hK
      | call t l c k ch a hl hc ha hK => exact .call t l c k ch a hl hc ha hK.1
      | finish t l hl hc => exact .finish t l hl hc
      | jump t l l' hl hc hlt => exact .jump t l l' hl hc hlt
      | env e st he hK => exact .env e st he hK
      | crash hK => exact hK.elim
    | crash σ conns h => exact ⟨now, ih.step (.crash h)⟩
    | connect σ conns expected op hup h => exact ⟨now, ih⟩
    | close σ conns op => exact ⟨now, ih⟩

theorem Tx.Effect.unreleased {x : Tx} {a : x.Val} {v v' : View} (he : x.Effect a v v') (hx : x.releases v op = false)
    (h : v.RowIs op fun s => s != .released) : v'.RowIs op fun s => s != .released := by
  obtain ⟨r, hr, hs⟩ := h
  obtain ⟨r', hr', -, hm | hm⟩ := he.row hr
  · exact ⟨r', hr', by rwa [hm]⟩
  refine ⟨r', hr', ?_⟩
  cases x <;> simp only [Tx.Moves] at hm <;> grind [Tx.releases]

theorem step_unreleased (h : (machine cfg).Step { orderly conns with crash := fun _ => False } σ σ')
    (hrow : ∀ op ∈ conns, σ.st.db.view.RowIs op fun s => s != .released) :
    ∀ op ∈ conns, σ'.st.db.view.RowIs op fun s => s != .released := by
  cases h with
  | start l hl hK => exact hrow
  | finish t l hl hc => exact hrow
  | jump t l l' hl hc hlt => exact hrow
  | env e st he hK =>
    change ∀ op ∈ conns, st.db.view.RowIs op _
    rw [env_db he]
    exact hrow
  | crash hK => exact hK.elim
  | call t l c k ch a hl hc ha hK =>
    obtain ⟨r, st, sp⟩ := a
    change exec t ch σ.st c = some (r, st, sp) at ha
    have hst : ((machine cfg).resume σ t c k (r, st, sp)).st = st := by cases sp <;> rfl
    intro op hop
    rw [hst]
    by_cases hx : ∃ x, c = .tx x
    · obtain ⟨x, rfl⟩ := hx
      obtain ⟨-, ⟨e, rfl, rfl⟩ | ⟨a, db, rfl, rfl, he⟩⟩ := exec_tx ha
      · exact hrow op hop
      · exact he.unreleased (hK.2 op hop) (hrow op hop)
    rw [exec_db (fun x h => hx ⟨x, h⟩) ha]
    exact hrow op hop

theorem Plane.Reaches.unreleased (h : Plane.Reaches cfg orderly p) :
    ∀ op ∈ p.conns, p.conf.st.db.view.RowIs op fun s => s != .released := by
  induction h with
  | init now => exact nofun
  | step hr hs ih =>
    cases hs with
    | system σ σ' conns h => exact step_unreleased h ih
    | crash σ conns h => exact nofun
    | connect σ conns expected op hup h =>
      obtain ⟨now, hreached⟩ := hr.conf
      obtain ⟨-, r, hrow, hs⟩ := opens_row hreached h
      intro op' hop
      rcases List.mem_cons.mp hop with rfl | hop
      · exact ⟨r, hrow, by rcases hs with hs | hs <;> rw [hs] <;> rfl⟩
      · exact ih op' hop
    | close σ conns op => exact fun op' hop => ih op' (List.mem_of_mem_erase hop)

end Steps

/-- **Sessions end with their operation**, in every state that the server and its gateway reach without a transaction that
releases the row of a connected operation. -/
theorem sessions_end {cfg : Config} {p : Plane} (h : Plane.Reaches cfg orderly p) : p.Ended := by
  intro op q hq hs hop
  obtain ⟨r, hr, hne⟩ := h.unreleased op hop
  obtain ⟨q', hq', rfl⟩ := view_row_eq_some hr
  rw [hq] at hq'
  cases hq'
  have hne : q.state ≠ .released := by simpa [QueueRow.view] using hne
  exact hne hs

/-! ## Computed runs -/

section Computed

variable {cfg : Config} {K : List Op → Rules} {q : World → Nat → (c : Call) → c.Ret → Bool}

theorem Plane.Reaches.steps {conns : List Op} (hstart : ∀ w l, (K conns).start w l) (henv : ∀ w e, (K conns).env w e)
    (hcall : ∀ w t c r, q w t c r = true → (K conns).call w t c r) :
    ∀ {evs : List Event} {σ σ' : Conf}, Plane.Reaches cfg K ⟨σ, conns⟩ → (machine cfg).stepsIf q σ evs = some σ' →
      Plane.Reaches cfg K ⟨σ', conns⟩
  | [], _, _, h, he => by
    cases he
    exact h
  | ev :: _, σ, _, h, he => by
    obtain ⟨hp, he⟩ := Option.ite_none_right_eq_some.mp he
    obtain ⟨σ1, h1, h2⟩ := Option.bind_eq_some_iff.mp he
    have hall : (machine cfg).Allowed { K conns with crash := fun _ => False } σ ev :=
      Machine.allowed_of_accepts (K := { K conns with crash := fun _ => False }) hstart henv hcall hp
    exact (h.step (.system _ _ _ (Machine.step_of_eq hall h1))).steps hstart henv hcall h2

/-- A computed run of the server, up to `σ`, where a client connects for `op`, and from there on. -/
theorem Plane.reaches_of_steps (cfg : Config) (op : Op) (evs evs' : List Event) {p : Conf → Bool}
    (q q' : World → Nat → (c : Call) → c.Ret → Bool) (hstart : ∀ conns w l, (K conns).start w l)
    (henv : ∀ conns w e, (K conns).env w e) (hcall : ∀ w t c r, q w t c r = true → (K []).call w t c r)
    (hcall' : ∀ w t c r, q' w t c r = true → (K [op]).call w t c r)
    (h : (((machine cfg).stepsIf q (Machine.init (Sys.fresh sampleTime)) evs).bind fun σ =>
      if opens σ op && σ.st.booted then (machine cfg).stepsIf q' σ evs' else none).any p = true) :
    ∃ σ, Plane.Reaches cfg K ⟨σ, [op]⟩ ∧ p σ = true := by
  obtain ⟨σ', hσ', hp⟩ := (Option.any_eq_true ..).mp h
  obtain ⟨σ, hσ, hrest⟩ := Option.bind_eq_some_iff.mp hσ'
  obtain ⟨hopen, hrest⟩ := Option.ite_none_right_eq_some.mp hrest
  rw [Bool.and_eq_true] at hopen
  have hbefore : Plane.Reaches cfg K ⟨σ, []⟩ := (Plane.Reaches.init sampleTime).steps (hstart []) (henv []) hcall hσ
  have hconn : Plane.Reaches cfg K ⟨σ, [op]⟩ :=
    hbefore.step (.connect σ [] op.kind op hopen.2 (opens_of_test hopen.1))
  exact ⟨σ', hconn.steps (hstart [op]) (henv [op]) hcall' hrest, hp⟩

end Computed

def cancelsConnected : List Event :=
  asks 6 (.cancelBuild "bld1") ++ [.run 6 .go, authorized 6] ++ goes 6 5 ++ goes 7 2

/-- A client stays connected while its build is cancelled. -/
theorem sessions_end_cancelled : ∃ p, Plane.Reaches sampleConfig orderly p ∧ p.conns = [buildOp "bld1"] ∧
    (p.conf.st.db.builds.lookup "bld1").map BuildRow.status = some .cancelled ∧ p.Ended := by
  obtain ⟨σ, hr, hp⟩ := Plane.reaches_of_steps sampleConfig (K := orderly) (buildOp "bld1") building cancelsConnected
    (p := fun σ => (σ.st.db.builds.lookup "bld1").map BuildRow.status == some .cancelled)
    (fun w t c r => decide (Heedful w t c r ∧ Orderly [] w c r))
    (fun w t c r => decide (Heedful w t c r ∧ Orderly [buildOp "bld1"] w c r)) (fun _ _ _ => trivial)
    (fun _ _ _ => trivial) (fun _ _ _ _ => of_decide_eq_true) (fun _ _ _ _ => of_decide_eq_true) (by decide +kernel)
  exact ⟨⟨σ, [buildOp "bld1"]⟩, hr, rfl, eq_of_beq hp, sessions_end hr⟩

/-- Nothing closes the connection when the teardown completes: the gateway goes on forwarding it. -/
theorem session_outlives : ∃ p, Plane.Reaches sampleConfig (fun _ => Conc.Rules.all) p ∧
    p.conns = [buildOp "bld1"] ∧
    (p.conf.st.db.queue.table.lookup (buildOp "bld1")).map (fun q => q.state) = some .released ∧ ¬ p.Ended := by
  obtain ⟨σ, hr, hp⟩ := Plane.reaches_of_steps sampleConfig (K := fun _ => Conc.Rules.all) (buildOp "bld1") building
    (cancelsConnected ++ goes 7 11)
    (p := fun σ => (σ.st.db.queue.table.lookup (buildOp "bld1")).map (fun q => q.state) == some .released)
    (fun _ _ _ _ => true) (fun _ _ _ _ => true) (fun _ _ _ => trivial) (fun _ _ _ => trivial)
    (fun _ _ _ _ _ => trivial) (fun _ _ _ _ _ => trivial) (by decide +kernel)
  refine ⟨⟨σ, [buildOp "bld1"]⟩, hr, rfl, eq_of_beq hp, fun h => ?_⟩
  obtain ⟨q, hq, hs⟩ := Option.map_eq_some_iff.mp (eq_of_beq hp)
  exact h _ q hq hs (List.mem_singleton.mpr rfl)

end Autback
