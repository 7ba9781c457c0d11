import Autback.Conc.Events
import Autback.Console.Snapshot

/-!
# The stream of console updates

The handler `updates` of `internal/console/handler.go`, the notifier of `internal/control/sqlite/changes.go` and the one
connection of the store, as a system that moves by events. A transaction has the connection until it is over; its commit hook
runs before that and puts a notification into the channel of every subscriber, which holds one.

The revisions sent are strictly increasing, and a handler that waits with an empty channel has sent the current revision
(`updates_current`): since it emptied its channel, no transaction has raised the revision without filling the channel again
(`Caught`).
-/

namespace Autback

namespace Console

open Conc

/-! ## The notifier -/

/-- `changeNotifier`: for every subscriber, whether there is a notification in its channel. -/
structure Notifier where
  next : Nat
  subscribers : Table Nat Bool

namespace Notifier

variable (n : Notifier)

def subscribe : Notifier := ⟨n.next + 1, n.subscribers.insert (n.next + 1) false⟩

/-- What `subscribe` returns for unsubscribing; the channel is closed. -/
def unsubscribe (id : Nat) : Notifier := { n with subscribers := n.subscribers.erase id }

/-- `notify`: a channel that is full stays so. -/
def notify : Notifier := { n with subscribers := Table.updateAll n.subscribers fun _ _ => true }

def take (id : Nat) : Notifier := { n with subscribers := n.subscribers.insert id false }

end Notifier

/-! ## The system -/

inductive Connection
  | free
  /-- A transaction that will leave the store as `db'`; `changed` says whether the pre-update hook has seen the journal. -/
  | opened (db' : DB) (changed : Bool)
  /-- The same, after its commit hook. -/
  | hooked (db' : DB)

inductive Handler
  | start
  /-- In `Snapshot`, with what is left of it; `revision` is the last one that was sent, if any. -/
  | reading (id : Nat) (revision : Option Nat) (rest : Reading Snapshot)
  /-- At the `select`. -/
  | waiting (id : Nat) (revision : Nat)
  | ended

def Handler.id : Handler → Option Nat
  | reading id _ _ | waiting id _ => some id
  | _ => none

/-- The state: the last committed store, the connection, the notifier, the handler, and the revisions that it has sent, newest
first. -/
structure State where
  db : DB
  connection : Connection
  notifier : Notifier
  handler : Handler
  sent : List Nat

inductive Event
  /-- A transaction gets the connection. -/
  | begin (db' : DB) (changed : Bool)
  | rollback
  /-- The commit hook. -/
  | hook
  /-- The commit is done, or it has failed after all. -/
  | commit (ok : Bool)
  /-- The handler subscribes and calls `Snapshot`. -/
  | subscribe
  /-- The next call of `Snapshot` is answered; `time` and `online` are the answers of the clock and the worker. -/
  | answer (time : Time) (online : Bool)
  /-- `Snapshot` has returned; `ok` says whether the patch can be sent. -/
  | patch (ok : Bool)
  /-- The handler takes a notification. -/
  | receive
  /-- The clock or the log sends a patch. -/
  | other
  /-- The request is over. -/
  | cancel
  /-- Another subscriber comes, takes its notification, or goes. -/
  | subscribeOther
  | receiveOther (id : Nat)
  | unsubscribeOther (id : Nat)

namespace State

variable (E : Engine) (principal : Principal) (route : Route) (σ : State)

def finish (id : Nat) : State := { σ with notifier := σ.notifier.unsubscribe id, handler := .ended }

/-- A call of `Snapshot` is answered, if the connection is free for it. -/
def answer (time : Time) (online : Bool) : (c : Call) → Option c.Ret
  | .store q => match σ.connection with
    | .free => some (q.eval E σ.db)
    | _ => none
  | .now => some time
  | .check => some online

def send (id : Nat) (revision : Option Nat) (next : Nat) (ok : Bool) : State :=
  match revision with
  | some last =>
    if next ≤ last then { σ with handler := .waiting id last }
    else if ok then { σ with handler := .waiting id next, sent := next :: σ.sent } else σ.finish id
  | none => if ok then { σ with handler := .waiting id next, sent := next :: σ.sent } else σ.finish id

def step : Event → Option State
  | .begin db' changed => match σ.connection with
    | .free => some { σ with connection := .opened db' changed }
    | _ => none
  | .rollback => match σ.connection with
    | .opened _ _ => some { σ with connection := .free }
    | _ => none
  | .hook => match σ.connection with
    | .opened db' changed => some { σ with
        connection := .hooked db'
        notifier := if changed then σ.notifier.notify else σ.notifier }
    | _ => none
  | .commit ok => match σ.connection with
    | .hooked db' => some { σ with connection := .free, db := if ok then db' else σ.db }
    | _ => none
  | .subscribe => match σ.handler with
    | .start => some { σ with
        notifier := σ.notifier.subscribe
        handler := .reading (σ.notifier.next + 1) none (snapshot principal route) }
    | _ => none
  | .answer time online => match σ.handler with
    | .reading id revision (.call c k) => (σ.answer E time online c).map fun r =>
        { σ with handler := .reading id revision (k r) }
    | _ => none
  | .patch ok => match σ.handler with
    | .reading id revision (.ret (.ok view)) => some (σ.send id revision view.revision ok)
    | .reading id _ (.ret (.error _)) => some (σ.finish id)
    | _ => none
  | .receive => match σ.handler with
    | .waiting id revision => match σ.notifier.subscribers.lookup id with
      | some true => some { σ with
          notifier := σ.notifier.take id
          handler := .reading id (some revision) (snapshot principal route) }
      | some false => none
      | none => some (σ.finish id)
    | _ => none
  | .other => match σ.handler with
    | .waiting _ _ => some σ
    | _ => none
  | .cancel => match σ.handler with
    | .reading id _ _ | .waiting id _ => some (σ.finish id)
    | _ => none
  | .subscribeOther => some { σ with notifier := σ.notifier.subscribe }
  | .receiveOther id =>
    if σ.handler.id ≠ some id && σ.notifier.subscribers.lookup id == some true then
      some { σ with notifier := σ.notifier.take id }
    else none
  | .unsubscribeOther id =>
    if σ.handler.id ≠ some id then some { σ with notifier := σ.notifier.unsubscribe id } else none

end State

/-- Transactions are those of the store. If the revision rises, the journal has been written; the converse need not hold, since a
statement that fails leaves `changed` as it is. -/
def isCommit (E : Engine) (σ : State) : Event → Prop
  | .begin db' changed => Commit E σ.db db' ∧ (db'.revision ≠ σ.db.revision → changed = true)
  | _ => True

def State.init (db : DB) (notifier : Notifier) : State := ⟨db, .free, notifier, .start, []⟩

abbrev Reaches (E : Engine) (principal : Principal) (route : Route) : State → State → Prop :=
  Conc.Reaches (State.step E principal route) (isCommit E)

/-! ## What `Snapshot` returns -/

/-- The revision that was read last, after the call `c` was answered. -/
def Call.after (seen : Option Nat) : (c : Call) → c.Ret → Option Nat
  | .store .currentRevision, r => some r
  | _, _ => seen

/-- If the program ends with a snapshot, its revision is the last one that it has read; `seen` is the one read so far. -/
def Tracks : Option Nat → Reading Snapshot → Prop
  | seen, .ret (.ok view) => seen = some view.revision
  | _, .ret (.error _) => True
  | seen, .call c k => ∀ r, Tracks (c.after seen r) (k r)

def Call.Apart : Call → Prop
  | store q => q ≠ .currentRevision
  | _ => True

theorem Call.Plain.apart {c : Call} (h : c.Plain) : c.Apart := by
  cases c with
  | store q =>
    rintro rfl
    cases h
  | now => trivial
  | check => trivial

theorem Call.Apart.after {c : Call} (h : c.Apart) (seen : Option Nat) (r : c.Ret) : c.after seen r = seen := by
  cases c with
  | store q => cases q <;> first | rfl | exact absurd rfl h
  | now => rfl
  | check => rfl

theorem Tracks.bind {α : Type} {seen : Option Nat} {f : α → Reading Snapshot} (hf : ∀ a, Tracks seen (f a)) :
    ∀ p : Reading α, Prog.Only Call.Apart p → Tracks seen (p >>= f : Reading Snapshot)
  | .ret (.ok a), _ => hf a
  | .ret (.error _), _ => trivial
  | .call c k, h => fun r => by
    rw [h.1.after]
    exact Tracks.bind hf (k r) (h.2 r)

theorem apart_readSnapshot (principal : Principal) (route : Route) :
    Prog.Only Call.Apart (readSnapshot principal route) := by
  have hapart : ∀ c : Call, c.Plain → c.Apart := fun _ h => h.apart
  apply Fallible.only_bind ((plain_readOverview principal route).mono hapart)
  intro v
  apply Fallible.only_bind
  · refine ⟨trivial, fun _ => ⟨nofun, fun samples => ?_⟩⟩
    show Prog.Only Call.Apart (if _ then _ else _ : Reading ResourceView)
    split
    · exact ⟨nofun, fun _ => trivial⟩
    · trivial
  intro r
  exact (plain_readRest principal route v r).mono hapart

theorem tracks_attempt (principal : Principal) (route : Route) (n : Nat) (seen : Option Nat) :
    Tracks seen (attempt principal route n) := by
  induction n generalizing seen with
  | zero => trivial
  | succ n ih =>
    intro before
    refine Tracks.bind ?_ (readSnapshot principal route) (apart_readSnapshot principal route)
    intro view after
    show Tracks (some after) (if before = after then _ else _ : Reading Snapshot)
    split
    · rfl
    · exact ih (some after)

/-! ## What the handler has read -/

def State.upcoming (σ : State) : Nat :=
  match σ.connection with
  | .hooked db' => db'.revision
  | _ => σ.db.revision

/-- The handler with subscription `id` has read `seen` since it emptied its channel: unless there is a notification again, that
is the current revision, and no commit is about to change it. -/
structure Caught (σ : State) (id : Nat) (seen : Option Nat) : Prop where
  known : id ≤ σ.notifier.next
  le : ∀ v ∈ seen, v ≤ σ.db.revision
  current : σ.notifier.subscribers.lookup id = some false → ∀ v ∈ seen, v = σ.db.revision ∧ v = σ.upcoming

theorem Caught.nothing {σ : State} {id : Nat} (h : id ≤ σ.notifier.next) : Caught σ id none where
  known := h
  le _ hv := by cases hv
  current _ _ hv := by cases hv

def Handler.Fits (σ : State) : Handler → Prop
  | start => σ.sent = []
  | reading id revision rest => (∃ seen, Tracks seen rest ∧ Caught σ id seen) ∧ σ.sent.head? = revision ∧
    ∀ v ∈ revision, v ≤ σ.db.revision
  | waiting id revision => Caught σ id (some revision) ∧ σ.sent.head? = some revision
  | ended => True

structure State.Sound (σ : State) : Prop where
  opened : ∀ db' changed, σ.connection = .opened db' changed →
    σ.db.revision ≤ db'.revision ∧ (db'.revision ≠ σ.db.revision → changed = true)
  hooked : ∀ db', σ.connection = .hooked db' → σ.db.revision ≤ db'.revision
  fits : σ.handler.Fits σ
  increasing : σ.sent.Pairwise (· > ·)

namespace State.Sound

variable {E : Engine} {principal : Principal} {route : Route} {σ τ : State} {view : Snapshot}

theorem fits_of_caught (h : σ.Sound) (τ : State) (hhand : τ.handler = σ.handler) (hsent : τ.sent = σ.sent)
    (hle : σ.db.revision ≤ τ.db.revision) (hcaught : ∀ id, σ.handler.id = some id → ∀ seen, Caught σ id seen → Caught τ id seen) :
    τ.handler.Fits τ := by
  have hfits := h.fits
  rw [hhand]
  cases hσ : σ.handler with
  | start =>
    rw [hσ] at hfits
    exact hsent.trans hfits
  | reading id revision rest =>
    rw [hσ] at hfits hcaught
    obtain ⟨⟨seen, htrace, hseen⟩, hhead, hrev⟩ := hfits
    refine ⟨⟨seen, htrace, hcaught id rfl seen hseen⟩, by rw [hsent, hhead], ?_⟩
    intro v hv
    exact Nat.le_trans (hrev v hv) hle
  | waiting id revision =>
    rw [hσ] at hfits hcaught
    exact ⟨hcaught id rfl _ hfits.1, by rw [hsent, hfits.2]⟩
  | ended => trivial

theorem reconnect (h : σ.Sound) {connection : Connection}
    (hopen : ∀ db' changed, connection = .opened db' changed →
      σ.db.revision ≤ db'.revision ∧ (db'.revision ≠ σ.db.revision → changed = true))
    (hhook : ∀ db', connection ≠ .hooked db') :
    ({ σ with connection := connection } : State).Sound := by
  have hupc : ({ σ with connection := connection } : State).upcoming = σ.db.revision := by
    rw [State.upcoming]
    split
    · rename_i db' hc
      exact absurd hc (hhook db')
    · rfl
  refine ⟨hopen, fun db' hc => absurd hc (hhook db'), ?_, h.increasing⟩
  refine h.fits_of_caught { σ with connection := connection } rfl rfl (Nat.le_refl _) ?_
  intro id _ seen hseen
  refine ⟨hseen.known, hseen.le, ?_⟩
  intro hempty v hv
  rw [hupc]
  have hcurrent := (hseen.current hempty v hv).1
  exact ⟨hcurrent, hcurrent⟩

theorem hook (h : σ.Sound) {db' : DB} {changed : Bool} (hc : σ.connection = .opened db' changed) :
    ({ σ with
      connection := .hooked db'
      notifier := if changed then σ.notifier.notify else σ.notifier } : State).Sound := by
  obtain ⟨hle, hchange⟩ := h.opened db' changed hc
  refine ⟨(nofun), ?_, ?_, h.increasing⟩
  · intro db'' hc'
    cases hc'
    exact hle
  refine h.fits_of_caught { σ with connection := .hooked db', notifier := _ } rfl rfl (Nat.le_refl _) ?_
  intro id _ seen hseen
  cases changed with
  | true =>
    refine ⟨hseen.known, hseen.le, ?_⟩
    intro hempty
    simp only [if_true, Notifier.notify, Table.lookup_updateAll, Option.map_eq_some_iff] at hempty
    obtain ⟨_, _, hfalse⟩ := hempty
    cases hfalse
  | false =>
    have hsame : db'.revision = σ.db.revision := by
      by_contra hne
      cases hchange hne
    refine ⟨hseen.known, hseen.le, ?_⟩
    intro hempty v hv
    have hcurrent := (hseen.current hempty v hv).1
    exact ⟨hcurrent, hcurrent.trans hsame.symm⟩

theorem commit (h : σ.Sound) {db' : DB} (hc : σ.connection = .hooked db') (ok : Bool) :
    ({ σ with connection := .free, db := if ok then db' else σ.db } : State).Sound := by
  have hle := h.hooked db' hc
  have hdb : σ.db.revision ≤ (if ok then db' else σ.db).revision := by
    split
    · exact hle
    · exact Nat.le_refl _
  refine ⟨(nofun), (nofun), ?_, h.increasing⟩
  refine h.fits_of_caught { σ with connection := .free, db := _ } rfl rfl hdb ?_
  intro id _ seen hseen
  refine ⟨hseen.known, fun v hv => Nat.le_trans (hseen.le v hv) hdb, ?_⟩
  intro hempty v hv
  obtain ⟨hcurrent, hupc⟩ := hseen.current hempty v hv
  rw [State.upcoming, hc] at hupc
  have heq : v = (if ok then db' else σ.db).revision := by
    split
    · exact hupc
    · exact hcurrent
  exact ⟨heq, heq⟩

theorem finish (h : σ.Sound) (id : Nat) : (σ.finish id).Sound := ⟨h.opened, h.hooked, trivial, h.increasing⟩

theorem others (h : σ.Sound) {notifier : Notifier} (hnext : σ.notifier.next ≤ notifier.next)
    (hsame : ∀ id, σ.handler.id = some id → id ≤ σ.notifier.next →
      notifier.subscribers.lookup id = σ.notifier.subscribers.lookup id) :
    ({ σ with notifier := notifier } : State).Sound := by
  refine ⟨h.opened, h.hooked, ?_, h.increasing⟩
  refine h.fits_of_caught { σ with notifier := notifier } rfl rfl (Nat.le_refl _) ?_
  intro id hid seen hseen
  refine ⟨Nat.le_trans hseen.known hnext, hseen.le, ?_⟩
  intro hempty
  exact hseen.current ((hsame id hid hseen.known).symm.trans hempty)

theorem answer (h : σ.Sound) {id : Nat} {revision : Option Nat} {c : Call} {k : c.Ret → Reading Snapshot}
    (hhand : σ.handler = .reading id revision (.call c k)) {time : Time} {online : Bool} {r : c.Ret}
    (hr : σ.answer E time online c = some r) :
    ({ σ with handler := .reading id revision (k r) } : State).Sound := by
  have hfits := h.fits
  rw [hhand] at hfits
  obtain ⟨⟨seen, htrace, hseen⟩, hhead, hrev⟩ := hfits
  refine ⟨h.opened, h.hooked, ⟨⟨c.after seen r, htrace r, ?_⟩, hhead, hrev⟩, h.increasing⟩
  by_cases hc : c.Apart
  · rw [hc.after]
    exact ⟨hseen.known, hseen.le, hseen.current⟩
  -- the call asks for the revision, and the connection is free
  cases c with
  | now => exact absurd trivial hc
  | check => exact absurd trivial hc
  | store q =>
    have hq : q = .currentRevision := by
      by_contra hne
      exact hc hne
    subst hq
    rw [State.answer] at hr
    split at hr
    · rename_i hfree
      cases hr
      have hupc : σ.upcoming = σ.db.revision := by rw [State.upcoming, hfree]
      refine ⟨hseen.known, ?_, ?_⟩
      · intro v hv
        cases hv
        exact Nat.le_refl _
      intro _ v hv
      cases hv
      exact ⟨rfl, hupc.symm⟩
    · cases hr

theorem sent (h : σ.Sound) {id : Nat} (hseen : Caught σ id (some view.revision))
    (hnew : ∀ v ∈ σ.sent.head?, v < view.revision) :
    ({ σ with handler := .waiting id view.revision, sent := view.revision :: σ.sent } : State).Sound := by
  refine ⟨h.opened, h.hooked, ⟨⟨hseen.known, hseen.le, hseen.current⟩, rfl⟩, ?_⟩
  refine List.pairwise_cons.mpr ⟨?_, h.increasing⟩
  intro v hv
  have hincr := h.increasing
  cases hsent : σ.sent with
  | nil =>
    rw [hsent] at hv
    cases hv
  | cons last earlier =>
    rw [hsent] at hv hincr hnew
    have hlast : last < view.revision := hnew last rfl
    rcases List.mem_cons.mp hv with rfl | hv
    · exact hlast
    · exact Nat.lt_trans ((List.pairwise_cons.mp hincr).1 v hv) hlast

theorem dropped (h : σ.Sound) {id last : Nat} (hseen : Caught σ id (some view.revision))
    (hhead : σ.sent.head? = some last) (hlast : last ≤ σ.db.revision) (hold : view.revision ≤ last) :
    ({ σ with handler := .waiting id last } : State).Sound := by
  refine ⟨h.opened, h.hooked, ⟨⟨hseen.known, ?_, ?_⟩, hhead⟩, h.increasing⟩
  · intro v hv
    cases hv
    exact hlast
  intro hempty v hv
  cases hv
  obtain ⟨hcurrent, hupc⟩ := hseen.current hempty view.revision rfl
  have heq : last = view.revision := by omega
  rw [heq]
  exact ⟨hcurrent, hupc⟩

theorem send (h : σ.Sound) {id : Nat} {revision : Option Nat}
    (hhand : σ.handler = .reading id revision (.ret (.ok view))) (ok : Bool) :
    (σ.send id revision view.revision ok).Sound := by
  have hfits := h.fits
  rw [hhand] at hfits
  obtain ⟨⟨seen, htrace, hseen⟩, hhead, hrev⟩ := hfits
  have htrace' : seen = some view.revision := htrace
  subst htrace'
  cases revision with
  | none =>
    rw [State.send]
    split
    · apply h.sent hseen
      rw [hhead]
      intro v hv
      cases hv
    · exact h.finish id
  | some last =>
    rw [State.send]
    split
    · rename_i hold
      exact h.dropped hseen hhead (hrev last rfl) hold
    rename_i hnew
    split
    · apply h.sent hseen
      rw [hhead]
      intro v hv
      cases hv
      omega
    · exact h.finish id

theorem step (h : σ.Sound) {e : Event} (hall : isCommit E σ e) (hs : σ.step E principal route e = some τ) : τ.Sound := by
  have hfits := h.fits
  cases e with
  | begin db' changed =>
    rw [State.step] at hs
    split at hs
    · cases hs
      apply h.reconnect
      · intro db'' changed' hc
        cases hc
        exact ⟨Commit.revision_le hall.1, hall.2⟩
      intro db'' hc
      cases hc
    · cases hs
  | rollback =>
    rw [State.step] at hs
    split at hs
    · cases hs
      apply h.reconnect
      · intro db'' changed' hc
        cases hc
      intro db'' hc
      cases hc
    · cases hs
  | hook =>
    rw [State.step] at hs
    split at hs
    · rename_i hc
      cases hs
      exact h.hook hc
    · cases hs
  | commit ok =>
    rw [State.step] at hs
    split at hs
    · rename_i hc
      cases hs
      exact h.commit hc ok
    · cases hs
  | subscribe =>
    rw [State.step] at hs
    split at hs
    · rename_i hhand
      cases hs
      rw [hhand] at hfits
      have hsent : σ.sent = [] := hfits
      refine ⟨h.opened, h.hooked, ⟨⟨none, tracks_attempt principal route 5 none, ?_⟩, ?_, ?_⟩, h.increasing⟩
      · exact Caught.nothing (Nat.le_refl _)
      · rw [hsent]
        rfl
      intro v hv
      cases hv
    · cases hs
  | answer time online =>
    rw [State.step] at hs
    split at hs
    · rename_i hhand
      obtain ⟨r, hr, rfl⟩ := Option.map_eq_some_iff.mp hs
      exact h.answer hhand hr
    · cases hs
  | patch ok =>
    rw [State.step] at hs
    split at hs
    · rename_i hhand
      cases hs
      exact h.send hhand ok
    · cases hs
      exact h.finish _
    · cases hs
  | receive =>
    rw [State.step] at hs
    split at hs
    · rename_i id revision hhand
      split at hs
      · cases hs
        rw [hhand] at hfits
        obtain ⟨hcaught, hhead⟩ := hfits
        refine ⟨h.opened, h.hooked, ⟨⟨none, tracks_attempt principal route 5 none, ?_⟩, hhead, ?_⟩, h.increasing⟩
        · exact Caught.nothing hcaught.known
        · exact hcaught.le
      · cases hs
      cases hs
      exact h.finish id
    · cases hs
  | other =>
    rw [State.step] at hs
    split at hs
    · cases hs
      exact h
    · cases hs
  | cancel =>
    rw [State.step] at hs
    split at hs
    · cases hs
      exact h.finish _
    · cases hs
      exact h.finish _
    · cases hs
  | subscribeOther =>
    cases hs
    apply h.others
    · exact Nat.le_succ _
    intro id _ hid
    exact AList.lookup_insert_ne (by omega)
  | receiveOther id' =>
    rw [State.step] at hs
    split at hs
    · rename_i hother
      cases hs
      simp only [ne_eq, Bool.and_eq_true, decide_eq_true_eq] at hother
      apply h.others
      · exact Nat.le_refl _
      intro id hid _
      apply AList.lookup_insert_ne
      rintro rfl
      exact hother.1 hid
    · cases hs
  | unsubscribeOther id' =>
    rw [State.step] at hs
    split at hs
    · rename_i hother
      cases hs
      apply h.others
      · exact Nat.le_refl _
      intro id hid _
      apply AList.lookup_erase_ne
      rintro rfl
      exact hother hid
    · cases hs

end State.Sound

theorem sound_of_reaches {E : Engine} {principal : Principal} {route : Route} {db : DB} {notifier : Notifier} {σ : State}
    (h : Reaches E principal route (.init db notifier) σ) : σ.Sound := by
  refine h.invariant ?_ fun _ _ _ hσ ha hs => hσ.step ha hs
  exact ⟨(nofun), (nofun), rfl, .nil⟩

/-- The revisions that are sent to the client are strictly increasing, and when the handler waits with an empty channel, the last
one is the current revision of the store. -/
theorem updates_current (E : Engine) (principal : Principal) (route : Route) (db : DB) (notifier : Notifier) {σ : State}
    (h : Reaches E principal route (.init db notifier) σ) :
    σ.sent.Pairwise (· > ·) ∧ ∀ id revision, σ.handler = .waiting id revision →
      σ.notifier.subscribers.lookup id = some false → σ.sent.head? = some σ.db.revision := by
  have hsound := sound_of_reaches h
  refine ⟨hsound.increasing, ?_⟩
  intro id revision hhandler hempty
  have hfits := hsound.fits
  rw [hhandler] at hfits
  obtain ⟨hcaught, hhead⟩ := hfits
  rw [hhead, (hcaught.current hempty revision rfl).1]

def Event.quiet : Event → Bool
  | begin _ _ => false
  | _ => true

theorem isCommit_of_quiet (E : Engine) (σ : State) (e : Event) (h : e.quiet = true) : isCommit E σ e := by
  cases e with
  | begin db' changed => cases h
  | _ => trivial

/-- A workflow opens the console on `sampleStore`: the snapshot takes sixteen calls. Then a transaction writes one row, and the
workflow is sent a second snapshot. -/
def sampleUpdates : Option State := do
  let route : Route := ⟨.overview, "", "", ""⟩
  let quiet := runIf (State.step sampleEngine sampleWorkflow route) fun _ => Event.quiet
  let reads := List.replicate 16 (.answer 0 true) ++ [.patch true]
  let σ ← quiet (.init sampleStore ⟨0, ∅⟩) (.subscribe :: reads)
  let σ ← σ.step sampleEngine sampleWorkflow route (.begin { σ.db with changes := σ.db.changes.record 1 } true)
  quiet σ ([.hook, .commit true, .receive] ++ reads)

theorem updates_current_twice : ∃ σ : State, σ.sent = [4, 3] ∧ σ.handler = .waiting 1 4 ∧ σ.sent.head? = some σ.db.revision := by
  have hfields : sampleUpdates.map (fun σ => (σ.sent, σ.notifier.subscribers.lookup 1, match σ.handler with
      | .waiting id revision => some (id, revision)
      | _ => none)) = some ([4, 3], some false, some (1, 4)) := by decide +kernel
  obtain ⟨σ, hrun, hσ⟩ := Option.map_eq_some_iff.mp hfields
  simp only [Prod.mk.injEq] at hσ
  obtain ⟨hsent, hempty, hhandler⟩ := hσ
  split at hhandler
  · rename_i id revision hwaiting
    cases hhandler
    simp only [sampleUpdates, Option.bind_eq_bind, Option.bind_eq_some_iff] at hrun
    obtain ⟨σ1, hrun1, σ2, hbegin, hrun2⟩ := hrun
    have hreaches1 := Conc.Reaches.runIf (isCommit_of_quiet sampleEngine) .refl hrun1
    have hreaches2 := hreaches1.step (.begin _ true) ⟨.write σ1.db σ1.db.tables 1 nofun, fun _ => rfl⟩ hbegin
    have hreaches := hreaches2.runIf (isCommit_of_quiet sampleEngine) hrun2
    exact ⟨σ, hsent, hwaiting, (updates_current _ _ _ _ _ hreaches).2 1 4 hwaiting hempty⟩
  · cases hhandler

end Console

end Autback
