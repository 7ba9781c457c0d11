import Autback.Store.Moves

/-!
# FIFO admission

The queue admits one operation at a time, the oldest first. The schema gives the first part: two rows are never reserved
(`DB.oneReserved`). The second part is an invariant of all transactions, `Ahead`: a row that is admitting or active has a
smaller sequence than every queued row (`Tx.Effect.ahead`). A row returns to the queue with its old sequence only from
the reservation, and then no other row is admitting or active.
-/

namespace Autback

namespace View

def OneReserved (v : View) : Prop :=
  ∀ op op' r r', v.row op = some r → v.row op' = some r' → r.state.reserved = true → r'.state.reserved = true → op = op'

def Bounded (v : View) : Prop := ∀ op r, v.row op = some r → r.seq ≤ v.last

def Distinct (v : View) : Prop :=
  ∀ op op' r r', v.row op = some r → v.row op' = some r' → r.seq = r'.seq → op = op'

def Ahead (v : View) : Prop :=
  ∀ op r op' r', v.row op = some r → r.state.executing = true → v.row op' = some r' → r'.state = .queued → r.seq < r'.seq

end View

theorem DB.oneReserved (db : DB) : db.view.OneReserved := by
  intro op op' r r' h h' hr hr'
  obtain ⟨q, hq, rfl⟩ := view_row_eq_some h
  obtain ⟨q', hq', rfl⟩ := view_row_eq_some h'
  exact db.queue.oneReserved _ _ _ _ hq hq' hr hr'

theorem DB.bounded (db : DB) : db.view.Bounded := by
  intro op r h
  obtain ⟨q, hq, rfl⟩ := view_row_eq_some h
  exact db.queue.bounded _ _ hq

theorem DB.distinct (db : DB) : db.view.Distinct := by
  intro op op' r r' h h' hs
  obtain ⟨q, hq, rfl⟩ := view_row_eq_some h
  obtain ⟨q', hq', rfl⟩ := view_row_eq_some h'
  exact db.queue.distinct _ _ _ _ hq hq' hs

theorem reserved_of_executing {s : OperationState} (h : s.executing = true) : s.reserved = true := by
  cases s <;> first | rfl | cases h

/-! ## What keeps the order -/

section Ahead

variable {v : View} {x : Tx} {a : x.Val} {op : Op}

theorem Tx.Moves.executing {s s' : OperationState} (h : x.Moves a op s s')
    (hx : x ≠ .acquireNextOperation) (hs : s'.executing = true) : s.executing = true := by
  cases x <;> simp_all [Tx.Moves, OperationState.executing]
  -- the row of a build that ends is released or torn down
  rcases h.2 with ⟨-, rfl⟩ | ⟨-, rfl⟩ <;> simp at hs

theorem Tx.Moves.requeued {s : OperationState} (h : x.Moves a op s .queued) :
    s.reserved = true := by
  cases x <;> simp_all [Tx.Moves, OperationState.reserved]

theorem ahead_acquire (hnone : v.NoRow OperationState.reserved) (hold : v.Oldest op (· == .queued))
    (hd : v.Distinct) : (v.setRow op .admitting).Ahead := by
  obtain ⟨r, hr, -, hmin⟩ := hold
  intro op1 r1 op2 r2 h1 he h2 hq
  rw [View.setRow_row] at h1 h2
  split at h1
  · rw [hr] at h1
    cases h1
    split at h2
    · rw [hr] at h2
      cases h2
      cases hq
    rename_i e2
    have hle := hmin op2 r2 h2 (by simp [hq])
    exact lt_of_le_of_ne hle fun heq => e2 (hd _ _ _ _ h2 hr heq.symm)
  have hres := reserved_of_executing he
  rw [hnone op1 r1 h1] at hres
  cases hres

/-- Only an acquisition lets a row begin to execute, and only a row that was reserved returns to the queue. -/
theorem Tx.Effect.ahead {v' : View} (he : x.Effect a v v') (h : v.Ahead) (hone : v.OneReserved)
    (hb : v.Bounded) (hd : v.Distinct) : v'.Ahead := by
  by_cases hx : x = .acquireNextOperation
  · subst hx
    cases a with
    | none => exact he.1 ▸ h
    | some o =>
      obtain ⟨hnone, hold, rfl⟩ := he
      exact ahead_acquire hnone hold hd
  intro op1 r1 op2 r2 h1 hexec h2 hq
  cases hr : v.row op1 with
  | none =>
    obtain ⟨-, rfl⟩ := he.row_new hr h1
    cases hexec
  | some r =>
    obtain ⟨r1', h1', hseq, hm⟩ := he.row hr
    rw [h1] at h1'
    cases h1'
    have hbefore : r.state.executing = true := hm.elim (fun hs => hs ▸ hexec) fun hm => hm.executing hx hexec
    cases hr' : v.row op2 with
    | none =>
      obtain ⟨-, rfl⟩ := he.row_new hr' h2
      exact hseq ▸ Nat.lt_succ_of_le (hb _ _ hr)
    | some r' =>
      obtain ⟨r2', h2', hseq', hm'⟩ := he.row hr'
      rw [h2] at h2'
      cases h2'
      rw [hseq, hseq']
      refine h _ _ _ _ hr hbefore hr' ?_
      rcases hm' with hs | hm'
      · rw [← hs, hq]
      -- it would be the same row
      cases hone _ _ _ _ hr hr' (reserved_of_executing hbefore) (hq ▸ hm').requeued
      rw [h1] at h2
      cases h2
      rw [hq] at hexec
      cases hexec

end Ahead

/-! ## Runs of the store -/

/-- What can happen to the store: a transaction is run, a call fails before it commits, the process restarts. -/
inductive StoreEvent
  | call (x : Tx) (now : Time) (fresh : String)
  | failed (x : Tx)
  | restart

def StoreEvent.apply (db : DB) : StoreEvent → DB
  | call x now fresh => x.commit now fresh db
  | failed _ => db
  | restart => db

def runStore (evs : List StoreEvent) : DB := evs.foldl StoreEvent.apply DB.empty

variable {db : DB}

theorem foldl_keeps {P : DB → Prop} {allowed : StoreEvent → Prop} {evs : List StoreEvent} (hevs : ∀ e ∈ evs, allowed e)
    (hstep : ∀ {db db' : DB} {x : Tx} {a : x.Val} {now : Time} {fresh : String}, allowed (.call x now fresh) →
      x.run now fresh db = .ok (a, db') → P db → P db') (h : P db) : P (evs.foldl StoreEvent.apply db) := by
  induction evs generalizing db with
  | nil => exact h
  | cons e evs ih =>
    refine ih (fun e' he' => hevs e' (List.mem_cons_of_mem _ he')) ?_
    cases e with
    | call x now fresh =>
      simp only [StoreEvent.apply, Tx.commit]
      split
      · rename_i a db' hx
        exact hstep (hevs _ List.mem_cons_self) hx h
      · exact h
    | failed x => exact h
    | restart => exact h

theorem foldl_keeps_all {P : DB → Prop} (evs : List StoreEvent)
    (hstep : ∀ {db db' : DB} {x : Tx} {a : x.Val} {now : Time} {fresh : String},
      x.run now fresh db = .ok (a, db') → P db → P db') (h : P db) : P (evs.foldl StoreEvent.apply db) :=
  foldl_keeps (fun _ _ => trivial) (fun _ => hstep) h

theorem runStore_ahead (evs : List StoreEvent) : (runStore evs).view.Ahead := by
  refine foldl_keeps_all (P := fun db => db.view.Ahead) evs (fun {db _ _ _ _ _} hx h => ?_) fun op r op' r' h => ?_
  · exact (Tx.run_effect hx).ahead h db.oneReserved db.bounded db.distinct
  · simp [DB.view, DB.empty, Queue.empty] at h

theorem acquire_rows {db' : DB} {now : Time} {o : Operation} (h : db.acquireNextOperation now = .ok (some o, db')) :
    ∃ r, db.queue.table.lookup o.op = some r ∧ r.state = .queued ∧
      db'.queue.table.lookup o.op = some { r with state := .admitting, leasedAt := some now } ∧
      ∀ op, op ≠ o.op → db'.queue.table.lookup op = db.queue.table.lookup op := by
  rw [DB.acquireNextOperation] at h
  split at h
  · cases h
  split at h
  · cases h
  rename_i op q ho
  simp only [check_eq_ok, bind_eq_ok, return_eq_ok, not_not, Prod.exists, Option.some.injEq] at h
  obtain ⟨n, db1, hr, rfl, rfl, rfl⟩ := h
  obtain ⟨hl, hp, -⟩ := Table.first_eq_some ho
  obtain ⟨⟨n', queue⟩, hq, hr⟩ := bind_eq_ok.mp hr
  cases hr
  rcases Queue.update_ok hq with ⟨r, hl', -, -, -, ht⟩ | ⟨-, hn, -⟩
  · rw [hl] at hl'
    cases hl'
    refine ⟨q, hl, eq_of_beq hp, ?_, fun op' hne => ?_⟩
    · rw [ht, AList.lookup_insert]
    · rw [ht, AList.lookup_insert_ne hne]
  · cases hn

/-- **FIFO admission.** In every state that transactions, failed calls and restarts reach from a new database, at most one
row is reserved, a row that is admitting or active is ahead of every queued row, and an acquisition that returns an
operation finds no row reserved and moves the queued row of smallest sequence, and no other, to `admitting`. -/
theorem fifo_admission (evs : List StoreEvent) :
    (∀ op op' r r', (runStore evs).queue.table.lookup op = some r → (runStore evs).queue.table.lookup op' = some r' →
      r.state.reserved = true → r'.state.reserved = true → op = op') ∧
    (∀ op op' r r', (runStore evs).queue.table.lookup op = some r → (runStore evs).queue.table.lookup op' = some r' →
      r.state = .admitting ∨ r.state = .active → r'.state = .queued → r.sequence < r'.sequence) ∧
    (∀ now fresh o db', Tx.acquireNextOperation.run now fresh (runStore evs) = .ok (some o, db') →
      (∀ op r, (runStore evs).queue.table.lookup op = some r → r.state.reserved = false) ∧
      ∃ r, (runStore evs).queue.table.lookup o.op = some r ∧ r.state = .queued ∧
        (∀ op' r', (runStore evs).queue.table.lookup op' = some r' → r'.state = .queued → op' ≠ o.op →
          r.sequence < r'.sequence) ∧
        db'.queue.table.lookup o.op = some { r with state := .admitting, leasedAt := some now } ∧
        ∀ op, op ≠ o.op → db'.queue.table.lookup op = (runStore evs).queue.table.lookup op) := by
  refine ⟨(runStore evs).queue.oneReserved, fun op op' r r' h h' hs hq => ?_, fun now fresh o db' h => ?_⟩
  · have hexec : r.state.executing = true := by
      rcases hs with hs | hs <;> rw [hs] <;> rfl
    exact runStore_ahead evs op r.view op' r'.view (by simp [DB.view, h]) hexec (by simp [DB.view, h']) hq
  obtain ⟨hnone, ⟨rv, hrv, -, hmin⟩, -⟩ := effect_acquireNextOperation h
  obtain ⟨r, hr, hs, hself, hothers⟩ := acquire_rows h
  obtain ⟨r1, hr1, rfl⟩ := view_row_eq_some hrv
  rw [hr] at hr1
  cases hr1
  refine ⟨fun op q hq => hnone op q.view (by simp [DB.view, hq]), r, hr, hs, fun op' r' hr' hs' hne => ?_, hself,
    hothers⟩
  refine lt_of_le_of_ne (hmin op' r'.view (by simp [DB.view, hr']) (by simp [QueueRow.view, hs'])) fun heq => hne ?_
  exact (runStore evs).queue.distinct _ _ _ _ hr' hr heq.symm

end Autback
