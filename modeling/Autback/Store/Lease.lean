import Autback.Store.Fifo
import Autback.Store.Writes

/-!
# Leases

The operation of a running build has begun (`DB.RunningBegun`), and from then on its lease is not taken away
(`commit_leasedSince`).
-/

namespace Autback

theorem Tx.Unleases.cases {x : Tx} {op : Op} (h : x.Unleases op) :
    (∃ id rootDigest, x = .queueJob id rootDigest ∧ op = jobOp id) ∨ x = .requeueAdmittingOperation op := by
  cases x <;> simp_all [Tx.Unleases]

/-! ## Running builds -/

def OperationState.begun : OperationState → Bool
  | .queued | .admitting => false
  | _ => true

def DB.Begun (db : DB) (op : Op) : Prop := ∃ q, db.queue.table.lookup op = some q ∧ q.state.begun = true

/-- The operation `op` has begun, and its lease was written at `t` or later. -/
def DB.LeasedSince (db : DB) (op : Op) (t : Time) : Prop :=
  ∃ q l, db.queue.table.lookup op = some q ∧ q.state.begun = true ∧ q.leasedAt = some l ∧ t ≤ l

def DB.RunningBegun (db : DB) : Prop := ∀ id, db.view.build id = some .running → db.Begun (buildOp id)

section Running

variable {x : Tx} {a : x.Val} {now t : Time} {fresh : String} {op : Op} {db db' : DB}

theorem Tx.Moves.begun {s s' : OperationState} (h : x.Moves a op s s') (hs : s.begun = true) : s'.begun = true := by
  cases x <;> simp only [Tx.Moves] at h <;> cases s <;>
    simp_all [OperationState.begun, OperationState.executing, OperationState.tearing]

theorem Tx.run_begun (h : x.run now fresh db = .ok (a, db')) {q : QueueRow} (hq : db.queue.table.lookup op = some q)
    (hs : q.state.begun = true) : ∃ q', db'.queue.table.lookup op = some q' ∧ q'.state.begun = true := by
  have hrow : db.view.row op = some q.view := by simp [DB.view, hq]
  obtain ⟨r', hr', -, hmove⟩ := (Tx.run_effect h).row hrow
  obtain ⟨q', hq', rfl⟩ := view_row_eq_some hr'
  refine ⟨q', hq', ?_⟩
  rcases hmove with hsame | hmove
  · have hstatus : q'.state = q.state := hsame
    rw [hstatus, hs]
  · exact hmove.begun hs

theorem DB.LeasedSince.begun (h : db.LeasedSince op t) : db.Begun op := by
  obtain ⟨q, l, hq, hs, -, -⟩ := h
  exact ⟨q, hq, hs⟩

theorem DB.LeasedSince.mono (h : db.LeasedSince op t) {t' : Time} (ht : t' ≤ t) : db.LeasedSince op t' := by
  obtain ⟨q, l, hq, hs, hl, hle⟩ := h
  exact ⟨q, l, hq, hs, hl, Int.le_trans ht hle⟩

theorem Tx.run_not_unleases (h : x.run now fresh db = .ok (a, db')) (hb : db.Begun op) : ¬ x.Unleases op := by
  intro hx
  obtain ⟨q, hq, hs⟩ := hb
  have hrow : db.view.row op = some q.view := by simp [DB.view, hq]
  have he := Tx.run_effect h
  rcases hx.cases with ⟨id, rootDigest, rfl, rfl⟩ | rfl
  · obtain ⟨-, r, hr, hstatus⟩ := he
    rw [hrow] at hr
    cases hr
    have hstatus : (q.state == .queued || q.state == .admitting) = true := hstatus
    cases hq' : q.state <;> simp_all [OperationState.begun]
  obtain ⟨⟨r, hr, hstatus⟩, -⟩ := he
  rw [hrow] at hr
  cases hr
  have hstatus : q.state = .admitting := eq_of_beq hstatus
  rw [hstatus] at hs
  cases hs

theorem commit_begun (h : db.Begun op) : (x.commit now fresh db).Begun op := by
  rw [Tx.commit]
  split
  · rename_i a db' hx
    obtain ⟨q, hq, hs⟩ := h
    exact Tx.run_begun hx hq hs
  · exact h

theorem commit_leasedSince (h : db.LeasedSince op t) (ht : t ≤ now) : (x.commit now fresh db).LeasedSince op t := by
  rw [Tx.commit]
  split
  · rename_i a db' hx
    have hkept := Tx.run_lease hx (Tx.run_not_unleases hx h.begun)
    obtain ⟨q, l, hq, hs, hl, hle⟩ := h
    obtain ⟨q', hq', hs'⟩ := Tx.run_begun hx hq hs
    obtain ⟨q'', hq'', hlease⟩ := hkept q hq
    rw [hq'] at hq''
    cases hq''
    rcases hlease with hlease | hlease
    · exact ⟨q', l, hq', hs', hlease.trans hl, hle⟩
    · exact ⟨q', now, hq', hs', hlease, ht⟩
  · exact h

theorem renew_leasedSince {u : Unit} (h : db.renewOperationLease now op = .ok (u, db')) (hb : db.Begun op) :
    db'.LeasedSince op now := by
  obtain ⟨q, hq, hs⟩ := hb
  simp only [DB.renewOperationLease, check_eq_ok, bind_eq_ok, return_eq_ok, Prod.exists] at h
  obtain ⟨n, db2, hr, hcounts, -, rfl⟩ := h
  obtain ⟨⟨n', queue⟩, hupd, hdb⟩ := bind_eq_ok.mp hr
  cases hdb
  rcases Queue.update_ok hupd with ⟨r, hr, -, -, -, htable⟩ | ⟨-, rfl, -⟩
  · rw [hq] at hr
    cases hr
    exact ⟨{ q with leasedAt := some now }, now, by rw [htable, AList.lookup_insert], hs, rfl, Int.le_refl now⟩
  · exact absurd Nat.zero_ne_one hcounts

theorem Tx.runs {a : x.Val} {id : String} (hx : x.run now fresh db = .ok (a, db')) (hb : db'.view.build id = some .running) :
    db.view.build id = some .running ∨ x = .activateOperation (buildOp id) := by
  have he := Tx.run_effect hx
  obtain ⟨b, hb', hrun⟩ := Option.map_eq_some_iff.mp hb
  cases hbefore : db.builds.lookup id with
  | none =>
    have hnone : db.view.build id = none := by simp [DB.view, hbefore]
    rcases he.appears with h | ⟨id', -, -, hv⟩ | ⟨id', -, -, hv⟩
    · have hkeys := h.build id
      simp [hb, hnone] at hkeys
    · exact .inl (by rwa [hv] at hb)
    rw [hv, View.addBuild_build] at hb
    split at hb
    · cases hb
    · exact .inl hb
  | some r =>
    obtain ⟨r', hr', hcase⟩ := Tx.build_after hx hbefore
    rw [hb'] at hr'
    cases hr'
    rcases hcase with rfl | ⟨p, f, hupd, -, rfl⟩
    · exact .inl (by simp [DB.view, hbefore, hrun])
    cases hupd with
    | finish _ status exitCode =>
      have hterm := he.1
      rw [show status = .running from hrun] at hterm
      cases hterm
    | stop _ message => cases hrun
    | activate op =>
      obtain ⟨kind, id'⟩ := op
      cases kind with
      | job => exact .inl (by rwa [he.2] at hb)
      | build => exact .inr rfl

theorem Tx.runningBegun {a : x.Val} (hx : x.run now fresh db = .ok (a, db')) (h : db.RunningBegun) : db'.RunningBegun := by
  intro id hb
  have he := Tx.run_effect hx
  rcases Tx.runs hx hb with hbefore | rfl
  · obtain ⟨q, hq, hs⟩ := h id hbefore
    exact Tx.run_begun hx hq hs
  obtain ⟨⟨r, hr, -⟩, -, hview⟩ := he
  have hrow : db'.view.row (buildOp id) = some ⟨.active, r.seq⟩ := by
    rw [hview, View.setBuild_row, View.setRow_row, if_pos rfl, hr]
    rfl
  obtain ⟨q, hq, hq'⟩ := view_row_eq_some hrow
  exact ⟨q, hq, by rw [show q.state = .active from congrArg RowView.state hq']; rfl⟩

theorem commit_runningBegun (h : db.RunningBegun) : (x.commit now fresh db).RunningBegun := by
  rw [Tx.commit]
  split
  · rename_i a db' hx
    exact Tx.runningBegun hx h
  · exact h

theorem runStore_runningBegun (evs : List StoreEvent) : (runStore evs).RunningBegun := by
  refine foldl_keeps_all evs (fun hx h => Tx.runningBegun hx h) fun id hb => ?_
  cases hb

end Running

end Autback
