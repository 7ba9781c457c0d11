import Autback.Server.ApiFrames
import Autback.Server.Steps
import Autback.Store.Fifo
import Autback.Store.Moves

/-!
# Teardown

A teardown of an operation runs between the claim of its row and the end of the goroutine's work on it (`teardown`). As long as no
row is claimed while another goroutine still works on it (`soleClaim`), the row stays in teardown all the while
(`teardown_exclusive`); and while it does, no other operation has been admitted after the one that is torn down (`Order`).

The claim is re-entrant for the sake of crashes, and the emergency stop does not exclude the coordinator: both can work on one
row, and one of them can release it under the other (`teardown_overlaps`).
-/

namespace Autback

open Conc Ghost

def teardown : Ghost Call Call.Ret Label (Option Op) where
  start _ := none
  next g c r := match c, r with
    | .tx .claimOperationCleanup, Except.ok (some (o : Operation)) => some o.op
    | .tx (.completeOperationCleanup _), _ => none
    | .tx (.recordOperationCleanupFailure _ _), _ => none
    | .unlock, _ => none
    | _, _ => g
  guard g c := match c with
    | .removeResource owner _ _ => g = some owner
    | .tx (.completeOperationCleanup op) => g = some op
    | _ => True
  fact _ _ _ := True
  exit _ _ := True

section Walk

def Call.outside : Call → Bool
  | .removeResource _ _ _ | .tx (.completeOperationCleanup _) => false
  | _ => true

def anywhere (_ : Option Op) : Prop := True

theorem teardown_still {c : Call} (hc : c.outside = true) : teardown.Still anywhere c := by
  refine fun g _ => ⟨?_, fun _ _ => trivial⟩
  simp only [teardown]
  split <;> first | cases hc | trivial

theorem teardown_quiet (c : Call) (hc : c.quiet = true) : teardown.Still anywhere c := by
  refine teardown_still ?_
  cases c with
  | tx x => cases x <;> first | rfl | cases hc
  | _ => first | rfl | cases hc

theorem claimed_quiet (op : Op) (c : Call) (hc : c.quiet = true) : teardown.Still (· = some op) c := by
  rintro g rfl
  cases c with
  | tx x => cases x <;> first | exact ⟨trivial, fun _ _ => rfl⟩ | cases hc
  | _ => first | exact ⟨trivial, fun _ _ => rfl⟩ | cases hc

theorem claimed_cleanup (op : Op) (scope : Scope) : teardown.Within (· = some op) (Lifecycle.cleanup scope op) := by
  refine within_cleanup (fun c hc => claimed_quiet op c (Call.quiet_of_lifecycle hc)) (fun kind id => ?_) scope
  rintro g rfl
  exact ⟨rfl, fun _ _ => rfl⟩

theorem safe_complete {g : Option Op} {op : Op} (hg : g = some op) :
    teardown.Safe g (Store.completeOperationCleanup op) fun _ _ => True := by
  refine safe_try.mpr ⟨hg, fun r _ => ?_⟩
  rcases r with e | done
  · trivial
  cases done with
  | true => trivial
  | false =>
    refine (within_try (A := anywhere) (within_quiet teardown_quiet (.tx (.operationState op)) rfl) (fun state => ?_) _
      trivial).mono fun _ _ _ => trivial
    split
    · exact within_ok _
    · exact within_throw _

theorem teardown_emergency (dryRun : Bool) (scope : Scope) : teardown.Within anywhere (emergency dryRun scope) := by
  rw [emergency]
  split
  · exact within_ok _
  refine within_try (within_lift (teardown_still rfl)) fun operation => ?_
  split
  · exact within_ok _
  rename_i operation
  refine within_try (within_stopRuntime (fun _ => teardown_still rfl) (fun _ => teardown_still rfl) _) fun _ => ?_
  intro g _
  refine safe_try.mpr ⟨trivial, fun r _ => ?_⟩
  rcases r with e | (_ | (claimed : Operation))
  · trivial
  · trivial
  refine safe_ite (fun hop => ?_) fun _ => trivial
  refine safe_try.mpr (safe_mapError.mpr ((claimed_cleanup claimed.op scope _ rfl).mono ?_))
  rintro g' (e | u) hg'
  · trivial
  · exact safe_complete (hop ▸ hg')

theorem teardown_coordinator (scope : Scope) : teardown.Within anywhere (Coordinator.runOnce scope) := by
  have hadvance : teardown.Within anywhere advance := within_advance teardown_quiet (teardown_still rfl) (teardown_still rfl)
  intro g _
  refine safe_bind.mpr ⟨trivial, fun r _ => ?_⟩
  rcases r with e | (_ | (claimed : Operation))
  · trivial
  · trivial
  refine safe_bind.mpr ((claimed_cleanup claimed.op scope _ rfl).mono ?_)
  rintro g' (e | u) hg'
  · refine within_bind (A := anywhere) ?_ (fun _ => within_pure _) g' trivial
    refine within_bind (within_isContextCancellation teardown_quiet _ _) fun cancelled => ?_
    split
    · exact within_pure _
    refine within_bind (within_lift (teardown_still rfl)) fun result => ?_
    split <;> exact within_pure _
  refine safe_bind.mpr ((safe_complete hg').mono ?_)
  rintro g'' (e | u) _
  · trivial
  · exact within_bind (A := anywhere) hadvance (fun _ => within_pure _) g'' trivial

theorem teardown_maintain (policy : Policy) (dryRun : Bool) (scope : Scope) (trigger : Trigger) :
    teardown.Within anywhere (Controller.maintain policy dryRun scope trigger) :=
  within_locked (teardown_still rfl) (teardown_still rfl)
    (within_runLocked teardown_quiet (fun _ => teardown_still rfl) (teardown_emergency dryRun scope) trigger)

theorem teardown_request (op : Op) : teardown.Within anywhere (Coordinator.request op) :=
  within_request (quiet_tx teardown_quiet) (teardown_still rfl) (teardown_still rfl)

theorem teardown_runOnce (cfg : Config) (scope : Scope) : teardown.Within anywhere (Dispatcher.runOnce cfg scope) := by
  refine within_runOnce teardown_quiet (within_locked (teardown_still rfl) (teardown_still rfl) ?_)
  refine within_try (within_runLocked teardown_quiet (fun _ => teardown_still rfl) (teardown_emergency _ _) _) fun _ => ?_
  refine within_reserve teardown_quiet (teardown_still rfl) fun op => ?_
  exact within_admits teardown_quiet (within_rejectJob teardown_quiet (fun _ => teardown_still rfl) (teardown_request _))
    (teardown_still rfl) (fun _ => teardown_still rfl) (fun _ => teardown_still rfl) (teardown_still rfl)

theorem teardown_body (cfg : Config) (l : Label) : teardown.Safe (teardown.start l) (body cfg l) teardown.exit := by
  have hadvance : teardown.Within anywhere advance := within_advance teardown_quiet (teardown_still rfl) (teardown_still rfl)
  have hremote : ∀ id, teardown.Within anywhere (Api.refreshRemote id) := fun _ =>
    within_refreshRemote teardown_quiet (fun _ => teardown_still rfl) hadvance
  have hhand : HandlerParts teardown anywhere cfg := by
    refine handlerParts teardown_quiet (fun c hc => teardown_still ?_) (teardown_runOnce cfg .request)
      (fun _ => teardown_request _) hremote
    cases c with
    | tx x => cases x <;> first | rfl | cases hc
    | _ => first | rfl | cases hc
  have hback : BackgroundParts teardown anywhere cfg := {
    background := fun c hc => teardown_still (by cases c <;> first | rfl | cases hc)
    advance := hadvance
    maintain := teardown_maintain _
    dispatcher := teardown_runOnce cfg .process
    coordinator := teardown_coordinator .process }
  have hrecord : teardown.Within anywhere (reconcilerRun cfg) := by
    refine within_reconcilerRun teardown_quiet ?_ ?_ (fun _ => teardown_still rfl) (fun _ _ => ?_) fun _ => teardown_still rfl
    · exact within_expirePreparation (quiet_tx teardown_quiet) (fun _ => teardown_still rfl) fun _ => teardown_request _
    · exact within_expireBuild (quiet_tx teardown_quiet) (fun _ => teardown_still rfl) fun _ => teardown_request _
    exact within_syncAndRelease (quiet_tx teardown_quiet) (teardown_still rfl) (teardown_request _)
  have h : teardown.Within anywhere (body cfg l) := within_body hhand hback hremote fun _ => hrecord
  exact (h _ trivial).mono fun _ _ _ => trivial

end Walk

/-! ## The order of admissions -/

def admitted : Entry Call Call.Ret Label → Option Op
  | .call _ (.tx .acquireNextOperation) (Except.ok (some (o : Operation))) => some o.op
  | _ => none

def admissions (log : List (Entry Call Call.Ret Label)) : List Op := log.filterMap admitted

def AdmittedAfter : List Op → Op → Op → Prop
  | [], _, _ => False
  | x :: l, b, a => (b = x ∧ a ∈ l) ∨ AdmittedAfter l b a

instance : ∀ l b a, Decidable (AdmittedAfter l b a)
  | [], _, _ => inferInstanceAs (Decidable False)
  | x :: l, b, a =>
    have := instDecidableAdmittedAfter l b a
    inferInstanceAs (Decidable ((b = x ∧ a ∈ l) ∨ AdmittedAfter l b a))

variable {w : World} {t : Nat} {c : Call} {r : c.Ret} {sp : Option Label} {v : View} {g : Option Op} {op : Op} {ch : Choice}
  {s : Sys}

theorem admissions_answer {st : Sys} :
    admissions (w.answer t c r st sp).log = (admitted (.call t c r)).toList ++ admissions w.log := by
  cases sp <;> simp only [admissions, World.answer, World.spawn?, World.called, World.spawn_log, List.filterMap_cons] <;>
    cases admitted (.call t c r) <;> rfl

/-- An operation that has been admitted and not released is ahead of every other live one; so no other is admitted after
it. -/
structure Order (l : List Op) (v : View) : Prop where
  ahead : ∀ a ∈ l, ∃ r, v.row a = some r ∧
    (r.state = .released ∨ ∀ b r', b ≠ a → v.row b = some r' → r'.state.live = true → r.seq < r'.seq)
  released : ∀ a b, AdmittedAfter l b a → b ≠ a → ∃ r, v.row a = some r ∧ r.state = .released

theorem Order.effect {l : List Op} {v' : View} {x : Tx} {a : x.Val} (h : Order l v) (he : x.Effect a v v') (hb : v.Bounded) :
    Order l v' where
  ahead o ho := by
    obtain ⟨r, hr, hs⟩ := h.ahead o ho
    obtain ⟨r', hr', hseq, hm⟩ := he.row hr
    refine ⟨r', hr', ?_⟩
    rcases hs with hs | hs
    · rcases hm with hm | hm
      · exact .inl (hm ▸ hs)
      · exact absurd hs hm.ne_released
    refine .inr fun b rb hne hrb hl => ?_
    rw [hseq]
    rcases he.live_before hrb hl with ⟨rb0, hrb0, hl0, hseq0⟩ | ⟨-, hseq0⟩
    · rw [← hseq0]
      exact hs b rb0 hne hrb0 hl0
    rw [hseq0]
    exact Nat.lt_succ_of_le (hb o r hr)
  released o b hab hne := he.released (h.released o b hab hne)

theorem Order.acquire {l : List Op} {o : Op} (h : Order l v) (hnone : v.NoRow OperationState.reserved)
    (hold : v.Oldest o (· == .queued)) (hd : v.Distinct) : Order (o :: l) v := by
  obtain ⟨r, hr, hq, hmin⟩ := hold
  have hq : r.state = .queued := eq_of_beq hq
  have queued : ∀ b rb, v.row b = some rb → rb.state.live = true → rb.state = .queued := by
    intro b rb hrb hl
    have := hnone b rb hrb
    cases hs : rb.state <;> simp_all [OperationState.reserved, OperationState.live]
  constructor
  · intro a ha
    rcases List.mem_cons.mp ha with rfl | ha
    · refine ⟨r, hr, .inr fun b rb hne hrb hl => ?_⟩
      refine lt_of_le_of_ne (hmin b rb hrb (by simp [queued b rb hrb hl])) fun heq => ?_
      exact hne (hd b a rb r hrb hr heq.symm)
    · exact h.ahead a ha
  rintro a b (⟨rfl, ha⟩ | hab) hne
  · obtain ⟨ra, hra, hs | hs⟩ := h.ahead a ha
    · exact ⟨ra, hra, hs⟩
    have hlt := hs b r hne hr (by rw [hq]; rfl)
    refine ⟨ra, hra, ?_⟩
    by_contra hn
    have hl : ra.state.live = true := by
      have := hnone a ra hra
      cases hs : ra.state <;> simp_all [OperationState.reserved, OperationState.live]
    have := hmin a ra hra (by simp [queued a ra hra hl])
    omega
  · exact h.released a b hab hne

/-! ## Runs -/

def SoleClaim (w : World) (t : Nat) (c : Call) (r : c.Ret) : Prop :=
  match c, r with
  | .tx .claimOperationCleanup, Except.ok (some (o : Operation)) =>
    ∀ t' < w.next, t' ≠ t → teardown.ghosts w t' ≠ some (some o.op)
  | _, _ => True

/-- The test for `SoleClaim`. -/
def solelyClaims (w : World) (t : Nat) (c : Call) (r : c.Ret) : Bool :=
  match c, r with
  | .tx .claimOperationCleanup, Except.ok (some (o : Operation)) =>
    decide (∀ t' < w.next, t' ≠ t → teardown.ghosts w t' ≠ some (some o.op))
  | _, _ => true

theorem solelyClaims_iff : solelyClaims w t c r = true ↔ SoleClaim w t c r := by
  unfold solelyClaims SoleClaim
  split
  · exact decide_eq_true_iff
  · simp

instance (w : World) (t : Nat) (c : Call) (r : c.Ret) : Decidable (SoleClaim w t c r) := decidable_of_bool _ solelyClaims_iff

def soleClaim : Rules := { Conc.Rules.all with call := SoleClaim }

structure Exclusive (w : World) : Prop where
  order : Order (admissions w.log) w.st.db.view
  cleaning : ∀ t op, teardown.ghosts w t = some (some op) → w.st.db.view.RowIs op (· == .cleaning)
  sole : ∀ t t' op op', teardown.ghosts w t = some (some op) → teardown.ghosts w t' = some (some op') → t = t'

theorem teardown_next (h : teardown.next g c r = some op) (hc : c ≠ .tx .claimOperationCleanup) : g = some op := by
  cases c with
  | tx x => cases x <;> first | exact absurd rfl hc | exact h | cases h
  | unlock => cases h
  | _ => exact h

theorem Tx.Effect.cleaning {v' : View} {x : Tx} {a : x.Val} (he : x.Effect a v v') (hx : x ≠ .completeOperationCleanup op)
    (h : v.RowIs op (· == .cleaning)) : v'.RowIs op (· == .cleaning) := by
  obtain ⟨r, hr, hs⟩ := h
  obtain ⟨r', hr', -, hm⟩ := he.row hr
  refine ⟨r', hr', ?_⟩
  rcases hm with hm | hm
  · rwa [hm]
  rw [eq_of_beq hs] at hm
  cases x <;> simp_all [Tx.Moves, OperationState.executing, OperationState.live]

theorem exclusive_order (h : Order (admissions w.log) w.st.db.view) (hexec : exec t ch w.st c = some (r, s, sp)) :
    Order (admissions (w.answer t c r s sp).log) s.db.view := by
  rw [admissions_answer]
  by_cases hc : ∃ x, c = .tx x
  · obtain ⟨x, rfl⟩ := hc
    obtain ⟨-, ⟨e, rfl, rfl⟩ | ⟨a, db, rfl, rfl, he⟩⟩ := exec_tx hexec
    · cases x <;> exact h
    cases x with
    | acquireNextOperation =>
      cases a with
      | none => exact h.effect he w.st.db.bounded
      | some o => exact (h.acquire he.1 he.2.1 w.st.db.distinct).effect he (w.st.db.bounded)
    | _ => exact h.effect he w.st.db.bounded
  rw [exec_db (fun x h => hc ⟨x, h⟩) hexec]
  cases c with
  | tx x => exact absurd ⟨x, rfl⟩ hc
  | _ => exact h

theorem reserved_of_cleaning (h : v.RowIs op (· == .cleaning)) : ∃ r, v.row op = some r ∧ r.state.reserved = true := by
  obtain ⟨r, hr, hs⟩ := h
  exact ⟨r, hr, by rw [eq_of_beq hs]; rfl⟩

theorem exclusive_keep (hI : Exclusive w) (hg : teardown.ghosts w t = some g) (hguard : teardown.guard g c)
    (hexec : exec t ch w.st c = some (r, s, sp)) (hnext : ∀ op, teardown.next g c r = some op → g = some op) :
    Exclusive (w.answer t c r s sp) := by
  have before : ∀ t' op, teardown.ghosts (w.answer t c r s sp) t' = some (some op) →
      teardown.ghosts w t' = some (some op) := by
    intro t' op h
    rcases ghosts_answer_cases hg h with ⟨ht, hn⟩ | ⟨-, hn⟩ | ⟨l, -, hn⟩
    · rw [ht, hg, hnext op hn.symm]
    · exact hn
    · cases hn
  refine ⟨?_, fun t' op h => ?_, fun t1 t2 op1 op2 h1 h2 => hI.sole _ _ _ _ (before _ _ h1) (before _ _ h2)⟩
  · rw [World.answer_st]
    exact exclusive_order hI.order hexec
  have hrow := hI.cleaning t' op (before t' op h)
  rw [World.answer_st]
  by_cases hc : ∃ x, c = .tx x
  · obtain ⟨x, rfl⟩ := hc
    obtain ⟨-, ⟨e, rfl, rfl⟩ | ⟨a, db, rfl, rfl, he⟩⟩ := exec_tx hexec
    · exact hrow
    refine he.cleaning ?_ hrow
    rintro rfl
    -- the caller has the claim, so it is goroutine `t'`, which has given it up
    have ht : t' = t := hI.sole _ _ _ _ (before t' op h) (by rw [hg]; exact congrArg some hguard)
    rw [ht] at h
    rcases ghosts_answer_cases hg h with ⟨-, h⟩ | ⟨hne, -⟩ | ⟨l, -, h⟩
    · cases h
    · exact hne rfl
    · cases h
  rw [exec_db (fun x h => hc ⟨x, h⟩) hexec]
  exact hrow

theorem exclusive_claim {o : Operation} {db : DB} (hI : Exclusive w) (hfits : teardown.Fits w)
    (hg : teardown.ghosts w t = some g)
    (hexec : exec t ch w.st (.tx .claimOperationCleanup) = some (Except.ok (some o), { w.st with db := db }, sp))
    (he : Tx.claimOperationCleanup.Effect (some o) w.st.db.view db.view)
    (hK : ∀ t' < w.next, t' ≠ t → teardown.ghosts w t' ≠ some (some o.op)) :
    Exclusive (w.answer t (.tx .claimOperationCleanup) (Except.ok (some o)) { w.st with db := db } sp) := by
  have hrow := he.1
  obtain ⟨r, hr, hs, -⟩ := hrow
  have hres : r.state.reserved = true := by cases h : r.state <;> simp_all [OperationState.tearing, OperationState.reserved]
  -- whoever has a claim has this one
  have others : ∀ t' op, t' ≠ t → teardown.ghosts w t' = some (some op) → False := by
    intro t' op hne h
    obtain ⟨r', hr', hres'⟩ := reserved_of_cleaning (hI.cleaning t' op h)
    have hop := w.st.db.oneReserved _ _ _ _ hr' hr hres' hres
    exact hK t' (hfits.lt_next h) hne (hop ▸ h)
  have after : ∀ t' op, teardown.ghosts (w.answer t (.tx .claimOperationCleanup) (Except.ok (some o))
      { w.st with db := db } sp) t' = some (some op) → t' = t ∧ op = o.op := by
    intro t' op h
    rcases ghosts_answer_cases hg h with ⟨ht, hn⟩ | ⟨hne, hn⟩ | ⟨l, -, hn⟩
    · exact ⟨ht, Option.some.inj hn⟩
    · exact (others t' op hne hn).elim
    · cases hn
  refine ⟨?_, fun t' op h => ?_, fun t1 t2 op1 op2 h1 h2 => ?_⟩
  · rw [World.answer_st]
    exact exclusive_order hI.order hexec
  · obtain ⟨-, rfl⟩ := after t' op h
    rw [World.answer_st, show db.view = _ from he.2]
    exact ⟨_, row_mapRow hr, by simp⟩
  · rw [(after _ _ h1).1, (after _ _ h2).1]

theorem exclusive_call (hI : Exclusive w) (hfits : teardown.Fits w) (hg : teardown.ghosts w t = some g)
    (hguard : teardown.guard g c) (hexec : exec t ch w.st c = some (r, s, sp)) (hK : soleClaim.call w t c r) :
    Exclusive (w.answer t c r s sp) := by
  by_cases hc : c = .tx .claimOperationCleanup
  · subst hc
    rcases r with e | (_ | (o : Operation))
    · exact exclusive_keep hI hg hguard hexec fun _ h => h
    · exact exclusive_keep hI hg hguard hexec fun _ h => h
    obtain ⟨-, ⟨e, h, -⟩ | ⟨a, db, h, rfl, he⟩⟩ := exec_tx hexec
    · cases h
    cases h
    exact exclusive_claim hI hfits hg hexec he hK
  · exact exclusive_keep hI hg hguard hexec fun _ h => teardown_next h hc

theorem exclusive_keeps (cfg : Config) (now : Time) :
    Keeps (machine cfg) soleClaim teardown (Sys.fresh now) (fun _ => True) Exclusive where
  init := ⟨⟨fun _ h => (by cases h), fun _ _ h => h.elim⟩, fun _ _ h => (by cases h), fun _ _ _ _ h => (by cases h)⟩
  start w l _ hI _ _ _ := by
    have before : ∀ t op, teardown.ghosts (w.spawn l) t = some (some op) → teardown.ghosts w t = some (some op) := by
      intro t op h
      rcases ghosts_spawn_cases h with h | h
      · cases h
      · exact h
    exact ⟨hI.order, fun t op h => hI.cleaning t op (before t op h),
      fun _ _ _ _ h1 h2 => hI.sole _ _ _ _ (before _ _ h1) (before _ _ h2)⟩
  call w t g c ch r s sp _ hI hfits hg hguard hexec hK := ⟨trivial, exclusive_call hI hfits hg hguard hexec hK⟩
  finish w t g _ hI _ _ _ :=
    ⟨hI.order, fun t' op h => hI.cleaning t' op (ghosts_finish_cases h).2,
      fun _ _ _ _ h1 h2 => hI.sole _ _ _ _ (ghosts_finish_cases h1).2 (ghosts_finish_cases h2).2⟩
  jump w t g l hlt _ hI _ _ _ := by
    have before : ∀ t' op, teardown.ghosts (w.jump t l hlt) t' = some (some op) →
        teardown.ghosts w t' = some (some op) := by
      intro t' op h
      rcases ghosts_jump_cases h with ⟨-, h⟩ | ⟨-, h⟩
      · cases h
      · exact h
    exact ⟨hI.order, fun t op h => hI.cleaning t op (before t op h),
      fun _ _ _ _ h1 h2 => hI.sole _ _ _ _ (before _ _ h1) (before _ _ h2)⟩
  env w e s _ hI _ he _ := by
    have hdb : s.db = w.st.db := env_db he
    exact ⟨by rw [World.moved_st, hdb]; exact hI.order, fun t op h => by
      rw [World.moved_st, hdb]
      exact hI.cleaning t op h, hI.sole⟩
  crash w _ hI _ _ := ⟨hI.order, fun _ _ h => (by cases h), fun _ _ _ _ h => (by cases h)⟩

def Removes (σ : Conf) (t : Nat) (owner : Op) (kind : ResourceKind) (id : String) : Prop :=
  (σ.procs t).isSome = true ∧ ∃ k, σ.code t = .call (.removeResource owner kind id) k

def removes (σ : Conf) (t : Nat) (owner : Op) (kind : ResourceKind) (id : String) : Bool :=
  (σ.procs t).isSome && match σ.code t with
    | .call (.removeResource owner' kind' id') _ => owner' == owner && kind' == kind && id' == id
    | _ => false

theorem removes_of_test {σ : Conf} {owner : Op} {kind : ResourceKind} {id : String} (h : removes σ t owner kind id = true) :
    Removes σ t owner kind id := by
  simp only [removes, Bool.and_eq_true] at h
  refine ⟨h.1, ?_⟩
  have h := h.2
  split at h
  · rename_i owner' kind' id' k hk
    simp only [Bool.and_eq_true, beq_iff_eq] at h
    obtain ⟨⟨rfl, rfl⟩, rfl⟩ := h
    exact ⟨k, hk⟩
  · cases h

/-- Whatever is removed, the row of the teardown's operation is in teardown, and no other operation that was admitted after
it has created what is removed. -/
def TeardownExcludes (σ : Conf) : Prop :=
  ∀ t owner kind id, Removes σ t owner kind id →
    (∃ q, σ.st.db.queue.table.lookup owner = some q ∧ (q.state = .terminalizing ∨ q.state = .cleaning)) ∧
    ∀ r ∈ σ.st.resources, r.named kind id = true → r.creator ≠ owner →
      ¬ AdmittedAfter (admissions σ.log) r.creator owner

/-- **Teardowns exclude each other** and the next operation, in every configuration that the server reaches without a claim
of a row on whose teardown another goroutine still works. -/
theorem teardown_exclusive {cfg : Config} {σ : Conf} (h : Reaches cfg soleClaim σ) : TeardownExcludes σ := by
  obtain ⟨now, hr⟩ := h
  obtain ⟨hfollows, hI⟩ := run_invariant (teardown_body cfg) (fun _ _ => trivial) (exclusive_keeps cfg now) hr
  rintro t owner kind id ⟨hlive, k, hcode⟩
  obtain ⟨l, hl⟩ := Option.isSome_iff_exists.mp hlive
  obtain ⟨g, hg, hsafe⟩ := (hl ▸ hfollows t).eq_some
  rw [hcode] at hsafe
  have hown : g = some owner := hsafe.1
  obtain ⟨r, hrow, hs⟩ := hI.cleaning t owner (hown ▸ hg)
  have hs := eq_of_beq hs
  constructor
  · obtain ⟨q, hq, rfl⟩ := view_row_eq_some hrow
    exact ⟨q, hq, .inr hs⟩
  intro x _ _ hne hafter
  obtain ⟨r', hrow', hs'⟩ := hI.order.released owner x.creator hafter hne
  rw [hrow] at hrow'
  cases hrow'
  rw [hs] at hs'
  cases hs'

def cancelsBuild : List Event :=
  building ++ .env (.addResource ⟨.container, "c1", buildOp "bld1"⟩) :: asks 6 (.cancelBuild "bld1") ++
    [.run 6 .go, authorized 6] ++ goes 6 5 ++ goes 7 7

theorem teardown_exclusive_cancelled : ∃ σ, Reaches sampleConfig soleClaim σ ∧
    Removes σ 7 (buildOp "bld1") .container "c1" ∧ TeardownExcludes σ := by
  obtain ⟨σ, hr, hp⟩ := reaches_of_stepsIf sampleConfig (K := soleClaim) cancelsBuild
    (p := fun σ => removes σ 7 (buildOp "bld1") .container "c1") (q := fun w t c r => decide (SoleClaim w t c r))
    (fun _ _ => trivial) (fun _ _ => trivial) (fun _ _ _ _ => of_decide_eq_true)
    (by decide +kernel)
  exact ⟨σ, hr, removes_of_test hp, teardown_exclusive hr⟩

/-! ## Two claims of one row -/

def tight : Snapshot := ⟨1099511627776, 1048576, 1000000000, 1000000000⟩

/-- A build runs and a second one is queued; the file system fills up, and the capacity controller stops the first build and
claims its teardown. -/
def emergencyClaims : List Event :=
  building ++ asks 6 (.prepareBuild "project" "second" [] "") ++ [authorized 6, .run 6 (.fresh "2")] ++ goes 6 3 ++
    .run 6 (.snapshot roomy) :: goes 6 6 ++ .run 4 (.trigger .pressure) :: goes 4 2 ++ .run 4 (.snapshot tight) :: goes 4 3

/-- `CancelBuild` ends the second build and wakes the two workers; the coordinator claims the same teardown. -/
def bothClaim : List Event :=
  emergencyClaims ++ asks 7 (.cancelBuild "bld2") ++ [.run 7 .go, authorized 7] ++ goes 7 8 ++ goes 8 2

/-- The controller completes the teardown and gives up its lock; a third build is admitted and starts a container. -/
def oneCompletes : List Event :=
  bothClaim ++ goes 4 15 ++ .run 4 (.snapshot roomy) :: goes 4 2 ++ asks 10 (.prepareBuild "project" "third" [] "") ++
    [authorized 10, .run 10 (.fresh "3")] ++ goes 10 3 ++ .run 10 (.snapshot roomy) :: goes 10 9 ++
    [.env (.addResource ⟨.container, "c3", buildOp "bld3"⟩)]

/-- The coordinator, still at the teardown of the first build, removes the container of the third. -/
theorem teardown_overlaps : ∃ σ, Reaches sampleConfig Conc.Rules.all σ ∧
    Removes σ 8 (buildOp "bld1") .container "c3" ∧
    (σ.st.db.queue.table.lookup (buildOp "bld1")).map (fun q => q.state) = some .released ∧
    (∃ r ∈ σ.st.resources, r.named .container "c3" = true ∧ r.creator = buildOp "bld3") ∧
    AdmittedAfter (admissions σ.log) (buildOp "bld3") (buildOp "bld1") ∧ ¬ TeardownExcludes σ := by
  obtain ⟨σ, hr, hp⟩ := reaches_of_steps sampleConfig (oneCompletes ++ goes 8 5) (p := fun σ =>
    removes σ 8 (buildOp "bld1") .container "c3" &&
    decide ((σ.st.db.queue.table.lookup (buildOp "bld1")).map (fun q => q.state) = some .released) &&
    decide (∃ r ∈ σ.st.resources, r.named .container "c3" = true ∧ r.creator = buildOp "bld3") &&
    decide (AdmittedAfter (admissions σ.log) (buildOp "bld3") (buildOp "bld1"))) (by decide +kernel)
  simp only [Bool.and_eq_true, decide_eq_true_eq] at hp
  obtain ⟨⟨⟨hremoves, hrow⟩, x, hx, hnamed, hcreator⟩, hafter⟩ := hp
  have hremoves := removes_of_test hremoves
  refine ⟨σ, hr, hremoves, hrow, ⟨x, hx, hnamed, hcreator⟩, hafter, fun h => ?_⟩
  exact (h 8 _ _ _ hremoves).2 x hx hnamed (by rw [hcreator]; decide) (hcreator ▸ hafter)

end Autback
