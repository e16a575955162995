import EventKafka.Outbox.Transitions

/-! # Attempts

`mark_in_flight` is the only statement that writes `attempts`, so the column counts
the sends of an event since its admission. How many there can be follows from the ways
a row comes back to `pending`: a retry below the limit, a requeue, or the operator. The
allowance of an event starts at `max(M,1)` and grows with the latter two, and a pending
row always has one send of it left.
-/

namespace EventKafka

open Sql

/-- What happened to an event since it was admitted. -/
structure Tally where
  marks : Nat
  requeues : Nat
  revivals : Nat
deriving DecidableEq, Repr

def Tally.zero : Tally := ⟨0, 0, 0⟩

/-- One call of a history. -/
def Tally.step (id : String) (t : Tally) (x : Outbox × Op) : Tally :=
  match x.2, x.1.reply x.2 with
  | .insertPending _ rec _ _, .ok _ => if rec.eventId = id then .zero else t
  | .markInFlight id' _ _, .ok _ => if id' = id then { t with marks := t.marks + 1 } else t
  | .requeueInFlight _ _ _, .ok _ =>
    if (x.1.db.outbox.find? id).any fun r => r.state = .inFlight then
      { t with requeues := t.requeues + 1 }
    else t
  | .retryDead id' _ _ _, .ok _ =>
    if id' = id then { t with revivals := t.revivals + 1 } else t
  | _, _ => t

/-- The tally of an event at the end of a history. -/
def tally (id : String) (tr : List (Outbox × Op)) : Tally := tr.foldl (Tally.step id) .zero

/-- `max(M,1)` sends, one more for each requeue and each revival. -/
def Tally.allowance (maxAttempts : Int) (t : Tally) : Int :=
  max maxAttempts 1 + t.requeues + t.revivals

theorem tally_snoc (id : String) (tr : List (Outbox × Op)) (x : Outbox × Op) :
    tally id (tr ++ [x]) = (tally id tr).step id x := by
  simp [tally, List.foldl_append]

/-- The column counts the sends, and a pending row has one left. -/
structure Tallied (maxAttempts : Int) (tr : List (Outbox × Op)) (db : Db) : Prop where
  attempts : ∀ r ∈ db.outbox, r.attempts = (tally r.eventId tr).marks
  pending : ∀ r ∈ db.outbox, r.state = .pending →
    (tally r.eventId tr).marks + 1 ≤ (tally r.eventId tr).allowance maxAttempts
  bound : ∀ id, (tally id tr).marks ≤ (tally id tr).allowance maxAttempts

section Step

variable {maxAttempts : Int} {id : String} {t : Tally} {b : Outbox} {op : Op} {n : Int}

theorem Tally.step_error {e : String} (h : b.reply op = .error e) : t.step id (b, op) = t := by
  unfold Tally.step
  simp only [h]

theorem Tally.step_passive (h : op.passive = true) : t.step id (b, op) = t := by
  cases op <;> first | rfl | cases h

variable (maxAttempts id t b) in
/-- Only a send counts as one, and only an admission takes allowance back. -/
theorem Tally.step_grows (hinsert : ∀ lim rec now fault, op ≠ .insertPending lim rec now fault)
    (hmark : ∀ id now fault, op ≠ .markInFlight id now fault) :
    (t.step id (b, op)).marks = t.marks ∧
      t.allowance maxAttempts ≤ (t.step id (b, op)).allowance maxAttempts := by
  cases op with
  | insertPending lim rec now fault => exact absurd rfl (hinsert lim rec now fault)
  | markInFlight id now fault => exact absurd rfl (hmark id now fault)
  | requeueInFlight now₁ now₂ fault =>
    cases hreply : b.reply (.requeueInFlight now₁ now₂ fault) with
    | error e => simp [Tally.step, hreply]
    | ok n =>
      simp only [Tally.step, hreply]
      split <;> simp [Tally.allowance]
  | retryDead id' now₁ now₂ fault =>
    cases hreply : b.reply (.retryDead id' now₁ now₂ fault) with
    | error e => simp [Tally.step, hreply]
    | ok n =>
      simp only [Tally.step, hreply]
      split <;> simp [Tally.allowance]
  | _ => exact ⟨rfl, le_rfl⟩

/-- A history that ends in a call that neither admits nor sends. -/
theorem Tallied.quiet {tr : List (Outbox × Op)} {db' : Db} (h : Tallied maxAttempts tr b.db)
    (hinsert : ∀ lim rec now fault, op ≠ .insertPending lim rec now fault)
    (hmark : ∀ id now fault, op ≠ .markInFlight id now fault)
    (hrows : ∀ r' ∈ db'.outbox, ∃ r ∈ b.db.outbox, r'.eventId = r.eventId ∧
      r'.attempts = r.attempts ∧ (r'.state = .pending → r.state = .pending ∨
        (tally r.eventId (tr ++ [(b, op)])).marks + 1 ≤
          (tally r.eventId (tr ++ [(b, op)])).allowance maxAttempts)) :
    Tallied maxAttempts (tr ++ [(b, op)]) db' := by
  have hgrows := fun id =>
    Tally.step_grows maxAttempts id (tally id tr) b hinsert hmark
  constructor
  case attempts =>
    intro r' hr'
    rcases hrows r' hr' with ⟨r, hr, hid, hatt, -⟩
    rw [hatt, hid, tally_snoc, (hgrows r.eventId).1]
    exact h.attempts r hr
  case pending =>
    intro r' hr' hpend
    rcases hrows r' hr' with ⟨r, hr, hid, -, hst⟩
    rw [hid]
    rcases hst hpend with hold | hnew
    · rw [tally_snoc, (hgrows r.eventId).1]
      exact (h.pending r hr hold).trans (hgrows r.eventId).2
    · exact hnew
  case bound =>
    intro id
    rw [tally_snoc, (hgrows id).1]
    exact (h.bound id).trans (hgrows id).2

theorem Tallied.admitted {tr : List (Outbox × Op)} {lim : Limits} {rec : OutboxRecord}
    {now seq : Int} {fault : FaultPlan} {dn : Bool} {base : OutboxTable} {db' : Db}
    (h : Tallied maxAttempts tr b.db)
    (hok : b.reply (.insertPending lim rec now fault) = .ok n)
    (hadm : Admission lim rec now b.db db' seq dn base) :
    Tallied maxAttempts (tr ++ [(b, .insertPending lim rec now fault)]) db' := by
  have hzero : tally rec.eventId (tr ++ [(b, .insertPending lim rec now fault)]) = .zero := by
    rw [tally_snoc]
    simp [Tally.step, hok]
  have hother : ∀ id, id ≠ rec.eventId →
      tally id (tr ++ [(b, .insertPending lim rec now fault)]) = tally id tr := by
    intro id hne
    rw [tally_snoc]
    simp [Tally.step, hok, Ne.symm hne]
  have hfresh : ∀ q ∈ base, q.eventId ≠ rec.eventId := fun q hq =>
    Table.key_ne_of_insert hadm.row hq
  constructor
  case attempts =>
    intro r hr
    rcases hadm.mem_outbox.mp hr with hbase | rfl
    · rw [hother _ (hfresh r hbase)]
      exact h.attempts r (hadm.room.mem_of_mem hbase)
    · -- the new row starts from zero, whatever was sent under its id before
      change (0 : Int) = _
      rw [show (newRow rec now seq dn).eventId = rec.eventId from rfl, hzero]
      rfl
  case pending =>
    intro r hr hpend
    rcases hadm.mem_outbox.mp hr with hbase | rfl
    · rw [hother _ (hfresh r hbase)]
      exact h.pending r (hadm.room.mem_of_mem hbase) hpend
    · rw [show (newRow rec now seq dn).eventId = rec.eventId from rfl, hzero]
      simp [Tally.zero, Tally.allowance]
  case bound =>
    intro id
    by_cases hid : id = rec.eventId
    · rw [hid, hzero]
      simp only [Tally.zero, Tally.allowance]
      omega
    · rw [hother id hid]
      exact h.bound id

theorem Tallied.sent {tr : List (Outbox × Op)} {now : Int} {fault : FaultPlan} {r : Row}
    (h : Tallied maxAttempts tr b.db) (hok : b.reply (.markInFlight r.eventId now fault) = .ok n)
    (hr : r ∈ b.db.outbox) (hpend : r.state = .pending) :
    Tallied maxAttempts (tr ++ [(b, .markInFlight r.eventId now fault)]) (b.db.sent r now) := by
  have hmine : tally r.eventId (tr ++ [(b, .markInFlight r.eventId now fault)]) =
      { tally r.eventId tr with marks := (tally r.eventId tr).marks + 1 } := by
    rw [tally_snoc]
    simp [Tally.step, hok]
  have hother : ∀ id, id ≠ r.eventId →
      tally id (tr ++ [(b, .markInFlight r.eventId now fault)]) = tally id tr := by
    intro id hne
    rw [tally_snoc]
    simp [Tally.step, hok, Ne.symm hne]
  have hrows : ∀ r' ∈ (b.db.sent r now).outbox, ∃ q ∈ b.db.outbox, r' =
      if q.eventId = r.eventId then ⟨q.toEvent, { q.toProgress with
        state := .inFlight, attempts := q.attempts + 1, updatedAtMs := now }⟩ else q := by
    intro r' hr'
    rcases Db.mem_updateOutbox.mp hr' with ⟨q, hq, heq⟩
    exact ⟨q, hq, by simpa using heq⟩
  constructor
  case attempts =>
    -- the row and the tally count the send alike
    intro r' hr'
    rcases hrows r' hr' with ⟨q, hq, rfl⟩
    split
    · rename_i hid
      have hattempts := h.attempts q hq
      rw [hid] at hattempts
      simp only [hid, hmine, hattempts]
      push_cast
      rfl
    · rename_i hid
      rw [hother _ hid]
      exact h.attempts q hq
  case pending =>
    intro r' hr' hpend'
    rcases hrows r' hr' with ⟨q, hq, rfl⟩
    split at hpend'
    · cases hpend'
    · rename_i hid
      simp only [hid, if_false]
      rw [hother _ hid]
      exact h.pending q hq hpend'
  case bound =>
    -- a pending row had one send left
    intro id
    by_cases hid : id = r.eventId
    · rw [hid, hmine]
      have := h.pending r hr hpend
      simpa [Tally.allowance] using this
    · rw [hother id hid]
      exact h.bound id

/-- A row that an `UPDATE` makes pending again may be sent once more: a retry is below the
limit, and the other two come with an allowance of their own. -/
theorem Tallied.pending_again {tr : List (Outbox × Op)} {w : Rewrite} {r : Row}
    (h : Tallied maxAttempts tr b.db) (hop : op.rewrite = some w) (hok : b.reply op = .ok n)
    (hretry : ∀ id next error now fault, op = .markRetry id next error now fault →
      ∀ r ∈ b.db.outbox, r.eventId = id → r.state = .inFlight → r.attempts < maxAttempts)
    (hr : r ∈ b.db.outbox) (hsel : w.selects b.db r = true) (hpend : (w.set r).state = .pending) :
    r.state = .pending ∨ (tally r.eventId (tr ++ [(b, op)])).marks + 1 ≤
      (tally r.eventId (tr ++ [(b, op)])).allowance maxAttempts := by
  have hb := h.bound r.eventId
  rw [tally_snoc]
  cases op with
  | insertPending | markInFlight | markAcked | close => cases hop
  | markDead | expireTtl =>
    cases hop
    cases hpend
  | openDb fault =>
    cases hop
    exact Or.inl hpend
  | markRetry id next error now fault =>
    -- below the limit there is a send left
    cases hop
    simp only [Bool.and_eq_true, decide_eq_true_eq] at hsel
    right
    have hlt := hretry id next error now fault rfl r hr hsel.1 hsel.2
    have hatt := h.attempts r hr
    simp only [Tally.step, Tally.allowance]
    omega
  | requeueInFlight now₁ now₂ fault =>
    -- the requeue of a row in flight adds to the allowance, and so does `retry_dead`
    cases hop
    right
    have hfind : b.db.outbox.find? r.eventId = some r := Table.find?_eq_some.mpr ⟨hr, rfl⟩
    have hflight : r.state = .inFlight := of_decide_eq_true hsel
    simp only [Tally.step, hok, hfind, Option.any_some, hflight, decide_true, if_true]
    simp only [Tally.allowance] at hb ⊢
    push_cast
    omega
  | retryDead id now₁ now₂ fault =>
    cases hop
    simp only [Bool.and_eq_true, decide_eq_true_eq] at hsel
    right
    rw [hsel.1] at hb
    simp only [Tally.step, hok, hsel.1, if_true]
    simp only [Tally.allowance] at hb ⊢
    push_cast
    omega

/-- A call keeps the tally, if a retry is for a row below the limit. -/
theorem Tallied.step {tr : List (Outbox × Op)} (h : Tallied maxAttempts tr b.db)
    (hretry : ∀ id next error now fault, op = .markRetry id next error now fault →
      ∀ r ∈ b.db.outbox, r.eventId = id → r.state = .inFlight → r.attempts < maxAttempts) :
    Tallied maxAttempts (tr ++ [(b, op)]) (b.step op).db := by
  cases b.effect op with
  | same heq hidle =>
    rw [heq]
    have hsame : ∀ id, tally id (tr ++ [(b, op)]) = tally id tr := by
      intro id
      rw [tally_snoc]
      cases hreply : b.reply op with
      | error e => exact Tally.step_error hreply
      | ok n => exact Tally.step_passive (hidle n hreply)
    exact ⟨fun r hr => hsame r.eventId ▸ h.attempts r hr,
      fun r hr hp => hsame r.eventId ▸ h.pending r hr hp, fun id => hsame id ▸ h.bound id⟩
  | admitted hop hok hadm =>
    subst hop
    exact h.admitted hok hadm
  | @sent id now fault r hop hok hr hsend _ heq =>
    rcases sendable_iff.mp hsend with ⟨rfl, hpend, -⟩
    subst hop
    rw [heq]
    exact h.sent hok hr hpend
  | @acked id now fault r hop _ _ _ _ _ heq =>
    subst hop
    rw [heq]
    refine h.quiet (by simp) (by simp) fun r' hr' => ?_
    rcases Db.mem_acked_outbox.mp hr' with ⟨q, hq, -, rfl⟩
    refine ⟨q, hq, by simp, ?_, fun hpend => Or.inl (by simpa using hpend)⟩
    unfold Row.afterAck
    split <;> rfl
  | @rewritten w n hop hok heq =>
    have hinsert : ∀ lim rec now fault, op ≠ .insertPending lim rec now fault := by
      rintro lim rec now fault rfl
      cases hop
    have hmark : ∀ id now fault, op ≠ .markInFlight id now fault := by
      rintro id now fault rfl
      cases hop
    rw [heq]
    refine h.quiet hinsert hmark fun r' hr' => ?_
    rcases Db.mem_updateOutbox.mp hr' with ⟨r, hr, rfl⟩
    split
    · rename_i hsel
      exact ⟨r, hr, rfl, Op.rewrite_attempts hop, h.pending_again hop hok hretry hr hsel⟩
    · exact ⟨r, hr, rfl, rfl, Or.inl⟩

theorem Tallied.empty (maxAttempts : Int) : Tallied maxAttempts [] .empty where
  attempts := fun r hr => absurd hr (Table.notMem_empty r)
  pending := fun r hr => absurd hr (Table.notMem_empty r)
  bound := by
    intro id
    simp only [tally, List.foldl_nil, Tally.zero, Tally.allowance]
    omega

end Step

end EventKafka
