import EventKafka.Outbox.Operations

/-! # The transitions of a row

`Outbox.outcome` says what a call does to the cursors. The results about states,
attempts, clocks and turns need to know what it does to every column of a row, so
this is the inversion of a call in full: nothing, one of the three transactions, or
one `UPDATE outbox`, given by its `WHERE` and its `SET` (`Op.rewrite`).
-/

namespace EventKafka

open Sql

/-- An `UPDATE outbox`. -/
structure Rewrite where
  selects : Db → Row → Bool
  set : Row → Progress

/-- The `UPDATE` of a call that is one. -/
def Op.rewrite : Op → Option Rewrite
  | .markRetry id next error now _ =>
    some ⟨fun _ r => r.eventId = id && r.state = .inFlight, fun r =>
      { r.toProgress with
        state := .pending, nextAttemptAtMs := next, lastError := some error, updatedAtMs := now }⟩
  | .markDead id error now _ =>
    some ⟨fun _ r => r.eventId = id && (r.state = .pending || r.state = .inFlight), fun r =>
      { r.toProgress with state := .dead, lastError := some error, updatedAtMs := now }⟩
  | .retryDead id now₁ now₂ _ =>
    some ⟨fun _ r => r.eventId = id && r.state = .dead, fun r =>
      { r.toProgress with
        state := .pending, nextAttemptAtMs := now₁, updatedAtMs := now₂, lastError := some "" }⟩
  | .requeueInFlight now₁ now₂ _ =>
    some ⟨fun _ r => r.state = .inFlight, fun r =>
      { r.toProgress with state := .pending, nextAttemptAtMs := now₁, updatedAtMs := now₂ }⟩
  | .expireTtl now ttl _ =>
    some ⟨expires now ttl, fun r =>
      { r.toProgress with state := .dead, lastError := some "expired_ttl", updatedAtMs := now }⟩
  | .openDb _ =>
    some ⟨unstamped, fun r => { r.toProgress with eligibleAtMs := some r.createdAtMs }⟩
  | _ => none

/-- The calls that may succeed and find nothing to do. -/
def Op.passive : Op → Bool
  | .expireTtl _ _ _ => true
  | .openDb _ => true
  | .close => true
  | _ => false

/-- What a call does to the database. -/
inductive Effect (b : Outbox) (op : Op) : Prop where
  /-- It failed, or there was nothing to do. -/
  | same (h : (b.step op).db = b.db) (hidle : ∀ n, b.reply op = .ok n → op.passive = true)
  | admitted {lim : Limits} {rec : OutboxRecord} {now : Int} {fault : FaultPlan} {seq : Int}
      {dn : Bool} {base : OutboxTable} (hop : op = .insertPending lim rec now fault)
      (hok : b.reply op = .ok (if rec.callUuid = "" then -1 else seq))
      (h : Admission lim rec now b.db (b.step op).db seq dn base)
  | sent {id : String} {now : Int} {fault : FaultPlan} {r : Row}
      (hop : op = .markInFlight id now fault) (hok : b.reply op = .ok 0)
      (hr : r ∈ b.db.outbox) (hsend : sendable id b.db r = true) (hturn : b.db.turn < int64Max)
      (h : (b.step op).db = b.db.sent r now)
  | acked {id : String} {now : Int} {fault : FaultPlan} {r : Row}
      (hop : op = .markAcked id now fault) (hok : b.reply op = .ok 0) (hr : r ∈ b.db.outbox)
      (hid : r.eventId = id) (hstate : r.state = .inFlight)
      (hhead : r.grouped = true →
        ∃ s ∈ b.db.callStreams, s.call = r.call ∧ s.nextSeq = r.callSeq.getD 0)
      (h : (b.step op).db = b.db.acked r now)
  | rewritten {w : Rewrite} {n : Int} (hop : op.rewrite = some w) (hok : b.reply op = .ok n)
      (h : (b.step op).db = b.db.updateOutbox (w.selects b.db) w.set)

theorem Outbox.effect (b : Outbox) (op : Op) : Effect b op := by
  obtain ⟨reply, b', hexec⟩ : ∃ reply b', b.exec op = (reply, b') := ⟨_, _, rfl⟩
  have hreply : b.reply op = reply := congrArg Prod.fst hexec
  have hstep : b.step op = b' := congrArg Prod.snd hexec
  cases reply with
  | error e =>
    refine .same ?_ fun n hok => ?_
    · rw [hstep]
      exact Outbox.exec_error hexec
    · rw [hreply] at hok
      cases hok
  | ok n =>
    cases op with
    | insertPending lim rec now fault =>
      rcases call_ok hexec with ⟨assigned, hrun, rfl⟩
      rcases insertPending_ok hrun with ⟨seq, dn, base, hadm, rfl⟩
      exact .admitted rfl hreply (hstep ▸ hadm)
    | markInFlight id now fault =>
      rcases call_ok hexec with ⟨_, hrun, rfl⟩
      rcases markInFlight_ok hrun with ⟨r, hr, hsend, hturn, hdb⟩
      exact .sent rfl hreply hr hsend hturn (hstep ▸ hdb)
    | markAcked id now fault =>
      rcases call_ok hexec with ⟨_, hrun, rfl⟩
      rcases markAcked_ok hrun with ⟨r, hr, hid, hstate, hhead, hdb⟩
      exact .acked rfl hreply hr hid hstate hhead (hstep ▸ hdb)
    | markRetry id next error now fault =>
      rcases call_ok hexec with ⟨_, hrun, -⟩
      exact .rewritten rfl hreply (hstep ▸ (updateOne_ok hrun).2)
    | markDead id error now fault =>
      rcases call_ok hexec with ⟨_, hrun, -⟩
      exact .rewritten rfl hreply (hstep ▸ (updateOne_ok hrun).2)
    | retryDead id now₁ now₂ fault =>
      rcases call_ok hexec with ⟨_, hrun, -⟩
      exact .rewritten rfl hreply (hstep ▸ (updateOne_ok hrun).2)
    | requeueInFlight now₁ now₂ fault =>
      rcases call_ok hexec with ⟨_, hrun, -⟩
      exact .rewritten rfl hreply (hstep ▸ requeueInFlight_ok hrun)
    | expireTtl now ttl fault =>
      -- a limit that is not positive means no limit
      by_cases httl : ttl ≤ 0
      · simp only [Outbox.exec, httl, if_true, Prod.mk.injEq] at hexec
        refine .same ?_ fun _ _ => rfl
        rw [hstep, ← hexec.2]
      · simp only [Outbox.exec, httl, if_false] at hexec
        rcases call_ok hexec with ⟨_, hrun, -⟩
        exact .rewritten rfl hreply (hstep ▸ (expireTtl_ok hrun).2)
    | openDb fault =>
      -- a second `open` does nothing
      cases hopen : b.isOpen with
      | true =>
        simp only [Outbox.exec, hopen, if_true, Prod.mk.injEq] at hexec
        refine .same ?_ fun _ _ => rfl
        rw [hstep, ← hexec.2]
      | false =>
        cases hrun : (EventKafka.openDb fault).run b.db with
        | error e db => simp [Outbox.exec, hopen, hrun] at hexec
        | ok u db =>
          simp only [Outbox.exec, hopen, hrun, Bool.false_eq_true, if_false,
            Prod.mk.injEq] at hexec
          refine .rewritten rfl hreply ?_
          rw [hstep, ← hexec.2]
          exact openDb_ok hrun
    | close =>
      simp only [Outbox.exec, Prod.mk.injEq] at hexec
      refine .same ?_ fun _ _ => rfl
      rw [hstep, ← hexec.2]

/-! ## What an `UPDATE` can do to a row -/

section Rewrite

variable {op : Op} {w : Rewrite} {db : Db} {r : Row}

/-- A row is brought to life again by `retry_dead` of its event only. -/
theorem Op.rewrite_of_dead (hop : op.rewrite = some w) (hsel : w.selects db r = true)
    (hdead : r.state = .dead) :
    (w.set r).state = .dead ∨ ∃ now₁ now₂ fault, op = .retryDead r.eventId now₁ now₂ fault := by
  cases op with
  | retryDead id now₁ now₂ fault =>
    cases hop
    simp only [Bool.and_eq_true, decide_eq_true_eq] at hsel
    exact Or.inr ⟨now₁, now₂, fault, by rw [hsel.1]⟩
  | openDb fault =>
    cases hop
    exact Or.inl hdead
  | insertPending | markInFlight | markAcked | close => cases hop
  | _ =>
    cases hop
    simp [expires, hdead] at hsel

/-- A row dies in `mark_dead` of its event, or deliverable in `expire_ttl`. -/
theorem Op.rewrite_to_dead (hop : op.rewrite = some w) (hsel : w.selects db r = true)
    (hdead : (w.set r).state = .dead) :
    r.state = .dead ∨ db.deliverable r.toEvent = true ∨
      ∃ error now fault, op = .markDead r.eventId error now fault := by
  cases op with
  | markDead id error now fault =>
    cases hop
    simp only [Bool.and_eq_true, decide_eq_true_eq] at hsel
    exact Or.inr (Or.inr ⟨error, now, fault, by rw [hsel.1]⟩)
  | expireTtl now ttl fault =>
    cases hop
    simp only [expires, Bool.and_eq_true] at hsel
    exact Or.inr (Or.inl hsel.2)
  | openDb fault =>
    cases hop
    exact Or.inl hdead
  | insertPending | markInFlight | markAcked | close => cases hop
  | _ =>
    cases hop
    simp at hdead

/-- No `UPDATE` but that of `mark_in_flight` counts an attempt. -/
theorem Op.rewrite_attempts (hop : op.rewrite = some w) : (w.set r).attempts = r.attempts := by
  cases op with
  | insertPending | markInFlight | markAcked | close => cases hop
  | _ =>
    cases hop
    rfl

end Rewrite

/-- A row that is not dead was not dead before, or is admitted in this call, unless
`retry_dead` brings it back. -/
theorem Outbox.live_origin {b : Outbox} {op : Op} {q : Row} (hq : q ∈ (b.step op).db.outbox)
    (hlive : q.state ≠ .dead) (hop : ∀ id now₁ now₂ fault, op ≠ .retryDead id now₁ now₂ fault) :
    (∃ r ∈ b.db.outbox, r.toEvent = q.toEvent ∧ r.state ≠ .dead) ∨
      ∃ lim rec now fault, op = .insertPending lim rec now fault ∧ q.topic = rec.topic := by
  cases b.effect op with
  | same h => exact Or.inl ⟨q, h ▸ hq, rfl, hlive⟩
  | admitted hop _ hadm =>
    rcases hadm.mem_outbox.mp hq with hbase | rfl
    · exact Or.inl ⟨q, hadm.room.mem_of_mem hbase, rfl, hlive⟩
    · exact Or.inr ⟨_, _, _, _, hop, rfl⟩
  | @sent _ now _ p _ _ hp hsend _ h =>
    rw [h] at hq
    rcases Db.mem_updateOutbox.mp hq with ⟨r, hr, rfl⟩
    refine Or.inl ⟨r, hr, by split <;> rfl, ?_⟩
    by_cases hid : r.eventId = p.eventId
    · -- the row that is sent was pending
      rw [Table.eq_of_key hr hp hid, (sendable_iff.mp hsend).2.1]
      decide
    · simpa [hid] using hlive
  | acked _ _ _ _ _ _ h =>
    rw [h] at hq
    rcases Db.mem_acked_outbox.mp hq with ⟨r, hr, -, rfl⟩
    exact Or.inl ⟨r, hr, by simp, by simpa using hlive⟩
  | rewritten hrw _ h =>
    rw [h] at hq
    rcases Db.mem_updateOutbox.mp hq with ⟨r, hr, rfl⟩
    refine Or.inl ⟨r, hr, by split <;> rfl, ?_⟩
    intro hdead
    split at hlive
    · next hsel =>
      rcases Op.rewrite_of_dead hrw hsel hdead with hstays | ⟨now₁, now₂, fault, hretry⟩
      · exact hlive hstays
      · exact hop _ _ _ _ hretry
    · exact hlive hdead

end EventKafka
