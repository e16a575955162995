import EventKafka.Outbox.Retire
import EventKafka.Outbox.Transitions

/-! # The acceptance verifier's row checks

The loop of `verify_event_ids.py` over `outbox_final.csv`, for one row of the
snapshot. It raises `EvidenceError` on evidence that cannot be right, and otherwise
files the row and may record a failure. The module measures a row's age from
`eligible_at_ms` and the verifier from `created_at_ms`; `RowOk` holds what a row has
to keep for the two to agree, and `rowOk_step` what a call has to be given for that.
-/

namespace EventKafka

open Sql

/-! ## `verify_event_ids.py` -/

/-- A row of `outbox_final.csv`. -/
structure FinalRow where
  eventId : String
  state : String
  lastError : String
  createdAtMs : Int
  updatedAtMs : Int
deriving DecidableEq, Repr

/-- The set `verify` files a row in. -/
inductive RowClass where
  | live
  | expired
  | dead
deriving DecidableEq, Repr

/-- `number`, on a column that holds an integer. -/
def number (value : Int) (field : String) : Except String Int :=
  if value < 0 then .error ("negative " ++ field) else .ok value

/-- The body of the loop over `final`: an error is an `EvidenceError`, and the text
beside the class is appended to `failures`. -/
def checkRow (ttlMs : Int) (row : FinalRow) : Except String (RowClass × Option String) := do
  let created ← number row.createdAtMs "created_at_ms"
  let updated ← number row.updatedAtMs "updated_at_ms"
  if updated < created then
    throw (row.eventId ++ ": updated_at_ms precedes created_at_ms")
  if row.state = "pending" ∨ row.state = "in_flight" then
    return (.live, none)
  else if row.state = "dead" then
    if row.lastError = "expired_ttl" then
      if ttlMs ≤ 0 ∨ updated - created ≤ ttlMs then
        return (.expired, some ("invalid/unauthorized TTL expiry: " ++ row.eventId))
      else
        return (.expired, none)
    else if !blank row.lastError then
      return (.dead, none)
    else
      throw (row.eventId ++ ": dead row without last_error")
  else
    throw (row.eventId ++ ": unknown state '" ++ row.state ++ "'")

/-- A row in the snapshot; a NULL is an empty field. -/
def Row.final (r : Row) : FinalRow where
  eventId := r.eventId
  state := r.state.text
  lastError := r.lastError.getD ""
  createdAtMs := r.createdAtMs
  updatedAtMs := r.updatedAtMs

/-! ## Rows that pass -/

/-- What a row keeps so that the verifier accepts it under `--ttl-ms ttl`. -/
structure RowOk (ttl : Int) (r : Row) : Prop where
  nonneg : 0 ≤ r.createdAtMs
  updated : r.createdAtMs ≤ r.updatedAtMs
  eligible : ∀ t, r.eligibleAtMs = some t → r.createdAtMs ≤ t
  named : r.state = .dead → ∃ error, r.lastError = some error ∧ blank error = false
  aged : r.state = .dead → r.lastError = some "expired_ttl" → ttl < r.updatedAtMs - r.createdAtMs

theorem RowOk.passes {ttl : Int} {r : Row} (httl : 0 < ttl) (h : RowOk ttl r) :
    ∃ c, checkRow ttl r.final = .ok (c, none) := by
  have hcreated : number r.final.createdAtMs "created_at_ms" = .ok r.createdAtMs :=
    if_neg (not_lt.mpr h.nonneg)
  have hupdated : number r.final.updatedAtMs "updated_at_ms" = .ok r.updatedAtMs :=
    if_neg (not_lt.mpr (h.nonneg.trans h.updated))
  have horder : ¬ r.updatedAtMs < r.createdAtMs := not_lt.mpr h.updated
  have hrow : checkRow ttl r.final = (if r.final.state = "pending" ∨ r.final.state = "in_flight" then
      .ok (.live, none)
    else if r.final.state = "dead" then
      if r.final.lastError = "expired_ttl" then
        if ttl ≤ 0 ∨ r.updatedAtMs - r.createdAtMs ≤ ttl then
          .ok (.expired, some ("invalid/unauthorized TTL expiry: " ++ r.final.eventId))
        else .ok (.expired, none)
      else if !blank r.final.lastError then .ok (.dead, none)
      else .error (r.final.eventId ++ ": dead row without last_error")
    else .error (r.final.eventId ++ ": unknown state '" ++ r.final.state ++ "'")) := by
    unfold checkRow
    rw [hcreated, hupdated]
    simp only [bind, Except.bind, pure, Except.pure, horder, if_false]
    rfl
  rw [hrow]
  cases hstate : r.state with
  | pending => exact ⟨.live, by simp [Row.final, hstate, OutboxState.text]⟩
  | inFlight => exact ⟨.live, by simp [Row.final, hstate, OutboxState.text]⟩
  | dead =>
    rcases h.named hstate with ⟨error, herror, hblank⟩
    by_cases hexp : error = "expired_ttl"
    · have haged := h.aged hstate (hexp ▸ herror)
      refine ⟨.expired, ?_⟩
      simp [Row.final, hstate, OutboxState.text, herror, hexp]
      omega
    · exact ⟨.dead, by simp [Row.final, hstate, OutboxState.text, herror, hexp, hblank]⟩

/-! ## What a call has to be given -/

/-- The clock reading a call takes under the mutex and writes to the rows it touches. -/
def Op.stamp : Op → Option Int
  | .markInFlight _ now _ => some now
  | .markAcked _ now _ => some now
  | .markRetry _ _ _ now _ => some now
  | .markDead _ _ now _ => some now
  | .retryDead _ _ now₂ _ => some now₂
  | .requeueInFlight _ now₂ _ => some now₂
  | _ => none

/-- The arguments of a call are in order: its stamp is no earlier than any row, a
record is created at a nonnegative time, rows are expired under `ttl`, and an error is
not blank and not that of an expiry. -/
structure Op.Fits (ttl : Int) (db : Db) (op : Op) : Prop where
  stamp : ∀ t, op.stamp = some t → ∀ r ∈ db.outbox, r.createdAtMs ≤ t
  created : ∀ lim rec now fault, op = .insertPending lim rec now fault → 0 ≤ createdAt rec now
  limit : ∀ now t fault, op = .expireTtl now t fault → t = ttl
  error : ∀ id error now fault, op = .markDead id error now fault →
    blank error = false ∧ error ≠ "expired_ttl"

theorem RowOk.newRow {ttl : Int} {rec : OutboxRecord} {now seq : Int} {dn : Bool}
    (h : 0 ≤ createdAt rec now) : RowOk ttl (newRow rec now seq dn) where
  nonneg := h
  updated := le_rfl
  eligible := by
    intro t ht
    cases dn with
    | false => simp [EventKafka.newRow] at ht
    | true =>
      simp only [EventKafka.newRow, if_true, Option.some.injEq] at ht
      exact ht ▸ le_rfl
  named := fun hdead => by simp [EventKafka.newRow] at hdead
  aged := fun hdead => by simp [EventKafka.newRow] at hdead

section Step

variable {ttl : Int} {b : Outbox} {op : Op}

/-- An `UPDATE` on a row in order leaves it in order. -/
theorem RowOk.rewritten {w : Rewrite} {r : Row} (httl : 0 < ttl) (hop : op.rewrite = some w)
    (hfits : op.Fits ttl b.db) (hr : r ∈ b.db.outbox) (hsel : w.selects b.db r = true)
    (h : RowOk ttl r) : RowOk ttl ⟨r.toEvent, w.set r⟩ := by
  cases op with
  | insertPending | markInFlight | markAcked | close => cases hop
  | markRetry id next error now fault =>
    cases hop
    exact ⟨h.nonneg, hfits.stamp now rfl r hr, h.eligible, by simp, by simp⟩
  | retryDead id now₁ now₂ fault =>
    cases hop
    exact ⟨h.nonneg, hfits.stamp now₂ rfl r hr, h.eligible, by simp, by simp⟩
  | requeueInFlight now₁ now₂ fault =>
    cases hop
    exact ⟨h.nonneg, hfits.stamp now₂ rfl r hr, h.eligible, by simp, by simp⟩
  | markDead id error now fault =>
    cases hop
    rcases hfits.error id error now fault rfl with ⟨hblank, hne⟩
    exact ⟨h.nonneg, hfits.stamp now rfl r hr, h.eligible, fun _ => ⟨error, rfl, hblank⟩,
      fun _ heq => absurd (Option.some.inj heq) hne⟩
  | expireTtl now t fault =>
    cases hop
    have ht := hfits.limit now t fault rfl
    subst ht
    have hdue : ∃ e, r.eligibleAtMs = some e ∧ t < now - e := by
      cases he : r.eligibleAtMs with
      | none => simp [expires, he] at hsel
      | some e =>
        simp only [expires, he, Option.any_some, Bool.and_eq_true, decide_eq_true_eq] at hsel
        exact ⟨e, rfl, hsel.1.2⟩
    rcases hdue with ⟨e, he, hage⟩
    -- the row is older than it has been deliverable, and it expires for the latter
    have hcreated := h.eligible e he
    refine ⟨h.nonneg, ?_, h.eligible, fun _ => ⟨_, rfl, by decide⟩, fun _ _ => ?_⟩
    · show r.createdAtMs ≤ now
      omega
    · show t < now - r.createdAtMs
      omega
  | openDb fault =>
    cases hop
    refine ⟨h.nonneg, h.updated, ?_, h.named, h.aged⟩
    intro t ht
    cases ht
    exact le_rfl

theorem rowOk_step (httl : 0 < ttl) (hfits : op.Fits ttl b.db)
    (h : ∀ r ∈ b.db.outbox, RowOk ttl r) : ∀ r ∈ (b.step op).db.outbox, RowOk ttl r := by
  intro r hr
  cases b.effect op with
  | same heq =>
    rw [heq] at hr
    exact h r hr
  | @admitted lim rec now fault seq dn base hop _ hadm =>
    rcases hadm.mem_outbox.mp hr with hbase | rfl
    · exact h r (hadm.room.mem_of_mem hbase)
    · exact .newRow (hfits.created lim rec now fault hop)
  | @sent id now fault q hop _ hq hsend _ heq =>
    rw [heq] at hr
    rcases Db.mem_updateOutbox.mp hr with ⟨r₀, hr₀, rfl⟩
    split
    · have hstamp := hfits.stamp now (by rw [hop]; rfl) r₀ hr₀
      exact ⟨(h r₀ hr₀).nonneg, hstamp, (h r₀ hr₀).eligible, by simp, by simp⟩
    · exact h r₀ hr₀
  | @acked id now fault q hop _ _ _ _ _ heq =>
    rw [heq] at hr
    rcases Db.mem_acked_outbox.mp hr with ⟨r₀, hr₀, -, rfl⟩
    unfold Row.afterAck
    split
    · -- the successor becomes deliverable now, and it is already there
      have hstamp := hfits.stamp now (by rw [hop]; rfl) r₀ hr₀
      refine ⟨(h r₀ hr₀).nonneg, (h r₀ hr₀).updated, ?_, (h r₀ hr₀).named, (h r₀ hr₀).aged⟩
      intro t ht
      cases ht
      exact hstamp
    · exact h r₀ hr₀
  | rewritten hop _ heq =>
    rw [heq] at hr
    rcases Db.mem_updateOutbox.mp hr with ⟨r₀, hr₀, rfl⟩
    split
    · rename_i hsel
      exact (h r₀ hr₀).rewritten httl hop hfits hr₀ hsel
    · exact h r₀ hr₀

end Step

end EventKafka
