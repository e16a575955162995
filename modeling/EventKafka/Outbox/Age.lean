import EventKafka.Outbox.Fate
import EventKafka.Outbox.Stamp

/-! # Deliverable age

`expire_ttl` measures a row's age from `eligible_at_ms`, which is written in three
places: at admission, by the ACK that promotes a successor, and by the stamp of
`open`. `deliverableSince` is what the column is for, read off the history without
it: the creation time of a row that was deliverable when it was admitted, else the
clock of the ACK that moved the cursor onto it. `Aged` says that the column is that
time in every reachable state, so the stamp of `open` never finds a row to stamp.
-/

namespace EventKafka

open Sql

/-- When the row `id` became deliverable, after the call `op`; `d` is the answer
before it. -/
def sinceStep (id : String) (b : Outbox) (op : Op) (d : Option Int) : Option Int :=
  match op with
  | .insertPending _ rec now _ =>
    match b.admission op with
    | some (_, assigned) =>
      if rec.eventId = id then
        if (b.step op).db.deliverable (admittedEvent rec now assigned) then
          some (createdAt rec now)
        else none
      else d
    | none => d
  | .markAcked _ now _ =>
    if (b.ack op).isSome && (b.db.outbox.find? id).any fun r =>
        !b.db.deliverable r.toEvent && (b.step op).db.deliverable r.toEvent then
      some now
    else d
  | _ => d

/-- Since when the row `id` has been deliverable, at the end of a history. -/
def deliverableSince (id : String) (tr : List (Outbox × Op)) : Option Int :=
  tr.foldl (fun d x => sinceStep id x.1 x.2 d) none

/-- The time of a row is folded over the history step by step. -/
theorem deliverableSince_snoc (id : String) (tr : List (Outbox × Op)) (x : Outbox × Op) :
    deliverableSince id (tr ++ [x]) = sinceStep id x.1 x.2 (deliverableSince id tr) := by
  simp [deliverableSince]

/-- Only an admission and an ACK can set it. -/
theorem sinceStep_of_quiet {id : String} {b : Outbox} {op : Op} {d : Option Int}
    (hadm : b.admission op = none) (hack : b.ack op = none) : sinceStep id b op d = d := by
  cases op with
  | insertPending lim rec now fault => simp [sinceStep, hadm]
  | markAcked id' now fault => simp [sinceStep, hack]
  | _ => rfl

/-- The column `eligible_at_ms` is `deliverableSince`, and NULL exactly on the rows
that are not deliverable. -/
structure Aged (tr : List (Outbox × Op)) (db : Db) : Prop where
  inv : StoreInv db
  since : ∀ r ∈ db.outbox, r.eligibleAtMs = deliverableSince r.eventId tr
  null : ∀ r ∈ db.outbox, r.eligibleAtMs = none ↔ db.deliverable r.toEvent = false

/-- The stamps are the times of the history, so they are where they should be. -/
theorem Aged.stamped {tr : List (Outbox × Op)} {db : Db} (h : Aged tr db) : Stamped db :=
  ⟨h.inv, h.null⟩

/-! ## Every step -/

/-- An admission stamps the new row if it is at the head. -/
theorem Aged.admitted {tr : List (Outbox × Op)} {b : Outbox} {lim : Limits} {rec : OutboxRecord}
    {now seq : Int} {fault : FaultPlan} {dn : Bool} {base : OutboxTable} (h : Aged tr b.db)
    (hsome : b.admission (.insertPending lim rec now fault) =
      some (rec, if rec.callUuid = "" then -1 else seq))
    (hadm : Admission lim rec now b.db (b.step (.insertPending lim rec now fault)).db seq dn base) :
    Aged (tr ++ [(b, .insertPending lim rec now fault)])
      (b.step (.insertPending lim rec now fault)).db where
  inv := h.inv.admitted hadm
  since := by
    intro q hq
    rw [deliverableSince_snoc]
    rcases hadm.mem_outbox.mp hq with hbase | rfl
    · have hne : rec.eventId ≠ q.eventId := Ne.symm (Table.key_ne_of_insert hadm.row hbase)
      simp only [sinceStep, hsome, hne, if_false]
      exact h.since q (hadm.room.mem_of_mem hbase)
    · have hdel := hadm.deliverable_newRow
      rw [newRow_toEvent] at hdel
      simp only [sinceStep, hsome, hdel]
      simp [newRow]
  null := (h.stamped.admitted hadm).null

/-- An ACK stamps the successor of its row. -/
theorem Aged.acked {tr : List (Outbox × Op)} {b : Outbox} {id : String} {r : Row} {now : Int}
    {fault : FaultPlan} (h : Aged tr b.db) (hack : b.ack (.markAcked id now fault) = some r)
    (hr : r ∈ b.db.outbox) (hstate : r.state = .inFlight)
    (hhead : r.grouped = true →
      ∃ s ∈ b.db.callStreams, s.call = r.call ∧ s.nextSeq = r.callSeq.getD 0)
    (hdb : (b.step (.markAcked id now fault)).db = b.db.acked r now) :
    Aged (tr ++ [(b, .markAcked id now fault)]) (b.step (.markAcked id now fault)).db := by
  rw [hdb]
  constructor
  case inv => exact h.inv.acked hr hstate hhead
  case since =>
    intro q' hq'
    rcases Db.mem_acked_outbox.mp hq' with ⟨q, hq, hne, rfl⟩
    have hfind : b.db.outbox.find? q.eventId = some q := Table.find?_eq_some.mpr ⟨hq, rfl⟩
    rw [deliverableSince_snoc, Row.afterAck_toEvent,
      (h.stamped.eligible_afterAck now hr hstate hhead hq hne).1, h.since q hq]
    simp [sinceStep, hack, hfind, hdb]
  case null => exact (h.stamped.acked now hr hstate hhead).null

/-- No other call touches a stamp. -/
theorem Aged.step {tr : List (Outbox × Op)} {b : Outbox} (h : Aged tr b.db) (op : Op) :
    Aged (tr ++ [(b, op)]) (b.step op).db := by
  cases b.outcome op with
  | quiet hadm hack hquiet =>
    have hsince : ∀ id, deliverableSince id (tr ++ [(b, op)]) = deliverableSince id tr := by
      intro id
      rw [deliverableSince_snoc, sinceStep_of_quiet hadm hack]
    constructor
    case inv => exact h.inv.quiet hquiet
    case since =>
      intro r' hr'
      rcases hquiet.rows.backward hr' with ⟨r, hr, hst⟩
      rw [hsince, h.stamped.eligible_eq hr hst, hst.event]
      exact h.since r hr
    case null => exact (h.stamped.quiet hquiet).null
  | admitted hop hadm _ hadmission =>
    subst hop
    exact h.admitted hadm hadmission
  | acked hop _ hack hr _ hstate hhead hdb =>
    subst hop
    exact h.acked hack hr hstate hhead hdb

/-- Over a run every stamp is the time since which its row is deliverable. -/
theorem aged_run (ops : List Op) :
    Aged (Machine.trace Outbox.step Outbox.init ops)
      (Machine.run Outbox.step Outbox.init ops).db := by
  refine Machine.trace_invariant (J := fun tr b => Aged tr b.db) (P := fun _ _ => True)
    ⟨StoreInv.empty, ?_, ?_⟩ (fun _ _ op _ h => h.step op) ops (fun _ _ => trivial)
  · exact fun r hr => absurd hr (Table.notMem_empty r)
  · exact fun r hr => absurd hr (Table.notMem_empty r)

/-! ## Expiry -/

/-- `expire_ttl` should mark the row: it is pending and deliverable, and has been
for more than `ttl`. -/
def overdue (now ttl : Int) (tr : List (Outbox × Op)) (db : Db) (r : Row) : Bool :=
  r.state = .pending && db.deliverable r.toEvent &&
    (deliverableSince r.eventId tr).any fun d => ttl < now - d

/-- The row as `expire_ttl` marks it. -/
def Row.expired (r : Row) (now : Int) : Row :=
  ⟨r.toEvent, { r.toProgress with
    state := .dead, lastError := some "expired_ttl", updatedAtMs := now }⟩

/-- The condition of the `UPDATE` reads the stamp, and the specification the history. -/
theorem Aged.expires_eq {tr : List (Outbox × Op)} {db : Db} (h : Aged tr db) {now ttl : Int}
    {r : Row} (hr : r ∈ db.outbox) : expires now ttl db r = overdue now ttl tr db r := by
  simp only [expires, overdue, h.since r hr]
  rw [Bool.and_assoc, Bool.and_assoc, Bool.and_comm (db.deliverable r.toEvent)]

/-- What a successful expiry writes. -/
theorem expireTtl_db {b : Outbox} {now ttl n : Int} {fault : FaultPlan} (httl : 0 < ttl)
    (hok : b.reply (.expireTtl now ttl fault) = .ok n) :
    (b.step (.expireTtl now ttl fault)).db =
      b.db.updateOutbox (expires now ttl b.db) fun r => (r.expired now).toProgress := by
  have hexec : b.exec (.expireTtl now ttl fault) = (.ok n, b.step (.expireTtl now ttl fault)) :=
    Prod.ext hok rfl
  have hpos : ¬ ttl ≤ 0 := by omega
  simp only [Outbox.exec, hpos, if_false] at hexec
  rcases call_ok hexec with ⟨_, hrun, -⟩
  exact (expireTtl_ok hrun).2

/-- A successful expiry kills the overdue rows and leaves the others as they are. -/
theorem Aged.expire_rows {tr : List (Outbox × Op)} {b : Outbox} (h : Aged tr b.db)
    {now ttl n : Int} {fault : FaultPlan} (httl : 0 < ttl)
    (hok : b.reply (.expireTtl now ttl fault) = .ok n) :
    (b.step (.expireTtl now ttl fault)).db.outbox.rows = b.db.outbox.rows.map
      fun r => if overdue now ttl tr b.db r then r.expired now else r := by
  rw [expireTtl_db httl hok]
  apply List.map_congr_left
  intro r hr
  rw [h.expires_eq hr]
  rfl

/-- What is due right after an expiry has not been deliverable for more than `ttl`:
the expiry left it as it was. -/
theorem Aged.due_after_expire {tr : List (Outbox × Op)} {b : Outbox} (h : Aged tr b.db)
    {now ttl n : Int} {fault : FaultPlan} (httl : 0 < ttl)
    (hok : b.reply (.expireTtl now ttl fault) = .ok n) {r' : Row}
    (hr' : r' ∈ (b.step (.expireTtl now ttl fault)).db.outbox)
    (hdue : due now (b.step (.expireTtl now ttl fault)).db r' = true) :
    ∃ d, deliverableSince r'.eventId tr = some d ∧ now - d ≤ ttl := by
  simp only [due, Bool.and_eq_true, decide_eq_true_eq] at hdue
  rcases hdue with ⟨⟨hpend, -⟩, hdel'⟩
  rw [Table.mem_def, h.expire_rows httl hok, List.mem_map] at hr'
  rcases hr' with ⟨r, hr, hrr'⟩
  cases hover : overdue now ttl tr b.db r with
  | true =>
    simp only [hover, if_true] at hrr'
    rw [← hrr'] at hpend
    simp [Row.expired] at hpend
  | false =>
    have hsame : r = r' := by simpa [hover] using hrr'
    subst hsame
    have hdel : b.db.deliverable r.toEvent = true := by
      rw [expireTtl_db httl hok] at hdel'
      exact hdel'
    cases hd : deliverableSince r.eventId tr with
    | none =>
      have hnull := (h.null r hr).mp ((h.since r hr).trans hd)
      simp [hdel] at hnull
    | some d =>
      refine ⟨d, rfl, ?_⟩
      simpa [overdue, hpend, hdel, hd] using hover

/-- In every reachable state the column `eligible_at_ms` is NULL exactly on the
ordered rows that are not the head of their call. A successful `expire_ttl` marks
exactly the rows that have been deliverable for more than `ttl` and touches nothing
else, and a `fetch_due` right after it returns no row that has been deliverable
for longer. -/
theorem ttl_counts_deliverable_time (ops : List Op) :
    let b := Machine.run Outbox.step Outbox.init ops
    let tr := Machine.trace Outbox.step Outbox.init ops
    (∀ r ∈ b.db.outbox, r.eligibleAtMs = none ↔
      r.grouped = true ∧ ∀ s ∈ b.db.callStreams, s.call = r.call → r.callSeq ≠ some s.nextSeq) ∧
    ∀ now ttl fault n, 0 < ttl → b.reply (.expireTtl now ttl fault) = .ok n →
      let b' := b.step (.expireTtl now ttl fault)
      b'.db.outbox.rows = b.db.outbox.rows.map
          (fun r => if overdue now ttl tr b.db r then r.expired now else r) ∧
        (b'.db.callStreams = b.db.callStreams ∧ b'.db.retiredCalls = b.db.retiredCalls ∧
          b'.db.turn = b.db.turn) ∧
        ∀ limit fault' recs db', (fetchDue now limit fault').run b'.db = .ok recs db' →
          ∀ rec ∈ recs, ∃ d, deliverableSince rec.eventId tr = some d ∧ now - d ≤ ttl := by
  intro b tr
  have haged : Aged tr b.db := aged_run ops
  constructor
  · intro r hr
    rw [haged.null r hr]
    cases hg : r.grouped with
    | false => simp [Db.deliverable_of_not_grouped hg]
    | true =>
      rw [Db.deliverable_of_grouped hg, Bool.eq_false_iff, Ne, Db.isHead_of_grouped hg]
      simp
  · intro now ttl fault n httl hok b'
    refine ⟨haged.expire_rows httl hok, ?_, ?_⟩
    · simp only [b', expireTtl_db httl hok]
      exact ⟨rfl, rfl, rfl⟩
    · intro limit fault' recs db' hfetch rec hrec
      rcases fetchDue_ok hfetch with ⟨-, hdue, -⟩
      rcases hdue rec hrec with ⟨r, hr, hdue, rfl⟩
      exact haged.due_after_expire httl hok hr hdue

end EventKafka
