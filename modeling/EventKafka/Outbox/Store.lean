import EventKafka.Lib.Program
import EventKafka.Outbox.Schema
import Mathlib.Data.List.Sort

/-! # The operations of `Outbox`

Every method of `kafka_outbox.cpp` that touches the database, as a database
program: one `statement` for each SQL statement it issues, in its order, with
the exceptions it throws. The clock readings (`wall_now_ms`) a method takes and
the faults its statements meet are arguments.

`insert_pending`, `mark_in_flight` and `mark_acked` run in a `Transaction`; the
other transitions are one autocommitted `UPDATE` followed by a look at
`sqlite3_changes`.
-/

namespace EventKafka

open Sql

/-- The SQL statements of the methods, as the places a storage fault can hit. -/
inductive Stmt where
  | beginTx
  | commitTx
  -- insert_pending
  | retired
  | usage
  | reclaim
  | usageAfter
  | stream
  | streamCount
  | createStream
  | admitSeq
  | insertRow
  -- mark_in_flight
  | inFlight
  | tick
  | served
  -- mark_acked
  | head
  | cursor
  | promote
  | deleteRow
  -- the single-statement transitions
  | retry
  | dead
  | revive
  | requeue
  | expire
  -- the queries
  | getRow
  | fetchDue
  -- open
  | openFile
  | schema
  | checkCursors
  | checkRetired
  | stamp
  -- outbox_ops.py retire
  | backup
  | cursorOf
  | rowsOf
  | fenceCount
  | fence
  | dropCursor
  | inventory
  | publish
deriving DecidableEq, Repr

/-- Which statements of a call fail, and with which text. -/
abbrev FaultPlan := Stmt → Option String

/-- No statement fails. -/
def noFault : FaultPlan := fun _ => none

/-- A program over the outbox database. -/
abbrev Prog (α : Type) := Sql.Program Db α

/-- `max_rows` and `max_bytes`. -/
structure Limits where
  maxRows : Int
  maxBytes : Int
deriving DecidableEq, Repr

/-! ## Statements shared by the methods -/

/-- `UPDATE outbox SET ... WHERE p`. -/
def Db.updateOutbox (db : Db) (p : Row → Bool) (f : Row → Progress) : Db :=
  { db with
    outbox := db.outbox.update p (fun r => ⟨r.toEvent, f r⟩) (fun _ => rfl) (fun _ => rfl) }

/-- `UPDATE call_streams SET ... WHERE p`. -/
def Db.updateStreams (db : Db) (p : Stream → Bool) (f : Stream → Cursor) : Db :=
  { db with
    callStreams :=
      db.callStreams.update p (fun s => ⟨s.toOwnership, f s⟩) (fun _ => rfl) (fun _ => rfl) }

section Frame

variable (db : Db) (p : Row → Bool) (f : Row → Progress) (q : Stream → Bool) (g : Stream → Cursor)

@[simp] theorem Db.updateOutbox_callStreams :
    (db.updateOutbox p f).callStreams = db.callStreams := rfl

@[simp] theorem Db.updateOutbox_retiredCalls :
    (db.updateOutbox p f).retiredCalls = db.retiredCalls := rfl

@[simp] theorem Db.updateOutbox_turn : (db.updateOutbox p f).turn = db.turn := rfl

@[simp] theorem Db.updateStreams_outbox : (db.updateStreams q g).outbox = db.outbox := rfl

@[simp] theorem Db.updateStreams_retiredCalls :
    (db.updateStreams q g).retiredCalls = db.retiredCalls := rfl

@[simp] theorem Db.updateStreams_turn : (db.updateStreams q g).turn = db.turn := rfl

end Frame

theorem Db.mem_updateOutbox {db : Db} {p : Row → Bool} {f : Row → Progress} {r : Row} :
    r ∈ (db.updateOutbox p f).outbox ↔
      ∃ q ∈ db.outbox, r = if p q then ⟨q.toEvent, f q⟩ else q :=
  Table.mem_of_rows_eq_map rfl

theorem find?_updateStreams (db : Db) (p : Stream → Bool) (f : Stream → Cursor) (c : Call) :
    (db.updateStreams p f).callStreams.find? c =
      (db.callStreams.find? c).map fun s => if p s then ⟨s.toOwnership, f s⟩ else s := by
  show (db.callStreams.update p (fun s => ⟨s.toOwnership, f s⟩) (fun _ => rfl)
    (fun _ => rfl)).find? c = _
  exact Table.find?_update

/-- Run an `UPDATE outbox` and return `sqlite3_changes`. -/
def updateOutbox (p : Db → Row → Bool) (f : Row → Progress) : Prog Nat := do
  let db ← get
  set (db.updateOutbox (p db) f)
  return db.outbox.changes (p db)

/-- Run an `UPDATE call_streams` and return `sqlite3_changes`. -/
def updateStreams (p : Db → Stream → Bool) (f : Db → Stream → Cursor) : Prog Nat := do
  let db ← get
  set (db.updateStreams (p db) (f db))
  return db.callStreams.changes (p db)

/-! ## `insert_pending` -/

/-- `COALESCE(sum(length(payload)),0)`. -/
def payloadBytes (t : OutboxTable) : Nat := t.rows.foldl (fun n r => n + r.payload.length) 0

/-- `count(*) >= max_rows || sum(length(payload)) + rec.payload.size() > max_bytes`. -/
def full (lim : Limits) (rec : OutboxRecord) (t : OutboxTable) : Bool :=
  lim.maxRows ≤ t.rows.length ||
    lim.maxBytes < (payloadBytes t + rec.payload.length : Nat)

/-- The `WHERE` of the capacity reclaim. -/
def reclaimable (r : Row) : Bool :=
  r.state = .dead && r.lastError = some "expired_ttl" && !r.grouped

/-- The reclaim's `DELETE`. -/
def Db.reclaim (db : Db) : Db := { db with outbox := db.outbox.delete reclaimable }

/-- A call with a fence in `retired_calls` is refused. -/
def checkRetired (rec : OutboxRecord) (fault : FaultPlan) : Prog Unit := do
  if rec.callUuid ≠ "" then
    let fence ← query (fault .retired) fun db => db.retiredCalls.find? (rec.topic, rec.callUuid)
    require fence.isNone "call explicitly retired; reuse/late admission rejected"

/-- Make room by reclaiming ungrouped TTL rows when there is none, then insist
on room. -/
def makeRoom (lim : Limits) (rec : OutboxRecord) (fault : FaultPlan) : Prog Unit := do
  let noRoom ← query (fault .usage) fun db => full lim rec db.outbox
  if noRoom then
    statement (fault .reclaim) (modify Db.reclaim)
  let stillNoRoom ← query (fault .usageAfter) fun db => full lim rec db.outbox
  require (!stillNoRoom) "outbox capacity exceeded"

/-- The mode a record asks for. -/
def modeOf (rec : OutboxRecord) : Mode := if rec.callSeq.toInt < 0 then .admission else .source

/-- The stream `INSERT INTO call_streams(topic,call_uuid,msg_key,mode)` creates. -/
def newStream (rec : OutboxRecord) : Stream where
  topic := rec.topic
  callUuid := rec.callUuid
  msgKey := rec.msgKey
  mode := modeOf rec
  nextSeq := 0
  admitSeq := 0
  lastServedMs := 0

/-- The sequence the record gets in its stream and whether that is the cursor,
creating the stream when it has none. -/
def position (lim : Limits) (rec : OutboxRecord) (fault : FaultPlan) : Prog (Int × Bool) := do
  let found ← query (fault .stream) fun db => db.callStreams.find? (rec.topic, rec.callUuid)
  match found with
  | some s =>
    require (s.msgKey = rec.msgKey && s.mode = modeOf rec) "call key/order mode changed"
    if rec.callSeq.toInt < 0 then
      return (s.admitSeq, s.admitSeq = s.nextSeq)
    else
      require (s.nextSeq ≤ rec.callSeq.toInt) "source sequence already acknowledged"
      return (rec.callSeq.toInt, rec.callSeq.toInt = s.nextSeq)
  | none =>
    let count ← query (fault .streamCount) fun db => db.callStreams.rows.length
    require (count < lim.maxRows)
      "stream capacity exceeded; inspect capacity; raise limit or explicitly retire proven closed calls"
    statement (fault .createStream) do
      let db ← get
      match db.callStreams.insert (newStream rec) with
      | some t => set { db with callStreams := t }
      | none => throw "UNIQUE constraint failed: call_streams.topic, call_streams.call_uuid"
    let seq := if rec.callSeq.toInt < 0 then 0 else rec.callSeq.toInt
    return (seq, seq = 0)

/-- The order columns of the new row: its sequence, and whether it is
deliverable at once. Claims the sequence in the stream's `admit_seq`. -/
def place (lim : Limits) (rec : OutboxRecord) (fault : FaultPlan) : Prog (Int × Bool) := do
  if rec.callUuid ≠ "" then
    require (rec.msgKey ≠ "") "ordered call requires nonempty key"
    let (seq, deliverableNow) ← position lim rec fault
    require (0 ≤ seq && seq ≠ int64Max) "source sequence out of range"
    let _ ← statement (fault .admitSeq)
      (updateStreams (fun _ s => s.call = (rec.topic, rec.callUuid))
        (fun _ s => { s.toCursor with admitSeq := max s.admitSeq (inc64 seq) }))
    return (seq, deliverableNow)
  else
    require (rec.callSeq.toInt < 0) "source sequence requires call_uuid"
    return (rec.callSeq.toInt, true)

/-- `rec.created_at_ms ? rec.created_at_ms : wall_now_ms()`. -/
def createdAt (rec : OutboxRecord) (now : Int) : Int :=
  if rec.createdAtMs ≠ 0 then rec.createdAtMs else now

/-- The row `INSERT INTO outbox` writes. -/
def newRow (rec : OutboxRecord) (now seq : Int) (deliverableNow : Bool) : Row where
  eventId := rec.eventId
  topic := rec.topic
  msgKey := some rec.msgKey
  payload := rec.payload
  createdAtMs := createdAt rec now
  callUuid := some rec.callUuid
  callSeq := if rec.callUuid = "" then none else some seq
  state := .pending
  attempts := 0
  nextAttemptAtMs := if rec.nextAttemptAtMs ≠ 0 then rec.nextAttemptAtMs else createdAt rec now
  lastError := some ""
  updatedAtMs := createdAt rec now
  eligibleAtMs := if deliverableNow then some (createdAt rec now) else none

/-- What SQLite says of a row that is not unique: `idx_outbox_seq` is checked before the
primary key. -/
def notUnique (t : OutboxTable) (row : Row) : String :=
  if row.seqIndex.isSome ∧ row.seqIndex ∈ t.rows.map fun r => r.seqIndex then
    "UNIQUE constraint failed: outbox.topic, outbox.call_uuid, outbox.call_seq"
  else "UNIQUE constraint failed: outbox.event_id"

/-- `Outbox::insert_pending`; its value is `*assigned_sequence`. -/
def insertPending (lim : Limits) (rec : OutboxRecord) (now : Int) (fault : FaultPlan) :
    Prog Int :=
  transaction (fault .beginTx) (fault .commitTx) do
    checkRetired rec fault
    makeRoom lim rec fault
    let (seq, deliverableNow) ← place lim rec fault
    statement (fault .insertRow) do
      let db ← get
      match db.outbox.insert (newRow rec now seq deliverableNow) with
      | some t => set { db with outbox := t }
      | none => throw (notUnique db.outbox (newRow rec now seq deliverableNow))
    return if rec.callUuid = "" then -1 else seq

/-! ## `mark_in_flight` and `mark_acked` -/

/-- The row may be sent now: it is the pending row `id` and deliverable. -/
def sendable (id : String) (db : Db) (r : Row) : Bool :=
  r.eventId = id && r.state = .pending && db.deliverable r.toEvent

/-- `Outbox::mark_in_flight`. -/
def markInFlight (id : String) (now : Int) (fault : FaultPlan) : Prog Unit :=
  transaction (fault .beginTx) (fault .commitTx) do
    let changed ← statement (fault .inFlight) (updateOutbox (sendable id) fun r =>
      { r.toProgress with state := .inFlight, attempts := r.attempts + 1, updatedAtMs := now })
    require (changed = 1) "not a pending call head"
    let ticked ← statement (fault .tick) do
      let db ← get
      if db.turn < int64Max then
        set { db with turn := db.turn + 1 }
        return 1
      else
        return 0
    require (ticked = 1) "scheduler turn exhausted"
    let _ ← statement (fault .served) (updateStreams
      (fun db s => (db.outbox.find? id).any fun r =>
        r.topic = s.topic && r.callUuid = some s.callUuid)
      (fun db s => { s.toCursor with lastServedMs := db.turn }))

/-- The `WHERE` of the promotion: the unstamped row one sequence after `r`. -/
def successor (r q : Row) : Bool :=
  q.topic = r.topic && q.callUuid = some r.uuid &&
    q.callSeq = some (inc64 (r.callSeq.getD 0)) && q.eligibleAtMs = none

/-- `Outbox::mark_acked`. The successor that the cursor reaches is stamped. -/
def markAcked (id : String) (now : Int) (fault : FaultPlan) : Prog Unit :=
  transaction (fault .beginTx) (fault .commitTx) do
    let found ← query (fault .head) fun db =>
      (db.outbox.find? id).filter fun r => r.state = .inFlight
    match found with
    | none => throw "ACK for non-in-flight event"
    | some r =>
      if r.uuid ≠ "" then
        let moved ← statement (fault .cursor) (updateStreams
          (fun _ s => s.call = (r.topic, r.uuid) && s.nextSeq = r.callSeq.getD 0)
          (fun _ s => { s.toCursor with nextSeq := s.nextSeq + 1 }))
        require (moved = 1) "ACK is not the call head"
        let _ ← statement (fault .promote) (updateOutbox (fun _ => successor r)
          fun q => { q.toProgress with eligibleAtMs := some now })
      statement (fault .deleteRow)
        (modify fun db => { db with outbox := db.outbox.delete fun q => q.eventId = id })

/-! ## The single-statement transitions -/

/-- An autocommitted `UPDATE outbox` whose affected-row count must be one. -/
def updateOne (fault : Option String) (p : Row → Bool) (f : Row → Progress) (msg : String) :
    Prog Unit := do
  let changed ← statement fault (updateOutbox (fun _ => p) f)
  require (changed = 1) msg

/-- `Outbox::mark_retry`. -/
def markRetry (id : String) (next : Int) (error : String) (now : Int) (fault : FaultPlan) :
    Prog Unit :=
  updateOne (fault .retry) (fun r => r.eventId = id && r.state = .inFlight)
    (fun r => { r.toProgress with
      state := .pending, nextAttemptAtMs := next, lastError := some error, updatedAtMs := now })
    "retry for non-in-flight event"

/-- `Outbox::mark_dead`. -/
def markDead (id : String) (error : String) (now : Int) (fault : FaultPlan) : Prog Unit :=
  updateOne (fault .dead)
    (fun r => r.eventId = id && (r.state = .pending || r.state = .inFlight))
    (fun r => { r.toProgress with state := .dead, lastError := some error, updatedAtMs := now })
    "dead transition has no live row"

/-- `Outbox::retry_dead`, with its two clock readings. -/
def retryDead (id : String) (now₁ now₂ : Int) (fault : FaultPlan) : Prog Unit :=
  updateOne (fault .revive) (fun r => r.eventId = id && r.state = .dead)
    (fun r => { r.toProgress with
      state := .pending, nextAttemptAtMs := now₁, updatedAtMs := now₂, lastError := some "" })
    "no dead row to retry"

/-- `Outbox::requeue_in_flight`, with its two clock readings. -/
def requeueInFlight (now₁ now₂ : Int) (fault : FaultPlan) : Prog Unit := do
  let _ ← statement (fault .requeue) (updateOutbox (fun _ r => r.state = .inFlight) fun r =>
    { r.toProgress with state := .pending, nextAttemptAtMs := now₁, updatedAtMs := now₂ })

/-- The `WHERE` of `expire_ttl`. -/
def expires (now ttl : Int) (db : Db) (r : Row) : Bool :=
  r.state = .pending && (r.eligibleAtMs.any fun t => ttl < now - t) &&
    db.deliverable r.toEvent

/-- The `UPDATE` of `expire_ttl`; its value is the number of rows it marks. -/
def expireTtl (now ttl : Int) (fault : FaultPlan) : Prog Int := do
  let changed ← statement (fault .expire) (updateOutbox (expires now ttl) fun r =>
    { r.toProgress with state := .dead, lastError := some "expired_ttl", updatedAtMs := now })
  return changed

/-! ## Queries -/

/-- `ORDER BY COALESCE(s.last_served_ms,0),o.created_at_ms`; the rows come in
rowid order and the sort is stable. -/
def dueLe (db : Db) (r q : Row) : Prop :=
  let a := ((db.streamOf r.toEvent).map fun s => s.lastServedMs).getD 0
  let b := ((db.streamOf q.toEvent).map fun s => s.lastServedMs).getD 0
  a < b ∨ a = b ∧ r.createdAtMs ≤ q.createdAtMs

instance (db : Db) : DecidableRel (dueLe db) := fun _ _ =>
  inferInstanceAs (Decidable (_ ∨ _ ∧ _))

/-- The `WHERE` of `fetch_due`. -/
def due (now : Int) (db : Db) (r : Row) : Bool :=
  r.state = .pending && r.nextAttemptAtMs ≤ now && db.deliverable r.toEvent

/-- `Outbox::fetch_due`. A negative `LIMIT` is no limit. -/
def fetchDue (now : Int) (limit : Int) (fault : FaultPlan) : Prog (List OutboxRecord) :=
  statement (fault .fetchDue) do
    let db ← get
    let sorted := (db.outbox.rows.filter (due now db)).insertionSort (dueLe db)
    return (if limit < 0 then sorted else sorted.take limit.toNat).map record

/-- `Outbox::get`. -/
def getRecord (id : String) (fault : FaultPlan) : Prog (Option OutboxRecord) :=
  query (fault .getRow) fun db => (db.outbox.find? id).map record

/-! ## `open` -/

/-- A grouped row without a sequence or without its stream. -/
def corrupt (db : Db) (r : Row) : Bool :=
  r.grouped && (r.callSeq = none || (db.streamOf r.toEvent).isNone)

/-- `Outbox::open` on a database of the current schema. The file is locked and
opened first, then one transaction checks it and stamps deliverable rows. -/
def openDb (fault : FaultPlan) : Prog Unit := do
  statement (fault .openFile) (pure ())
  transaction (fault .beginTx) (fault .commitTx) do
    statement (fault .schema) (pure ())
    let corrupted ← query (fault .checkCursors) fun db => db.outbox.rows.any (corrupt db)
    require (!corrupted) "corrupt ordered outbox/cursor"
    let retiredActive ← query (fault .checkRetired) fun db =>
      db.retiredCalls.rows.any fun f => (db.callStreams.find? f.call).isSome
    require (!retiredActive) "retired call still has active cursor"
    let _ ← statement (fault .stamp) (updateOutbox
      (fun db r => r.eligibleAtMs = none && db.deliverable r.toEvent)
      (fun r => { r.toProgress with eligibleAtMs := some r.createdAtMs }))

end EventKafka
