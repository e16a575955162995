import EventKafka.Lib.Table
import Mathlib.Algebra.Order.Group.Int

/-! # The outbox database

The four tables of `kafka_outbox.cpp` (schema version 5), one structure a table:

* `outbox` holds the admitted events. A row is split into the columns written
  once at admission (`Event`) and those the transitions rewrite (`Progress`); no
  `UPDATE` of the source assigns a column of the first kind.
* `call_streams` holds one stream for each `(topic, call_uuid)`, split the same
  way into its key and mode (`Ownership`) and its cursor (`Cursor`).
* `retired_calls` holds the fences of retired calls.
* `order_scheduler` is its single counter, the service turn.

`event_id` is the primary key of `outbox`, `idx_outbox_seq` its unique index
over `(topic, call_uuid, call_seq)`; both are fields of `Sql.Table`. Nullable
columns are `Option`s. `TEXT` is `String`, the payload `BLOB` a list of bytes,
`INTEGER` an `Int`; that the sequence columns stay inside `int64_t` is proved,
not assumed.
-/

namespace EventKafka

/-- `INT64_MAX`. -/
def int64Max : Int := 9223372036854775807

/-- `x + 1` on `int64_t`. -/
def inc64 (x : Int) : Int := Int.bmod (x + 1) UInt64.size

theorem inc64_eq {x : Int} (hlo : 0 ≤ x) (hhi : x < int64Max) : inc64 x = x + 1 := by
  unfold int64Max at hhi
  unfold inc64 UInt64.size
  rw [Int.bmod_eq_of_le] <;> omega

/-- `int(x)`: the value of an `INTEGER` column read into a C++ `int`. -/
def toInt32 (x : Int) : Int := Int.bmod x UInt32.size

/-- `OutboxState`, and the `state` column. -/
inductive OutboxState where
  | pending
  | inFlight
  | dead
deriving DecidableEq, Repr

/-- The text of a state in the `state` column. -/
def OutboxState.text : OutboxState → String
  | .pending => "pending"
  | .inFlight => "in_flight"
  | .dead => "dead"

/-- The `mode` column of `call_streams`. -/
inductive Mode where
  | admission
  | source
deriving DecidableEq, Repr

/-- The text of a mode in the `mode` column. -/
def Mode.text : Mode → String
  | .admission => "admission"
  | .source => "source"

/-- `OutboxRecord`, the record the C++ interface takes and returns. A negative
`callSeq` asks for the next admission ordinal. -/
structure OutboxRecord where
  eventId : String
  topic : String
  msgKey : String
  payload : List UInt8
  state : OutboxState
  attempts : Int
  nextAttemptAtMs : Int
  lastError : String
  createdAtMs : Int
  updatedAtMs : Int
  callUuid : String
  callSeq : Int64
deriving DecidableEq, Repr

/-- The default `OutboxRecord`. -/
def OutboxRecord.default : OutboxRecord where
  eventId := ""
  topic := ""
  msgKey := ""
  payload := []
  state := .pending
  attempts := 0
  nextAttemptAtMs := 0
  lastError := ""
  createdAtMs := 0
  updatedAtMs := 0
  callUuid := ""
  callSeq := -1

/-- A call: `(topic, call_uuid)`. -/
abbrev Call := String × String

/-! ## Rows -/

/-- The columns of `outbox` that only `INSERT` writes. -/
structure Event where
  eventId : String
  topic : String
  msgKey : Option String
  payload : List UInt8
  createdAtMs : Int
  callUuid : Option String
  callSeq : Option Int
deriving DecidableEq, Repr

/-- The columns of `outbox` that the transitions rewrite. -/
structure Progress where
  state : OutboxState
  attempts : Int
  nextAttemptAtMs : Int
  lastError : Option String
  updatedAtMs : Int
  eligibleAtMs : Option Int
deriving DecidableEq, Repr

/-- A row of `outbox`. -/
structure Row extends Event, Progress
deriving DecidableEq, Repr

/-- `COALESCE(call_uuid,'')`. -/
def Event.uuid (r : Event) : String := r.callUuid.getD ""

/-- The row belongs to a call: `COALESCE(call_uuid,'')<>''`. -/
def Event.grouped (r : Event) : Bool := r.uuid ≠ ""

/-- The call of a grouped row. -/
def Event.call (r : Event) : Call := (r.topic, r.uuid)

/-- The row is one of call `c`. -/
def Row.ofCall (c : Call) (r : Row) : Bool := r.grouped && r.call = c

/-- The entry of `idx_outbox_seq`; a NULL column keeps the row out of it. -/
def Event.seqIndex (r : Event) : Option (String × String × Int) :=
  match r.callUuid, r.callSeq with
  | some c, some k => some (r.topic, c, k)
  | _, _ => none

/-- The columns of `call_streams` that only `INSERT` writes. -/
structure Ownership where
  topic : String
  callUuid : String
  msgKey : String
  mode : Mode
deriving DecidableEq, Repr

/-- The columns of `call_streams` that admission, service and ACK advance. -/
structure Cursor where
  nextSeq : Int
  admitSeq : Int
  lastServedMs : Int
deriving DecidableEq, Repr

/-- A row of `call_streams`. -/
structure Stream extends Ownership, Cursor
deriving DecidableEq, Repr

/-- `PRIMARY KEY(topic,call_uuid)`. -/
def Ownership.call (s : Ownership) : Call := (s.topic, s.callUuid)

/-- A row of `retired_calls`. -/
structure RetiredCall where
  topic : String
  callUuid : String
  msgKey : String
  nextSeq : Int
  retiredAtMs : Int
  reason : String
deriving DecidableEq, Repr

/-- `PRIMARY KEY(topic,call_uuid)`. -/
def RetiredCall.call (f : RetiredCall) : Call := (f.topic, f.callUuid)

/-! ## The database -/

/-- The `outbox` table. -/
abbrev OutboxTable :=
  Sql.Table (fun r : Row => r.eventId) (fun r : Row => r.seqIndex)

/-- The `call_streams` table. -/
abbrev StreamTable :=
  Sql.Table (fun s : Stream => s.call) (Sql.noIndex (α := Stream))

/-- The durable state. -/
structure Db where
  outbox : OutboxTable
  callStreams : StreamTable
  retiredCalls : Sql.Table RetiredCall.call Sql.noIndex
  turn : Int
deriving DecidableEq

/-- A fresh database, as the first `open` creates it. -/
def Db.empty : Db := ⟨.empty, .empty, .empty, 0⟩

/-- The stream a row joins to on `(topic, call_uuid)`; a NULL `call_uuid` joins
to none. -/
def Db.streamOf (db : Db) (r : Event) : Option Stream :=
  r.callUuid.bind fun c => db.callStreams.find? (r.topic, c)

/-- `call_seq=(SELECT next_seq FROM call_streams s WHERE s.topic=outbox.topic AND
s.call_uuid=outbox.call_uuid)`. -/
def Db.isHead (db : Db) (r : Event) : Bool :=
  (db.streamOf r).any fun s => r.callSeq = some s.nextSeq

/-- The condition shared by `fetch_due`, `mark_in_flight`, `expire_ttl` and the
stamp of `open`: the row is ungrouped, or the head of its call. -/
def Db.deliverable (db : Db) (r : Event) : Bool := !r.grouped || db.isHead r

/-- `record(Statement&)`: a row as the C++ interface returns it. -/
def record (r : Row) : OutboxRecord where
  eventId := r.eventId
  topic := r.topic
  msgKey := r.msgKey.getD ""
  payload := r.payload
  state := r.state
  attempts := toInt32 r.attempts
  nextAttemptAtMs := r.nextAttemptAtMs
  lastError := r.lastError.getD ""
  createdAtMs := r.createdAtMs
  updatedAtMs := r.updatedAtMs
  callUuid := r.uuid
  callSeq := (r.callSeq.map Int64.ofInt).getD (-1)

/-! ## Reading the conditions -/

theorem Event.grouped_iff {r : Event} : r.grouped = true ↔ ∃ c, r.callUuid = some c ∧ c ≠ "" := by
  cases h : r.callUuid with
  | none => simp [Event.grouped, Event.uuid, h]
  | some c => simp [Event.grouped, Event.uuid, h]

theorem Event.grouped_eq_false {r : Event} : r.grouped = false ↔ r.uuid = "" := by
  by_cases h : r.uuid = "" <;> simp [Event.grouped, h]

theorem Event.grouped_of_call {e : Event} {c : Call} (hcall : e.call = c) (hc : c.2 ≠ "") :
    e.grouped = true := by
  subst hcall
  simpa [Event.grouped, Event.call] using hc

/-- The events of a call are all grouped, or none is. -/
theorem Event.grouped_congr {e e' : Event} (hcall : e.call = e'.call) :
    e.grouped = e'.grouped := by
  have huuid : e.uuid = e'.uuid := congrArg Prod.snd hcall
  rw [Event.grouped, Event.grouped, huuid]

theorem Row.ofCall_iff {c : Call} {r : Row} :
    r.ofCall c = true ↔ r.grouped = true ∧ r.call = c := by
  simp [Row.ofCall]

theorem Event.seqIndex_eq {r : Event} {t c : String} {k : Int} :
    r.seqIndex = some (t, c, k) ↔ r.topic = t ∧ r.callUuid = some c ∧ r.callSeq = some k := by
  unfold Event.seqIndex
  cases r.callUuid <;> cases r.callSeq <;> simp

/-- A grouped row joins to the stream of its call. -/
theorem Db.streamOf_of_grouped {db : Db} {r : Event} (h : r.grouped = true) :
    db.streamOf r = db.callStreams.find? r.call := by
  rcases Event.grouped_iff.mp h with ⟨c, hc, -⟩
  simp [Db.streamOf, Event.call, Event.uuid, hc]

theorem Db.isHead_of_grouped {db : Db} {r : Event} (h : r.grouped = true) :
    db.isHead r = true ↔
      ∃ s ∈ db.callStreams, s.call = r.call ∧ r.callSeq = some s.nextSeq := by
  rw [Db.isHead, Db.streamOf_of_grouped h]
  cases hf : db.callStreams.find? r.call with
  | none =>
    rw [Sql.Table.find?_eq_none] at hf
    constructor
    · intro hno
      simp at hno
    · rintro ⟨s, hs, hcall, -⟩
      exact absurd hcall (hf s hs)
  | some s =>
    rw [Sql.Table.find?_eq_some] at hf
    constructor
    · intro hseq
      exact ⟨s, hf.1, hf.2, by simpa using hseq⟩
    · rintro ⟨s', hs', hcall, hseq⟩
      have heq : s' = s := Sql.Table.eq_of_key hs' hf.1 (hcall.trans hf.2.symm)
      subst heq
      simpa using hseq

end EventKafka
