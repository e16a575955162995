import EventKafka.Outbox.Store

/-! # The outbox file

A SQLite file as `Outbox::open` may find it: no table yet, the tables of an older
schema, or those of the current one. The columns and indexes that came with later
versions are flags of the table, and an absent column reads as NULL.

`DbFile` is wider than `Db`: `event_id` may be NULL, which SQLite allows in a `TEXT`
primary key, and `state` and `mode` are any text. `DbFile.ofDb` is the file behind a
database of the current version. A table that lacks one of the other columns makes
the statement that names it fail; such failures are faults of the statement.
-/

namespace EventKafka

open Sql

/-- A row of `outbox` in the file. -/
structure FileRow where
  eventId : Option String
  topic : String
  msgKey : Option String
  payload : List UInt8
  state : String
  attempts : Int
  nextAttemptAtMs : Int
  lastError : Option String
  createdAtMs : Int
  updatedAtMs : Int
  callUuid : Option String
  callSeq : Option Int
  eligibleAtMs : Option Int
deriving DecidableEq, Repr

/-- `COALESCE(call_uuid,'')`. -/
def FileRow.uuid (r : FileRow) : String := r.callUuid.getD ""

/-- `COALESCE(call_uuid,'')<>''`. -/
def FileRow.grouped (r : FileRow) : Bool := r.uuid ≠ ""

/-- The entry of `idx_outbox_seq`; a NULL column keeps the row out of it. -/
def FileRow.seqIndex (r : FileRow) : Option (String × String × Int) :=
  match r.callUuid, r.callSeq with
  | some c, some k => some (r.topic, c, k)
  | _, _ => none

/-- The table `outbox`, with what its versions add. -/
structure FileTable where
  rows : List FileRow
  /-- The column `call_seq` exists. -/
  hasSeq : Bool
  /-- The column `eligible_at_ms` exists. -/
  hasEligible : Bool
  /-- The unique index `idx_outbox_seq` exists. -/
  seqIndexed : Bool
  dueIndexed : Bool
  ttlIndexed : Bool
  key_nodup : (rows.filterMap FileRow.eventId).Nodup
  seq_null : hasSeq = false → ∀ r ∈ rows, r.callSeq = none
  eligible_null : hasEligible = false → ∀ r ∈ rows, r.eligibleAtMs = none
  index_nodup : seqIndexed = true → (rows.filterMap FileRow.seqIndex).Nodup
deriving DecidableEq

@[ext] theorem FileTable.ext {t t' : FileTable} (hrows : t.rows = t'.rows)
    (hseq : t.hasSeq = t'.hasSeq) (heligible : t.hasEligible = t'.hasEligible)
    (hindex : t.seqIndexed = t'.seqIndexed) (hdue : t.dueIndexed = t'.dueIndexed)
    (httl : t.ttlIndexed = t'.ttlIndexed) : t = t' := by
  cases t
  cases t'
  simp_all

/-- The table `CREATE TABLE` makes. -/
def FileTable.empty : FileTable where
  rows := []
  hasSeq := true
  hasEligible := true
  seqIndexed := false
  dueIndexed := false
  ttlIndexed := false
  key_nodup := List.nodup_nil
  seq_null := by simp
  eligible_null := by simp
  index_nodup := by simp

/-- A row of `call_streams` in the file. -/
structure FileStream extends Cursor where
  topic : String
  callUuid : String
  msgKey : String
  mode : String
deriving DecidableEq, Repr

/-- `PRIMARY KEY(topic,call_uuid)`. -/
def FileStream.call (s : FileStream) : Call := (s.topic, s.callUuid)

/-- The table `call_streams` in the file. -/
abbrev FileStreamTable := Sql.Table FileStream.call (Sql.noIndex (α := FileStream))

/-- The table `retired_calls`. -/
abbrev RetiredTable := Sql.Table RetiredCall.call (Sql.noIndex (α := RetiredCall))

/-- The file. `none` is a table that does not exist. -/
structure DbFile where
  outbox : Option FileTable
  callStreams : Option FileStreamTable
  retiredCalls : Option RetiredTable
  /-- `order_scheduler` and its row, if it has one; `CHECK(id=1)` allows no second. -/
  scheduler : Option (Option Int)
  userVersion : Int
  /-- `PRAGMA journal_mode` is WAL. -/
  wal : Bool
deriving DecidableEq

/-- A file that `sqlite3_open` has just created. -/
def DbFile.new : DbFile := ⟨none, none, none, none, 0, false⟩

/-! ## Reading the file -/

def DbFile.rows (f : DbFile) : List FileRow := (f.outbox.getD .empty).rows

def DbFile.streams (f : DbFile) : List FileStream := (f.callStreams.getD .empty).rows

def DbFile.fences (f : DbFile) : List RetiredCall := (f.retiredCalls.getD .empty).rows

/-- The stream a row joins to; a NULL `call_uuid` joins to none. -/
def DbFile.streamOf (f : DbFile) (r : FileRow) : Option FileStream :=
  r.callUuid.bind fun c => f.streams.find? fun s => s.call = (r.topic, c)

/-- The row is ungrouped, or the head of its call. -/
def DbFile.deliverable (f : DbFile) (r : FileRow) : Bool :=
  !r.grouped || (f.streamOf r).any fun s => r.callSeq = some s.nextSeq

/-- A grouped row without a sequence or without its stream. -/
def DbFile.corrupt (f : DbFile) (r : FileRow) : Bool :=
  r.grouped && (r.callSeq = none || (f.streamOf r).isNone)

/-- A call is both retired and active. -/
def DbFile.retiredActive (f : DbFile) : Bool :=
  f.fences.any fun q => f.streams.any fun s => q.call = s.call

/-- `COALESCE(MAX(last_served_ms),0)`. -/
def DbFile.maxServed (f : DbFile) : Int :=
  match f.streams with
  | [] => 0
  | s :: rest => rest.foldl (fun m s => max m s.lastServedMs) s.lastServedMs

theorem le_foldl_served (l : List FileStream) (m : Int) :
    m ≤ l.foldl (fun m s => max m s.lastServedMs) m ∧
      ∀ s ∈ l, s.lastServedMs ≤ l.foldl (fun m s => max m s.lastServedMs) m := by
  induction l generalizing m with
  | nil => simp
  | cons q l ih =>
    rcases ih (max m q.lastServedMs) with ⟨hm, hl⟩
    rw [List.foldl_cons]
    constructor
    · exact (le_max_left ..).trans hm
    · intro s hs
      rcases List.mem_cons.mp hs with rfl | hs
      · exact (le_max_right ..).trans hm
      · exact hl s hs

theorem DbFile.le_maxServed (f : DbFile) {s : FileStream} (hs : s ∈ f.streams) :
    s.lastServedMs ≤ f.maxServed := by
  unfold DbFile.maxServed
  split
  · rename_i hnil
    simp [hnil] at hs
  · rename_i q rest hcons
    rw [hcons] at hs
    rcases List.mem_cons.mp hs with rfl | hs
    · exact (le_foldl_served rest _).1
    · exact (le_foldl_served rest _).2 s hs

/-! ## The current version -/

/-- A row of the current version, in the file. -/
def Row.toFile (r : Row) : FileRow where
  eventId := some r.eventId
  topic := r.topic
  msgKey := r.msgKey
  payload := r.payload
  state := r.state.text
  attempts := r.attempts
  nextAttemptAtMs := r.nextAttemptAtMs
  lastError := r.lastError
  createdAtMs := r.createdAtMs
  updatedAtMs := r.updatedAtMs
  callUuid := r.callUuid
  callSeq := r.callSeq
  eligibleAtMs := r.eligibleAtMs

/-- A stream of the current version, in the file. -/
def Stream.toFile (s : Stream) : FileStream where
  toCursor := s.toCursor
  topic := s.topic
  callUuid := s.callUuid
  msgKey := s.msgKey
  mode := s.mode.text

theorem filterMap_toFile_eventId (l : List Row) :
    (l.map Row.toFile).filterMap FileRow.eventId = l.map fun r => r.eventId := by
  rw [List.filterMap_map]
  exact congrFun (List.filterMap_eq_map (f := fun r : Row => r.eventId)) l

theorem filterMap_toFile_seqIndex (l : List Row) :
    (l.map Row.toFile).filterMap FileRow.seqIndex = l.filterMap fun r => r.seqIndex := by
  rw [List.filterMap_map]
  rfl

/-- The table of a database of the current version. -/
def FileTable.ofOutbox (t : OutboxTable) : FileTable where
  rows := t.rows.map Row.toFile
  hasSeq := true
  hasEligible := true
  seqIndexed := true
  dueIndexed := true
  ttlIndexed := true
  key_nodup := by
    rw [filterMap_toFile_eventId]
    exact t.key_nodup
  seq_null := by simp
  eligible_null := by simp
  index_nodup := by
    intro _
    rw [filterMap_toFile_seqIndex]
    exact t.index_nodup

/-- The streams of a database of the current version. -/
def FileStreamTable.ofStreams (t : StreamTable) : FileStreamTable where
  rows := t.rows.map Stream.toFile
  key_nodup := by
    rw [List.map_map]
    exact t.key_nodup
  index_nodup := by
    rw [List.filterMap_map]
    exact t.index_nodup

/-- The file of a database of the current version. -/
def DbFile.ofDb (db : Db) : DbFile where
  outbox := some (.ofOutbox db.outbox)
  callStreams := some (.ofStreams db.callStreams)
  retiredCalls := some db.retiredCalls
  scheduler := some (some db.turn)
  userVersion := 5
  wal := true

end EventKafka
