import EventKafka.Outbox.Operations

/-! # Retirement, and the life of a database

`outbox_ops.py retire` works on a copy of the database: it reads the source under
the module's own lock, replaces the cursor of one proven closed call by a fence in
`retired_calls`, and publishes the copy only when every check passed. `retire` is
that run with the copy put in the place of the database, so a run that raises
leaves the database as it was. The `operations_audit` table it also writes is read
by nobody and left out, as is the fingerprint of the rows, which this command
does not write.

A life is any sequence of module calls and retirements.
-/

namespace EventKafka

open Sql

/-- The arguments of `retire`. -/
structure RetireArgs where
  topic : String
  callId : String
  reason : String
  maxRows : Int
  offlineConfirm : Bool
  rejectFutureCallId : Bool
deriving DecidableEq, Repr

/-- `str.isspace` on one character. -/
def isSpace (c : Char) : Bool :=
  let n := c.toNat
  (9 ≤ n && n ≤ 13) || (28 ≤ n && n ≤ 32) || n = 0x85 || n = 0xA0 || n = 0x1680 ||
    (0x2000 ≤ n && n ≤ 0x200A) || n = 0x2028 || n = 0x2029 || n = 0x202F || n = 0x205F ||
    n = 0x3000

/-- `not s.strip()`. -/
def blank (s : String) : Bool := s.toList.all isSpace

/-- The call the arguments name. -/
def RetireArgs.call (args : RetireArgs) : Call := (args.topic, args.callId)

/-- The fence of a retired stream. -/
def RetireArgs.fence (args : RetireArgs) (s : Stream) (atMs : Int) : RetiredCall where
  topic := args.topic
  callUuid := args.callId
  msgKey := s.msgKey
  nextSeq := s.nextSeq
  retiredAtMs := atMs
  reason := args.reason

/-- The checks on the command line, in `main` and in `run`. -/
def checkArgs (args : RetireArgs) : Prog Unit := do
  require (0 < args.maxRows) "positive --max-rows and a new --output for copy operations required"
  require (args.topic ≠ "" && args.callId ≠ "") "--topic and --call-id required"
  require args.offlineConfirm
    "stop all writers first; --offline-confirm is required (old binaries ignore flock)"
  require args.rejectFutureCallId
    "--reject-future-call-id is required; retirement permanently rejects this topic/call ID"

/-- `outbox_ops.py retire`. The first fault is any failure before the copy is
open, the last any failure to commit and publish it. -/
def retire (args : RetireArgs) (atMs : Int) (fault : FaultPlan) : Prog Unit := do
  checkArgs args
  transaction (fault .backup) (fault .publish) do
    require (!blank args.reason) "auditable retirement reason required"
    let cursor ← query (fault .cursorOf) fun db => db.callStreams.find? args.call
    match cursor.filter fun s => s.nextSeq = s.admitSeq with
    | none => throw "missing cursor or unresolved sequence gap"
    | some s =>
      let queued ← query (fault .rowsOf) fun db =>
        db.outbox.changes fun r => r.topic = args.topic && r.callUuid = some args.callId
      require (queued = 0) "cannot retire any pending/in_flight/dead/TTL record"
      let fences ← query (fault .fenceCount) fun db => db.retiredCalls.rows.length
      require (fences < args.maxRows) "retirement fence capacity exceeded; no fence eviction"
      statement (fault .fence) do
        let db ← get
        match db.retiredCalls.insert (args.fence s atMs) with
        | some t => set { db with retiredCalls := t }
        | none => throw "UNIQUE constraint failed: retired_calls.topic, retired_calls.call_uuid"
      statement (fault .dropCursor)
        (modify fun db => { db with callStreams := db.callStreams.delete fun q => q.call = args.call })
      let fits ← query (fault .inventory) fun db =>
        decide (db.callStreams.rows.length ≤ args.maxRows) &&
          decide (db.outbox.rows.length ≤ args.maxRows)
      require fits "configured capacity insufficient for copied data; raise explicitly, never discard"

/-! ## What a retirement does -/

/-- What a successful `retire` of the stream `s` does: the call was closed, its
cursor becomes a fence and nothing else changes. -/
structure Retirement (args : RetireArgs) (atMs : Int) (db db' : Db) (s : Stream) : Prop where
  stream : s ∈ db.callStreams
  call : s.call = args.call
  named : args.callId ≠ ""
  closed : s.nextSeq = s.admitSeq
  empty : ∀ r ∈ db.outbox, r.topic = args.topic → r.callUuid ≠ some args.callId
  streams : db'.callStreams = db.callStreams.delete fun q => q.call = args.call
  fences : db.retiredCalls.insert (args.fence s atMs) = some db'.retiredCalls
  outbox : db'.outbox = db.outbox
  turn : db'.turn = db.turn

theorem retire_ok {args : RetireArgs} {atMs : Int} {fault : FaultPlan} {db db' : Db} {u : Unit}
    (h : (retire args atMs fault).run db = .ok u db') :
    ∃ s, Retirement args atMs db db' s := by
  simp only [retire, checkArgs, run_transaction_ok, run_bind_ok, run_require_ok,
    run_query_ok] at h
  obtain ⟨_, _, ⟨_, _, ⟨-, rfl⟩, _, _, ⟨hnames, rfl⟩, _, _, ⟨-, rfl⟩, -, rfl⟩, -, -,
    _, _, ⟨-, rfl⟩, _, _, ⟨-, rfl, rfl⟩, h⟩ := h
  cases hfind : (db.callStreams.find? args.call).filter fun s => s.nextSeq = s.admitSeq with
  | none => simp [hfind] at h
  | some s =>
    rcases Option.filter_eq_some_iff.mp hfind with ⟨hf, hclosed⟩
    rcases Table.find?_eq_some.mp hf with ⟨hs, hcall⟩
    simp only [hfind, run_bind_ok, run_query_ok, run_require_ok, run_statement_ok, run_get_ok,
      run_modify_ok, decide_eq_true_eq] at h
    obtain ⟨_, _, ⟨-, rfl, rfl⟩, _, _, ⟨hqueued, rfl⟩, _, _, ⟨-, rfl, rfl⟩, _, _, ⟨-, rfl⟩,
      _, _, ⟨-, _, _, ⟨rfl, rfl⟩, hfence⟩, _, _, ⟨-, rfl⟩, _, _, ⟨-, rfl, rfl⟩, -, rfl⟩ := h
    cases hins : db.retiredCalls.insert (args.fence s atMs) with
    | none => simp [hins] at hfence
    | some t =>
      simp only [hins, run_set_ok] at hfence
      subst hfence
      refine ⟨s, hs, hcall, ?_, of_decide_eq_true hclosed, ?_, rfl, hins, rfl, rfl⟩
      · rw [Bool.and_eq_true, decide_eq_true_eq, decide_eq_true_eq] at hnames
        exact hnames.2
      · intro r hr htopic huuid
        have hno := Table.changes_eq_zero.mp hqueued r hr
        simp [htopic, huuid] at hno

/-! ## Lives -/

/-- One event in the life of a database. -/
inductive LifeOp where
  | call (op : Op)
  | retire (args : RetireArgs) (atMs : Int) (fault : FaultPlan)

/-- One step of a life. A retirement needs the lock the open module holds. -/
def Outbox.live (b : Outbox) : LifeOp → Outbox
  | .call op => b.step op
  | .retire args atMs fault =>
    if b.isOpen then b
    else
      match (EventKafka.retire args atMs fault).run b.db with
      | .ok _ db => { b with db := db }
      | .error _ _ => b

/-- What a step of a life does. -/
inductive LifeOutcome (b : Outbox) : LifeOp → Prop where
  | call {op : Op} (h : Outcome b op) : LifeOutcome b (.call op)
  | refused {args : RetireArgs} {atMs : Int} {fault : FaultPlan}
      (h : b.live (.retire args atMs fault) = b) : LifeOutcome b (.retire args atMs fault)
  | retired {args : RetireArgs} {atMs : Int} {fault : FaultPlan} {s : Stream}
      (h : Retirement args atMs b.db (b.live (.retire args atMs fault)).db s) :
      LifeOutcome b (.retire args atMs fault)

theorem Outbox.lifeOutcome (b : Outbox) (act : LifeOp) : LifeOutcome b act := by
  cases act with
  | call op => exact .call (b.outcome op)
  | retire args atMs fault =>
    cases hopen : b.isOpen with
    | true => exact .refused (by simp [Outbox.live, hopen])
    | false =>
      cases hrun : (EventKafka.retire args atMs fault).run b.db with
      | error e db => exact .refused (by simp [Outbox.live, hopen, hrun])
      | ok u db =>
        rcases retire_ok hrun with ⟨s, hs⟩
        exact .retired (s := s) (by simpa [Outbox.live, hopen, hrun] using hs)

end EventKafka
