import EventKafka.File.Open
import EventKafka.File.Migrate
import EventKafka.Outbox.History
import EventKafka.Lib.Mirror

/-! # `outbox_ops.py retire` on a file

`retire` is the tool on a database of the current version. Here is the tool as it runs on
the copy of any file: it checks the version and the column, runs the schema script over
the copy, closes the call, and compares the fingerprint of the rows from before and after.
On the file of a database it does what `retire` does; the module opens its output as the
database that the life of the store goes on with.
-/

namespace EventKafka

open Sql

/-! ## The tool -/

/-- The checks on the command line, whatever the database. -/
def retireChecks {σ : Type} (args : RetireArgs) : Program σ Unit := do
  require (0 < args.maxRows) "positive --max-rows and a new --output for copy operations required"
  require (args.topic ≠ "" && args.callId ≠ "") "--topic and --call-id required"
  require args.offlineConfirm
    "stop all writers first; --offline-confirm is required (old binaries ignore flock)"
  require args.rejectFutureCallId
    "--reject-future-call-id is required; retirement permanently rejects this topic/call ID"

/-- The checks on the copy; its version. -/
def checkOrdered (ops : OpsPlan) : Program DbFile Int := do
  let version ← query (ops .version) fun f => f.userVersion
  let columns ← query (ops .columns) fun f => f.outbox.map (·.hasSeq)
  require (version ≤ 5 && columns.isSome) "unsupported schema"
  require ((version = 3 || version = 4 || version = 5) && columns = some true)
    "retirement requires an ordered v3, v4, or v5 database"
  return version

/-- `SCHEMA`, without the audit table. -/
def createSchema (ops : OpsPlan) : Program DbFile Unit := do
  statement (ops .createStreams) (modify fun f =>
    { f with callStreams := some (f.callStreams.getD .empty) })
  statement (ops .seqIndex) createSeqIndex
  statement (ops .dueIndex) (modify fun f =>
    { f with outbox := f.outbox.map fun t => { t with dueIndexed := true } })
  statement (ops .ttlIndex) (modify fun f =>
    { f with outbox := f.outbox.map fun t => { t with ttlIndexed := true } })
  statement (ops .createScheduler) (modify fun f =>
    { f with scheduler := some (f.scheduler.getD none) })
  statement (ops .seedTurn) (modify DbFile.seedTurn)
  statement (ops .createRetired) (modify fun f =>
    { f with retiredCalls := some (f.retiredCalls.getD .empty) })

/-- The copy up to `BEGIN IMMEDIATE` and the schema; the fingerprint of its rows. -/
def prepareCopy (digest : List FileRow → String) (ops : OpsPlan) : Program DbFile String := do
  statement (ops .journal) (modify fun f => { f with wal := false })
  let before ← fingerprint digest (ops .fingerprint)
  let version ← checkOrdered ops
  createSchema ops
  statement (ops .setVersion) (modify fun f =>
    { f with userVersion := if version < 4 then 4 else version })
  return before

/-- The fence of a retired stream. -/
def RetireArgs.fenceOf (args : RetireArgs) (s : FileStream) (atMs : Int) : RetiredCall where
  topic := args.topic
  callUuid := args.callId
  msgKey := s.msgKey
  nextSeq := s.nextSeq
  retiredAtMs := atMs
  reason := args.reason

/-- `INSERT INTO retired_calls`. -/
def insertFence (q : RetiredCall) : Program DbFile Unit := do
  let f ← get
  match f.retiredCalls with
  | none => throw "no such table: retired_calls"
  | some t =>
    match t.insert q with
    | some t' => set { f with retiredCalls := some t' }
    | none => throw "UNIQUE constraint failed: retired_calls.topic, retired_calls.call_uuid"

/-- The cursor of a closed call becomes a fence; the checks before the copy is committed. -/
def closeCall (digest : List FileRow → String) (args : RetireArgs) (atMs : Int) (before : String)
    (ops : OpsPlan) (fault : FaultPlan) : Program DbFile Unit := do
  require (!blank args.reason) "auditable retirement reason required"
  let cursor ← query (fault .cursorOf) fun f => f.streams.find? fun s => s.call = args.call
  match cursor.filter fun s => s.nextSeq = s.admitSeq with
  | none => throw "missing cursor or unresolved sequence gap"
  | some s =>
    let queued ← query (fault .rowsOf) fun f => f.rows.countP fun r =>
      r.topic = args.topic && r.callUuid = some args.callId
    require (queued = 0) "cannot retire any pending/in_flight/dead/TTL record"
    let fences ← query (fault .fenceCount) fun f => f.fences.length
    require (fences < args.maxRows) "retirement fence capacity exceeded; no fence eviction"
    statement (fault .fence) (insertFence (args.fenceOf s atMs))
    statement (fault .dropCursor) (modify fun f =>
      { f with callStreams := f.callStreams.map fun t => t.delete fun q => q.call = args.call })
    let after ← fingerprint digest (ops .fingerprintAfter)
    require (after = before) "original event fields changed; refusing output"
    let fits ← query (fault .inventory) fun f =>
      decide (f.streams.length ≤ args.maxRows) && decide (f.rows.length ≤ args.maxRows)
    require fits "configured capacity insufficient for copied data; raise explicitly, never discard"

/-- `outbox_ops.py retire` on a file. The statements it shares with `migrate` are under
`ops`, its own under `fault`. -/
def retireFile (digest : List FileRow → String) (args : RetireArgs) (atMs : Int) (ops : OpsPlan)
    (fault : FaultPlan) : Program DbFile Unit := do
  retireChecks args
  transaction (fault .backup) (fault .publish) do
    let before ← prepareCopy digest ops
    closeCall digest args atMs before ops fault

/-! ## On the file of a database -/

/-- The copy of the file of a database: it is not in WAL mode. -/
def DbFile.copyOf (db : Db) : DbFile := { DbFile.ofDb db with wal := false }

section Copy

variable {db db' : Db} {args : RetireArgs} {atMs : Int} {fault : FaultPlan}

/-- The digest of the rows of a database. -/
def Db.digested (digest : List FileRow → String) (db : Db) : String :=
  digest (((DbFile.ofDb db).rows.map FileRow.legacy).insertionSort fun r q =>
    idLe r.eventId q.eventId = true)

theorem fingerprint_copyOf (digest : List FileRow → String) (stmt : OpsStmt) :
    (fingerprint digest (noOpsPlan stmt)).run (.copyOf db) =
      .ok (db.digested digest) (.copyOf db) := rfl

/-- The schema of a current file is complete. -/
theorem createSchema_copyOf : (createSchema noOpsPlan).run (.copyOf db) = .ok () (.copyOf db) := by
  have hindex : createSeqIndex.run (.copyOf db) = .ok () (.copyOf db) := by
    rw [createSeqIndex, run_bind_of_ok (EStateM.run_get _)]
    refine (congrArg (EStateM.run · (DbFile.copyOf db))
      (dif_pos ((FileTable.ofOutbox db.outbox).index_nodup rfl))).trans ?_
    rfl
  have hstreams : (statement (noOpsPlan .createStreams) (modify fun f : DbFile =>
      { f with callStreams := some (f.callStreams.getD .empty) }) : Program DbFile Unit).run
      (.copyOf db) = .ok () (.copyOf db) := rfl
  rw [createSchema, run_bind_of_ok hstreams]
  exact (run_bind_of_ok hindex).trans rfl

theorem prepareCopy_ofDb (digest : List FileRow → String) :
    (prepareCopy digest noOpsPlan).run (.ofDb db) = .ok (db.digested digest) (.copyOf db) := by
  have hjournal : (statement (noOpsPlan .journal) (modify fun f : DbFile =>
      { f with wal := false }) : Program DbFile Unit).run (.ofDb db) = .ok () (.copyOf db) := rfl
  have hcheck : (checkOrdered noOpsPlan).run (.copyOf db) = .ok 5 (.copyOf db) := rfl
  rw [prepareCopy, run_bind_of_ok hjournal, run_bind_of_ok (fingerprint_copyOf digest .fingerprint),
    run_bind_of_ok hcheck, run_bind_of_ok createSchema_copyOf]
  rfl

end Copy

/-! ## It does what `retire` does -/

section Mirror

variable {digest : List FileRow → String} {before : String} {args : RetireArgs} {atMs : Int}
  {fault : FaultPlan}

theorem delete_ofStreams (t : StreamTable) (c : Call) :
    Table.delete (FileStreamTable.ofStreams t) (fun q => q.call = c) =
      FileStreamTable.ofStreams (t.delete fun q => q.call = c) := by
  apply Table.ext_rows
  show (t.rows.map Stream.toFile).filter _ = (t.rows.filter _).map Stream.toFile
  rw [List.filter_map]
  rfl

/-- The fence is inserted into the same table. -/
theorem insertFence_mirrors (q : RetiredCall) :
    Program.Mirrors (fun db => db.digested digest = before) DbFile.copyOf id (insertFence q) ((do
      let db ← get
      match db.retiredCalls.insert q with
      | some t => set { db with retiredCalls := t }
      | none => throw "UNIQUE constraint failed: retired_calls.topic, retired_calls.call_uuid") :
        Prog Unit) := by
  intro db hdb
  rw [insertFence, run_bind_of_ok (EStateM.run_get _), run_bind_of_ok (EStateM.run_get _)]
  have htable : (DbFile.copyOf db).retiredCalls = some db.retiredCalls := rfl
  rw [htable]
  dsimp only
  cases db.retiredCalls.insert q with
  | none =>
    refine ⟨rfl, fun _ s' h => ?_⟩
    cases h
  | some t =>
    refine ⟨rfl, fun _ s' h => ?_⟩
    cases h
    exact hdb

/-- What follows the schema script does what the transaction of `retire` does. -/
theorem retireFile_run (digest : List FileRow → String) (args : RetireArgs) (atMs : Int)
    (fault : FaultPlan) (db : Db) :
    (retireFile digest args atMs noOpsPlan fault).run (.ofDb db) =
      committed DbFile.copyOf id (.ofDb db) ((retire args atMs fault).run db) := by
  rw [retireFile, retire]
  have hchecks : Program.Mirrors (fun _ => True) DbFile.ofDb id (retireChecks args)
      (checkArgs args) :=
    .bind .require fun _ => .bind .require fun _ => .bind .require fun _ => .require
  have hread : Program.ReadOnly (checkArgs args) :=
    .bind .require fun _ => .bind .require fun _ => .bind .require fun _ => .require
  rw [EStateM.run_bind, EStateM.run_bind, (hchecks db trivial).1]
  cases hargs : (checkArgs args).run db with
  | error e s =>
    rw [(hread db).2 e s hargs]
    rfl
  | ok u s =>
    rw [(hread db).1 u s hargs]
    refine run_transaction_of_image ?_
    rw [run_bind_of_ok (prepareCopy_ofDb digest)]
    -- from here on the rows stay what their digest was taken of
    suffices hrest : Program.Mirrors (fun s => s.digested digest = db.digested digest)
        DbFile.copyOf id (closeCall digest args atMs (db.digested digest) noOpsPlan fault) _ from
      (hrest db rfl).1
    refine .bind .require fun _ => .bind (v := Option.map Stream.toFile) (.query fun s => ?_)
      fun cursor => ?_
    · show (s.callStreams.rows.map Stream.toFile).find? _ = _
      rw [List.find?_map]
      rfl
    have hfilter : (cursor.map Stream.toFile).filter (fun s => s.nextSeq = s.admitSeq) =
        (cursor.filter fun s => s.nextSeq = s.admitSeq).map Stream.toFile := by
      cases cursor with
      | none => rfl
      | some s => by_cases hclosed : s.nextSeq = s.admitSeq <;> simp [Option.filter, hclosed, Stream.toFile]
    rw [hfilter]
    cases cursor.filter fun s => s.nextSeq = s.admitSeq with
    | none => exact .throw _
    | some s =>
      refine .bind (v := id) (.query fun s => ?_) fun queued => .bind .require fun _ =>
        .bind (v := id) (.query fun _ => rfl) fun fences => .bind .require fun _ =>
        .bind (.statement (insertFence_mirrors _)) fun _ =>
        .bind (.statement (.modify (fun s => ?_) fun _ hs => hs)) fun _ =>
        .check (b := db.digested digest) (fun s hs => ?_) (.check (b := ()) (fun s hs => ?_) ?_)
      · show (s.outbox.rows.map Row.toFile).countP _ = _
        rw [List.countP_map]
        rfl
      · exact congrArg (fun t => { DbFile.copyOf s with callStreams := some t })
          (delete_ofStreams s.callStreams args.call)
      · rw [← hs]
        exact fingerprint_copyOf digest .fingerprintAfter
      · rw [decide_eq_true rfl]
        rfl
      · refine .bind (v := id) (.query fun s => ?_) fun _ => .require
        show (decide (((s.callStreams.rows.map Stream.toFile).length : Int) ≤ args.maxRows) &&
          decide (((s.outbox.rows.map Row.toFile).length : Int) ≤ args.maxRows)) = _
        rw [List.length_map, List.length_map]
        rfl

end Mirror

/-! ## On any file -/

/-- The tables of the copy read as those of `f`. -/
structure DbFile.Reads (f g : DbFile) : Prop where
  rows : g.rows = f.rows
  streams : g.streams = f.streams
  fences : g.fences = f.fences
  ordered : g.outbox.any (·.hasSeq) = f.outbox.any (·.hasSeq)

/-- What the tool does to a file when it retires the stream `s`. -/
structure FileRetirement (args : RetireArgs) (atMs : Int) (f f' : DbFile) (s : FileStream) :
    Prop where
  stream : s ∈ f.streams
  call : s.call = args.call
  closed : s.nextSeq = s.admitSeq
  empty : ∀ r ∈ f.rows, r.ofCall args.call = false
  version : 3 ≤ f.userVersion ∧ f'.userVersion = max 4 f.userVersion ∧ f'.userVersion ≤ 5
  ordered : f.outbox.any (·.hasSeq) = true ∧ f'.outbox.any (·.hasSeq) = true
  rows : f'.rows = f.rows
  streams : f'.streams = f.streams.filter fun q => !decide (q.call = args.call)
  fences : f'.fences = f.fences ++ [args.fenceOf s atMs]

section File

variable {digest : List FileRow → String} {before : String} {args : RetireArgs} {atMs : Int}
  {ops : OpsPlan} {fault : FaultPlan} {f g : DbFile} {u : Unit}

theorem createSchema_ok (h : (createSchema ops).run f = .ok u g) :
    f.Reads g ∧ g.userVersion = f.userVersion := by
  simp only [createSchema, run_bind_ok, run_statement_ok, run_modify_ok] at h
  rcases h with ⟨_, g₁, ⟨-, rfl⟩, _, g₂, ⟨-, hindex⟩, _, g₃, ⟨-, rfl⟩, _, g₄, ⟨-, rfl⟩, _, g₅,
    ⟨-, rfl⟩, _, g₆, ⟨-, rfl⟩, -, rfl⟩
  rcases createSeqIndex_ok hindex with ⟨t, t', ht, rfl, hrows, hseq, -, -⟩
  have hout : f.outbox = some t := ht
  refine ⟨⟨?_, rfl, rfl, ?_⟩, rfl⟩
  · show t'.rows = f.rows
    rw [hrows, DbFile.rows, hout]
    rfl
  · show t'.hasSeq = f.outbox.any (·.hasSeq)
    rw [hseq, hout]
    rfl

theorem prepareCopy_ok (h : (prepareCopy digest ops).run f = .ok before g) :
    f.Reads g ∧ 3 ≤ f.userVersion ∧ f.outbox.any (·.hasSeq) = true ∧
      g.userVersion = max 4 f.userVersion ∧ g.userVersion ≤ 5 := by
  simp only [prepareCopy, checkOrdered, run_bind_ok, run_statement_ok, run_modify_ok, run_query_ok,
    run_require_ok, run_pure_ok, Bool.and_eq_true, Bool.or_eq_true, decide_eq_true_eq] at h
  rcases h with ⟨_, g₁, ⟨-, rfl⟩, _, g₂, hbefore, _, _, ⟨_, _, ⟨-, rfl, rfl⟩, _, _, ⟨-, rfl, rfl⟩, _,
    _, ⟨-, rfl⟩, _, _, ⟨⟨hversion, hcolumns⟩, rfl⟩, rfl, rfl⟩, _, g₃, hschema, _, g₄, ⟨-, rfl⟩, -,
    rfl⟩
  rcases createSchema_ok hschema with ⟨hreads, hsame⟩
  have hf := fingerprint_ok hbefore
  subst hf
  have hseq : f.outbox.any (·.hasSeq) = true := by
    cases ht : f.outbox with
    | none =>
      rw [ht] at hcolumns
      cases hcolumns
    | some t =>
      rw [ht, Option.map_some, Option.some.injEq] at hcolumns
      exact hcolumns
  have hthree : (f.userVersion = 3 ∨ f.userVersion = 4) ∨ f.userVersion = 5 := hversion
  refine ⟨⟨hreads.rows, hreads.streams, hreads.fences, hreads.ordered⟩, by omega, hseq, ?_, ?_⟩
  · show (if f.userVersion < 4 then 4 else f.userVersion) = max 4 f.userVersion
    split <;> omega
  · show (if f.userVersion < 4 then 4 else f.userVersion) ≤ 5
    split <;> omega

theorem insertFence_ok {q : RetiredCall} (h : (insertFence q).run f = .ok u g) :
    ∃ t, g = { f with retiredCalls := some t } ∧ t.rows = f.fences ++ [q] := by
  simp only [insertFence, EStateM.run_bind, EStateM.run_get] at h
  cases ht : f.retiredCalls with
  | none =>
    rw [ht] at h
    cases h
  | some t =>
    rw [ht] at h
    dsimp only at h
    split at h
    · rename_i t' hins
      rw [run_set_ok] at h
      refine ⟨t', h.symm, ?_⟩
      rw [(Table.insert_eq_some.mp hins).2, DbFile.fences, ht]
      rfl
    · cases h

theorem streams_map_delete (f : DbFile) (p : FileStream → Bool) :
    DbFile.streams { f with callStreams := f.callStreams.map fun t => t.delete p } =
      f.streams.filter fun q => !p q := by
  unfold DbFile.streams
  cases f.callStreams <;> rfl

theorem closeCall_ok (h : (closeCall digest args atMs before ops fault).run f = .ok u g) :
    ∃ s ∈ f.streams, s.call = args.call ∧ s.nextSeq = s.admitSeq ∧
      (∀ r ∈ f.rows, r.ofCall args.call = false) ∧ g.rows = f.rows ∧
      g.outbox = f.outbox ∧ g.userVersion = f.userVersion ∧
      g.streams = f.streams.filter (fun q => !decide (q.call = args.call)) ∧
      g.fences = f.fences ++ [args.fenceOf s atMs] := by
  simp only [closeCall, run_bind_ok, run_require_ok, run_query_ok] at h
  rcases h with ⟨_, _, ⟨-, rfl⟩, _, _, ⟨-, rfl, rfl⟩, h⟩
  cases hfind : (f.streams.find? fun s => s.call = args.call).filter
      fun s => s.nextSeq = s.admitSeq with
  | none =>
    rw [hfind] at h
    cases h
  | some s =>
    rw [hfind] at h
    rcases Option.filter_eq_some_iff.mp hfind with ⟨hf, hclosed⟩
    simp only [run_bind_ok, run_query_ok, run_require_ok, run_statement_ok, run_modify_ok,
      decide_eq_true_eq] at h
    rcases h with ⟨_, _, ⟨-, rfl, rfl⟩, _, _, ⟨hqueued, rfl⟩, _, _, ⟨-, rfl, rfl⟩, _, _, ⟨-, rfl⟩, _,
      g₁, ⟨-, hfence⟩, _, g₂, ⟨-, rfl⟩, _, g₃, hafter, _, _, ⟨-, rfl⟩, _, _, ⟨-, rfl, rfl⟩, -, rfl⟩
    have hsame := fingerprint_ok hafter
    subst hsame
    rcases insertFence_ok hfence with ⟨t, rfl, ht⟩
    have hcall := List.find?_some hf
    refine ⟨s, List.mem_of_find?_eq_some hf, of_decide_eq_true hcall, of_decide_eq_true hclosed, fun r hr => ?_, rfl, rfl, rfl, ?_, ht⟩
    · exact Bool.eq_false_iff.mpr (List.countP_eq_zero.mp hqueued r hr)
    · exact streams_map_delete _ _

/-- What the tool did to a file it accepted. -/
theorem retireFile_ok (h : (retireFile digest args atMs ops fault).run f = .ok u g) :
    ∃ s, FileRetirement args atMs f g s := by
  simp only [retireFile, run_bind_ok, run_transaction_ok] at h
  rcases h with ⟨_, f₁, hchecks, -, -, before, g₁, hprepare, hclose⟩
  have hread : Program.ReadOnly (retireChecks args : Program DbFile Unit) :=
    .bind .require fun _ => .bind .require fun _ => .bind .require fun _ => .require
  have hsame := (hread f).1 _ _ hchecks
  subst hsame
  rcases prepareCopy_ok hprepare with ⟨hreads, hthree, hseq, hversion, hfive⟩
  rcases closeCall_ok hclose with ⟨s, hs, hcall, hclosed, hempty, hrows, hout, hsame, hstreams,
    hfences⟩
  rw [hreads.streams] at hs hstreams
  rw [hreads.rows] at hempty hrows
  rw [hreads.fences] at hfences
  refine ⟨s, hs, hcall, hclosed, hempty, ⟨hthree, ?_, ?_⟩, ⟨hseq, ?_⟩, hrows, hstreams, hfences⟩
  · rw [hsame]
    exact hversion
  · rw [hsame]
    exact hfive
  · rw [hout, hreads.ordered]
    exact hseq

/-- The rows that are left join to the cursors they had. -/
theorem FileRetirement.streamOf {s : FileStream} (h : FileRetirement args atMs f g s) {r : FileRow}
    (hr : r ∈ f.rows) : g.streamOf r = f.streamOf r := by
  unfold DbFile.streamOf
  cases huuid : r.callUuid with
  | none => rfl
  | some c =>
    have hother : (r.topic, c) ≠ args.call := by
      intro heq
      have hno := h.empty r hr
      rw [Bool.eq_false_iff] at hno
      exact hno (FileRow.ofCall_iff.mpr ⟨congrArg Prod.fst heq,
        huuid.trans (congrArg (some ∘ Prod.snd) heq)⟩)
    rw [Option.bind_some, Option.bind_some, h.streams, List.find?_filter]
    congr 1
    funext q
    by_cases hq : q.call = (r.topic, c)
    · simp [hq, hother]
    · simp [hq]

/-- A file that can be opened can be opened after it. -/
theorem FileRetirement.accepted {s : FileStream} (h : FileRetirement args atMs f g s)
    (hf : f.Accepted) : g.Accepted where
  sequenced := by
    intro hno
    rw [h.ordered.2] at hno
    cases hno
  version := h.version.2.2
  cursors := by
    have hold := List.any_eq_false.mp hf.cursors
    rw [h.rows, List.any_eq_false]
    intro r hr
    have hsame : g.corrupt r = f.corrupt r := by rw [DbFile.corrupt, DbFile.corrupt, h.streamOf hr]
    rw [hsame]
    exact hold r hr
  unique := by
    rw [h.rows]
    exact hf.unique
  fences := by
    have hold := List.any_eq_false.mp hf.fences
    rw [DbFile.retiredActive, List.any_eq_false]
    intro q hq hactive
    rcases List.any_eq_true.mp hactive with ⟨p, hp, hcall⟩
    rw [h.streams, List.mem_filter, Bool.not_eq_true', decide_eq_false_iff_not] at hp
    rw [h.fences, List.mem_append, List.mem_singleton] at hq
    rcases hq with hq | rfl
    · exact hold q hq (List.any_eq_true.mpr ⟨p, hp.1, hcall⟩)
    · -- the new fence is for the call whose cursor is gone
      exact hp.2 (of_decide_eq_true hcall).symm

end File

/-! ## Faults -/

section Faults

variable {digest : List FileRow → String} {args : RetireArgs} {atMs : Int} {ops : OpsPlan}
  {fault : FaultPlan}

theorem prepareCopy_below : Program.Below (prepareCopy digest ops) (prepareCopy digest noOpsPlan) := by
  have hmodify : ∀ (stmt : OpsStmt) (g : DbFile → DbFile),
      Program.Below (statement (ops stmt) (modify g) : Program DbFile Unit)
        (statement (noOpsPlan stmt) (modify g)) := fun _ _ => .statement (.refl _)
  refine .bind (hmodify _ _) fun _ => .bind (.statement (.refl _)) fun _ => .bind ?_ fun _ =>
    .bind ?_ fun _ => .bind (hmodify _ _) fun _ => .refl _
  · exact .bind .query fun _ => .bind .query fun _ => .refl _
  · exact .bind (hmodify _ _) fun _ => .bind (.statement (.refl _)) fun _ => .bind (hmodify _ _)
      fun _ => .bind (hmodify _ _) fun _ => .bind (hmodify _ _) fun _ => .bind (hmodify _ _)
      fun _ => hmodify _ _

theorem closeCall_below {before : String} : Program.Below
    (closeCall digest args atMs before ops fault)
    (closeCall digest args atMs before noOpsPlan fault) := by
  refine .bind (.refl _) fun _ => .bind (.refl _) fun cursor => ?_
  cases cursor.filter fun s => s.nextSeq = s.admitSeq with
  | none => exact .refl _
  | some s =>
    exact .bind (.refl _) fun _ => .bind (.refl _) fun _ => .bind (.refl _) fun _ =>
      .bind (.refl _) fun _ => .bind (.refl _) fun _ => .bind (.refl _) fun _ =>
      .bind (.statement (.refl _)) fun _ => .refl _

/-- What a plan lets succeed succeeds with the same output when the shared statements do
not fail. -/
theorem retireFile_below : Program.Below (retireFile digest args atMs ops fault)
    (retireFile digest args atMs noOpsPlan fault) :=
  .bind (.refl _) fun _ => .inTransaction (.bind prepareCopy_below fun _ => closeCall_below)

/-- A run that raises leaves no output. -/
theorem retireFile_error {f f' : DbFile} {e : String}
    (h : (retireFile digest args atMs ops fault).run f = .error e f') : f' = f := by
  have hread : Program.ReadOnly (retireChecks args : Program DbFile Unit) :=
    .bind .require fun _ => .bind .require fun _ => .bind .require fun _ => .require
  rw [retireFile, EStateM.run_bind] at h
  cases hchecks : (retireChecks args : Program DbFile Unit).run f with
  | error e' f₁ =>
    rw [hchecks] at h
    cases h
    exact (hread f).2 _ _ hchecks
  | ok u f₁ =>
    rw [hchecks, (hread f).1 _ _ hchecks] at h
    exact transaction_error h

end Faults

/-! ## Lives on files -/

/-- The copy is opened like the file it would be in WAL mode. -/
theorem openFile_copyOf {db : Db} (h : (DbFile.ofDb db).Accepted) :
    (openFile noFilePlan).run (.copyOf db) = (openFile noFilePlan).run (.ofDb db) := by
  have hcopy : (DbFile.copyOf db).Accepted :=
    ⟨h.sequenced, h.version, h.cursors, h.unique, h.fences⟩
  rw [openFile_accepts hcopy, openFile_accepts h]
  rfl

/-- The tool on files, whatever fails. On any file it either raises and has no output, or
the file was an ordered one of version 3, 4 or 5 and the output is that file with the
cursor of the closed call moved to a fence; what `open` accepts it accepts after. And a
life may as well be led on files: at the file of a database no module has open, the tool
and the `open` of its output make the step `retire` of the life. -/
theorem retirement_on_files (digest : List FileRow → String) (args : RetireArgs) (atMs : Int)
    (ops : OpsPlan) (fault : FaultPlan) :
    (∀ f f' u, (retireFile digest args atMs ops fault).run f = .ok u f' →
      (∃ s, FileRetirement args atMs f f' s) ∧ (f.Accepted → f'.Accepted)) ∧
    (∀ f f' e, (retireFile digest args atMs ops fault).run f = .error e f' → f' = f) ∧
    ∀ acts : List LifeOp,
      let b := Machine.run Outbox.live Outbox.init acts
      b.isOpen = false →
      (∀ f' u, (retireFile digest args atMs ops fault).run (.ofDb b.db) = .ok u f' →
        (openFile noFilePlan).run f' =
          .ok () (.ofDb (b.live (.retire args atMs fault)).db)) ∧
      ∀ f' e, (retireFile digest args atMs noOpsPlan fault).run (.ofDb b.db) = .error e f' →
        b.live (.retire args atMs fault) = b := by
  refine ⟨fun f f' u h => ?_, fun f f' e h => retireFile_error h, ?_⟩
  · rcases retireFile_ok h with ⟨s, hs⟩
    exact ⟨⟨s, hs⟩, hs.accepted⟩
  intro acts b hclosed
  constructor
  · intro f' u h
    have hrun := retireFile_below _ _ _ h
    rw [retireFile_run] at hrun
    cases hretire : (retire args atMs fault).run b.db with
    | error e db =>
      rw [hretire] at hrun
      cases hrun
    | ok u' db =>
      rw [hretire] at hrun
      cases hrun
      have hlive : b.live (.retire args atMs fault) = { b with db := db } := by
        simp only [Outbox.live, hclosed, Bool.false_eq_true, if_false, hretire]
      have hstamped : Stamped db := by
        have hlife := stamped_life (acts ++ [.retire args atMs fault])
        rw [Machine.run_snoc] at hlife
        have hdb : (b.live (.retire args atMs fault)).db = db := by rw [hlive]
        exact hdb ▸ hlife
      have hopened := openFile_ofDb hstamped.openDb_run
      rw [openFile_copyOf (accepted_of_openFile hopened), hlive]
      exact hopened
  · intro f' e h
    rw [retireFile_run] at h
    cases hretire : (retire args atMs fault).run b.db with
    | ok u db =>
      rw [hretire] at h
      cases h
    | error e db =>
      simp only [Outbox.live, hclosed, Bool.false_eq_true, if_false, hretire]

/-- The call of two acknowledged events is retired in its file. -/
theorem retirement_on_files_closed :
    let args : RetireArgs := ⟨"events", "c", "closed", 10, true, true⟩
    let b := Machine.run Outbox.live Outbox.init (closedCall.take 8)
    ∃ f', (retireFile (fun _ => "") args 5 noOpsPlan noFault).run (.ofDb b.db) = .ok () f' ∧
      (openFile noFilePlan).run f' = .ok () (.ofDb (b.live (.retire args 5 noFault)).db) := by
  intro args b
  have hreply : (Outbox.call ⟨b.db, true⟩ (retire args 5 noFault) fun _ => 0).1 = .ok 0 := by
    decide +kernel
  rcases call_ok (Prod.ext hreply rfl) with ⟨u, hrun, -⟩
  have hfile := retireFile_run (fun _ => "") args 5 noFault b.db
  rw [hrun, committed] at hfile
  exact ⟨_, hfile, ((retirement_on_files (fun _ => "") args 5 noOpsPlan noFault).2.2
    (closedCall.take 8) (by decide +kernel)).1 _ () hfile⟩

end EventKafka
