import EventKafka.File.Schema
import EventKafka.Outbox.Stamp

/-! # Opening a file

`Outbox::open` on any file. It looks at the file first and refuses what it will not
touch: a backlog without `call_seq`, or a version it does not know. Then one
transaction brings the tables to the current schema, refuses ordered rows without a
cursor, duplicate sequences and calls that are both retired and active, stamps the rows
that are deliverable, and sets the version.

* `openFile_error`: a refused file keeps its tables;
* `openFile_accepts`: what an accepted file becomes;
* `openFile_again`: opening that once more does nothing;
* `openFile_ofDb`: on a file of the current version this is `openDb`.
-/

namespace EventKafka

open Sql

/-! ## The statements -/

/-- The statements of `Outbox::open`, in their order. -/
inductive FileStmt where
  | openFile
  | tables
  | columns
  | count
  | version
  | journal
  | beginTx
  | createOutbox
  | addCallSeq
  | addEligible
  | createStreams
  | seqIndex
  | dueIndex
  | ttlIndex
  | createRetired
  | createScheduler
  | seedTurn
  | checkCursors
  | checkRetired
  | stamp
  | setVersion
  | commitTx
deriving DecidableEq, Repr

/-- Which statements fail for a storage reason, and with which text. -/
abbrev FilePlan := FileStmt → Option String

/-- No statement fails. -/
def noFilePlan : FilePlan := fun _ => none

/-- `ALTER TABLE outbox ADD COLUMN call_seq INTEGER`. -/
def FileTable.addCallSeq (t : FileTable) : FileTable :=
  { t with hasSeq := true, seq_null := by simp }

/-- `ALTER TABLE outbox ADD COLUMN eligible_at_ms INTEGER`. -/
def FileTable.addEligible (t : FileTable) : FileTable :=
  { t with hasEligible := true, eligible_null := by simp }

/-- `UPDATE outbox SET eligible_at_ms=created_at_ms WHERE …`, on one row. -/
def FileRow.stamped (p : FileRow → Bool) (r : FileRow) : FileRow :=
  if p r then { r with eligibleAtMs := some r.createdAtMs } else r

theorem filterMap_stamped_eventId (p : FileRow → Bool) (l : List FileRow) :
    (l.map (FileRow.stamped p)).filterMap FileRow.eventId = l.filterMap FileRow.eventId := by
  rw [List.filterMap_map]
  apply List.filterMap_congr
  intro r _
  unfold Function.comp FileRow.stamped
  split <;> rfl

theorem filterMap_stamped_seqIndex (p : FileRow → Bool) (l : List FileRow) :
    (l.map (FileRow.stamped p)).filterMap FileRow.seqIndex = l.filterMap FileRow.seqIndex := by
  rw [List.filterMap_map]
  apply List.filterMap_congr
  intro r _
  unfold Function.comp FileRow.stamped
  split <;> rfl

theorem FileRow.stamped_callSeq (p : FileRow → Bool) (r : FileRow) :
    (r.stamped p).callSeq = r.callSeq := by
  unfold FileRow.stamped
  split <;> rfl

/-- The `UPDATE` on the table, which needs the column. -/
def FileTable.stamp (t : FileTable) (p : FileRow → Bool) (h : t.hasEligible = true) : FileTable :=
  { t with
    rows := t.rows.map (FileRow.stamped p)
    key_nodup := by
      rw [filterMap_stamped_eventId]
      exact t.key_nodup
    seq_null := by
      intro hno r' hr'
      rcases List.mem_map.mp hr' with ⟨r, hr, rfl⟩
      rw [FileRow.stamped_callSeq]
      exact t.seq_null hno r hr
    eligible_null := by simp [h]
    index_nodup := by
      rw [filterMap_stamped_seqIndex]
      exact t.index_nodup }

/-! ## `open` -/

/-- `PRAGMA table_info(outbox)`: whether `call_seq` and `eligible_at_ms` exist. -/
def tableInfo (hasTable : Bool) (fault : FilePlan) : Program DbFile (Bool × Bool) :=
  if hasTable then
    query (fault .columns) fun f => (f.outbox.any (·.hasSeq), f.outbox.any (·.hasEligible))
  else pure (false, false)

/-- Refuse a backlog that has no sequence. -/
def refuseBacklog (hasTable hasSeq : Bool) (fault : FilePlan) : Program DbFile Unit :=
  if hasTable && !hasSeq then do
    let n ← query (fault .count) fun f => f.rows.length
    require (n = 0) "legacy nonempty outbox: reconcile/backup before upgrade; no sequence inferred"
  else pure ()

/-- What `open` looks at before it writes: whether `outbox` and its two later columns
exist, and the version. -/
def inspect (fault : FilePlan) : Program DbFile (Bool × Bool × Bool) := do
  let hasTable ← query (fault .tables) fun f => f.outbox.isSome
  let cols ← tableInfo hasTable fault
  refuseBacklog hasTable cols.1 fault
  let version ← query (fault .version) fun f => f.userVersion
  require (version ≤ 5) "unsupported outbox schema version"
  return (hasTable, cols)

/-- `CREATE UNIQUE INDEX IF NOT EXISTS idx_outbox_seq`. -/
def createSeqIndex : Program DbFile Unit := do
  let f ← get
  match f.outbox with
  | none => throw "no such table: main.outbox"
  | some t =>
    if h : (t.rows.filterMap FileRow.seqIndex).Nodup then
      set { f with outbox := some { t with seqIndexed := true, index_nodup := fun _ => h } }
    else
      throw "UNIQUE constraint failed: outbox.topic, outbox.call_uuid, outbox.call_seq"

/-- `INSERT OR IGNORE INTO order_scheduler SELECT 1,COALESCE(MAX(last_served_ms),0)`. -/
def DbFile.seedTurn (f : DbFile) : DbFile :=
  { f with scheduler := f.scheduler.map fun turn => some (turn.getD f.maxServed) }

/-- `ALTER TABLE outbox ADD COLUMN`, when the column is missing. -/
def addColumn (missing : Bool) (fault : Option String) (add : FileTable → FileTable) :
    Program DbFile Unit :=
  if missing then
    statement fault (modify fun f => { f with outbox := f.outbox.map add })
  else pure ()

/-- The columns of `outbox`, and `call_streams`. -/
def addColumns (hasTable hasSeq hasEligible : Bool) (fault : FilePlan) : Program DbFile Unit := do
  statement (fault .createOutbox) (modify fun f =>
    { f with outbox := some (f.outbox.getD .empty) })
  addColumn (hasTable && !hasSeq) (fault .addCallSeq) FileTable.addCallSeq
  addColumn (hasTable && !hasEligible) (fault .addEligible) FileTable.addEligible
  statement (fault .createStreams) (modify fun f =>
    { f with callStreams := some (f.callStreams.getD .empty) })

/-- The other indexes and tables. -/
def addTables (fault : FilePlan) : Program DbFile Unit := do
  statement (fault .dueIndex) (modify fun f =>
    { f with outbox := f.outbox.map fun t => { t with dueIndexed := true } })
  statement (fault .ttlIndex) (modify fun f =>
    { f with outbox := f.outbox.map fun t => { t with ttlIndexed := true } })
  statement (fault .createRetired) (modify fun f =>
    { f with retiredCalls := some (f.retiredCalls.getD .empty) })
  statement (fault .createScheduler) (modify fun f =>
    { f with scheduler := some (f.scheduler.getD none) })
  statement (fault .seedTurn) (modify DbFile.seedTurn)

/-- The row is deliverable and has no stamp. -/
def DbFile.unstamped (f : DbFile) (r : FileRow) : Bool :=
  r.eligibleAtMs = none && f.deliverable r

/-- Stamp the deliverable rows. -/
def stampHeads : Program DbFile Unit := do
  let f ← get
  match f.outbox with
  | none => throw "no such table: outbox"
  | some t =>
    if h : t.hasEligible = true then
      set { f with outbox := some (t.stamp f.unstamped h) }
    else
      throw "no such column: eligible_at_ms"

/-- The checks on the order and the stamp. -/
def checkAndStamp (fault : FilePlan) : Program DbFile Unit := do
  let corrupted ← query (fault .checkCursors) fun f => f.rows.any f.corrupt
  require (!corrupted) "corrupt ordered outbox/cursor"
  let active ← query (fault .checkRetired) DbFile.retiredActive
  require (!active) "retired call still has active cursor"
  statement (fault .stamp) stampHeads
  statement (fault .setVersion) (modify fun f => { f with userVersion := 5 })

/-- What `inspect` finds: whether `outbox`, `call_seq` and `eligible_at_ms` exist. -/
def DbFile.found (f : DbFile) : Bool × Bool × Bool :=
  (f.outbox.isSome, f.outbox.any (·.hasSeq), f.outbox.any (·.hasEligible))

/-- The body of the transaction of `open`. -/
def bringUp (found : Bool × Bool × Bool) (fault : FilePlan) : Program DbFile Unit := do
  addColumns found.1 found.2.1 found.2.2 fault
  statement (fault .seqIndex) createSeqIndex
  addTables fault
  checkAndStamp fault

/-- `PRAGMA journal_mode=WAL`. -/
def DbFile.inWal (f : DbFile) : DbFile := { f with wal := true }

/-- `Outbox::open` on a file. -/
def openFile (fault : FilePlan) : Program DbFile Unit := do
  statement (fault .openFile) (pure ())
  let found ← inspect fault
  statement (fault .journal) (modify DbFile.inWal)
  transaction (fault .beginTx) (fault .commitTx) (bringUp found fault)

/-! ## What it does -/

/-- All columns and indexes of the current schema. -/
def FileTable.upgraded (t : FileTable) (h : (t.rows.filterMap FileRow.seqIndex).Nodup) :
    FileTable :=
  { t with
    hasSeq := true
    hasEligible := true
    seqIndexed := true
    dueIndexed := true
    ttlIndexed := true
    seq_null := by simp
    eligible_null := by simp
    index_nodup := fun _ => h }

/-- The tables after the upgrade. -/
def DbFile.upgraded (f : DbFile) (h : (f.rows.filterMap FileRow.seqIndex).Nodup) : DbFile :=
  { f with
    outbox := some ((f.outbox.getD .empty).upgraded h)
    callStreams := some (f.callStreams.getD .empty)
    retiredCalls := some (f.retiredCalls.getD .empty)
    scheduler := some (some ((f.scheduler.getD none).getD f.maxServed)) }

/-- The file after an `open` that accepts it. -/
def DbFile.opened (f : DbFile) (h : (f.rows.filterMap FileRow.seqIndex).Nodup) : DbFile :=
  { f.upgraded h with
    outbox := some (((f.outbox.getD .empty).upgraded h).stamp f.unstamped rfl)
    userVersion := 5 }

/-- What `open` accepts. -/
structure DbFile.Accepted (f : DbFile) : Prop where
  /-- A backlog has the column `call_seq`. -/
  sequenced : f.outbox.any (·.hasSeq) = false → f.rows = []
  version : f.userVersion ≤ 5
  /-- Every ordered row has its sequence and its cursor. -/
  cursors : f.rows.any f.corrupt = false
  /-- No two rows share `(topic, call_uuid, call_seq)`. -/
  unique : (f.rows.filterMap FileRow.seqIndex).Nodup
  /-- No call is both retired and active. -/
  fences : f.retiredActive = false

section Run

variable {f : DbFile}

theorem inspect_run (f : DbFile) :
    (inspect noFilePlan).run f =
      if f.outbox.any (·.hasSeq) = false ∧ f.rows ≠ [] then
        .error "legacy nonempty outbox: reconcile/backup before upgrade; no sequence inferred" f
      else if f.userVersion ≤ 5 then .ok f.found f
      else .error "unsupported outbox schema version" f := by
  have hinfo : (tableInfo f.outbox.isSome noFilePlan).run f =
      .ok (f.outbox.any (·.hasSeq), f.outbox.any (·.hasEligible)) f := by
    cases hout : f.outbox <;> simp [tableInfo, noFilePlan, run_query, hout]
  have hbacklog : (refuseBacklog f.outbox.isSome (f.outbox.any (·.hasSeq)) noFilePlan).run f =
      if f.outbox.any (·.hasSeq) = false ∧ f.rows ≠ [] then
        .error "legacy nonempty outbox: reconcile/backup before upgrade; no sequence inferred" f
      else .ok () f := by
    cases hout : f.outbox with
    | none => simp [refuseBacklog, DbFile.rows, hout, FileTable.empty]
    | some t =>
      cases hseq : t.hasSeq with
      | true => simp [refuseBacklog, hseq]
      | false =>
        by_cases hrows : f.rows = [] <;>
          simp [refuseBacklog, noFilePlan, EStateM.run_bind, run_query, run_require, hseq, hrows]
  have htable : (query (noFilePlan .tables) fun f => f.outbox.isSome : Program DbFile Bool).run f =
      .ok f.outbox.isSome f := rfl
  rw [inspect, run_bind_of_ok htable, run_bind_of_ok hinfo, EStateM.run_bind, hbacklog]
  by_cases hbad : f.outbox.any (·.hasSeq) = false ∧ f.rows ≠ []
  · rw [if_pos hbad, if_pos hbad]
  · rw [if_neg hbad, if_neg hbad]
    by_cases hv : f.userVersion ≤ 5
    · simp only [noFilePlan, EStateM.run_bind, run_query, run_require, hv, decide_true, if_true]
      rfl
    · simp only [noFilePlan, EStateM.run_bind, run_query, run_require, hv, decide_false, if_false,
        Bool.false_eq_true]

/-- The columns are there and the index is not yet. -/
def DbFile.withColumns (f : DbFile) : DbFile :=
  { f with
    outbox := some (f.outbox.getD .empty).addCallSeq.addEligible
    callStreams := some (f.callStreams.getD .empty) }

theorem addColumns_run (f : DbFile) :
    (addColumns f.found.1 f.found.2.1 f.found.2.2 noFilePlan).run f = .ok () f.withColumns := by
  rcases f with ⟨_ | t, streams, retired, sched, v, w⟩
  · rfl
  · rcases t with ⟨rows, _ | _, _ | _, i₁, i₂, i₃, h₁, h₂, h₃, h₄⟩ <;> rfl

/-- The index is there too. -/
def DbFile.withIndex (f : DbFile) (h : (f.rows.filterMap FileRow.seqIndex).Nodup) : DbFile :=
  { f.withColumns with
    outbox := some { (f.outbox.getD .empty).addCallSeq.addEligible with
      seqIndexed := true, index_nodup := fun _ => h } }

theorem createSeqIndex_unique (h : (f.rows.filterMap FileRow.seqIndex).Nodup) :
    createSeqIndex.run f.withColumns = .ok () (f.withIndex h) := by
  rw [createSeqIndex, run_bind_of_ok (EStateM.run_get _)]
  exact congrArg (EStateM.run · f.withColumns) (dif_pos h)

theorem addTables_run (h : (f.rows.filterMap FileRow.seqIndex).Nodup) :
    (addTables noFilePlan).run (f.withIndex h) = .ok () (f.upgraded h) := rfl

theorem createSeqIndex_duplicate (h : ¬ (f.rows.filterMap FileRow.seqIndex).Nodup) :
    createSeqIndex.run f.withColumns =
      .error "UNIQUE constraint failed: outbox.topic, outbox.call_uuid, outbox.call_seq"
        f.withColumns := by
  rw [createSeqIndex, run_bind_of_ok (EStateM.run_get _)]
  exact congrArg (EStateM.run · f.withColumns) (dif_neg h)

theorem checkAndStamp_run (f : DbFile) (h : (f.rows.filterMap FileRow.seqIndex).Nodup) :
    (checkAndStamp noFilePlan).run (f.upgraded h) =
      if f.rows.any f.corrupt then .error "corrupt ordered outbox/cursor" (f.upgraded h)
      else if f.retiredActive then .error "retired call still has active cursor" (f.upgraded h)
      else .ok () (f.opened h) := by
  cases hc : f.rows.any f.corrupt with
  | true =>
    have hc' : (f.upgraded h).rows.any (f.upgraded h).corrupt = true := hc
    simp [checkAndStamp, noFilePlan, EStateM.run_bind, run_query, require, hc']
  | false =>
    have hc' : (f.upgraded h).rows.any (f.upgraded h).corrupt = false := hc
    cases hr : f.retiredActive with
    | true =>
      have hr' : (f.upgraded h).retiredActive = true := hr
      simp [checkAndStamp, noFilePlan, EStateM.run_bind, run_query, require, hc', hr']
    | false =>
      have hr' : (f.upgraded h).retiredActive = false := hr
      simp [checkAndStamp, noFilePlan, EStateM.run_bind, run_query, require, hc', hr']
      rfl

theorem bringUp_accepts (hunique : (f.rows.filterMap FileRow.seqIndex).Nodup)
    (hcursors : f.rows.any f.corrupt = false) (hfences : f.retiredActive = false) :
    (bringUp f.found noFilePlan).run f = .ok () (f.opened hunique) := by
  have hcheck := checkAndStamp_run f hunique
  rw [if_neg (Bool.eq_false_iff.mp hcursors), if_neg (Bool.eq_false_iff.mp hfences)] at hcheck
  have hindex : (statement (noFilePlan .seqIndex) createSeqIndex).run f.withColumns = _ :=
    createSeqIndex_unique hunique
  rw [bringUp, run_bind_of_ok (addColumns_run f), run_bind_of_ok hindex,
    run_bind_of_ok (addTables_run hunique), hcheck]

theorem bringUp_ok {u : Unit} {f' : DbFile} (h : (bringUp f.found noFilePlan).run f = .ok u f') :
    (f.rows.filterMap FileRow.seqIndex).Nodup ∧ f.rows.any f.corrupt = false ∧
      f.retiredActive = false := by
  rw [bringUp, run_bind_of_ok (addColumns_run f)] at h
  by_cases hunique : (f.rows.filterMap FileRow.seqIndex).Nodup
  · have hindex : (statement (noFilePlan .seqIndex) createSeqIndex).run f.withColumns = _ :=
      createSeqIndex_unique hunique
    rw [run_bind_of_ok hindex, run_bind_of_ok (addTables_run hunique),
      checkAndStamp_run f hunique] at h
    refine ⟨hunique, ?_⟩
    cases hcorrupt : f.rows.any f.corrupt with
    | true => simp [hcorrupt] at h
    | false =>
      cases hactive : f.retiredActive with
      | true => simp [hcorrupt, hactive] at h
      | false => exact ⟨rfl, rfl⟩
  · have hindex : (statement (noFilePlan .seqIndex) createSeqIndex).run f.withColumns = _ :=
      createSeqIndex_duplicate hunique
    rw [run_bind_of_error hindex] at h
    cases h

/-- The transaction is all that is left of a file the inspection lets through. -/
theorem openFile_run (hseq : f.outbox.any (·.hasSeq) = false → f.rows = [])
    (hversion : f.userVersion ≤ 5) :
    (openFile noFilePlan).run f =
      (transaction none none (bringUp f.found noFilePlan)).run f.inWal := by
  have hno : ¬ (f.outbox.any (·.hasSeq) = false ∧ f.rows ≠ []) := fun hbad =>
    hbad.2 (hseq hbad.1)
  have hinspect := inspect_run f
  rw [if_neg hno, if_pos hversion] at hinspect
  have hopen : (statement (noFilePlan .openFile) (pure ()) : Program DbFile Unit).run f =
      .ok () f := rfl
  rw [openFile, run_bind_of_ok hopen, run_bind_of_ok hinspect]
  rfl

/-- `open` accepts the file. -/
theorem openFile_accepts (h : f.Accepted) :
    (openFile noFilePlan).run f = .ok () (f.inWal.opened h.unique) := by
  rw [openFile_run h.sequenced h.version, run_transaction_ok]
  exact ⟨rfl, rfl, bringUp_accepts (f := f.inWal) h.unique h.cursors h.fences⟩

/-- What `open` accepted was acceptable. -/
theorem accepted_of_openFile {u : Unit} {f' : DbFile}
    (h : (openFile noFilePlan).run f = .ok u f') : f.Accepted := by
  have hpast : ¬ (f.outbox.any (·.hasSeq) = false ∧ f.rows ≠ []) ∧ f.userVersion ≤ 5 := by
    have hopen : (statement (noFilePlan .openFile) (pure ()) : Program DbFile Unit).run f =
        .ok () f := rfl
    rw [openFile, run_bind_of_ok hopen] at h
    by_cases hno : f.outbox.any (·.hasSeq) = false ∧ f.rows ≠ []
    · have hinspect := inspect_run f
      rw [if_pos hno] at hinspect
      rw [run_bind_of_error hinspect] at h
      cases h
    · refine ⟨hno, ?_⟩
      by_contra hv
      have hinspect := inspect_run f
      rw [if_neg hno, if_neg hv] at hinspect
      rw [run_bind_of_error hinspect] at h
      cases h
  have hseq : f.outbox.any (·.hasSeq) = false → f.rows = [] := by
    intro hno
    by_contra hrows
    exact hpast.1 ⟨hno, hrows⟩
  rw [openFile_run hseq hpast.2, run_transaction_ok] at h
  rcases bringUp_ok (f := f.inWal) h.2.2 with ⟨hunique, hcursors, hfences⟩
  exact ⟨hseq, hpast.2, hcursors, hunique, hfences⟩

end Run

/-! ## Refusals and faults -/

section Faults

variable {fault : FilePlan} {f f' : DbFile}

theorem inspect_readOnly : Program.ReadOnly (inspect fault) := by
  refine .bind .query fun hasTable => ?_
  refine .bind (.ite .query (.pure _)) fun cols => ?_
  refine .bind (.ite (.bind .query fun _ => .require) (.pure _)) fun _ => ?_
  exact .bind .query fun _ => .bind .require fun _ => .pure _

/-- A refused file keeps its tables, their columns and the version. -/
theorem openFile_error {e : String} (h : (openFile fault).run f = .error e f') :
    f' = { f with wal := f'.wal } := by
  have hopen : Program.ReadOnly (statement (fault .openFile) (pure ()) : Program DbFile Unit) :=
    .statement (.pure _)
  rw [openFile] at h
  cases hfirst : (statement (fault .openFile) (pure ()) : Program DbFile Unit).run f with
  | error e₁ f₁ =>
    rw [run_bind_of_error hfirst] at h
    cases h
    rw [(hopen f).2 _ _ hfirst]
  | ok u f₁ =>
    rw [run_bind_of_ok hfirst, (hopen f).1 _ _ hfirst] at h
    cases hinspect : (inspect fault).run f with
    | error e₂ f₂ =>
      rw [run_bind_of_error hinspect] at h
      cases h
      rw [(inspect_readOnly f).2 _ _ hinspect]
    | ok found f₂ =>
      rw [run_bind_of_ok hinspect, (inspect_readOnly f).1 _ _ hinspect] at h
      -- the journal mode is set before the transaction: it stays when that rolls back
      cases hj : fault .journal with
      | some msg =>
        have hwal : (statement (fault .journal) (modify DbFile.inWal) : Program DbFile Unit).run f =
            .error msg f := by
          rw [hj]
          rfl
        rw [run_bind_of_error hwal] at h
        cases h
        rfl
      | none =>
        have hwal : (statement (fault .journal) (modify DbFile.inWal) : Program DbFile Unit).run f =
            .ok () f.inWal := by
          rw [hj]
          rfl
        rw [run_bind_of_ok hwal] at h
        rw [transaction_error h]
        rfl

theorem addColumn_below {missing : Bool} {g : Option String} {add : FileTable → FileTable} :
    Program.Below (addColumn missing g add) (addColumn missing none add) :=
  .ite (.statement (.refl _)) (.refl _)

theorem bringUp_below (found : Bool × Bool × Bool) :
    Program.Below (bringUp found fault) (bringUp found noFilePlan) := by
  have hmodify : ∀ (stmt : FileStmt) (g : DbFile → DbFile),
      Program.Below (statement (fault stmt) (modify g) : Program DbFile Unit)
        (statement (noFilePlan stmt) (modify g)) := fun _ _ => .statement (.refl _)
  refine .bind ?_ fun _ => .bind (.statement (.refl _)) fun _ => .bind ?_ fun _ => ?_
  · exact .bind (hmodify _ _) fun _ => .bind addColumn_below fun _ => .bind addColumn_below fun _ =>
      hmodify _ _
  · exact .bind (hmodify _ _) fun _ => .bind (hmodify _ _) fun _ => .bind (hmodify _ _) fun _ =>
      .bind (hmodify _ _) fun _ => hmodify _ _
  · exact .bind .query fun _ => .bind (.refl _) fun _ => .bind .query fun _ =>
      .bind (.refl _) fun _ => .bind (.statement (.refl _)) fun _ => hmodify _ _

/-- What a plan lets succeed succeeds without faults, with the same file. -/
theorem openFile_below : Program.Below (openFile fault) (openFile noFilePlan) := by
  refine .bind (.statement (.refl _)) fun _ => .bind ?_ fun found => ?_
  · refine .bind .query fun _ => .bind (.ite .query (.refl _)) fun _ => ?_
    refine .bind (.ite (.bind .query fun _ => .refl _) (.refl _)) fun _ => ?_
    exact .bind .query fun _ => .refl _
  · exact .bind (.statement (.refl _)) fun _ => .transaction (bringUp_below found)

end Faults

/-! ## Opening twice -/

section Again

variable {f : DbFile}

theorem FileRow.stamped_stamped {p q : FileRow → Bool} {r : FileRow}
    (h : q (r.stamped p) = false) : (r.stamped p).stamped q = r.stamped p := by
  unfold FileRow.stamped at h ⊢
  simp [h]

theorem FileRow.stamped_grouped (p : FileRow → Bool) (r : FileRow) :
    (r.stamped p).grouped = r.grouped := by
  unfold FileRow.stamped
  split <;> rfl

theorem streamOf_stamped (f : DbFile) (p : FileRow → Bool) (r : FileRow) :
    f.streamOf (r.stamped p) = f.streamOf r := by
  unfold FileRow.stamped
  split <;> rfl

/-- A stamped file has nothing left to stamp. -/
theorem unstamped_stamped (f : DbFile) (r : FileRow) :
    f.unstamped (r.stamped f.unstamped) = false := by
  cases hp : f.unstamped r with
  | false => simp [FileRow.stamped, hp]
  | true =>
    rw [FileRow.stamped, if_pos hp]
    rfl

theorem opened_opened (h : (f.rows.filterMap FileRow.seqIndex).Nodup)
    (h' : ((f.opened h).rows.filterMap FileRow.seqIndex).Nodup) :
    (f.opened h).opened h' = f.opened h := by
  have hrows : (f.opened h).rows.map (FileRow.stamped (f.opened h).unstamped) = (f.opened h).rows := by
    have hsame : (f.opened h).rows = f.rows.map (FileRow.stamped f.unstamped) := rfl
    rw [hsame, List.map_map]
    apply List.map_congr_left
    intro r _
    exact FileRow.stamped_stamped (unstamped_stamped f r)
  have htable : (((f.opened h).outbox.getD .empty).upgraded h').stamp (f.opened h).unstamped rfl =
      ((f.outbox.getD .empty).upgraded h).stamp f.unstamped rfl :=
    FileTable.ext hrows rfl rfl rfl rfl rfl
  exact congrArg (fun t => { f.opened h with outbox := some t }) htable

theorem DbFile.Accepted.opened (hacc : f.Accepted) : (f.opened hacc.unique).Accepted where
  sequenced := by
    intro hno
    cases hno
  version := le_refl (5 : Int)
  cursors := by
    have hrows : (f.opened hacc.unique).rows = f.rows.map (FileRow.stamped f.unstamped) := rfl
    rw [hrows, List.any_map, ← hacc.cursors]
    congr 1
    funext r
    unfold Function.comp DbFile.corrupt
    rw [FileRow.stamped_grouped, FileRow.stamped_callSeq]
    rw [show (f.opened hacc.unique).streamOf (r.stamped f.unstamped) = f.streamOf r from
      streamOf_stamped f _ r]
  unique := by
    have hrows : (f.opened hacc.unique).rows = f.rows.map (FileRow.stamped f.unstamped) := rfl
    rw [hrows, filterMap_stamped_seqIndex]
    exact hacc.unique
  fences := hacc.fences

/-- `open` on what it has opened does nothing. -/
theorem openFile_again (hacc : f.Accepted) :
    (openFile noFilePlan).run (f.inWal.opened hacc.unique) =
      .ok () (f.inWal.opened hacc.unique) := by
  have hinWal : f.inWal.Accepted :=
    ⟨hacc.sequenced, hacc.version, hacc.cursors, hacc.unique, hacc.fences⟩
  have hagain := openFile_accepts hinWal.opened
  have hsame : (f.inWal.opened hacc.unique).inWal = f.inWal.opened hacc.unique := rfl
  rw [hagain]
  congr 1
  exact opened_opened (f := f.inWal) hacc.unique _

end Again

/-! ## Files of the current version -/

section Current

variable {db : Db}

theorem streamOf_ofDb (r : Row) :
    (DbFile.ofDb db).streamOf r.toFile = (db.streamOf r.toEvent).map Stream.toFile := by
  unfold DbFile.streamOf Db.streamOf
  cases hc : r.callUuid with
  | none => simp [Row.toFile, hc]
  | some c =>
    have hstreams : (DbFile.ofDb db).streams = db.callStreams.rows.map Stream.toFile := rfl
    simp only [Row.toFile, hc, Option.bind_some, hstreams, List.find?_map, Table.find?]
    rfl

theorem deliverable_ofDb (r : Row) :
    (DbFile.ofDb db).deliverable r.toFile = db.deliverable r.toEvent := by
  unfold DbFile.deliverable Db.deliverable Db.isHead
  rw [streamOf_ofDb, Option.any_map]
  rfl

theorem corrupt_ofDb (r : Row) : (DbFile.ofDb db).corrupt r.toFile = corrupt db r := by
  unfold DbFile.corrupt corrupt
  rw [streamOf_ofDb, Option.isNone_map]
  rfl

theorem retiredActive_ofDb : (DbFile.ofDb db).retiredActive =
    db.retiredCalls.rows.any fun f => (db.callStreams.find? f.call).isSome := by
  unfold DbFile.retiredActive
  have hfences : (DbFile.ofDb db).fences = db.retiredCalls.rows := rfl
  have hstreams : (DbFile.ofDb db).streams = db.callStreams.rows.map Stream.toFile := rfl
  rw [hfences, hstreams]
  congr 1
  funext q
  rw [List.any_map, Bool.eq_iff_iff, Table.find?, List.find?_isSome, List.any_eq_true]
  constructor
  · rintro ⟨s, hs, hcall⟩
    exact ⟨s, hs, decide_eq_true (of_decide_eq_true hcall).symm⟩
  · rintro ⟨s, hs, hcall⟩
    exact ⟨s, hs, decide_eq_true (of_decide_eq_true hcall).symm⟩

/-- The file of a database that `openDb` accepts is accepted. -/
theorem accepted_ofDb (hcursors : db.outbox.rows.any (corrupt db) = false)
    (hfences : (db.retiredCalls.rows.any fun f => (db.callStreams.find? f.call).isSome) = false) :
    (DbFile.ofDb db).Accepted where
  sequenced := by
    intro hno
    cases hno
  version := le_refl (5 : Int)
  cursors := by
    have hrows : (DbFile.ofDb db).rows = db.outbox.rows.map Row.toFile := rfl
    rw [hrows, List.any_map, ← hcursors]
    congr 1
    funext r
    exact corrupt_ofDb r
  unique := by
    have hrows : (DbFile.ofDb db).rows = db.outbox.rows.map Row.toFile := rfl
    rw [hrows, filterMap_toFile_seqIndex]
    exact db.outbox.index_nodup
  fences := by
    rw [retiredActive_ofDb]
    exact hfences

theorem openDb_checks {fault : FaultPlan} {db' : Db} {u : Unit}
    (h : (openDb fault).run db = .ok u db') :
    db.outbox.rows.any (corrupt db) = false ∧
      (db.retiredCalls.rows.any fun f => (db.callStreams.find? f.call).isSome) = false := by
  simp only [openDb, run_transaction_ok, run_bind_ok, run_statement_ok, updateOutbox_ok,
    run_query_ok, run_require_ok, run_pure_ok, Bool.not_eq_true'] at h
  obtain ⟨_, _, ⟨-, -, rfl⟩, -, -, _, _, ⟨-, -, rfl⟩, _, _, ⟨-, rfl, rfl⟩, _, _, ⟨hcursors, rfl⟩,
    _, _, ⟨-, rfl, rfl⟩, _, _, ⟨hfences, rfl⟩, -⟩ := h
  exact ⟨hcursors, hfences⟩

/-- On the file of a database, `openFile` does what `openDb` does. -/
theorem openFile_ofDb {fault : FaultPlan} {db' : Db} {u : Unit}
    (h : (openDb fault).run db = .ok u db') :
    (openFile noFilePlan).run (.ofDb db) = .ok () (.ofDb db') := by
  rcases openDb_checks h with ⟨hcursors, hfences⟩
  have hacc := accepted_ofDb hcursors hfences
  rw [openFile_accepts hacc, openDb_ok h]
  have hrow : ∀ r : Row, r.toFile.stamped (DbFile.ofDb db).inWal.unstamped =
      (if unstamped db r then
        (⟨r.toEvent, { r.toProgress with eligibleAtMs := some r.createdAtMs }⟩ : Row)
        else r).toFile := by
    intro r
    have hun : (DbFile.ofDb db).inWal.unstamped r.toFile = unstamped db r :=
      congrArg (r.eligibleAtMs = none && ·) (deliverable_ofDb r)
    rw [FileRow.stamped, hun]
    split <;> rfl
  have htable : ((FileTable.ofOutbox db.outbox).upgraded hacc.unique).stamp
      (DbFile.ofDb db).inWal.unstamped rfl =
      FileTable.ofOutbox (db.updateOutbox (unstamped db) fun r =>
        { r.toProgress with eligibleAtMs := some r.createdAtMs }).outbox := by
    refine FileTable.ext ?_ rfl rfl rfl rfl rfl
    show (db.outbox.rows.map Row.toFile).map _ = (db.outbox.rows.map _).map Row.toFile
    rw [List.map_map, List.map_map]
    exact List.map_congr_left fun r _ => hrow r
  exact congrArg (fun t => EStateM.Result.ok () { DbFile.ofDb db with outbox := some t }) htable

end Current

/-! ## What an accepted file becomes -/

/-- An accepted file: nothing is rewritten but the stamps and the version, and a new
scheduler starts at the last turn served. -/
structure Opened (f f' : DbFile) : Prop where
  rows : f'.rows = f.rows.map (FileRow.stamped f.unstamped)
  streams : f'.streams = f.streams
  fences : f'.fences = f.fences
  turn : ∀ t, f.scheduler = some (some t) → f'.scheduler = some (some t)
  newTurn : (∀ t, f.scheduler ≠ some (some t)) →
    ∃ t, f'.scheduler = some (some t) ∧ ∀ s ∈ f.streams, s.lastServedMs ≤ t
  version : f'.userVersion = 5

theorem opened_of_accepted {f : DbFile} (h : (f.rows.filterMap FileRow.seqIndex).Nodup) :
    Opened f (f.inWal.opened h) where
  rows := rfl
  streams := rfl
  fences := rfl
  turn := by
    intro t ht
    show some (some ((f.scheduler.getD none).getD f.maxServed)) = _
    rw [ht]
    rfl
  newTurn := by
    intro hnew
    refine ⟨f.maxServed, ?_, fun s hs => f.le_maxServed hs⟩
    show some (some ((f.scheduler.getD none).getD f.maxServed)) = _
    rcases hs : f.scheduler with _ | _ | t
    · rfl
    · rfl
    · exact absurd hs (hnew t)
  version := rfl

/-- `open` refuses a file without touching its tables, columns or version, whatever
statement fails; it refuses exactly the files that are not `Accepted`; an accepted file
is `Opened`, and to open that again changes nothing; and the file of every state a run
of the current version reaches is left as it is. -/
theorem opening_is_conservative (f : DbFile) (fault : FilePlan) :
    (∀ e f', (openFile fault).run f = .error e f' → f' = { f with wal := f'.wal }) ∧
    ((∃ e f', (openFile noFilePlan).run f = .error e f') ↔ ¬ f.Accepted) ∧
    (∀ f', (openFile fault).run f = .ok () f' → Opened f f' ∧
      (openFile noFilePlan).run f' = .ok () f' ∧
      ∀ again f'', (openFile again).run f' = .ok () f'' → f'' = f') ∧
    ∀ acts : List LifeOp,
      let db := (Machine.run Outbox.live Outbox.init acts).db
      (openDb noFault).run db = .ok () db ∧
        (openFile noFilePlan).run (.ofDb db) = .ok () (.ofDb db) := by
  refine ⟨fun e f' => openFile_error, ?_, ?_, ?_⟩
  · constructor
    · rintro ⟨e, f', herr⟩ hacc
      rw [openFile_accepts hacc] at herr
      cases herr
    · intro hno
      cases hrun : (openFile noFilePlan).run f with
      | error e f' => exact ⟨e, f', rfl⟩
      | ok u f' => exact absurd (accepted_of_openFile hrun) hno
  · intro f' hok
    have hrun := openFile_below f () f' hok
    have hacc := accepted_of_openFile hrun
    rw [openFile_accepts hacc, EStateM.Result.ok.injEq] at hrun
    rw [← hrun.2]
    have hsame := openFile_again hacc
    refine ⟨opened_of_accepted hacc.unique, hsame, ?_⟩
    intro again f'' hagain
    have hok' := openFile_below _ () f'' hagain
    rw [hsame, EStateM.Result.ok.injEq] at hok'
    exact hok'.2.symm
  · intro acts
    exact ⟨(stamped_life acts).openDb_run, openFile_ofDb (stamped_life acts).openDb_run⟩

end EventKafka
