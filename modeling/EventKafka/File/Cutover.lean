import EventKafka.File.Migrate
import EventKafka.Outbox.Backlog

/-! # From the tool to the core

The output of `migrate` is opened by the module and its in-flight rows are requeued. What
comes out is a state of the core like any other: it satisfies the store invariant, the
rows that are deliverable and no others are stamped, and every call with a backlog has it
in line.
-/

namespace EventKafka

open Sql

/-! ## The database of a file -/

/-- The state a text of `state` names. -/
def OutboxState.ofText (s : String) : OutboxState :=
  if s = "in_flight" then .inFlight else if s = "dead" then .dead else .pending

/-- The columns of the row that only `INSERT` writes. -/
def FileRow.toEvent (r : FileRow) : Event where
  eventId := r.eventId.getD ""
  topic := r.topic
  msgKey := r.msgKey
  payload := r.payload
  createdAtMs := r.createdAtMs
  callUuid := r.callUuid
  callSeq := r.callSeq

/-- The row, as the core has it. -/
def FileRow.toRow (r : FileRow) : Row where
  toEvent := r.toEvent
  state := .ofText r.state
  attempts := r.attempts
  nextAttemptAtMs := r.nextAttemptAtMs
  lastError := r.lastError
  updatedAtMs := r.updatedAtMs
  eligibleAtMs := r.eligibleAtMs

/-- The row can be one of the core. -/
structure FileRow.Known (r : FileRow) : Prop where
  id : r.eventId.isSome = true
  state : r.state = "pending" ∨ r.state = "in_flight" ∨ r.state = "dead"

theorem FileRow.Known.toFile {r : FileRow} (h : r.Known) : r.toRow.toFile = r := by
  rcases Option.isSome_iff_exists.mp h.id with ⟨id, hid⟩
  have hstate : (OutboxState.ofText r.state).text = r.state := by
    rcases h.state with hs | hs | hs <;> rw [hs] <;> rfl
  cases r
  simp only [FileRow.toRow, FileRow.toEvent, Row.toFile, FileRow.mk.injEq] at hid hstate ⊢
  simp [hid, hstate]

/-- A cursor of `migrate`, as the core has it. -/
def FileStream.toStream (s : FileStream) : Stream where
  toCursor := s.toCursor
  topic := s.topic
  callUuid := s.callUuid
  msgKey := s.msgKey
  mode := .admission

theorem FileStream.toFile_toStream {s : FileStream} (h : s.mode = "admission") :
    s.toStream.toFile = s := by
  cases s
  simp only at h
  subst h
  rfl

theorem map_toFile_toRow {rows : List FileRow} (h : ∀ r ∈ rows, r.Known) :
    (rows.map FileRow.toRow).map Row.toFile = rows := by
  rw [List.map_map]
  refine (List.map_congr_left (g := id) fun r hr => ?_).trans (List.map_id _)
  exact (h r hr).toFile

/-- The table, as the core has it. -/
def FileTable.toOutbox (t : FileTable) (hindex : t.seqIndexed = true)
    (hrows : ∀ r ∈ t.rows, r.Known) : OutboxTable where
  rows := t.rows.map FileRow.toRow
  key_nodup := by
    rw [← filterMap_toFile_eventId, map_toFile_toRow hrows]
    exact t.key_nodup
  index_nodup := by
    rw [← filterMap_toFile_seqIndex, map_toFile_toRow hrows]
    exact t.index_nodup hindex

/-- The cursors, as the core has them. -/
def FileStreamTable.toStreams (st : FileStreamTable) : StreamTable where
  rows := st.rows.map FileStream.toStream
  key_nodup := by
    rw [List.map_map]
    exact st.key_nodup
  index_nodup := by
    rw [List.filterMap_map]
    exact st.index_nodup

/-- A file of the current version, whose rows and cursors the core knows, is that of a
database. -/
theorem DbFile.exists_db {o : DbFile} {t : FileTable} {st : FileStreamTable} {turn : Int}
    (htable : o.outbox = some t) (hflags : t.hasSeq = true ∧ t.hasEligible = true ∧
      t.seqIndexed = true ∧ t.dueIndexed = true ∧ t.ttlIndexed = true)
    (hrows : ∀ r ∈ t.rows, r.Known) (hstreams : o.callStreams = some st)
    (hmodes : ∀ s ∈ st.rows, s.mode = "admission") (hfences : o.retiredCalls = some .empty)
    (hturn : o.scheduler = some (some turn)) (hversion : o.userVersion = 5) (hwal : o.wal = true) :
    ∃ db, o = .ofDb db ∧ db.outbox.rows = t.rows.map FileRow.toRow ∧
      db.callStreams.rows = st.rows.map FileStream.toStream ∧ db.retiredCalls = .empty := by
  refine ⟨⟨t.toOutbox hflags.2.2.1 hrows, FileStreamTable.toStreams st, .empty, turn⟩, ?_, rfl, rfl,
    rfl⟩
  have houtbox : t = .ofOutbox (t.toOutbox hflags.2.2.1 hrows) :=
    FileTable.ext (map_toFile_toRow hrows).symm hflags.1 hflags.2.1 hflags.2.2.1 hflags.2.2.2.1
      hflags.2.2.2.2
  have hst : st = .ofStreams (FileStreamTable.toStreams st) := by
    apply Table.ext_rows
    show st.rows = (st.rows.map FileStream.toStream).map Stream.toFile
    rw [List.map_map]
    refine (List.map_id _).symm.trans (List.map_congr_left (f := id) fun s hs => ?_)
    exact (FileStream.toFile_toStream (hmodes s hs)).symm
  cases o
  simp only at htable hstreams hfences hturn hversion hwal
  subst htable hstreams hfences hturn hversion hwal
  exact congrArg₂ (fun a b => DbFile.mk (some a) (some b) _ _ _ _) houtbox hst

/-! ## The output of `migrate` -/

/-- The output of `migrate` for the legacy rows `rows`. -/
structure Migrated (rows : List FileRow) (g : DbFile) : Prop where
  known : ∀ r ∈ rows, r.Known
  nodup : Identified rows
  declared : ∃ gs, Declaring rows gs g ∧ ∀ c, c ∈ gs ↔ c.2 ≠ "" ∧ backlog rows c ≠ []

section Migrated

variable {rows : List FileRow} {g : DbFile}

theorem Migrated.of_migrate {digest : List FileRow → String} {args : MigrateArgs} {fault : OpsPlan}
    {f f' : DbFile} {u : Unit} (hf : f.Legacy)
    (h : (migrate digest args fault).run f = .ok u f') : Migrated f.rows f' := by
  rcases migrate_ok hf h with ⟨hdeclared, hstates⟩
  exact ⟨fun r hr => ⟨hf.ids r hr, hstates r hr⟩, hf.identified, hdeclared⟩

theorem Migrated.legacy (h : Migrated rows g) : g.rows.map FileRow.legacy = rows := by
  rcases h.declared with ⟨gs, hd, -⟩
  exact hd.legacy

theorem Migrated.backlog_legacy (h : Migrated rows g) (c : Call) :
    (backlog g.rows c).map FileRow.legacy = backlog rows c := by
  rcases h.declared with ⟨gs, hd, -⟩
  exact hd.backlog_legacy c

theorem Migrated.row_known (h : Migrated rows g) {r : FileRow} (hr : r ∈ g.rows) : r.Known := by
  have hmem : r.legacy ∈ rows := h.legacy ▸ List.mem_map_of_mem hr
  exact ⟨(h.known _ hmem).id, (h.known _ hmem).state⟩

/-- The rows of a call, in the declared order, are numbered from 0 on. -/
theorem Migrated.numbered (h : Migrated rows g) {c : Call} (hc : c.2 ≠ "") :
    (backlog g.rows c).map FileRow.callSeq =
      (List.range (backlog rows c).length).map fun k : Nat => some (k : Int) := by
  rcases h.declared with ⟨gs, hd, hgs⟩
  by_cases hne : backlog rows c = []
  · have hnil := h.backlog_legacy c
    rw [hne, List.map_eq_nil_iff] at hnil
    rw [hnil, hne]
    rfl
  · exact hd.numbered c ((hgs c).mpr ⟨hc, hne⟩)

theorem Migrated.ungrouped (h : Migrated rows g) {r : FileRow} (hr : r ∈ g.rows)
    (hg : r.grouped = false) : r.callSeq = none := by
  rcases h.declared with ⟨gs, hd, hgs⟩
  refine hd.unset r hr fun c hc => ?_
  rw [Bool.eq_false_iff]
  intro hcall
  rw [FileRow.ofCall_iff] at hcall
  have huuid : r.uuid = c.2 := by simp [FileRow.uuid, hcall.2]
  have hempty : r.uuid = "" := by simpa [FileRow.grouped] using hg
  exact ((hgs c).mp hc).1 (huuid.symm.trans hempty)

/-- There is a cursor for each call with a backlog, and no other. -/
theorem Migrated.cursors (h : Migrated rows g) :
    (∀ c : Call, c.2 ≠ "" → backlog rows c ≠ [] → ∃ s ∈ g.streams, s.call = c) ∧
      ∀ s ∈ g.streams, s.callUuid ≠ "" ∧ CursorOf rows s := by
  rcases h.declared with ⟨gs, hd, hgs⟩
  rcases hd.streams with ⟨t, ht, hcalls, hcursors⟩
  have hstreams : g.streams = t.rows := by simp [DbFile.streams, ht]
  rw [hstreams]
  constructor
  · intro c hc hne
    have hmem := (hgs c).mpr ⟨hc, hne⟩
    rw [← hcalls, List.mem_map] at hmem
    exact hmem
  · intro s hs
    refine ⟨?_, hcursors s hs⟩
    have hmem : s.call ∈ gs := hcalls ▸ List.mem_map_of_mem hs
    exact ((hgs s.call).mp hmem).1

/-- A grouped row stands in the backlog of its call at the position it is numbered with. -/
theorem Migrated.placed (h : Migrated rows g) {r : FileRow} (hr : r ∈ g.rows) {c : Call}
    (hc : c.2 ≠ "") (hcall : r.ofCall c = true) :
    ∃ k : Nat, r.callSeq = some (k : Int) ∧ (backlog g.rows c)[k]? = some r ∧
      k < (backlog rows c).length := by
  rcases List.getElem_of_mem (mem_backlog.mpr ⟨hr, hcall⟩) with ⟨k, hk, hget⟩
  have hlen := congrArg List.length (h.numbered hc)
  have hseq := congrArg (fun l => l[k]?) (h.numbered hc)
  simp only [List.length_map, List.length_range] at hlen
  simp only [List.getElem?_map, List.getElem?_eq_getElem hk, hget, Option.map_some,
    List.getElem?_range (hlen ▸ hk), Option.some.injEq] at hseq
  exact ⟨k, hseq, by rw [List.getElem?_eq_getElem hk, hget], hlen ▸ hk⟩

/-- Every number below the length of the backlog is taken. -/
theorem Migrated.filled (h : Migrated rows g) {c : Call} (hc : c.2 ≠ "") {k : Nat}
    (hk : k < (backlog rows c).length) :
    ∃ r ∈ g.rows, r.ofCall c = true ∧ r.callSeq = some (k : Int) := by
  have hseq := congrArg (fun l => l[k]?) (h.numbered hc)
  simp only [List.getElem?_map, List.getElem?_range hk, Option.map_some,
    Option.map_eq_some_iff] at hseq
  rcases hseq with ⟨r, hget, hk⟩
  rcases mem_backlog.mp (List.mem_of_getElem? hget) with ⟨hr, hcall⟩
  exact ⟨r, hr, hcall, hk⟩

/-- The rows of call `c` have the numbers below `n`, each once, in the order of
`created_at_ms,event_id`. -/
structure Sequenced (rows : List FileRow) (c : Call) (n : Nat) : Prop where
  range : ∀ r ∈ rows, r.ofCall c = true → ∃ k : Nat, k < n ∧ r.callSeq = some (k : Int)
  filled : ∀ k : Nat, k < n → ∃ r ∈ rows, r.ofCall c = true ∧ r.callSeq = some (k : Int)
  unique : ∀ r ∈ rows, ∀ q ∈ rows, r.ofCall c = true → q.ofCall c = true →
    r.callSeq = q.callSeq → r = q
  increasing : ∀ r ∈ rows, ∀ q ∈ rows, r.ofCall c = true → q.ofCall c = true → ∀ i j : Int,
    r.callSeq = some i → q.callSeq = some j → (i ≤ j ↔ backlogLe r q)

theorem length_backlog (rows : List FileRow) (c : Call) :
    (backlog rows c).length = rows.countP (FileRow.ofCall c) := by
  rw [backlog, List.length_insertionSort, List.countP_eq_length_filter]

theorem Migrated.sequenced (h : Migrated rows g) {c : Call} (hc : c.2 ≠ "") :
    Sequenced g.rows c (rows.countP (FileRow.ofCall c)) := by
  rw [← length_backlog]
  have hids : Identified g.rows := by
    rcases h.declared with ⟨gs, hd, -⟩
    exact hd.identified h.nodup
  refine ⟨?_, fun k hk => h.filled hc hk, ?_, ?_⟩
  · intro r hr hcall
    rcases h.placed hr hc hcall with ⟨k, hk, -, hlt⟩
    exact ⟨k, hlt, hk⟩
  · intro r hr q hq hrc hqc hseq
    rcases h.placed hr hc hrc with ⟨i, hi, hgeti, -⟩
    rcases h.placed hq hc hqc with ⟨j, hj, hgetj, -⟩
    have hij : i = j := by
      rw [hi, hj, Option.some.injEq] at hseq
      omega
    rw [hij, hgetj, Option.some.injEq] at hgeti
    exact hgeti.symm
  · intro r hr q hq hrc hqc i j hri hqj
    rcases h.placed hr hc hrc with ⟨m, hm, hgetm, -⟩
    rcases h.placed hq hc hqc with ⟨n, hn, hgetn, -⟩
    rw [hm, Option.some.injEq] at hri
    rw [hn, Option.some.injEq] at hqj
    constructor
    · intro hij
      rcases Nat.lt_or_eq_of_le (show m ≤ n by omega) with hlt | heq
      · exact backlogLe_of_lt hlt hgetm hgetn
      · rw [heq, hgetn, Option.some.injEq] at hgetm
        rw [hgetm]
        exact (backlogLe_total r r).elim id id
    · intro hrq
      by_contra hnot
      have hqr := backlogLe_of_lt (show n < m by omega) hgetn hgetm
      have heq := hids.eq_of_eventId hr hq (backlogLe_antisymm hrq hqr)
      rw [heq, hn, Option.some.injEq] at hm
      omega

/-- A grouped row is one of its call. -/
theorem FileRow.ofCall_of_grouped {r : FileRow} (hg : r.grouped = true) :
    r.ofCall (r.topic, r.uuid) = true ∧ r.uuid ≠ "" := by
  have huuid : r.uuid ≠ "" := by simpa [FileRow.grouped] using hg
  refine ⟨FileRow.ofCall_iff.mpr ⟨rfl, ?_⟩, huuid⟩
  cases hcall : r.callUuid with
  | none => simp [FileRow.uuid, hcall] at huuid
  | some u => simp [FileRow.uuid, hcall]

/-- A grouped row joins to the cursor of its call. -/
theorem Migrated.streamOf (h : Migrated rows g) {r : FileRow} (hr : r ∈ g.rows)
    (hg : r.grouped = true) :
    ∃ s ∈ g.streams, g.streamOf r = some s ∧ s.call = (r.topic, r.uuid) := by
  rcases FileRow.ofCall_of_grouped hg with ⟨hcall, huuid⟩
  have hne : backlog rows (r.topic, r.uuid) ≠ [] := by
    rw [← h.backlog_legacy]
    exact List.ne_nil_of_mem (List.mem_map_of_mem (mem_backlog.mpr ⟨hr, hcall⟩))
  rcases h.cursors.1 _ huuid hne with ⟨s, hs, hsc⟩
  have hsome : (g.streamOf r).isSome = true := by
    rw [DbFile.streamOf, (FileRow.ofCall_iff.mp hcall).2]
    simp only [Option.bind_some, List.find?_isSome, decide_eq_true_eq]
    exact ⟨s, hs, hsc⟩
  rcases Option.isSome_iff_exists.mp hsome with ⟨q, hq⟩
  have hfind := hq
  rw [DbFile.streamOf, (FileRow.ofCall_iff.mp hcall).2, Option.bind_some] at hfind
  exact ⟨q, List.mem_of_find?_eq_some hfind, hq, by simpa using List.find?_some hfind⟩

/-- `open` accepts the output. -/
theorem Migrated.accepted (h : Migrated rows g) : g.Accepted := by
  rcases h.declared with ⟨gs, hd, -⟩
  rcases hd.table with ⟨t, ht, hseq, -, hindex, -⟩
  rcases hd.rest with ⟨hfences, -, hversion⟩
  have hrows : g.rows = t.rows := by simp [DbFile.rows, ht]
  refine ⟨?_, hversion, ?_, ?_, ?_⟩
  · intro hno
    simp [ht, hseq] at hno
  · rw [List.any_eq_false]
    intro r hr hcor
    simp only [DbFile.corrupt, Bool.and_eq_true, Bool.or_eq_true, decide_eq_true_eq] at hcor
    rcases hcor with ⟨hg, hbad⟩
    rcases FileRow.ofCall_of_grouped hg with ⟨hcall, huuid⟩
    rcases h.placed hr huuid hcall with ⟨k, hk, -⟩
    rcases h.streamOf hr hg with ⟨s, -, hs, -⟩
    rcases hbad with hnone | hnone
    · simp [hk] at hnone
    · simp [hs] at hnone
  · rw [hrows]
    exact t.index_nodup hindex
  · simp [DbFile.retiredActive, DbFile.fences, hfences, Table.empty]

/-- What the core finds after `open`: the rows and cursors of the output, the deliverable
rows stamped. -/
structure Received (g : DbFile) (db : Db) : Prop where
  rows : db.outbox.rows = g.rows.map fun r => (r.stamped g.unstamped).toRow
  streams : db.callStreams.rows = g.streams.map FileStream.toStream
  fences : db.retiredCalls = .empty

theorem Migrated.opens (h : Migrated rows g) :
    ∃ db, (openFile noFilePlan).run g = .ok () (.ofDb db) ∧ Received g db := by
  rw [openFile_accepts h.accepted]
  rcases h.declared with ⟨gs, hd, -⟩
  rcases hd.streams with ⟨st, hst, -, hcursors⟩
  rcases hd.rest with ⟨hfences, hturn, -⟩
  have hstreams : g.streams = st.rows := by simp [DbFile.streams, hst]
  have hknown : ∀ r ∈ g.rows.map (FileRow.stamped g.unstamped), r.Known := by
    intro r' hr'
    rcases List.mem_map.mp hr' with ⟨r, hr, rfl⟩
    have hr := h.row_known hr
    unfold FileRow.stamped
    split
    · exact ⟨hr.id, hr.state⟩
    · exact hr
  have hst' : (g.inWal.opened h.accepted.unique).callStreams = some st := by
    show some (g.callStreams.getD .empty) = some st
    rw [hst]
    rfl
  have hfences' : (g.inWal.opened h.accepted.unique).retiredCalls = some .empty := by
    show some (g.retiredCalls.getD .empty) = some .empty
    rw [hfences]
    rfl
  have hturn' : (g.inWal.opened h.accepted.unique).scheduler = some (some 0) := by
    show some (some ((g.scheduler.getD none).getD _)) = some (some 0)
    rw [hturn]
    rfl
  rcases DbFile.exists_db rfl ⟨rfl, rfl, rfl, rfl, rfl⟩ hknown hst'
    (fun s hs => (hcursors s hs).mode) hfences' hturn' rfl rfl with
    ⟨db, heq, hdbRows, hdbStreams, hdbFences⟩
  refine ⟨db, by rw [heq], ?_, ?_, hdbFences⟩
  · rw [hdbRows]
    exact List.map_map
  · rw [hdbStreams, hstreams]

end Migrated

/-! ## After `requeue_in_flight` -/

/-- The database after `open` and `requeue_in_flight`. -/
structure Landed (g : DbFile) (db : Db) : Prop where
  forward : ∀ r ∈ g.rows, ∃ q ∈ db.outbox, q.toEvent = r.toEvent
  backward : ∀ q ∈ db.outbox, ∃ r ∈ g.rows, q.toEvent = r.toEvent ∧ q.state ≠ .inFlight ∧
    q.eligibleAtMs = (r.stamped g.unstamped).eligibleAtMs
  streams : ∀ s, s ∈ db.callStreams ↔ ∃ s' ∈ g.streams, s = s'.toStream
  fences : db.retiredCalls = .empty

theorem FileRow.stamped_toEvent (p : FileRow → Bool) (r : FileRow) :
    (r.stamped p).toRow.toEvent = r.toEvent := by
  unfold FileRow.stamped
  split <;> rfl

theorem Received.requeued {g : DbFile} {db : Db} (h : Received g db) (now₁ now₂ : Int) :
    Landed g (Outbox.step ⟨db, true⟩ (.requeueInFlight now₁ now₂ noFault)).db := by
  have hdb : (Outbox.step ⟨db, true⟩ (.requeueInFlight now₁ now₂ noFault)).db =
      db.updateOutbox (fun r => r.state = .inFlight) fun r =>
        { r.toProgress with state := .pending, nextAttemptAtMs := now₁, updatedAtMs := now₂ } := rfl
  rw [hdb]
  have hmem : ∀ q, q ∈ db.outbox ↔ ∃ r ∈ g.rows, (r.stamped g.unstamped).toRow = q := by
    intro q
    rw [Table.mem_def, h.rows, List.mem_map]
  refine ⟨?_, ?_, ?_, h.fences⟩
  · intro r hr
    refine ⟨_, Db.mem_updateOutbox.mpr ⟨_, (hmem _).mpr ⟨r, hr, rfl⟩, rfl⟩, ?_⟩
    rw [← FileRow.stamped_toEvent g.unstamped r]
    split <;> rfl
  · intro q' hq'
    rcases Db.mem_updateOutbox.mp hq' with ⟨q, hq, rfl⟩
    rcases (hmem q).mp hq with ⟨r, hr, rfl⟩
    refine ⟨r, hr, ?_, ?_, ?_⟩
    · rw [← FileRow.stamped_toEvent g.unstamped r]
      split <;> rfl
    · split
      · simp
      · rename_i hno
        simpa using hno
    · split <;> rfl
  · intro s
    show s ∈ db.callStreams ↔ _
    rw [Table.mem_def, h.streams, List.mem_map]
    constructor
    · rintro ⟨s', hs', rfl⟩
      exact ⟨s', hs', rfl⟩
    · rintro ⟨s', hs', rfl⟩
      exact ⟨s', hs', rfl⟩

section Landed

variable {rows : List FileRow} {g : DbFile} {db : Db}

/-- The cursor of the call of a grouped row, and the position of the row. -/
theorem Landed.placed (h : Landed g db) (hm : Migrated rows g) {q : Row} (hq : q ∈ db.outbox)
    (hg : q.grouped = true) : ∃ s ∈ db.callStreams, ∃ k, Placed q s k := by
  rcases h.backward q hq with ⟨r, hr, hevent, -⟩
  have hrg : r.grouped = true := by
    rw [hevent] at hg
    exact hg
  rcases FileRow.ofCall_of_grouped hrg with ⟨hcall, huuid⟩
  rcases hm.streamOf hr hrg with ⟨s, hs, -, hsc⟩
  rcases hm.placed hr huuid hcall with ⟨k, hk, hget, hlt⟩
  have hcursor := (hm.cursors.2 s hs).2
  refine ⟨s.toStream, (h.streams _).mpr ⟨s, hs, rfl⟩, k, ?_, ?_, ?_, ?_, ?_⟩
  · rw [hevent]
    exact hsc
  · rw [hevent]
    have hmem : r.legacy ∈ backlog rows s.call := by
      rw [hsc, ← hm.backlog_legacy]
      exact List.mem_map_of_mem (mem_backlog.mpr ⟨hr, hcall⟩)
    have hkey := hcursor.keys r.legacy hmem
    exact hkey
  · rw [hevent]
    exact hk
  · show s.nextSeq ≤ _
    rw [hcursor.nextSeq]
    omega
  · show _ < s.admitSeq
    rw [hcursor.admitSeq, hsc]
    omega

/-- It satisfies the store invariant. -/
theorem Landed.inv (h : Landed g db) (hm : Migrated rows g) : StoreInv db where
  placed := fun q hq hg => h.placed hm hq hg
  heads := by
    intro q hq _ hstate
    rcases h.backward q hq with ⟨r, -, -, hno, -⟩
    exact absurd hstate hno
  bounded := by
    intro s hs
    rcases (h.streams s).mp hs with ⟨s', hs', rfl⟩
    have hcursor := (hm.cursors.2 s' hs').2
    have hnext : s'.toStream.nextSeq = 0 := hcursor.nextSeq
    have hlast : s'.toStream.admitSeq = (backlog rows s'.call).length := hcursor.admitSeq
    refine ⟨by omega, by omega, hcursor.max⟩
  fenced := by
    intro s _ f hf
    rw [h.fences] at hf
    exact absurd hf (Table.notMem_empty f)
  dense := by
    intro s hs _ k hlo hhi
    rcases (h.streams s).mp hs with ⟨s', hs', rfl⟩
    have hcursor := (hm.cursors.2 s' hs').2
    have hnext : s'.toStream.nextSeq = 0 := hcursor.nextSeq
    have hlast : s'.toStream.admitSeq = (backlog rows s'.call).length := hcursor.admitSeq
    have hc : s'.call.2 ≠ "" := (hm.cursors.2 s' hs').1
    rcases hm.filled hc (k := k.toNat) (by omega) with ⟨r, hr, hcall, hk⟩
    rcases h.forward r hr with ⟨q, hq, hevent⟩
    rw [FileRow.ofCall_iff] at hcall
    refine ⟨q, hq, ?_, ?_, ?_⟩
    · rw [hevent]
      simpa [Event.grouped, Event.uuid, FileRow.toEvent, hcall.2] using hc
    · rw [hevent]
      simp [Event.call, Event.uuid, FileRow.toEvent, hcall, FileStream.call]
      rfl
    · rw [hevent]
      show r.callSeq = some k
      rw [hk]
      congr 1
      omega

/-- The core and the file agree on what is deliverable. -/
theorem Landed.deliverable (h : Landed g db) (hm : Migrated rows g) {r : FileRow}
    (hr : r ∈ g.rows) : db.deliverable r.toEvent = g.deliverable r := by
  cases hg : r.grouped with
  | false =>
    rw [Db.deliverable_of_not_grouped (e := r.toEvent) hg, DbFile.deliverable, hg]
    rfl
  | true =>
    rcases hm.streamOf hr hg with ⟨s, hs, hjoin, hsc⟩
    have hmem : s.toStream ∈ db.callStreams := (h.streams _).mpr ⟨s, hs, rfl⟩
    have hfile : g.deliverable r = true ↔ r.callSeq = some s.nextSeq := by
      simp [DbFile.deliverable, hg, hjoin]
    rw [Db.deliverable_of_grouped (e := r.toEvent) hg, Bool.eq_iff_iff, hfile,
      Db.isHead_of_grouped (r := r.toEvent) hg]
    constructor
    · rintro ⟨s', hs', hcall, hseq⟩
      have heq : s' = s.toStream := Table.eq_of_key hs' hmem (hcall.trans hsc.symm)
      rw [heq] at hseq
      exact hseq
    · intro hseq
      exact ⟨s.toStream, hmem, hsc, hseq⟩

/-- The stamps are on the deliverable rows and on no other. -/
theorem Landed.stamped (h : Landed g db) (hm : Migrated rows g) : Stamped db where
  inv := h.inv hm
  null := by
    intro q hq
    rcases h.backward q hq with ⟨r, hr, hevent, -, hstamp⟩
    have hnull : r.eligibleAtMs = none := by
      rcases hm.declared with ⟨gs, hd, -⟩
      rcases hd.table with ⟨t, ht, -, hno, -⟩
      exact t.eligible_null hno r (by simpa [DbFile.rows, ht] using hr)
    rw [hstamp, hevent, h.deliverable hm hr, FileRow.stamped, DbFile.unstamped, hnull]
    cases g.deliverable r <;> simp [hnull]

/-- Every call with a backlog has it in line. -/
theorem Landed.queued (h : Landed g db) (hm : Migrated rows g) {c : Call} (hc : c.2 ≠ "")
    (hne : backlog rows c ≠ []) :
    Queued c ((backlog rows c).map fun r => r.eventId.getD "") [] db := by
  rcases hm.cursors.1 c hc hne with ⟨s, hs, hsc⟩
  have honly : ∀ s' ∈ db.callStreams, s'.call = c → s' = s.toStream := by
    intro s' hs' hs'c
    exact Table.eq_of_key hs' ((h.streams _).mpr ⟨s, hs, rfl⟩) (hs'c.trans hsc.symm)
  have hcursor := (hm.cursors.2 s hs).2
  refine ⟨h.inv hm, Or.inl ⟨_, (h.streams _).mpr ⟨s, hs, rfl⟩, hsc⟩, ?_, ?_, ?_, ?_, rfl, rfl⟩
  · intro s' hs' hs'c
    rw [honly s' hs' hs'c]
    rfl
  · intro s' hs' hs'c
    rw [honly s' hs' hs'c]
    exact hcursor.nextSeq
  · intro s' hs' hs'c
    rw [honly s' hs' hs'c]
    have hlast : s.toStream.admitSeq = (backlog rows s.call).length := hcursor.admitSeq
    rw [hlast, hsc]
    simp [lineOf, admittedIds]
  · intro q hq hg hcall k hk
    rcases h.backward q hq with ⟨r, hr, hevent, -⟩
    rw [hevent] at hg hcall hk ⊢
    have hrc : r.ofCall c = true := by
      rw [← show (r.topic, r.uuid) = c from hcall]
      exact (FileRow.ofCall_of_grouped hg).1
    rcases hm.placed hr hc hrc with ⟨i, hi, hget, -⟩
    have hik : i = k := by
      rw [show r.toEvent.callSeq = r.callSeq from rfl, hi, Option.some.injEq] at hk
      omega
    rw [lineOf, ← hm.backlog_legacy, ← hik]
    simp [admittedIds, hget, FileRow.legacy, FileRow.toEvent]

end Landed

/-! ## The cutover -/

/-- The core at its start on the output `g` of `migrate` for the legacy rows `rows`, once
the in-flight rows are requeued. -/
structure CutOver (rows : List FileRow) (g : DbFile) (b : Outbox) : Prop where
  events : ∀ e : Event, (∃ q ∈ b.db.outbox, q.toEvent = e) ↔ ∃ r ∈ g.rows, r.toEvent = e
  cursors : ∀ s : Stream, s ∈ b.db.callStreams ↔ ∃ s' ∈ g.streams, s = s'.toStream
  spec : StoreSpec b.db
  idle : ∀ q ∈ b.db.outbox, q.state ≠ .inFlight
  eligible : ∀ q ∈ b.db.outbox,
    q.eligibleAtMs ≠ none ↔ q.grouped = false ∨ b.db.isHead q.toEvent = true
  /-- In every life, a call acknowledges its backlog in the declared order and then what was
  admitted since, whose ordinals start behind the backlog. -/
  served : ∀ c : Call, c.2 ≠ "" → backlog rows c ≠ [] → ∀ acts : List LifeOp,
    ackedIds c (Machine.trace Outbox.live b acts) <+:
        lineOf c ((backlog rows c).map fun r => r.eventId.getD "")
          (Machine.trace Outbox.live b acts) ∧
      admissionsOf c (Machine.trace Outbox.live b acts) =
        (List.range (admittedIds c (Machine.trace Outbox.live b acts)).length).map
          fun i : Nat => ((rows.countP (FileRow.ofCall c) + i : Nat) : Int)

theorem Landed.cutOver {rows : List FileRow} {g : DbFile} {b : Outbox} (h : Landed g b.db)
    (hm : Migrated rows g) : CutOver rows g b where
  events := by
    intro e
    constructor
    · rintro ⟨q, hq, rfl⟩
      rcases h.backward q hq with ⟨r, hr, hevent, -⟩
      exact ⟨r, hr, hevent.symm⟩
    · rintro ⟨r, hr, rfl⟩
      exact h.forward r hr
  cursors := h.streams
  spec := (h.inv hm).spec
  idle := by
    intro q hq
    rcases h.backward q hq with ⟨r, -, -, hstate, -⟩
    exact hstate
  eligible := by
    intro q hq
    rw [Ne, (h.stamped hm).null q hq, Db.deliverable]
    cases q.grouped <;> simp
  served := by
    intro c hc hne acts
    have hq := queued_life hc (h.queued hm hc hne) acts
    refine ⟨?_, ?_⟩
    · rw [hq.acked]
      exact List.take_prefix _ _
    · rw [hq.ordinals, List.length_map, length_backlog]

/-- `migrate` on a legacy file, and what the core makes of its output. -/
theorem migration_feeds_core {digest : List FileRow → String} {args : MigrateArgs} {fault : OpsPlan}
    {f f' : DbFile} (hf : f.Legacy) (h : (migrate digest args fault).run f = .ok () f') :
    f'.rows.map FileRow.legacy = f.rows ∧
      (∀ c : Call, c.2 ≠ "" → Sequenced f'.rows c (f.rows.countP (FileRow.ofCall c))) ∧
      (∀ r ∈ f'.rows, r.grouped = false → r.callSeq = none) ∧
      (∀ c : Call, c.2 ≠ "" → backlog f.rows c ≠ [] → ∃ s ∈ f'.streams, s.call = c) ∧
      (∀ s ∈ f'.streams, s.callUuid ≠ "" ∧ CursorOf f.rows s) ∧
      ∃ db, (openFile noFilePlan).run f' = .ok () (.ofDb db) ∧ ∀ now₁ now₂ : Int,
        CutOver f.rows f' (Outbox.step ⟨db, true⟩ (.requeueInFlight now₁ now₂ noFault)) := by
  have hm := Migrated.of_migrate hf h
  rcases hm.opens with ⟨db, hopen, hreceived⟩
  refine ⟨hm.legacy, fun c hc => hm.sequenced hc, fun r hr hg => hm.ungrouped hr hg, hm.cursors.1,
    hm.cursors.2, db, hopen, ?_⟩
  intro now₁ now₂
  exact (hreceived.requeued now₁ now₂).cutOver hm

/-- A row of the legacy table. -/
def legacyRow (id call state : String) (created : Int) : FileRow where
  eventId := some id
  topic := "t"
  msgKey := some "k"
  payload := []
  state := state
  attempts := 0
  nextAttemptAtMs := 0
  lastError := none
  createdAtMs := created
  updatedAtMs := created
  callUuid := some call
  callSeq := none
  eligibleAtMs := none

/-- A backlog with a tie, an in-flight row behind the head and a row without a call. -/
def legacyFile : DbFile where
  outbox := some {
    rows := [legacyRow "b" "c" "in_flight" 5, legacyRow "a" "c" "dead" 5,
      legacyRow "d" "" "pending" 1, legacyRow "e" "c" "pending" 3]
    hasSeq := false
    hasEligible := false
    seqIndexed := false
    dueIndexed := true
    ttlIndexed := true
    key_nodup := by decide
    seq_null := by decide
    eligible_null := by decide
    index_nodup := by decide }
  callStreams := none
  retiredCalls := none
  scheduler := none
  userVersion := 0
  wal := true

/-- What `migrate` makes of it. -/
def migratedFile : DbFile where
  outbox := some {
    rows := [{ legacyRow "b" "c" "in_flight" 5 with callSeq := some 2 },
      { legacyRow "a" "c" "dead" 5 with callSeq := some 1 }, legacyRow "d" "" "pending" 1,
      { legacyRow "e" "c" "pending" 3 with callSeq := some 0 }]
    hasSeq := true
    hasEligible := false
    seqIndexed := true
    dueIndexed := true
    ttlIndexed := true
    key_nodup := by decide
    seq_null := by decide
    eligible_null := by decide
    index_nodup := by decide }
  callStreams := some ⟨[declared ("t", "c") "k" 3], by decide, by decide⟩
  retiredCalls := some .empty
  scheduler := some (some 0)
  userVersion := 4
  wal := false

theorem legacyFile_legacy : legacyFile.Legacy := by
  refine ⟨⟨_, rfl, rfl, rfl⟩, ?_, rfl, rfl, rfl⟩
  decide

/-- Here the digest is the ids, one after the other. -/
theorem migrate_legacyFile :
    (migrate (fun rows => String.join (rows.map fun r => r.eventId.getD "")) ⟨10, true, true⟩
      noOpsPlan).run legacyFile = .ok () migratedFile := rfl

/-- The migrated file opens, and the backlog of `c` is cut over in its order. -/
theorem migration_feeds_core_mixed :
    legacyFile.Legacy ∧ (backlog legacyFile.rows ("t", "c")).map FileRow.eventId =
        [some "e", some "a", some "b"] ∧
      ∃ db, (openFile noFilePlan).run migratedFile = .ok () (.ofDb db) ∧
        CutOver legacyFile.rows migratedFile
          (Outbox.step ⟨db, true⟩ (.requeueInFlight 9 9 noFault)) := by
  refine ⟨legacyFile_legacy, by decide +kernel, ?_⟩
  rcases migration_feeds_core legacyFile_legacy migrate_legacyFile with
    ⟨-, -, -, -, -, db, hopen, hcut⟩
  exact ⟨db, hopen, hcut 9 9⟩

end EventKafka
