import EventKafka.File.Open
import Mathlib.Data.List.Dedup
import Mathlib.Data.List.Sort
import Mathlib.Data.String.Basic

/-! # `outbox_ops.py migrate`

The tool that gives a backlog without sequences one: it copies the database, adds the
column and the tables of the ordered schema, and declares an order for every call, that of
`created_at_ms, event_id`. `migrate` is the run on the copy, so a run that raises has no
output. The audit it writes into a table of its own is read by nobody and left out.

The digest of the fingerprint is a parameter.
-/

namespace EventKafka

open Sql

/-! ## The tool -/

/-- The arguments of `migrate`. -/
structure MigrateArgs where
  maxRows : Int
  offlineConfirm : Bool
  acceptUnknownLegacyOrder : Bool
deriving DecidableEq, Repr

/-- The statements of `migrate`; those of its loops are named by what they are about. -/
inductive OpsStmt where
  | backup
  | journal
  | fingerprint
  | version
  | columns
  | states
  | addCallSeq
  | createStreams
  | seqIndex
  | dueIndex
  | ttlIndex
  | createScheduler
  | seedTurn
  | createRetired
  | setVersion
  | groups
  | rowsOf (c : Call)
  | insertStream (c : Call)
  | setSeq (id : Option String)
  | fingerprintAfter
  | inventory
  | publish
deriving DecidableEq, Repr

/-- Which statements fail, and with which text. -/
abbrev OpsPlan := OpsStmt → Option String

/-- No statement fails. -/
def noOpsPlan : OpsPlan := fun _ => none

/-- The order of `event_id`: NULL comes first. -/
def idLe : Option String → Option String → Bool
  | none, _ => true
  | some _, none => false
  | some a, some b => a ≤ b

/-- The fields of a legacy row: all but `call_seq`. -/
def FileRow.legacy (r : FileRow) : FileRow := { r with callSeq := none }

/-- `fingerprint`: the digest of all rows in the order of `event_id`. Without a table there
are no columns to name. -/
def fingerprint (digest : List FileRow → String) (fault : Option String) :
    Program DbFile String :=
  statement fault do
    let f ← get
    match f.outbox with
    | none => throw "near \"FROM\": syntax error"
    | some t => return digest ((t.rows.map FileRow.legacy).insertionSort fun r q =>
        idLe r.eventId q.eventId = true)

/-- `topic=? AND call_uuid=?`. -/
def FileRow.ofCall (c : Call) (r : FileRow) : Bool := r.topic = c.1 && r.callUuid = some c.2

/-- The order of `topic,call_uuid`. -/
def callLe (a b : Call) : Prop := a.1 < b.1 ∨ a.1 = b.1 ∧ a.2 ≤ b.2

instance : DecidableRel callLe := fun _ _ => inferInstanceAs (Decidable (_ ∨ _ ∧ _))

/-- `SELECT DISTINCT topic,call_uuid FROM outbox WHERE coalesce(call_uuid,'')<>''
ORDER BY topic,call_uuid`. -/
def DbFile.groups (f : DbFile) : List Call :=
  ((f.rows.filter FileRow.grouped).map fun r => (r.topic, r.uuid)).dedup.insertionSort callLe

/-- The order of `created_at_ms,event_id`. -/
def backlogLe (r q : FileRow) : Prop :=
  r.createdAtMs < q.createdAtMs ∨ r.createdAtMs = q.createdAtMs ∧ idLe r.eventId q.eventId = true

instance : DecidableRel backlogLe := fun _ _ => inferInstanceAs (Decidable (_ ∨ _ ∧ _))

/-- `SELECT … FROM outbox WHERE topic=? AND call_uuid=? ORDER BY created_at_ms,event_id`. -/
def backlog (rows : List FileRow) (c : Call) : List FileRow :=
  (rows.filter (FileRow.ofCall c)).insertionSort backlogLe

/-- The stream `migrate` declares for a call with `n` rows. -/
def declared (c : Call) (key : String) (n : Nat) : FileStream where
  topic := c.1
  callUuid := c.2
  msgKey := key
  mode := "admission"
  nextSeq := 0
  admitSeq := n
  lastServedMs := 0

/-- `INSERT INTO call_streams(topic,call_uuid,msg_key,mode,admit_seq)`. -/
def insertStream (s : FileStream) : Program DbFile Unit := do
  let f ← get
  match f.callStreams with
  | none => throw "no such table: call_streams"
  | some t =>
    match t.insert s with
    | some t' => set { f with callStreams := some t' }
    | none => throw "UNIQUE constraint failed: call_streams.topic, call_streams.call_uuid"

/-- `UPDATE outbox SET call_seq=? WHERE event_id=?`, on one row; NULL equals nothing. -/
def FileRow.assign (id : Option String) (seq : Int) (r : FileRow) : FileRow :=
  if id.isSome = true ∧ r.eventId = id then { r with callSeq := some seq } else r

@[simp] theorem FileRow.assign_eventId (id : Option String) (seq : Int) (r : FileRow) :
    (r.assign id seq).eventId = r.eventId := by
  unfold FileRow.assign
  split <;> rfl

theorem FileRow.assign_eligible (id : Option String) (seq : Int) (r : FileRow) :
    (r.assign id seq).eligibleAtMs = r.eligibleAtMs := by
  unfold FileRow.assign
  split <;> rfl

/-- The `UPDATE` on the table, which needs the column and is under the unique index. -/
def FileTable.assign (t : FileTable) (id : Option String) (seq : Int) (h : t.hasSeq = true)
    (hindex : t.seqIndexed = true →
      ((t.rows.map (FileRow.assign id seq)).filterMap FileRow.seqIndex).Nodup) : FileTable :=
  { t with
    rows := t.rows.map (FileRow.assign id seq)
    key_nodup := by
      have hsame : (t.rows.map (FileRow.assign id seq)).filterMap FileRow.eventId =
          t.rows.filterMap FileRow.eventId := by
        rw [List.filterMap_map]
        exact List.filterMap_congr fun r _ => r.assign_eventId id seq
      rw [hsame]
      exact t.key_nodup
    seq_null := by simp [h]
    eligible_null := by
      intro hno r' hr'
      rcases List.mem_map.mp hr' with ⟨r, hr, rfl⟩
      rw [FileRow.assign_eligible]
      exact t.eligible_null hno r hr
    index_nodup := hindex }

def setSeq (id : Option String) (seq : Int) : Program DbFile Unit := do
  let f ← get
  match f.outbox with
  | none => throw "no such table: outbox"
  | some t =>
    if h : t.hasSeq = true then
      if hindex : t.seqIndexed = true →
          ((t.rows.map (FileRow.assign id seq)).filterMap FileRow.seqIndex).Nodup then
        set { f with outbox := some (t.assign id seq h hindex) }
      else throw "UNIQUE constraint failed: outbox.topic, outbox.call_uuid, outbox.call_seq"
    else throw "no such column: call_seq"

/-- The checks on the command line, in `main` and in `run`. -/
def checkMigrate (args : MigrateArgs) : Program DbFile Unit := do
  require (0 < args.maxRows) "positive --max-rows and a new --output for copy operations required"
  require args.offlineConfirm
    "stop all writers first; --offline-confirm is required (old binaries ignore flock)"
  require args.acceptUnknownLegacyOrder
    "--accept-unknown-legacy-order is required; this is a declared cutover order, not recovered history"

/-- The checks on the copy; its version. -/
def checkLegacy (fault : OpsPlan) : Program DbFile Int := do
  let version ← query (fault .version) fun f => f.userVersion
  let columns ← query (fault .columns) fun f => f.outbox.map (·.hasSeq)
  require (version ≤ 5 && columns.isSome) "unsupported schema"
  require (columns ≠ some true)
    "already ordered; use unchanged DB with automatic supported schema upgrade"
  let states ← query (fault .states) fun f => (f.rows.map FileRow.state).dedup
  require (states.all fun s => s = "pending" || s = "in_flight" || s = "dead")
    "unknown legacy state; manual reconciliation required"
  return version

/-- `ALTER TABLE` and `SCHEMA`, without the audit table. -/
def orderedSchema (fault : OpsPlan) : Program DbFile Unit := do
  addColumn true (fault .addCallSeq) FileTable.addCallSeq
  statement (fault .createStreams) (modify fun f =>
    { f with callStreams := some (f.callStreams.getD .empty) })
  statement (fault .seqIndex) createSeqIndex
  statement (fault .dueIndex) (modify fun f =>
    { f with outbox := f.outbox.map fun t => { t with dueIndexed := true } })
  statement (fault .ttlIndex) (modify fun f =>
    { f with outbox := f.outbox.map fun t => { t with ttlIndexed := true } })
  statement (fault .createScheduler) (modify fun f =>
    { f with scheduler := some (f.scheduler.getD none) })
  statement (fault .seedTurn) (modify DbFile.seedTurn)
  statement (fault .createRetired) (modify fun f =>
    { f with retiredCalls := some (f.retiredCalls.getD .empty) })

/-- One turn of the loop over the calls: its cursor, and the sequences of its rows. -/
def declareCall (fault : OpsPlan) (c : Call) : Program DbFile Unit := do
  let rows ← query (fault (.rowsOf c)) fun f => backlog f.rows c
  -- the set of the keys
  match (rows.map FileRow.msgKey).dedup with
  | [some key] =>
    require (key ≠ "") "inconsistent/missing legacy key; no rewrite allowed"
    require (rows.length ≤ int64Max) "Python int too large to convert to SQLite INTEGER"
    statement (fault (.insertStream c)) (insertStream (declared c key rows.length))
    forM rows.zipIdx fun x =>
      statement (fault (.setSeq x.1.eventId)) (setSeq x.1.eventId x.2)
  | _ => throw "inconsistent/missing legacy key; no rewrite allowed"

/-- `outbox_ops.py migrate`. The first fault is any failure before the copy is open, the
last any failure to commit, check and publish it. -/
def migrate (digest : List FileRow → String) (args : MigrateArgs) (fault : OpsPlan) :
    Program DbFile Unit := do
  checkMigrate args
  transaction (fault .backup) (fault .publish) do
    statement (fault .journal) (modify fun f => { f with wal := false })
    let before ← fingerprint digest (fault .fingerprint)
    let version ← checkLegacy fault
    orderedSchema fault
    statement (fault .setVersion) (modify fun f =>
      { f with userVersion := if version < 4 then 4 else version })
    let groups ← query (fault .groups) DbFile.groups
    forM groups (declareCall fault)
    let after ← fingerprint digest (fault .fingerprintAfter)
    require (after = before) "original event fields changed; refusing output"
    let fits ← query (fault .inventory) fun f =>
      decide (f.streams.length ≤ args.maxRows) && decide (f.rows.length ≤ args.maxRows)
    require fits "configured capacity insufficient for copied data; raise explicitly, never discard"

/-! ## The declared order -/

theorem idLe_trans {a b c : Option String} (h : idLe a b = true) (h' : idLe b c = true) :
    idLe a c = true := by
  cases a <;> cases b <;> cases c <;> simp [idLe] at h h' ⊢
  exact h.trans h'

theorem idLe_total (a b : Option String) : idLe a b = true ∨ idLe b a = true := by
  cases a <;> cases b <;> simp [idLe]
  exact le_total _ _

theorem idLe_antisymm {a b : Option String} (h : idLe a b = true) (h' : idLe b a = true) :
    a = b := by
  cases a <;> cases b <;> simp [idLe] at h h' ⊢
  exact le_antisymm h h'

theorem backlogLe_total (r q : FileRow) : backlogLe r q ∨ backlogLe q r := by
  rcases lt_trichotomy r.createdAtMs q.createdAtMs with hlt | heq | hgt
  · exact Or.inl (Or.inl hlt)
  · -- a tie is for the ids to break
    rcases idLe_total r.eventId q.eventId with hid | hid
    · exact Or.inl (Or.inr ⟨heq, hid⟩)
    · exact Or.inr (Or.inr ⟨heq.symm, hid⟩)
  · exact Or.inr (Or.inl hgt)

theorem backlogLe_trans {r q p : FileRow} (h : backlogLe r q) (h' : backlogLe q p) :
    backlogLe r p := by
  rcases h with hlt | ⟨heq, hid⟩
  · left
    rcases h' with hlt' | ⟨heq', -⟩ <;> omega
  · rcases h' with hlt' | ⟨heq', hid'⟩
    · left
      omega
    · exact Or.inr ⟨heq.trans heq', idLe_trans hid hid'⟩

theorem backlogLe_antisymm {r q : FileRow} (h : backlogLe r q) (h' : backlogLe q r) :
    r.eventId = q.eventId := by
  rcases h with hlt | ⟨heq, hid⟩
  · rcases h' with hlt' | ⟨heq', -⟩ <;> omega
  · rcases h' with hlt' | ⟨-, hid'⟩
    · omega
    · exact idLe_antisymm hid hid'

instance : Std.Total backlogLe := ⟨backlogLe_total⟩

instance : IsTrans FileRow backlogLe := ⟨fun _ _ _ => backlogLe_trans⟩

/-- A backlog is in the declared order. -/
theorem backlogLe_of_lt {rows : List FileRow} {c : Call} {i j : Nat} {r q : FileRow} (hij : i < j)
    (hr : (backlog rows c)[i]? = some r) (hq : (backlog rows c)[j]? = some q) : backlogLe r q := by
  have hsorted : (backlog rows c).Pairwise backlogLe := List.pairwise_insertionSort backlogLe _
  rcases List.getElem?_eq_some_iff.mp hr with ⟨hi, rfl⟩
  rcases List.getElem?_eq_some_iff.mp hq with ⟨hj, rfl⟩
  exact List.pairwise_iff_getElem.mp hsorted i j hi hj hij

/-! ## Giving rows their sequences -/

/-- The rows of `g` are rewritten by `m`, and nothing else changes. -/
structure Reseq (m : FileRow → FileRow) (g g' : DbFile) : Prop where
  table : ∃ t t', g.outbox = some t ∧ g'.outbox = some t' ∧ t'.rows = t.rows.map m ∧
    t'.hasSeq = t.hasSeq ∧ t'.hasEligible = t.hasEligible ∧ t'.seqIndexed = t.seqIndexed ∧
    t'.dueIndexed = t.dueIndexed ∧ t'.ttlIndexed = t.ttlIndexed
  rest : g' = { g with outbox := g'.outbox }

theorem Reseq.refl {g : DbFile} (h : g.outbox.isSome = true) : Reseq id g g := by
  rcases Option.isSome_iff_exists.mp h with ⟨t, ht⟩
  exact ⟨⟨t, t, ht, ht, by simp, rfl, rfl, rfl, rfl, rfl⟩, rfl⟩

theorem Reseq.trans {m m' : FileRow → FileRow} {g g' g'' : DbFile} (h : Reseq m g g')
    (h' : Reseq m' g' g'') : Reseq (m' ∘ m) g g'' := by
  rcases h.table with ⟨t, t₁, ht, ht₁, hrows, h1, h2, h3, h4, h5⟩
  rcases h'.table with ⟨t₁', t₂, ht₁', ht₂, hrows', h1', h2', h3', h4', h5'⟩
  have heq : t₁ = t₁' := Option.some.inj (ht₁.symm.trans ht₁')
  subst heq
  refine ⟨⟨t, t₂, ht, ht₂, ?_, h1'.trans h1, h2'.trans h2, h3'.trans h3, h4'.trans h4,
    h5'.trans h5⟩, ?_⟩
  · rw [hrows', hrows, List.map_map]
  · rw [h'.rest, h.rest]

theorem Reseq.rows {m : FileRow → FileRow} {g g' : DbFile} (h : Reseq m g g') :
    g'.rows = g.rows.map m := by
  rcases h.table with ⟨t, t', ht, ht', hrows, -⟩
  simp only [DbFile.rows, ht, ht']
  exact hrows

theorem setSeq_ok {id : Option String} {seq : Int} {g g' : DbFile} {u : Unit}
    (h : (setSeq id seq).run g = .ok u g') : Reseq (FileRow.assign id seq) g g' := by
  simp only [setSeq, EStateM.run_bind, EStateM.run_get] at h
  cases ht : g.outbox with
  | none =>
    rw [ht] at h
    cases h
  | some t =>
    rw [ht] at h
    dsimp only at h
    split at h
    · split at h
      · rw [run_set_ok] at h
        subst h
        exact ⟨⟨t, _, ht, rfl, rfl, rfl, rfl, rfl, rfl, rfl⟩, rfl⟩
      · cases h
    · cases h

/-- The assignments of a loop, on one row. -/
def assignAll (xs : List (FileRow × Nat)) (r : FileRow) : FileRow :=
  xs.foldl (fun r x => r.assign x.1.eventId x.2) r

theorem assignAll_snoc (xs : List (FileRow × Nat)) (x : FileRow × Nat) :
    assignAll (xs ++ [x]) = FileRow.assign x.1.eventId x.2 ∘ assignAll xs := by
  funext r
  simp [assignAll]

/-- The sequences of the rows of a call, one after the other. -/
theorem setSeqs_ok {xs : List (FileRow × Nat)} {fault : OpsPlan} {g g' : DbFile} {u : PUnit}
    (hsome : g.outbox.isSome = true)
    (h : (forM xs fun x => statement (fault (.setSeq x.1.eventId)) (setSeq x.1.eventId x.2) :
      Program DbFile PUnit).run g = .ok u g') : Reseq (assignAll xs) g g' := by
  refine run_forM_ok (fun pre g' => Reseq (assignAll pre) g g') (.refl hsome) ?_ h
  intro pre x post _ g₁ g₂ _ hpre hrun
  rw [run_statement_ok] at hrun
  rw [assignAll_snoc]
  exact hpre.trans (setSeq_ok hrun.2)

section Assign

variable {xs : List (FileRow × Nat)} {r : FileRow}

@[simp] theorem FileRow.assign_legacy (id : Option String) (seq : Int) (r : FileRow) :
    (r.assign id seq).legacy = r.legacy := by
  unfold FileRow.assign
  split <;> rfl

@[simp] theorem assignAll_legacy (xs : List (FileRow × Nat)) (r : FileRow) :
    (assignAll xs r).legacy = r.legacy := by
  induction xs generalizing r with
  | nil => rfl
  | cons x xs ih => exact (ih _).trans (r.assign_legacy _ _)

theorem assignAll_of_notMem (h : ∀ x ∈ xs, x.1.eventId ≠ r.eventId) : assignAll xs r = r := by
  induction xs with
  | nil => rfl
  | cons x xs ih =>
    have hsame : r.assign x.1.eventId x.2 = r := by
      unfold FileRow.assign
      exact if_neg fun heq => h x (by simp) heq.2.symm
    show assignAll xs (r.assign x.1.eventId x.2) = r
    rw [hsame]
    exact ih fun y hy => h y (by simp [hy])

/-- A row gets the number it is listed under. -/
theorem assignAll_callSeq (hnodup : (xs.map fun x => x.1.eventId).Nodup)
    (hsome : ∀ x ∈ xs, x.1.eventId.isSome = true) {x : FileRow × Nat} (hx : x ∈ xs)
    (hid : r.eventId = x.1.eventId) : (assignAll xs r).callSeq = some (x.2 : Int) := by
  induction xs generalizing r with
  | nil => cases hx
  | cons y xs ih =>
    rw [List.map_cons, List.nodup_cons] at hnodup
    show (assignAll xs (r.assign y.1.eventId y.2)).callSeq = _
    rcases List.mem_cons.mp hx with rfl | hmem
    · -- the later assignments are to other rows
      have hassigned : r.assign x.1.eventId x.2 = { r with callSeq := some (x.2 : Int) } := by
        unfold FileRow.assign
        exact if_pos ⟨hsome x (by simp), hid⟩
      rw [hassigned, assignAll_of_notMem]
      intro z hz heq
      refine hnodup.1 (List.mem_map.mpr ⟨z, hz, heq.trans ?_⟩)
      exact hid
    · refine ih hnodup.2 (fun z hz => hsome z (by simp [hz])) hmem ?_
      rw [FileRow.assign_eventId]
      exact hid

end Assign

/-! ## The backlog of a call -/

/-- `m` leaves the legacy fields alone. -/
def Conservative (m : FileRow → FileRow) : Prop := ∀ r, (m r).legacy = r.legacy

section Backlog

variable {m : FileRow → FileRow} {rows : List FileRow} {c : Call}

/-- What is read off the legacy fields stays the same. -/
theorem Conservative.apply {α : Type} (hm : Conservative m) {f : FileRow → α}
    (hf : ∀ r : FileRow, f r.legacy = f r) (r : FileRow) : f (m r) = f r := by
  rw [← hf (m r), hm r, hf]

theorem Conservative.eventId (hm : Conservative m) (r : FileRow) : (m r).eventId = r.eventId :=
  hm.apply (f := FileRow.eventId) (fun _ => rfl) r

theorem Conservative.ofCall (hm : Conservative m) (c : Call) (r : FileRow) :
    (m r).ofCall c = r.ofCall c :=
  hm.apply (f := FileRow.ofCall c) (fun _ => rfl) r

theorem Conservative.backlogLe (hm : Conservative m) (r q : FileRow) :
    backlogLe r q ↔ backlogLe (m r) (m q) := by
  have hcreated := hm.apply (f := FileRow.createdAtMs) fun _ => rfl
  unfold EventKafka.backlogLe
  rw [hcreated, hcreated, hm.eventId, hm.eventId]

theorem conservative_legacy : Conservative FileRow.legacy := fun _ => rfl

theorem conservative_assignAll (xs : List (FileRow × Nat)) : Conservative (assignAll xs) :=
  assignAll_legacy xs

theorem mem_backlog {r : FileRow} : r ∈ backlog rows c ↔ r ∈ rows ∧ r.ofCall c = true := by
  rw [backlog, List.mem_insertionSort, List.mem_filter]

/-- The order of a backlog is that of its legacy fields. -/
theorem backlog_map (hm : Conservative m) (rows : List FileRow) (c : Call) :
    backlog (rows.map m) c = (backlog rows c).map m := by
  unfold backlog
  rw [List.map_insertionSort backlogLe backlogLe m _ fun r _ q _ => hm.backlogLe r q,
    List.filter_map]
  congr 2
  apply List.filter_congr
  intro r _
  exact hm.ofCall c r

/-- The ids of a table are distinct. -/
structure Identified (rows : List FileRow) : Prop where
  nodup : (rows.map FileRow.eventId).Nodup
  named : ∀ r ∈ rows, r.eventId.isSome = true

theorem Identified.of_table {t : FileTable} (h : ∀ r ∈ t.rows, r.eventId.isSome = true) :
    Identified t.rows := by
  refine ⟨?_, h⟩
  have hmap : (t.rows.filterMap FileRow.eventId).map Option.some = t.rows.map FileRow.eventId := by
    rw [List.map_filterMap, ← List.filterMap_eq_map]
    apply List.filterMap_congr
    intro r hr
    rcases Option.isSome_iff_exists.mp (h r hr) with ⟨id, hid⟩
    simp [hid]
  rw [← hmap]
  exact t.key_nodup.map (Option.some_injective _)

theorem Identified.of_map (hm : Conservative m) (h : Identified (rows.map m)) :
    Identified rows := by
  have hids : (rows.map m).map FileRow.eventId = rows.map FileRow.eventId := by
    rw [List.map_map]
    exact List.map_congr_left fun r _ => hm.eventId r
  refine ⟨hids ▸ h.nodup, fun r hr => ?_⟩
  have hsome := h.named (m r) (List.mem_map_of_mem hr)
  rwa [hm.eventId] at hsome

theorem Identified.eq_of_eventId (h : Identified rows) {r q : FileRow} (hr : r ∈ rows)
    (hq : q ∈ rows) (hid : r.eventId = q.eventId) : r = q :=
  List.inj_on_of_nodup_map h.nodup hr hq hid

theorem Identified.backlog (h : Identified rows) (c : Call) : Identified (backlog rows c) := by
  refine ⟨?_, fun r hr => h.named r (mem_backlog.mp hr).1⟩
  have hperm : (EventKafka.backlog rows c).Perm (rows.filter (FileRow.ofCall c)) :=
    List.perm_insertionSort _ _
  refine ((hperm.map FileRow.eventId).nodup_iff).mpr ?_
  exact h.nodup.sublist (List.filter_sublist.map FileRow.eventId)

/-- The loop numbers the backlog from 0 on. -/
theorem Identified.numbered (h : Identified rows) :
    (rows.map (assignAll rows.zipIdx)).map FileRow.callSeq =
      (List.range rows.length).map fun k : Nat => some (k : Int) := by
  apply List.ext_getElem
  · simp
  intro i hi _
  have hi' : i < rows.length := by simpa using hi
  have hids : (rows.zipIdx.map fun x => x.1.eventId) = rows.map FileRow.eventId := by
    have hcomp : (rows.zipIdx.map Prod.fst).map FileRow.eventId =
        rows.zipIdx.map fun x => x.1.eventId := by
      rw [List.map_map]
      rfl
    rw [← hcomp, List.zipIdx_map_fst]
  rw [List.getElem_map, List.getElem_map, List.getElem_map, List.getElem_range]
  refine assignAll_callSeq (x := (rows[i], i)) (hids ▸ h.nodup) ?_ ?_ rfl
  · intro x hx
    have hmem : x.1 ∈ rows.zipIdx.map Prod.fst := List.mem_map_of_mem hx
    rw [List.zipIdx_map_fst] at hmem
    exact h.named x.1 hmem
  · rw [List.mk_mem_zipIdx_iff_getElem?]
    exact List.getElem?_eq_getElem hi'

/-- Numbering a call leaves the rows of the others alone. -/
theorem Identified.assignAll_other (h : Identified rows) {r : FileRow} (hr : r ∈ rows)
    (hnot : r.ofCall c = false) : assignAll (EventKafka.backlog rows c).zipIdx r = r := by
  apply assignAll_of_notMem
  intro x hx hid
  have hmem : x.1 ∈ (EventKafka.backlog rows c).zipIdx.map Prod.fst := List.mem_map_of_mem hx
  rw [List.zipIdx_map_fst, mem_backlog] at hmem
  rw [h.eq_of_eventId hmem.1 hr hid, hnot] at hmem
  exact absurd hmem.2 (by simp)

end Backlog

/-! ## One call -/

/-- What a turn of the loop does: the rows of the call share one key that is not empty, its
cursor is new, and its rows are numbered. -/
theorem declareCall_ok {fault : OpsPlan} {c : Call} {g g' : DbFile} {u : Unit}
    (hsome : g.outbox.isSome = true) (h : (declareCall fault c).run g = .ok u g') :
    ∃ key t t', key ≠ "" ∧ (∀ r ∈ backlog g.rows c, r.msgKey = some key) ∧
      backlog g.rows c ≠ [] ∧ ((backlog g.rows c).length : Int) ≤ int64Max ∧
      g.callStreams = some t ∧
      t.insert (declared c key (backlog g.rows c).length) = some t' ∧
      Reseq (assignAll (backlog g.rows c).zipIdx) { g with callStreams := some t' } g' := by
  unfold declareCall at h
  rw [run_bind_ok] at h
  rcases h with ⟨rows, g₁, hquery, h⟩
  rw [run_query_ok] at hquery
  rcases hquery with ⟨-, rfl, rfl⟩
  split at h
  -- the only branch that goes on: the distinct keys of the call are one
  · rename_i key hkeys
    simp only [run_bind_ok, run_require_ok, run_statement_ok, decide_eq_true_eq] at h
    rcases h with ⟨_, _, ⟨hkey, rfl⟩, _, _, ⟨hlength, rfl⟩, _, g₂, ⟨-, hinsert⟩, hloop⟩
    have hall : ∀ r ∈ backlog g.rows c, r.msgKey = some key := by
      intro r hr
      have hmem : r.msgKey ∈ ((backlog g.rows c).map FileRow.msgKey).dedup :=
        List.mem_dedup.mpr (List.mem_map_of_mem hr)
      rw [hkeys] at hmem
      simpa using hmem
    have hne : backlog g.rows c ≠ [] := by
      intro hnil
      simp [hnil] at hkeys
    simp only [insertStream, EStateM.run_bind, EStateM.run_get] at hinsert
    cases hstreams : g.callStreams with
    | none =>
      rw [hstreams] at hinsert
      cases hinsert
    | some t =>
      rw [hstreams] at hinsert
      dsimp only at hinsert
      split at hinsert
      · rename_i t' hins
        rw [run_set_ok] at hinsert
        subst hinsert
        exact ⟨key, t, t', hkey, hall, hne, hlength, rfl, hins, setSeqs_ok hsome hloop⟩
      · cases hinsert
  · cases h

/-! ## All calls -/

/-- The cursor of a call with rows in `rows`: at the start, before the whole backlog, under
the one key of its rows. -/
structure CursorOf (rows : List FileRow) (s : FileStream) : Prop where
  backlog : backlog rows s.call ≠ []
  key : s.msgKey ≠ ""
  keys : ∀ r ∈ EventKafka.backlog rows s.call, r.msgKey = some s.msgKey
  mode : s.mode = "admission"
  nextSeq : s.nextSeq = 0
  admitSeq : s.admitSeq = (EventKafka.backlog rows s.call).length
  max : s.admitSeq ≤ int64Max
  lastServedMs : s.lastServedMs = 0

/-- The file with the legacy rows `rows` once the calls `gs` are declared. -/
structure Declaring (rows : List FileRow) (gs : List Call) (g : DbFile) : Prop where
  table : ∃ t, g.outbox = some t ∧ t.hasSeq = true ∧ t.hasEligible = false ∧
    t.seqIndexed = true ∧ t.dueIndexed = true ∧ t.ttlIndexed = true
  legacy : g.rows.map FileRow.legacy = rows
  unset : ∀ r ∈ g.rows, (∀ c ∈ gs, r.ofCall c = false) → r.callSeq = none
  numbered : ∀ c ∈ gs, (backlog g.rows c).map FileRow.callSeq =
    (List.range (backlog rows c).length).map fun k : Nat => some (k : Int)
  streams : ∃ t, g.callStreams = some t ∧ t.rows.map FileStream.call = gs ∧
    ∀ s ∈ t.rows, CursorOf rows s
  rest : g.retiredCalls = some .empty ∧ g.scheduler = some (some 0) ∧ g.userVersion ≤ 5

section Declaring

variable {rows : List FileRow} {g g' : DbFile} {gs : List Call} {c : Call}

theorem Declaring.backlog_legacy (h : Declaring rows gs g) (c : Call) :
    (backlog g.rows c).map FileRow.legacy = backlog rows c := by
  rw [← backlog_map conservative_legacy, h.legacy]

theorem Declaring.identified (h : Declaring rows gs g) (hids : Identified rows) :
    Identified g.rows :=
  .of_map conservative_legacy (h.legacy ▸ hids)

/-- The cursor of one more call. -/
theorem Declaring.streams_insert {t t' : FileStreamTable} {key : String} (h : Declaring rows gs g)
    (ht : g.callStreams = some t)
    (hins : t.insert (declared c key (backlog g.rows c).length) = some t') (hkey : key ≠ "")
    (hkeys : ∀ r ∈ backlog g.rows c, r.msgKey = some key) (hne : backlog g.rows c ≠ [])
    (hmax : ((backlog g.rows c).length : Int) ≤ int64Max) :
    t'.rows.map FileStream.call = gs ++ [c] ∧ ∀ s ∈ t'.rows, CursorOf rows s := by
  rcases h.streams with ⟨t₀, ht₀, hcalls, hcursors⟩
  have heq : t₀ = t := Option.some.inj (ht₀.symm.trans ht)
  subst heq
  have hlegacy := h.backlog_legacy c
  have hrows := (Table.insert_eq_some.mp hins).2
  constructor
  · rw [hrows, List.map_append, hcalls]
    rfl
  · intro s hs
    rw [hrows, List.mem_append, List.mem_singleton] at hs
    rcases hs with hold | rfl
    · exact hcursors s hold
    · have hcall : (declared c key (backlog g.rows c).length).call = c := rfl
      refine ⟨?_, hkey, ?_, rfl, rfl, ?_, hmax, rfl⟩
      · rw [hcall, ← hlegacy]
        simpa using hne
      · intro r hr
        rw [hcall, ← hlegacy] at hr
        rcases List.mem_map.mp hr with ⟨q, hq, rfl⟩
        exact hkeys q hq
      · rw [hcall, ← hlegacy, List.length_map]
        rfl

theorem FileRow.ofCall_iff {r : FileRow} :
    r.ofCall c = true ↔ r.topic = c.1 ∧ r.callUuid = some c.2 := by
  simp [FileRow.ofCall]

/-- A row is of one call only. -/
theorem FileRow.ofCall_unique {r : FileRow} {c' : Call} (h : r.ofCall c = true)
    (h' : r.ofCall c' = true) : c = c' := by
  rw [FileRow.ofCall_iff] at h h'
  exact Prod.ext (h.1.symm.trans h'.1) (Option.some.inj (h.2.symm.trans h'.2))

theorem Declaring.step {fault : OpsPlan} {u : Unit} (h : Declaring rows gs g)
    (hids : Identified rows) (hc : c ∉ gs) (hrun : (declareCall fault c).run g = .ok u g') :
    Declaring rows (gs ++ [c]) g' := by
  rcases h.table with ⟨tbl, htbl, hflags⟩
  rcases declareCall_ok (by simp [htbl]) hrun with
    ⟨key, t, t', hkey, hkeys, hne, hmax, hstreams, hins, hreseq⟩
  have hidg := h.identified hids
  have hlegacy := h.backlog_legacy c
  have hlength : (backlog g.rows c).length = (backlog rows c).length := by
    rw [← hlegacy, List.length_map]
  have hrows : g'.rows = g.rows.map (assignAll (backlog g.rows c).zipIdx) := hreseq.rows
  refine ⟨?_, ?_, ?_, ?_, ?_, ?_⟩
  · rcases hreseq.table with ⟨t₁, t₂, ht₁, ht₂, -, h1, h2, h3, h4, h5⟩
    have heq : t₁ = tbl := Option.some.inj (ht₁.symm.trans htbl)
    subst heq
    refine ⟨t₂, ht₂, ?_⟩
    rw [h1, h2, h3, h4, h5]
    exact hflags
  · rw [hrows, List.map_map, ← h.legacy]
    exact List.map_congr_left fun r _ => assignAll_legacy _ r
  · intro r' hr' hnot
    rw [hrows] at hr'
    rcases List.mem_map.mp hr' with ⟨r, hr, rfl⟩
    have hm := conservative_assignAll (backlog g.rows c).zipIdx
    have hnot' : ∀ c' ∈ gs ++ [c], r.ofCall c' = false := fun c' hc' =>
      (hm.ofCall c' r).symm.trans (hnot c' hc')
    rw [hidg.assignAll_other hr (hnot' c (by simp))]
    exact h.unset r hr fun c' hc' => hnot' c' (by simp [hc'])
  · intro c' hc'
    rw [hrows, backlog_map (conservative_assignAll _)]
    rcases List.mem_append.mp hc' with hold | hnew
    · -- a call declared before keeps its numbers
      have hkeep : (backlog g.rows c').map (assignAll (backlog g.rows c).zipIdx) =
          backlog g.rows c' := by
        refine (List.map_congr_left (g := id) fun r hr => ?_).trans (List.map_id _)
        rcases mem_backlog.mp hr with ⟨hmem, hcall⟩
        refine hidg.assignAll_other hmem ?_
        rw [Bool.eq_false_iff]
        intro hboth
        exact hc (FileRow.ofCall_unique hboth hcall ▸ hold)
      rw [hkeep]
      exact h.numbered c' hold
    · rw [List.mem_singleton.mp hnew, ← hlength]
      exact (hidg.backlog c).numbered
  · rcases h.streams_insert hstreams hins hkey hkeys hne hmax with ⟨hcalls, hcursors⟩
    exact ⟨t', by rw [hreseq.rest], hcalls, hcursors⟩
  · rw [hreseq.rest]
    exact h.rest

end Declaring

/-! ## A whole run -/

/-- A file of the version without order: the table `outbox` without its two later columns,
whose ids are not NULL, and no other table. -/
structure DbFile.Legacy (f : DbFile) : Prop where
  table : ∃ t, f.outbox = some t ∧ t.hasSeq = false ∧ t.hasEligible = false
  ids : ∀ r ∈ f.rows, r.eventId.isSome = true
  alone : f.callStreams = none ∧ f.retiredCalls = none ∧ f.scheduler = none

theorem DbFile.Legacy.identified {f : DbFile} (h : f.Legacy) : Identified f.rows := by
  rcases h.table with ⟨t, ht, -⟩
  have hrows : f.rows = t.rows := by simp [DbFile.rows, ht]
  rw [hrows]
  exact .of_table fun r hr => h.ids r (hrows ▸ hr)

theorem DbFile.mem_groups {f : DbFile} {c : Call} :
    c ∈ f.groups ↔ c.2 ≠ "" ∧ backlog f.rows c ≠ [] := by
  rw [DbFile.groups, List.mem_insertionSort, List.mem_dedup, List.mem_map]
  constructor
  · rintro ⟨r, hr, rfl⟩
    rcases List.mem_filter.mp hr with ⟨hmem, hg⟩
    have huuid : r.uuid ≠ "" := by simpa [FileRow.grouped] using hg
    refine ⟨huuid, List.ne_nil_of_mem (a := r) (mem_backlog.mpr ⟨hmem, ?_⟩)⟩
    rw [FileRow.ofCall_iff]
    refine ⟨rfl, ?_⟩
    cases hcall : r.callUuid with
    | none => simp [FileRow.uuid, hcall] at huuid
    | some u => simp [FileRow.uuid, hcall]
  · rintro ⟨hc, hne⟩
    rcases List.exists_mem_of_ne_nil _ hne with ⟨r, hr⟩
    rcases mem_backlog.mp hr with ⟨hmem, hcall⟩
    rw [FileRow.ofCall_iff] at hcall
    have huuid : r.uuid = c.2 := by simp [FileRow.uuid, hcall.2]
    refine ⟨r, List.mem_filter.mpr ⟨hmem, ?_⟩, Prod.ext hcall.1 huuid⟩
    simpa [FileRow.grouped, huuid] using hc

theorem DbFile.nodup_groups (f : DbFile) : f.groups.Nodup :=
  (List.perm_insertionSort callLe _).nodup_iff.mpr (List.nodup_dedup _)

theorem createSeqIndex_ok {g g' : DbFile} {u : Unit} (h : createSeqIndex.run g = .ok u g') :
    ∃ t t', g.outbox = some t ∧ g' = { g with outbox := some t' } ∧ t'.rows = t.rows ∧
      t'.hasSeq = t.hasSeq ∧ t'.hasEligible = t.hasEligible ∧ t'.seqIndexed = true := by
  simp only [createSeqIndex, EStateM.run_bind, EStateM.run_get] at h
  cases ht : g.outbox with
  | none =>
    rw [ht] at h
    cases h
  | some t =>
    rw [ht] at h
    dsimp only at h
    split at h
    · rw [run_set_ok] at h
      exact ⟨t, _, rfl, h.symm, rfl, rfl, rfl, rfl⟩
    · cases h

/-- The tables of the ordered schema around the legacy rows, and no cursor yet. -/
theorem orderedSchema_ok {fault : OpsPlan} {f g : DbFile} {u : Unit} (hf : f.Legacy)
    (hversion : f.userVersion ≤ 5) (h : (orderedSchema fault).run f = .ok u g) :
    Declaring f.rows [] g := by
  rcases hf.table with ⟨t, ht, hseq, helig⟩
  rcases hf.alone with ⟨hstreams, hfences, hturn⟩
  -- a file without the column reads every sequence as null
  have hnull : ∀ r ∈ f.rows, r.callSeq = none := by
    intro r hr
    refine t.seq_null hseq r ?_
    simpa [DbFile.rows, ht] using hr
  simp only [orderedSchema, addColumn, if_true, run_bind_ok, run_statement_ok,
    run_modify_ok] at h
  rcases h with ⟨_, g₁, ⟨-, rfl⟩, _, g₂, ⟨-, rfl⟩, _, g₃, ⟨-, hindex⟩, _, g₄, ⟨-, rfl⟩, _, g₅,
    ⟨-, rfl⟩, _, g₆, ⟨-, rfl⟩, _, g₇, ⟨-, rfl⟩, -, rfl⟩
  rcases createSeqIndex_ok hindex with ⟨t₂, t₃, ht₂, rfl, hrows, h1, h2, h3⟩
  simp only [ht, Option.map_some, Option.some.injEq] at ht₂
  subst ht₂
  have hsame : f.rows = t₃.rows := by
    rw [hrows]
    simp [DbFile.rows, ht, FileTable.addCallSeq]
  refine ⟨⟨_, rfl, h1, h2.trans helig, h3, rfl, rfl⟩, ?_, ?_, by simp, ?_, ?_⟩
  · show t₃.rows.map FileRow.legacy = f.rows
    rw [← hsame]
    refine (List.map_congr_left (g := id) fun r hr => ?_).trans (List.map_id _)
    simp [FileRow.legacy, ← hnull r hr]
  · intro r hr _
    exact hnull r (hsame ▸ hr)
  · refine ⟨.empty, ?_, rfl, ?_⟩
    · show some (f.callStreams.getD .empty) = some .empty
      rw [hstreams]
      rfl
    · intro s hs
      cases hs
  · refine ⟨?_, ?_, hversion⟩
    · show some (f.retiredCalls.getD .empty) = some .empty
      rw [hfences]
      rfl
    · simp [DbFile.seedTurn, DbFile.maxServed, DbFile.streams, hstreams, hturn, Table.empty]

theorem fingerprint_ok {digest : List FileRow → String} {fault : Option String} {g g' : DbFile}
    {d : String} (h : (fingerprint digest fault).run g = .ok d g') : g' = g := by
  rw [fingerprint, run_statement_ok] at h
  rcases h with ⟨-, h⟩
  simp only [EStateM.run_bind, EStateM.run_get] at h
  split at h
  · cases h
  · rw [run_pure_ok] at h
    exact h.2.symm

theorem checkLegacy_ok {fault : OpsPlan} {g g' : DbFile} {version : Int}
    (h : (checkLegacy fault).run g = .ok version g') :
    g' = g ∧ version = g.userVersion ∧ version ≤ 5 ∧
      ∀ r ∈ g.rows, r.state = "pending" ∨ r.state = "in_flight" ∨ r.state = "dead" := by
  simp only [checkLegacy, run_bind_ok, run_query_ok, run_require_ok, run_pure_ok] at h
  rcases h with ⟨_, _, ⟨-, rfl, rfl⟩, _, _, ⟨-, rfl, rfl⟩, _, _, ⟨hversion, rfl⟩, _, _, ⟨-, rfl⟩, _,
    _, ⟨-, rfl, rfl⟩, _, _, ⟨hstates, rfl⟩, rfl, rfl⟩
  simp only [Bool.and_eq_true, decide_eq_true_eq] at hversion
  refine ⟨rfl, rfl, hversion.1, fun r hr => ?_⟩
  have hmem : r.state ∈ (g.rows.map FileRow.state).dedup :=
    List.mem_dedup.mpr (List.mem_map_of_mem hr)
  simpa [or_assoc] using List.all_eq_true.mp hstates r.state hmem

/-- What `migrate` makes of a legacy file: the same rows, numbered call by call, a cursor
for each call and nothing else. -/
theorem migrate_ok {digest : List FileRow → String} {args : MigrateArgs} {fault : OpsPlan}
    {f f' : DbFile} {u : Unit} (hf : f.Legacy)
    (h : (migrate digest args fault).run f = .ok u f') :
    (∃ gs, Declaring f.rows gs f' ∧ ∀ c, c ∈ gs ↔ c.2 ≠ "" ∧ backlog f.rows c ≠ []) ∧
      ∀ r ∈ f.rows, r.state = "pending" ∨ r.state = "in_flight" ∨ r.state = "dead" := by
  simp only [migrate, checkMigrate, run_bind_ok, run_require_ok, run_transaction_ok,
    run_statement_ok, run_modify_ok, run_query_ok] at h
  rcases h with ⟨_, _, ⟨_, _, ⟨-, rfl⟩, _, _, ⟨-, rfl⟩, -, rfl⟩, -, -, _, g₁, ⟨-, rfl⟩, before, g₂,
    hbefore, version, g₃, hcheck, _, g₄, hschema, _, g₅, ⟨-, rfl⟩, groups, _, ⟨-, rfl, rfl⟩, _, g₆,
    hloop, _, g₇, hafter, _, _, ⟨-, rfl⟩, _, _, ⟨-, -, rfl⟩, -, rfl⟩
  rw [fingerprint_ok hbefore] at hcheck
  rcases checkLegacy_ok hcheck with ⟨rfl, rfl, hversion, hstates⟩
  rw [fingerprint_ok hafter]
  have hlegacy : DbFile.Legacy { f with wal := false } := ⟨hf.table, hf.ids, hf.alone⟩
  have hempty := orderedSchema_ok hlegacy hversion hschema
  change Declaring f.rows [] g₄ at hempty
  have hstart : Declaring f.rows []
      { g₄ with userVersion := if f.userVersion < 4 then 4 else f.userVersion } := by
    refine ⟨hempty.table, hempty.legacy, hempty.unset, hempty.numbered, hempty.streams,
      hempty.rest.1, hempty.rest.2.1, ?_⟩
    have hle : f.userVersion ≤ 5 := hversion
    show (if f.userVersion < 4 then 4 else f.userVersion) ≤ 5
    split <;> omega
  refine ⟨⟨_, run_forM_ok (fun pre g => Declaring f.rows pre g) hstart ?_ hloop, ?_⟩, hstates⟩
  · -- no call comes twice
    intro pre c post hsplit g g' _ hpre hrun
    have hnodup := DbFile.nodup_groups
      { g₄ with userVersion := if f.userVersion < 4 then 4 else f.userVersion }
    rw [hsplit] at hnodup
    have hc : c ∉ pre := fun hc =>
      List.disjoint_of_nodup_append hnodup hc List.mem_cons_self
    exact hpre.step hf.identified hc hrun
  · intro c
    rw [DbFile.mem_groups, ← hempty.backlog_legacy c]
    simp [DbFile.rows]

end EventKafka
