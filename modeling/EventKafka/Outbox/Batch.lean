import EventKafka.Outbox.Capacity
import EventKafka.Outbox.Rowid
import Mathlib.Algebra.Ring.Nat
import Mathlib.Data.List.Dedup
import Mathlib.Data.List.Perm.Subperm

/-! # Source admissions in any order

A record in source mode brings its sequence with it, so what `insert_pending` makes of it
depends on the cursor of its call and not on who came before. A batch of such records
that fits is accepted whole in any order; the order is left in the rowids, and no later
call sees those.
-/

namespace EventKafka

open Sql

/-- The cursor a sequence of call `c` is compared with; that of a new stream is 0. -/
def Db.cursorOf (db : Db) (c : Call) : Int :=
  ((db.callStreams.find? c).map fun s => s.nextSeq).getD 0

/-- A batch of source-mode records that fits into `db`. -/
structure SourceBatch (lim : Limits) (db : Db) (batch : List OutboxRecord) : Prop where
  source : ∀ rec ∈ batch, rec.callUuid ≠ "" ∧ 0 ≤ rec.callSeq.toInt ∧ rec.callSeq.toInt < int64Max
  created : ∀ rec ∈ batch, rec.createdAtMs ≠ 0
  ids : (batch.map fun rec => rec.eventId).Nodup
  fresh : ∀ rec ∈ batch, ∀ r ∈ db.outbox, r.eventId ≠ rec.eventId
  positions : (batch.map fun rec => (rec.call, rec.callSeq)).Nodup
  unused : ∀ rec ∈ batch, ∀ r ∈ db.outbox, r.grouped = true → r.call = rec.call →
    r.callSeq ≠ some rec.callSeq.toInt
  cursor : ∀ rec ∈ batch, db.cursorOf rec.call ≤ rec.callSeq.toInt
  keys : ∀ rec ∈ batch, rec.msgKey ≠ "" ∧
    ∀ rec' ∈ batch, rec'.call = rec.call → rec'.msgKey = rec.msgKey
  streams : ∀ rec ∈ batch, ∀ s ∈ db.callStreams, s.call = rec.call →
    s.msgKey = rec.msgKey ∧ s.mode = .source
  unfenced : ∀ rec ∈ batch, ∀ f ∈ db.retiredCalls, f.call ≠ rec.call
  rows : (db.outbox.rows.length : Int) + batch.length ≤ lim.maxRows
  bytes : ((payloadBytes db.outbox + (batch.map fun rec => rec.payload.length).sum : Nat) : Int) ≤
    lim.maxBytes
  calls : (((db.callStreams.rows.map fun s => s.call) ++
    batch.map OutboxRecord.call).dedup.length : Int) ≤ lim.maxRows

/-! ## One record -/

/-- The row of a source-mode record. -/
def Db.sourceRow (db : Db) (rec : OutboxRecord) : Row :=
  newRow rec 0 rec.callSeq.toInt (rec.callSeq.toInt = db.cursorOf rec.call)

/-- `db'` is `db` with the record in it. -/
structure Joined (rec : OutboxRecord) (db db' : Db) : Prop where
  rows : db'.outbox.rows = db.outbox.rows ++ [db.sourceRow rec]
  stream : ∀ c, db'.callStreams.find? c = if c = rec.call then
    some (((db.callStreams.find? c).getD (newStream rec)).claimed rec.callSeq.toInt)
    else db.callStreams.find? c
  retiredCalls : db'.retiredCalls = db.retiredCalls
  turn : db'.turn = db.turn

/-- The clock is read for a record without a time only. -/
theorem insertPending_clock {lim : Limits} {rec : OutboxRecord} {fault : FaultPlan}
    (h : rec.createdAtMs ≠ 0) (now : Int) :
    insertPending lim rec now fault = insertPending lim rec 0 fault := by
  have hrow : ∀ seq dn, newRow rec now seq dn = newRow rec 0 seq dn := by
    intro seq dn
    simp only [newRow, createdAt, h, ne_eq, not_false_eq_true, if_true]
  unfold insertPending
  simp only [hrow]

section Joined

variable {lim : Limits} {db db' db'' : Db} {rec rec' : OutboxRecord} {batch : List OutboxRecord}

theorem SourceBatch.mode (h : SourceBatch lim db batch) (hrec : rec ∈ batch) :
    modeOf rec = .source := by
  have hpos := (h.source rec hrec).2.1
  unfold modeOf
  rw [if_neg (by omega)]

theorem SourceBatch.not_full (h : SourceBatch lim db (rec :: batch)) :
    full lim rec db.outbox = false := by
  have hrows := h.rows
  have hbytes := h.bytes
  simp only [List.length_cons, List.map_cons, List.sum_cons] at hrows hbytes
  simp only [full, Bool.or_eq_false_iff, decide_eq_false_iff_not]
  omega

/-- A call without a stream still has room for one. -/
theorem SourceBatch.stream_room (h : SourceBatch lim db (rec :: batch))
    (hnone : db.callStreams.find? rec.call = none) :
    (db.callStreams.rows.length : Int) < lim.maxRows := by
  have hcalls := h.calls
  have hnew : rec.call ∉ db.callStreams.rows.map fun s => s.call := by
    intro hmem
    obtain ⟨s, hs, hcall⟩ := List.mem_map.mp hmem
    exact Table.find?_eq_none.mp hnone s hs hcall
  have hnodup : (rec.call :: db.callStreams.rows.map fun s => s.call).Nodup :=
    List.nodup_cons.mpr ⟨hnew, db.callStreams.key_nodup⟩
  -- its call and those of the table are different calls
  have hsub : (rec.call :: db.callStreams.rows.map fun s => s.call) ⊆
      ((db.callStreams.rows.map fun s => s.call) ++
        (rec :: batch).map OutboxRecord.call).dedup := by
    intro c hc
    rw [List.mem_dedup, List.mem_append]
    rcases List.mem_cons.mp hc with rfl | hc
    · exact Or.inr (by simp)
    · exact Or.inl hc
  have hle := (hnodup.subperm hsub).length_le
  simp only [List.length_cons, List.length_map] at hle
  omega

theorem SourceBatch.run_position (h : SourceBatch lim db (rec :: batch)) :
    ∃ t, (position lim rec noFault).run db =
        .ok (rec.callSeq.toInt, decide (rec.callSeq.toInt = db.cursorOf rec.call))
          { db with callStreams := t } ∧
      ∀ c, t.find? c = if c = rec.call then
        some ((db.callStreams.find? c).getD (newStream rec)) else db.callStreams.find? c := by
  have hmem : rec ∈ rec :: batch := List.mem_cons_self
  have hpos := (h.source rec hmem).2.1
  have hcursor := h.cursor rec hmem
  have hmode := h.mode hmem
  have hneg : ¬ rec.callSeq.toInt < 0 := by omega
  have hkey : (rec.topic, rec.callUuid) = rec.call := rfl
  unfold position Db.cursorOf at *
  rw [hkey]
  cases hfind : db.callStreams.find? rec.call with
  | some s =>
    -- its stream has the key and the mode of the record, and the cursor is not past it
    obtain ⟨hs, hsc⟩ := Table.find?_eq_some.mp hfind
    have howner := h.streams rec hmem s hs hsc
    rw [hfind] at hcursor
    simp only [Option.map_some, Option.getD_some] at hcursor
    refine ⟨db.callStreams, ?_, ?_⟩
    · simp [noFault, EStateM.run_bind, run_query, hfind, howner, hmode, hneg, require, hcursor]
    · intro c
      split
      · rename_i hc
        rw [hc, hfind]
        rfl
      · rfl
  | none =>
    -- there is room for a stream of its own
    have hroom := h.stream_room hfind
    obtain ⟨t, hins⟩ : ∃ t, db.callStreams.insert (newStream rec) = some t :=
      Table.exists_insert hfind rfl
    refine ⟨t, ?_, ?_⟩
    · have hset : ∀ (x : Int × Bool) (d : Db),
          EStateM.run ((fun _ => x) <$> (set d : Prog PUnit)) db = .ok x d := fun _ _ => rfl
      simp [noFault, EStateM.run_bind, run_query, hfind, hneg, require, statement, hins, hroom,
        hset]
    · intro c
      rw [Table.find?_insert hins]
      show (if c = rec.call then _ else _) = _
      by_cases hc : c = rec.call
      · rw [if_pos hc, if_pos hc, hc, hfind]
        rfl
      · rw [if_neg hc, if_neg hc]

theorem SourceBatch.run_place (h : SourceBatch lim db (rec :: batch)) :
    ∃ t, (place lim rec noFault).run db =
        .ok (rec.callSeq.toInt, decide (rec.callSeq.toInt = db.cursorOf rec.call))
          { db with callStreams := t } ∧
      ∀ c, t.find? c = if c = rec.call then
        some (((db.callStreams.find? c).getD (newStream rec)).claimed rec.callSeq.toInt)
        else db.callStreams.find? c := by
  have hmem : rec ∈ rec :: batch := List.mem_cons_self
  obtain ⟨huuid, hpos, hmax⟩ := h.source rec hmem
  have hmsg := (h.keys rec hmem).1
  obtain ⟨t, hrun, hfind⟩ := h.run_position
  have hkey : (require (rec.msgKey ≠ "") "ordered call requires nonempty key" : Prog Unit).run db =
      .ok () db := by
    simp [run_require, hmsg]
  have hrange : ∀ db : Db, (require (0 ≤ rec.callSeq.toInt && rec.callSeq.toInt ≠ int64Max)
      "source sequence out of range" : Prog Unit).run db = .ok () db := by
    intro db
    have hne : rec.callSeq.toInt ≠ int64Max := by omega
    simp [run_require, hpos, hne]
  refine ⟨(({ db with callStreams := t } : Db).updateStreams (fun s => s.call = rec.call)
    fun s => { s.toCursor with admitSeq := max s.admitSeq (inc64 rec.callSeq.toInt) }).callStreams,
    ?_, ?_⟩
  · unfold place
    rw [if_pos huuid, run_bind_of_ok hkey, run_bind_of_ok hrun]
    exact run_bind_of_ok (hrange _)
  · intro c
    rw [find?_updateStreams]
    show (t.find? c).map _ = _
    rw [hfind]
    -- the update raises `admit_seq` of this call only
    by_cases hc : c = rec.call
    · have hcall : ((db.callStreams.find? c).getD (newStream rec)).call = rec.call := by
        cases hs : db.callStreams.find? c with
        | none => rfl
        | some s => exact (Table.find?_eq_some.mp hs).2.trans hc
      simp [hc ▸ hcall, hc, Stream.claimed]
    · rw [if_neg hc, if_neg hc]
      cases hs : db.callStreams.find? c with
      | none => rfl
      | some s =>
        have hcall : s.call ≠ rec.call := by
          rw [(Table.find?_eq_some.mp hs).2]
          exact hc
        simp [hcall]

/-- The record is admitted, with the sequence it asked for. -/
theorem SourceBatch.run_insert (h : SourceBatch lim db (rec :: batch)) :
    ∃ db', (insertPending lim rec 0 noFault).run db = .ok rec.callSeq.toInt db' ∧
      Joined rec db db' := by
  have hmem : rec ∈ rec :: batch := List.mem_cons_self
  have huuid := (h.source rec hmem).1
  obtain ⟨t, hplace, hfind⟩ := h.run_place
  have hfence : (checkRetired rec noFault).run db = .ok () db :=
    run_checkRetired fun _ => h.unfenced rec hmem
  have hroom : (makeRoom lim rec noFault).run db = .ok () db := by
    rw [run_makeRoom, h.not_full]
    rfl
  -- neither the id nor the position of the record is taken
  have hfree : ¬ db.outbox.Conflict (db.sourceRow rec) := by
    rintro (hconflict | ⟨-, hindex⟩)
    · obtain ⟨r, hr, hid⟩ := List.mem_map.mp hconflict
      exact h.fresh rec hmem r hr hid
    · obtain ⟨r, hr, heq⟩ := List.mem_map.mp hindex
      have hseq : (db.sourceRow rec).seqIndex =
          some (rec.topic, rec.callUuid, rec.callSeq.toInt) := by
        simp [Db.sourceRow, newRow, Event.seqIndex, huuid]
      have heq := heq.trans hseq
      rw [Event.seqIndex_eq] at heq
      have hrg : r.grouped = true := Event.grouped_iff.mpr ⟨_, heq.2.1, huuid⟩
      refine h.unused rec hmem r hr hrg ?_ heq.2.2
      exact Prod.ext heq.1 (by simp [Event.call, Event.uuid, heq.2.1, OutboxRecord.call])
  cases hins : db.outbox.insert (db.sourceRow rec) with
  | none => exact absurd (Table.insert_eq_none.mp hins) hfree
  | some u =>
    refine ⟨⟨u, t, db.retiredCalls, db.turn⟩, ?_, (Table.insert_eq_some.mp hins).2, hfind, rfl,
      rfl⟩
    have hstore : (storeRow lim rec 0).run db =
        .ok rec.callSeq.toInt ⟨u, t, db.retiredCalls, db.turn⟩ := by
      unfold storeRow
      rw [run_bind_of_ok hplace]
      unfold Db.sourceRow at hins
      simp only [noFault, statement, EStateM.run_bind, EStateM.run_get, hins]
      simp [huuid]
    have hdef : insertPending lim rec 0 noFault = transaction none none
        (checkRetired rec noFault >>= fun _ => makeRoom lim rec noFault >>= fun _ =>
          storeRow lim rec 0) := rfl
    rw [hdef]
    refine run_transaction_of_ok ?_
    rw [run_bind_of_ok hfence, run_bind_of_ok hroom, hstore]

theorem Joined.mem_outbox (h : Joined rec db db') {r : Row} :
    r ∈ db'.outbox ↔ r ∈ db.outbox ∨ r = db.sourceRow rec := by
  rw [Table.mem_def, h.rows, List.mem_append, List.mem_singleton]
  rfl

/-- Cursors move with acknowledgements only. -/
theorem Joined.cursorOf (h : Joined rec db db') (c : Call) : db'.cursorOf c = db.cursorOf c := by
  unfold Db.cursorOf
  rw [h.stream]
  by_cases hc : c = rec.call
  · rw [if_pos hc]
    cases db.callStreams.find? c <;> rfl
  · rw [if_neg hc]

theorem Joined.sourceRow (h : Joined rec db db') (rec' : OutboxRecord) :
    db'.sourceRow rec' = db.sourceRow rec' := by
  unfold Db.sourceRow
  rw [h.cursorOf]

theorem mem_calls {t : StreamTable} {c : Call} :
    c ∈ t.rows.map (fun s => s.call) ↔ (t.find? c).isSome = true := by
  rw [← not_iff_not, Bool.not_eq_true, Option.isSome_eq_false_iff, Option.isNone_iff_eq_none,
    Table.find?_eq_none, List.mem_map, not_exists]
  constructor
  · intro hno s hs hcall
    exact hno s ⟨hs, hcall⟩
  · rintro hno s ⟨hs, hcall⟩
    exact hno s hs hcall

theorem Joined.mem_calls (h : Joined rec db db') {c : Call} :
    c ∈ db'.callStreams.rows.map (fun s => s.call) ↔
      c ∈ db.callStreams.rows.map (fun s => s.call) ∨ c = rec.call := by
  rw [EventKafka.mem_calls, EventKafka.mem_calls, h.stream]
  by_cases hc : c = rec.call
  · simp [hc]
  · simp [hc]

/-- What is left of the batch fits when its first record is in. -/
theorem SourceBatch.joined (h : SourceBatch lim db (rec :: batch)) (hjoin : Joined rec db db') :
    SourceBatch lim db' batch := by
  have hmem : rec ∈ rec :: batch := List.mem_cons_self
  have htail : ∀ {rec'}, rec' ∈ batch → rec' ∈ rec :: batch := List.mem_cons_of_mem rec
  have hids := List.nodup_cons.mp h.ids
  have hpositions := List.nodup_cons.mp h.positions
  have hlength : db'.outbox.rows.length = db.outbox.rows.length + 1 := by
    rw [hjoin.rows, List.length_append, List.length_singleton]
  have hpayload : payloadBytes db'.outbox = payloadBytes db.outbox + rec.payload.length := by
    simp [payloadBytes, hjoin.rows, List.foldl_append, Db.sourceRow, newRow]
  constructor
  case source => exact fun rec' hrec' => h.source rec' (htail hrec')
  case created => exact fun rec' hrec' => h.created rec' (htail hrec')
  case ids => exact hids.2
  case fresh =>
    intro rec' hrec' r hr
    rcases hjoin.mem_outbox.mp hr with hold | rfl
    · exact h.fresh rec' (htail hrec') r hold
    · intro heq
      exact hids.1 (List.mem_map.mpr ⟨rec', hrec', heq.symm⟩)
  case positions => exact hpositions.2
  case unused =>
    intro rec' hrec' r hr hg hcall hseq
    rcases hjoin.mem_outbox.mp hr with hold | rfl
    · exact h.unused rec' (htail hrec') r hold hg hcall hseq
    · -- the new row holds the position of its record, which is another one
      have huuid := (h.source rec hmem).1
      have heq : rec.callSeq.toInt = rec'.callSeq.toInt := by
        simpa [Db.sourceRow, newRow, huuid] using hseq
      refine hpositions.1 (List.mem_map.mpr ⟨rec', hrec', ?_⟩)
      exact Prod.ext hcall.symm (Int64.toInt_inj.mp heq.symm)
  case cursor =>
    intro rec' hrec'
    rw [hjoin.cursorOf]
    exact h.cursor rec' (htail hrec')
  case keys =>
    intro rec' hrec'
    obtain ⟨hkey, hsame⟩ := h.keys rec' (htail hrec')
    exact ⟨hkey, fun q hq => hsame q (htail hq)⟩
  case streams =>
    intro rec' hrec' s hs hcall
    have hfind := Table.find?_eq_some.mpr ⟨hs, hcall⟩
    rw [hjoin.stream] at hfind
    by_cases hsame : rec'.call = rec.call
    · -- the stream of the new row, which the record may have made
      rw [if_pos hsame, Option.some.injEq] at hfind
      subst hfind
      cases hold : db.callStreams.find? rec'.call with
      | none =>
        have hkey := (h.keys rec' (htail hrec')).2 rec hmem hsame.symm
        exact ⟨hkey, h.mode hmem⟩
      | some s =>
        obtain ⟨hs, hsc⟩ := Table.find?_eq_some.mp hold
        exact h.streams rec' (htail hrec') s hs hsc
    · rw [if_neg hsame] at hfind
      obtain ⟨hs, hsc⟩ := Table.find?_eq_some.mp hfind
      exact h.streams rec' (htail hrec') s hs hsc
  case unfenced =>
    intro rec' hrec'
    rw [hjoin.retiredCalls]
    exact h.unfenced rec' (htail hrec')
  case rows =>
    have hrows := h.rows
    rw [hlength]
    simp only [List.length_cons] at hrows
    push_cast at hrows ⊢
    omega
  case bytes =>
    have hbytes := h.bytes
    rw [hpayload]
    simp only [List.map_cons, List.sum_cons] at hbytes
    push_cast at hbytes ⊢
    omega
  case calls =>
    have hcalls := h.calls
    have hperm : ((db'.callStreams.rows.map fun s => s.call) ++
        batch.map OutboxRecord.call).dedup.Perm ((db.callStreams.rows.map fun s => s.call) ++
          (rec :: batch).map OutboxRecord.call).dedup := by
      refine (List.perm_ext_iff_of_nodup (List.nodup_dedup _) (List.nodup_dedup _)).mpr fun c => ?_
      rw [List.mem_dedup, List.mem_dedup, List.mem_append, List.mem_append, hjoin.mem_calls,
        List.map_cons, List.mem_cons, or_assoc]
    rw [hperm.length_eq]
    exact hcalls

theorem SourceBatch.perm {batch' : List OutboxRecord} (hperm : batch.Perm batch')
    (h : SourceBatch lim db batch) : SourceBatch lim db batch' := by
  have hmem : ∀ {rec}, rec ∈ batch' → rec ∈ batch := hperm.mem_iff.mpr
  refine ⟨fun rec hrec => h.source rec (hmem hrec), fun rec hrec => h.created rec (hmem hrec),
    (hperm.map _).nodup_iff.mp h.ids, fun rec hrec => h.fresh rec (hmem hrec),
    (hperm.map _).nodup_iff.mp h.positions, fun rec hrec => h.unused rec (hmem hrec),
    fun rec hrec => h.cursor rec (hmem hrec), ?_, fun rec hrec => h.streams rec (hmem hrec),
    fun rec hrec => h.unfenced rec (hmem hrec), ?_, ?_, ?_⟩
  · intro rec hrec
    obtain ⟨hkey, hsame⟩ := h.keys rec (hmem hrec)
    exact ⟨hkey, fun q hq => hsame q (hmem hq)⟩
  · rw [← hperm.length_eq]
    exact h.rows
  · rw [← (hperm.map _).sum_nat]
    exact h.bytes
  · rw [← ((hperm.map OutboxRecord.call).append_left _).dedup.length_eq]
    exact h.calls

/-- Two records may go in in either order. -/
theorem SourceBatch.swap {db₁ db₂ db₁' db₂' : Db} (h : SourceBatch lim db (rec :: rec' :: batch))
    (h₁ : Joined rec db db₁) (h₂ : Joined rec' db₁ db₂) (h₁' : Joined rec' db db₁')
    (h₂' : Joined rec db₁' db₂') : db₂.Same db₂' where
  outbox := by
    show db₂.outbox.rows.Perm db₂'.outbox.rows
    rw [h₂.rows, h₁.rows, h₂'.rows, h₁'.rows, h₁.sourceRow, h₁'.sourceRow, List.append_assoc,
      List.append_assoc]
    exact (List.Perm.swap _ _ []).append_left _
  callStreams := by
    refine Table.same_of_find? fun c => ?_
    rw [h₂.stream, h₁.stream, h₂'.stream, h₁'.stream]
    by_cases hc : c = rec.call
    · by_cases hc' : c = rec'.call
      · -- both raise `admit_seq` of one stream
        have hkey : rec.msgKey = rec'.msgKey :=
          (h.keys rec' (by simp)).2 rec (by simp) (hc.symm.trans hc')
        have hnew : newStream rec = newStream rec' := by
          have hcall : rec.call = rec'.call := hc.symm.trans hc'
          unfold newStream
          rw [h.mode (by simp : rec ∈ _), h.mode (by simp : rec' ∈ _), hkey,
            show rec.topic = rec'.topic from congrArg Prod.fst hcall,
            show rec.callUuid = rec'.callUuid from congrArg Prod.snd hcall]
        rw [if_pos hc', if_pos hc, if_pos hc, if_pos hc', hnew, Option.getD_some, Option.getD_some]
        simp only [Stream.claimed, max_assoc]
        rw [max_comm (inc64 rec.callSeq.toInt)]
      · rw [if_neg hc', if_pos hc, if_neg hc', if_pos hc]
    · rw [if_neg hc, if_neg hc]
  retiredCalls := by
    rw [h₂.retiredCalls, h₁.retiredCalls, h₂'.retiredCalls, h₁'.retiredCalls]
    exact .refl _
  turn := by rw [h₂.turn, h₁.turn, h₂'.turn, h₁'.turn]

end Joined

/-! ## A batch -/

/-- The call that admits a record, with its clock reading. -/
def arrival (lim : Limits) (x : OutboxRecord × Int) : LifeOp :=
  .call (.insertPending lim x.1 x.2 noFault)

/-- The object is open and the batch fits. -/
structure Admissible (lim : Limits) (b : Outbox) (batch : List OutboxRecord) : Prop where
  isOpen : b.isOpen = true
  fits : SourceBatch lim b.db batch

section Batch

variable {lim : Limits} {b : Outbox} {rec : OutboxRecord} {batch : List OutboxRecord}

theorem Admissible.step (h : Admissible lim b (rec :: batch)) (now : Int) :
    b.reply (.insertPending lim rec now noFault) = .ok rec.callSeq.toInt ∧
      (b.live (arrival lim (rec, now))).isOpen = true ∧
      Joined rec b.db (b.live (arrival lim (rec, now))).db := by
  obtain ⟨db', hrun, hjoin⟩ := h.fits.run_insert
  rw [← insertPending_clock (h.fits.created rec List.mem_cons_self) now] at hrun
  have hexec : b.exec (.insertPending lim rec now noFault) =
      (.ok rec.callSeq.toInt, { b with db := db' }) := by
    show b.call (insertPending lim rec now noFault) id = _
    unfold Outbox.call
    rw [if_pos h.isOpen, hrun]
    rfl
  have hstep : b.live (arrival lim (rec, now)) = { b with db := db' } := congrArg Prod.snd hexec
  rw [hstep]
  exact ⟨congrArg Prod.fst hexec, h.isOpen, hjoin⟩

theorem Admissible.next (h : Admissible lim b (rec :: batch)) (now : Int) :
    Admissible lim (b.live (arrival lim (rec, now))) batch :=
  ⟨(h.step now).2.1, h.fits.joined (h.step now).2.2⟩

/-- The clock does not matter. -/
theorem Admissible.clock (h : Admissible lim b (rec :: batch)) (now : Int) :
    b.live (arrival lim (rec, now)) = b.live (arrival lim (rec, 0)) := by
  simp only [arrival, Outbox.live, Outbox.step, Outbox.exec,
    insertPending_clock (h.fits.created rec List.mem_cons_self) now]

theorem admissible_confluent (lim : Limits) :
    Machine.Confluent (fun b rec => Outbox.live b (arrival lim (rec, 0))) Outbox.Same
      (Admissible lim) where
  equiv := ⟨Outbox.Same.refl, Outbox.Same.symm, Outbox.Same.trans⟩
  respects := fun rec h => h.live (arrival lim (rec, 0))
  next := fun h => h.next 0
  perm := fun hperm h => ⟨h.isOpen, h.fits.perm hperm⟩
  swap := by
    intro b rec rec' batch h
    have hswap : Admissible lim b (rec' :: rec :: batch) :=
      ⟨h.isOpen, h.fits.perm (List.Perm.swap rec' rec batch)⟩
    have h₁ := h.step 0
    have h₂ := (h.next 0).step 0
    have h₁' := hswap.step 0
    have h₂' := (hswap.next 0).step 0
    exact ⟨h.fits.swap h₁.2.2 h₂.2.2 h₁'.2.2 h₂'.2.2, h₂.2.1.trans h₂'.2.1.symm⟩

/-- A batch is accepted whole, and the clock readings do not matter. -/
theorem Admissible.run {xs : List (OutboxRecord × Int)} (h : Admissible lim b (xs.map Prod.fst)) :
    repliesOf (Machine.trace Outbox.live b (xs.map (arrival lim))) =
        xs.map (fun x => .ok x.1.callSeq.toInt) ∧
      Machine.run Outbox.live b (xs.map (arrival lim)) =
        Machine.run (fun b rec => Outbox.live b (arrival lim (rec, 0))) b (xs.map Prod.fst) := by
  induction xs generalizing b with
  | nil => exact ⟨rfl, rfl⟩
  | cons x xs ih =>
    obtain ⟨rec, now⟩ := x
    obtain ⟨hreplies, hrun⟩ := ih (h.next now)
    constructor
    · rw [List.map_cons, List.map_cons, Machine.trace_cons, ← hreplies, ← (h.step now).1]
      rfl
    · rw [List.map_cons, List.map_cons, Machine.run_cons, Machine.run_cons, hrun, h.clock now]

/-- The rows of a batch are stored behind those that were there, in the order they came. -/
theorem Admissible.rows {xs : List (OutboxRecord × Int)} (h : Admissible lim b (xs.map Prod.fst)) :
    (Machine.run Outbox.live b (xs.map (arrival lim))).db.outbox.rows =
      b.db.outbox.rows ++ xs.map fun x => b.db.sourceRow x.1 := by
  induction xs generalizing b with
  | nil => exact (List.append_nil _).symm
  | cons x xs ih =>
    obtain ⟨rec, now⟩ := x
    have hjoin := (h.step now).2.2
    have hrest : ∀ x : OutboxRecord × Int, (b.live (arrival lim (rec, now))).db.sourceRow x.1 =
        b.db.sourceRow x.1 := fun x => hjoin.sourceRow x.1
    rw [List.map_cons, Machine.run_cons, ih (h.next now), hjoin.rows, List.append_assoc]
    simp only [hrest]
    rfl

/-- In whatever order the records of a batch come, and whatever the clock says, all are
accepted with the sequences they bring and stored, and the databases have the same rows,
cursors and fences. In every later life the two answer every call alike, and the same sequences of
each call are sent and acknowledged in the same order. -/
theorem source_admissions_commute {xs ys : List (OutboxRecord × Int)} (hopen : b.isOpen = true)
    (hbatch : SourceBatch lim b.db (xs.map Prod.fst))
    (hperm : (xs.map Prod.fst).Perm (ys.map Prod.fst)) :
    let s := Machine.run Outbox.live b (xs.map (arrival lim))
    let s' := Machine.run Outbox.live b (ys.map (arrival lim))
    repliesOf (Machine.trace Outbox.live b (xs.map (arrival lim))) =
        xs.map (fun x => .ok x.1.callSeq.toInt) ∧
      repliesOf (Machine.trace Outbox.live b (ys.map (arrival lim))) =
        ys.map (fun x => .ok x.1.callSeq.toInt) ∧
      s.db.outbox.rows = b.db.outbox.rows ++ xs.map (fun x => b.db.sourceRow x.1) ∧
      s.db.Same s'.db ∧
      ∀ acts, let tr := Machine.trace Outbox.live s acts
        let tr' := Machine.trace Outbox.live s' acts
        repliesOf tr = repliesOf tr' ∧ (∀ c, sendsOf c tr = sendsOf c tr' ∧ acksOf c tr = acksOf c tr') ∧
          (Machine.run Outbox.live s acts).db.Same (Machine.run Outbox.live s' acts).db := by
  intro s s'
  have hxs : Admissible lim b (xs.map Prod.fst) := ⟨hopen, hbatch⟩
  have hys : Admissible lim b (ys.map Prod.fst) := ⟨hopen, hbatch.perm hperm⟩
  obtain ⟨hreplies, hrun⟩ := hxs.run
  obtain ⟨hreplies', hrun'⟩ := hys.run
  have hsame : s.Same s' := by
    show (Machine.run Outbox.live b (xs.map (arrival lim))).Same
      (Machine.run Outbox.live b (ys.map (arrival lim)))
    rw [hrun, hrun']
    exact (admissible_confluent lim).run_perm hperm hxs
  refine ⟨hreplies, hreplies', hxs.rows, hsame.db, fun acts => ?_⟩
  have htraces := hsame.trace acts
  exact ⟨htraces.replies, fun c => ⟨htraces.sends c, htraces.acks c⟩, (hsame.run acts).db⟩

end Batch

/-- A record in source mode. -/
def sourceRecord (id uuid : String) (seq : Int64) : OutboxRecord :=
  { sampleRecord id uuid with callSeq := seq }

/-- The first sequence of a call is acknowledged already. -/
def firstAcked : List LifeOp :=
  [.call (.openDb noFault), .call (.insertPending ⟨9, 99⟩ (sourceRecord "z" "c" 0) 0 noFault),
    .call (.markInFlight "z" 1 noFault), .call (.markAcked "z" 2 noFault)]

/-- The head of the call comes after the gap and before it, next to a new call. -/
theorem source_admissions_commute_gap :
    let b := Machine.run Outbox.live Outbox.init firstAcked
    let xs := [(sourceRecord "a" "c" 3, 5), (sourceRecord "b" "c" 1, 6), (sourceRecord "d" "e" 0, 7)]
    let ys := [(sourceRecord "d" "e" 0, 3), (sourceRecord "b" "c" 1, 4), (sourceRecord "a" "c" 3, 4)]
    repliesOf (Machine.trace Outbox.live b (xs.map (arrival ⟨9, 99⟩))) = [.ok 3, .ok 1, .ok 0] ∧
      (Machine.run Outbox.live b (xs.map (arrival ⟨9, 99⟩))).db.Same
        (Machine.run Outbox.live b (ys.map (arrival ⟨9, 99⟩))).db := by
  intro b xs ys
  have houtbox : b.db.outbox = .empty := by decide +kernel
  have hfences : b.db.retiredCalls = .empty := by decide +kernel
  have hstreams : b.db.callStreams.rows = [⟨⟨"events", "c", "key", .source⟩, ⟨1, 1, 1⟩⟩] := by
    decide +kernel
  have hbatch : SourceBatch ⟨9, 99⟩ b.db (xs.map Prod.fst) := by
    refine ⟨by decide +kernel, by decide +kernel, by decide +kernel, ?_, by decide +kernel, ?_,
      by decide +kernel, by decide +kernel, ?_, ?_, by decide +kernel, by decide +kernel,
      by decide +kernel⟩
    · rw [houtbox]
      exact fun _ _ r hr => absurd hr (Table.notMem_empty r)
    · rw [houtbox]
      exact fun _ _ r hr => absurd hr (Table.notMem_empty r)
    · intro rec hrec s hs hcall
      rw [Table.mem_def, hstreams, List.mem_singleton] at hs
      subst hs
      have hkey : ∀ rec ∈ xs.map Prod.fst, rec.msgKey = "key" := by decide +kernel
      exact ⟨(hkey rec hrec).symm, rfl⟩
    · rw [hfences]
      exact fun _ _ f hf => absurd hf (Table.notMem_empty f)
  have hperm : (xs.map Prod.fst).Perm (ys.map Prod.fst) := by decide +kernel
  have h := source_admissions_commute (b := b) (by decide +kernel) hbatch hperm
  exact ⟨h.1, h.2.2.2.1⟩

end EventKafka
