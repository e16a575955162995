import EventKafka.Outbox.Store

/-! # What a successful operation does

Each program of `Store.lean` is inverted once: if it returned, the database it
leaves is one of the explicit states below, under the guards it passed. Every
later proof starts from these facts and never unfolds a program again.
-/

namespace EventKafka

open Sql

/-! ## The statements -/

/-- An `UPDATE outbox` returns the number of rows it selects. -/
theorem updateOutbox_ok {p : Db → Row → Bool} {f : Row → Progress} {db db' : Db} {n : Nat} :
    (updateOutbox p f).run db = .ok n db' ↔
      db.outbox.changes (p db) = n ∧ db.updateOutbox (p db) f = db' := by
  simp only [updateOutbox, run_bind_ok, run_get_ok, run_set_ok, run_pure_ok]
  constructor
  · rintro ⟨_, _, ⟨rfl, rfl⟩, _, _, rfl, rfl, rfl⟩
    exact ⟨rfl, rfl⟩
  · rintro ⟨rfl, rfl⟩
    exact ⟨_, _, ⟨rfl, rfl⟩, ⟨⟩, _, rfl, rfl, rfl⟩

/-- An `UPDATE call_streams` likewise. -/
theorem updateStreams_ok {p : Db → Stream → Bool} {f : Db → Stream → Cursor} {db db' : Db}
    {n : Nat} :
    (updateStreams p f).run db = .ok n db' ↔
      db.callStreams.changes (p db) = n ∧ db.updateStreams (p db) (f db) = db' := by
  simp only [updateStreams, run_bind_ok, run_get_ok, run_set_ok, run_pure_ok]
  constructor
  · rintro ⟨_, _, ⟨rfl, rfl⟩, _, _, rfl, rfl, rfl⟩
    exact ⟨rfl, rfl⟩
  · rintro ⟨rfl, rfl⟩
    exact ⟨_, _, ⟨rfl, rfl⟩, ⟨⟩, _, rfl, rfl, rfl⟩

/-! ## `insert_pending` -/

/-- The call a record asks to join. -/
def OutboxRecord.call (rec : OutboxRecord) : Call := (rec.topic, rec.callUuid)

theorem OutboxRecord.uuid_ne_of_call {rec : OutboxRecord} {c : Call} (hcall : rec.call = c)
    (hc : c.2 ≠ "") : rec.callUuid ≠ "" := by
  subst hcall
  exact hc

/-- No fence for the call was found. -/
theorem checkRetired_ok {rec : OutboxRecord} {fault : FaultPlan} {db db' : Db} {u : Unit}
    (h : (checkRetired rec fault).run db = .ok u db') :
    db = db' ∧ (rec.callUuid ≠ "" → ∀ f ∈ db.retiredCalls, f.call ≠ rec.call) := by
  unfold checkRetired at h
  by_cases hc : rec.callUuid = ""
  · simp only [hc, ne_eq, not_true_eq_false, if_false, run_pure_ok] at h
    exact ⟨h.2, fun hne => absurd hc hne⟩
  · simp only [hc, ne_eq, not_false_eq_true, if_true, run_bind_ok, run_query_ok,
      run_require_ok] at h
    rcases h with ⟨_, _, ⟨-, rfl, rfl⟩, hnone, rfl⟩
    refine ⟨rfl, fun _ => ?_⟩
    exact Table.find?_eq_none.mp (Option.isNone_iff_eq_none.mp hnone)

/-- The outbox an admission is written to: the table as it is when it has room,
else the table without its reclaimable rows, which then has room. -/
def RoomFor (lim : Limits) (rec : OutboxRecord) (t base : OutboxTable) : Prop :=
  base = t ∧ full lim rec t = false ∨
    base = t.delete reclaimable ∧ full lim rec t = true ∧ full lim rec base = false

/-- The check of the capacity found room, at the latest after the reclaim. -/
theorem makeRoom_ok {lim : Limits} {rec : OutboxRecord} {fault : FaultPlan} {db db' : Db}
    {u : Unit} (h : (makeRoom lim rec fault).run db = .ok u db') :
    ∃ base, RoomFor lim rec db.outbox base ∧ db' = { db with outbox := base } := by
  simp only [makeRoom, run_bind_ok, run_query_ok] at h
  rcases h with ⟨_, _, ⟨-, rfl, rfl⟩, h⟩
  cases hfull : full lim rec db.outbox with
  | false =>
    simp only [hfull, Bool.false_eq_true, if_false, run_bind_ok, run_query_ok,
      run_require_ok] at h
    rcases h with ⟨_, _, ⟨-, rfl, rfl⟩, -, rfl⟩
    exact ⟨_, Or.inl ⟨rfl, hfull⟩, rfl⟩
  | true =>
    simp only [hfull, if_true, run_bind_ok, run_statement_ok, run_modify_ok,
      run_query_ok, run_require_ok] at h
    rcases h with ⟨_, _, ⟨-, rfl⟩, _, _, ⟨-, rfl, rfl⟩, hroom, rfl⟩
    exact ⟨_, Or.inr ⟨rfl, hfull, by simpa [Db.reclaim] using hroom⟩, rfl⟩

/-- How an ordered record finds its place: the stream `s` it joins, which is in
`base` — the stream table, extended by a new stream when the call has none — and
the sequence and head flag read off its cursor. -/
structure Claim (lim : Limits) (rec : OutboxRecord) (streams base : StreamTable) (s : Stream)
    (seq : Int) (deliverableNow : Bool) : Prop where
  found : s ∈ streams ∧ base = streams ∨
    (∀ q ∈ streams, q.call ≠ rec.call) ∧ s = newStream rec ∧
      (streams.rows.length : Int) < lim.maxRows ∧ streams.insert s = some base
  owner : s.toOwnership = ⟨rec.topic, rec.callUuid, rec.msgKey, modeOf rec⟩
  admission : rec.callSeq.toInt < 0 → seq = s.admitSeq
  source : 0 ≤ rec.callSeq.toInt → seq = rec.callSeq.toInt ∧ s.nextSeq ≤ seq
  head : deliverableNow = decide (seq = s.nextSeq)

/-- The stream a record joins is the stream of its call. -/
theorem Claim.call_eq {lim : Limits} {rec : OutboxRecord} {streams base : StreamTable}
    {s : Stream} {seq : Int} {dn : Bool} (h : Claim lim rec streams base s seq dn) :
    s.call = rec.call := by
  have hcall := congrArg Ownership.call h.owner
  exact hcall

/-- It is in the table by then, be it old or new. -/
theorem Claim.mem_base {lim : Limits} {rec : OutboxRecord} {streams base : StreamTable}
    {s : Stream} {seq : Int} {dn : Bool} (h : Claim lim rec streams base s seq dn) :
    s ∈ base := by
  rcases h.found with ⟨hs, rfl⟩ | ⟨-, -, -, hins⟩
  · exact hs
  · exact (Table.mem_insert hins).mpr (Or.inr rfl)

/-- A position was found: the stream is the record's, or was created for it. -/
theorem position_ok {lim : Limits} {rec : OutboxRecord} {fault : FaultPlan} {db db' : Db}
    {seq : Int} {dn : Bool} (h : (position lim rec fault).run db = .ok (seq, dn) db') :
    ∃ s base, Claim lim rec db.callStreams base s seq dn ∧
      db' = { db with callStreams := base } := by
  simp only [position, run_bind_ok, run_query_ok] at h
  rcases h with ⟨_, _, ⟨-, rfl, rfl⟩, h⟩
  cases hfind : db.callStreams.find? (rec.topic, rec.callUuid) with
  | some s =>
    rcases Table.find?_eq_some.mp hfind with ⟨hs, hcall⟩
    simp only [hfind, run_bind_ok, run_require_ok] at h
    rcases h with ⟨_, _, ⟨hown, rfl⟩, h⟩
    rw [Bool.and_eq_true, decide_eq_true_eq, decide_eq_true_eq] at hown
    have howner : s.toOwnership = ⟨rec.topic, rec.callUuid, rec.msgKey, modeOf rec⟩ := by
      have ht : s.topic = rec.topic := congrArg Prod.fst hcall
      have hu : s.callUuid = rec.callUuid := congrArg Prod.snd hcall
      rw [← ht, ← hu, ← hown.1, ← hown.2]
    -- a negative sequence takes `admit_seq`, an explicit one may not lie below `next_seq`
    by_cases hneg : rec.callSeq.toInt < 0
    · simp only [hneg, if_true, run_pure_ok, Prod.mk.injEq] at h
      rcases h with ⟨⟨rfl, rfl⟩, rfl⟩
      refine ⟨s, _, ⟨Or.inl ⟨hs, rfl⟩, howner, fun _ => rfl, fun hpos => ?_, rfl⟩, rfl⟩
      omega
    · simp only [hneg, if_false, run_bind_ok, run_require_ok, run_pure_ok,
        Prod.mk.injEq] at h
      rcases h with ⟨_, _, ⟨hle, rfl⟩, ⟨rfl, rfl⟩, rfl⟩
      refine ⟨s, _, ⟨Or.inl ⟨hs, rfl⟩, howner, fun hn => absurd hn hneg,
        fun _ => ⟨rfl, of_decide_eq_true hle⟩, rfl⟩, rfl⟩
  | none =>
    simp only [hfind, run_bind_ok, run_query_ok, run_require_ok, run_statement_ok,
      run_get_ok, run_pure_ok, Prod.mk.injEq] at h
    obtain ⟨_, _, ⟨-, rfl, rfl⟩, _, _, ⟨hcount, rfl⟩, _, _, ⟨-, _, _, ⟨rfl, rfl⟩, h⟩,
      ⟨rfl, rfl⟩, rfl⟩ := h
    cases hins : db.callStreams.insert (newStream rec) with
    | none => simp [hins] at h
    | some base =>
      simp only [hins, run_set_ok] at h
      refine ⟨newStream rec, base, ⟨Or.inr ⟨?_, rfl, ?_, hins⟩, rfl, ?_, ?_, rfl⟩, h.symm⟩
      · exact Table.find?_eq_none.mp hfind
      · simpa using hcount
      · intro hneg
        simp [hneg, newStream]
      · intro hpos
        have hnot : ¬ rec.callSeq.toInt < 0 := by omega
        simpa [hnot, newStream] using hpos

/-- The stream table after the record claimed `seq`. -/
def claimSeq (base : StreamTable) (rec : OutboxRecord) (seq : Int) : StreamTable :=
  base.update (fun s => s.call = rec.call)
    (fun s => ⟨s.toOwnership, { s.toCursor with admitSeq := max s.admitSeq (inc64 seq) }⟩)
    (fun _ => rfl) (fun _ => rfl)

/-- What admission leaves of the stream table, for an ungrouped and for an
ordered record. -/
inductive Admits (lim : Limits) (rec : OutboxRecord) (streams : StreamTable) :
    StreamTable → Int → Bool → Prop where
  | ungrouped (huuid : rec.callUuid = "") (hseq : rec.callSeq.toInt < 0) :
      Admits lim rec streams streams rec.callSeq.toInt true
  | ordered {base : StreamTable} {s : Stream} {seq : Int} {dn : Bool}
      (huuid : rec.callUuid ≠ "") (hkey : rec.msgKey ≠ "")
      (hclaim : Claim lim rec streams base s seq dn) (hpos : 0 ≤ seq) (hmax : seq ≠ int64Max) :
      Admits lim rec streams (claimSeq base rec seq) seq dn

/-- The two ways to be admitted, as equations. -/
theorem Admits.inv {lim : Limits} {rec : OutboxRecord} {streams streams' : StreamTable}
    {seq : Int} {dn : Bool} (h : Admits lim rec streams streams' seq dn) :
    (rec.callUuid = "" ∧ dn = true ∧ streams' = streams) ∨
      ∃ base s, rec.callUuid ≠ "" ∧ 0 ≤ seq ∧ seq ≠ int64Max ∧
        Claim lim rec streams base s seq dn ∧ streams' = claimSeq base rec seq := by
  cases h with
  | ungrouped huuid hseq => exact Or.inl ⟨huuid, rfl, rfl⟩
  | ordered huuid hkey hclaim hpos hmax =>
    exact Or.inr ⟨_, _, huuid, hpos, hmax, hclaim, rfl⟩

theorem Admits.msgKey_ne {lim : Limits} {rec : OutboxRecord} {streams streams' : StreamTable}
    {seq : Int} {dn : Bool} (h : Admits lim rec streams streams' seq dn)
    (huuid : rec.callUuid ≠ "") : rec.msgKey ≠ "" := by
  cases h with
  | ungrouped hempty _ => exact absurd hempty huuid
  | ordered _ hkey _ _ _ => exact hkey

/-- A place was found, and the sequence claimed. -/
theorem place_ok {lim : Limits} {rec : OutboxRecord} {fault : FaultPlan} {db db' : Db}
    {seq : Int} {dn : Bool} (h : (place lim rec fault).run db = .ok (seq, dn) db') :
    ∃ streams', Admits lim rec db.callStreams streams' seq dn ∧
      db' = { db with callStreams := streams' } := by
  unfold place at h
  by_cases hc : rec.callUuid = ""
  · simp only [hc, ne_eq, not_true_eq_false, if_false, run_bind_ok, run_require_ok,
      run_pure_ok, Prod.mk.injEq] at h
    rcases h with ⟨_, _, ⟨hneg, rfl⟩, ⟨rfl, rfl⟩, rfl⟩
    exact ⟨_, .ungrouped hc (of_decide_eq_true hneg), rfl⟩
  · simp only [hc, ne_eq, not_false_eq_true, if_true, run_bind_ok, run_require_ok,
      run_statement_ok, updateStreams_ok, run_pure_ok, Prod.mk.injEq] at h
    obtain ⟨_, _, ⟨hkey, rfl⟩, ⟨seq', dn'⟩, _, hpos, _, _, ⟨hrange, rfl⟩, _, _,
      ⟨-, -, rfl⟩, ⟨rfl, rfl⟩, rfl⟩ := h
    rcases position_ok hpos with ⟨s, base, hclaim, rfl⟩
    rw [Bool.and_eq_true, decide_eq_true_eq, decide_eq_true_eq] at hrange
    exact ⟨_, .ordered hc (of_decide_eq_true hkey) hclaim hrange.1 hrange.2, rfl⟩

/-- What a successful `insert_pending` does: it found no fence, room for the row
in `base`, a place in its stream, and a free `event_id` and sequence. -/
structure Admission (lim : Limits) (rec : OutboxRecord) (now : Int) (db db' : Db)
    (seq : Int) (dn : Bool) (base : OutboxTable) : Prop where
  unfenced : rec.callUuid ≠ "" → ∀ f ∈ db.retiredCalls, f.call ≠ rec.call
  room : RoomFor lim rec db.outbox base
  streams : Admits lim rec db.callStreams db'.callStreams seq dn
  row : base.insert (newRow rec now seq dn) = some db'.outbox
  fences : db'.retiredCalls = db.retiredCalls
  turn : db'.turn = db.turn

/-- A record that was admitted, with the sequence it is told. -/
theorem insertPending_ok {lim : Limits} {rec : OutboxRecord} {now : Int} {fault : FaultPlan}
    {db db' : Db} {assigned : Int}
    (h : (insertPending lim rec now fault).run db = .ok assigned db') :
    ∃ seq dn base, Admission lim rec now db db' seq dn base ∧
      assigned = if rec.callUuid = "" then -1 else seq := by
  simp only [insertPending, run_transaction_ok, run_bind_ok, run_pure_ok,
    run_statement_ok, run_get_ok] at h
  obtain ⟨-, -, _, _, hret, _, _, hroom, ⟨seq, dn⟩, _, hadm, _, _, ⟨-, _, _, ⟨rfl, rfl⟩, hins⟩,
    rfl, rfl⟩ := h
  rcases checkRetired_ok hret with ⟨rfl, hunf⟩
  rcases makeRoom_ok hroom with ⟨base, hbase, rfl⟩
  rcases place_ok hadm with ⟨streams', hstreams, rfl⟩
  refine ⟨seq, dn, base, ?_, rfl⟩
  cases hrow : base.insert (newRow rec now seq dn) with
  | none => simp [hrow] at hins
  | some t =>
    simp only [hrow, run_set_ok] at hins
    subst hins
    exact ⟨hunf, hbase, hstreams, hrow, rfl, rfl⟩

/-! ## `mark_in_flight` and `mark_acked` -/

/-- The database after row `r` was marked in flight at `now`: the row, a new
service turn, and the turn stamped on the stream of the row. -/
def Db.sent (db : Db) (r : Row) (now : Int) : Db :=
  { (db.updateOutbox (fun q => q.eventId = r.eventId) fun q =>
      { q.toProgress with
        state := .inFlight, attempts := q.attempts + 1, updatedAtMs := now }).updateStreams
      (fun s => r.topic = s.topic && r.callUuid = some s.callUuid)
      (fun s => { s.toCursor with lastServedMs := db.turn + 1 }) with
    turn := db.turn + 1 }

/-- A row can be marked in flight when it is pending and at the head of its call. -/
theorem sendable_iff {id : String} {db : Db} {r : Row} :
    sendable id db r = true ↔
      r.eventId = id ∧ r.state = .pending ∧ db.deliverable r.toEvent = true := by
  simp [sendable, and_assoc]

/-- An `UPDATE` that touches exactly the row `r` is an `UPDATE` by its key. -/
theorem updateOutbox_eq_of_key {db : Db} {p : Row → Bool} {f : Row → Progress} {r : Row}
    (hr : r ∈ db.outbox) (hp : p r = true) (hkey : ∀ q, p q = true → q.eventId = r.eventId) :
    db.updateOutbox p f = db.updateOutbox (fun q => q.eventId = r.eventId) f := by
  have hrows : ∀ q ∈ db.outbox.rows, p q = decide (q.eventId = r.eventId) := by
    intro q hq
    by_cases hid : q.eventId = r.eventId
    · have hqr : q = r := Table.eq_of_key hq hr hid
      simp [hqr, hp]
    · have hpq : p q ≠ true := fun h => hid (hkey q h)
      simp [hid, Bool.eq_false_iff.mpr hpq]
  have htable : (db.updateOutbox p f).outbox =
      (db.updateOutbox (fun q => q.eventId = r.eventId) f).outbox := by
    apply Table.ext_rows
    apply List.map_congr_left
    intro q hq
    rw [hrows q hq]
  simp only [Db.updateOutbox] at htable ⊢
  rw [htable]

/-- The one row of that id was sendable, and the turn was not exhausted. -/
theorem markInFlight_ok {id : String} {now : Int} {fault : FaultPlan} {db db' : Db} {u : Unit}
    (h : (markInFlight id now fault).run db = .ok u db') :
    ∃ r ∈ db.outbox, sendable id db r = true ∧ db.turn < int64Max ∧ db' = db.sent r now := by
  simp only [markInFlight, run_transaction_ok, run_bind_ok, run_statement_ok, updateOutbox_ok,
    run_require_ok, run_get_ok, run_ite_ok, run_set_ok, run_pure_ok, updateStreams_ok,
    decide_eq_true_eq] at h
  obtain ⟨-, -, changed, _, ⟨-, hch, rfl⟩, _, _, ⟨rfl, rfl⟩, ticked, _,
    ⟨-, _, _, ⟨rfl, rfl⟩, htick⟩, _, _, ⟨rfl, rfl⟩, _, _, ⟨-, -, rfl⟩, -, rfl⟩ := h
  have hkey : ∀ q, sendable id db q = true → q.eventId = id := fun q hq => (sendable_iff.mp hq).1
  rcases (Table.changes_eq_one hkey).mp hch with ⟨r, hr, hsend⟩
  have hid : r.eventId = id := hkey r hsend
  rcases htick with ⟨hturn, _, _, rfl, -, rfl⟩ | ⟨-, h0, -⟩
  · refine ⟨r, hr, hsend, hturn, ?_⟩
    -- the row the last statement looks up is the one just updated
    rw [updateOutbox_eq_of_key hr hsend (fun q hq => by rw [hid]; exact hkey q hq)]
    have hfind : (db.updateOutbox (fun q => q.eventId = r.eventId) fun q =>
        { q.toProgress with state := .inFlight, attempts := q.attempts + 1,
                            updatedAtMs := now }).outbox.find? id =
        some { r with state := .inFlight, attempts := r.attempts + 1, updatedAtMs := now } := by
      have hfr : db.outbox.find? id = some r := Table.find?_eq_some.mpr ⟨hr, hid⟩
      rw [Db.updateOutbox, Table.find?_update, hfr]
      simp
    simp only [Db.sent, Db.updateStreams] at hfind ⊢
    simp [hfind]
  · omega

/-- The database after the ACK of row `r`: the cursor of its call one further,
the successor stamped with `now`, the row gone. -/
def Db.acked (db : Db) (r : Row) (now : Int) : Db :=
  let moved :=
    if r.grouped then
      (db.updateStreams (fun s => s.call = r.call)
        fun s => { s.toCursor with nextSeq := s.nextSeq + 1 }).updateOutbox (successor r)
        fun q => { q.toProgress with eligibleAtMs := some now }
    else db
  { moved with outbox := moved.outbox.delete fun q => q.eventId = r.eventId }

/-- An `UPDATE` that touches exactly the stream `s` is an `UPDATE` by its call. -/
theorem updateStreams_eq_of_call {db : Db} {p : Stream → Bool} {f : Stream → Cursor} {s : Stream}
    (hs : s ∈ db.callStreams) (hp : p s = true) (hkey : ∀ q, p q = true → q.call = s.call) :
    db.updateStreams p f = db.updateStreams (fun q => q.call = s.call) f := by
  have hrows : ∀ q ∈ db.callStreams.rows, p q = decide (q.call = s.call) := by
    intro q hq
    by_cases hid : q.call = s.call
    · have hqs : q = s := Table.eq_of_key hq hs hid
      simp [hqs, hp]
    · have hpq : p q ≠ true := fun h => hid (hkey q h)
      simp [hid, Bool.eq_false_iff.mpr hpq]
  have htable : (db.updateStreams p f).callStreams =
      (db.updateStreams (fun q => q.call = s.call) f).callStreams := by
    apply Table.ext_rows
    apply List.map_congr_left
    intro q hq
    rw [hrows q hq]
  simp only [Db.updateStreams] at htable ⊢
  rw [htable]

/-- The row of that id was in flight and, in a call, at the cursor. -/
theorem markAcked_ok {id : String} {now : Int} {fault : FaultPlan} {db db' : Db} {u : Unit}
    (h : (markAcked id now fault).run db = .ok u db') :
    ∃ r ∈ db.outbox, r.eventId = id ∧ r.state = .inFlight ∧
      (r.grouped = true → ∃ s ∈ db.callStreams, s.call = r.call ∧
        s.nextSeq = r.callSeq.getD 0) ∧
      db' = db.acked r now := by
  simp only [markAcked, run_transaction_ok, run_bind_ok, run_query_ok] at h
  rcases h with ⟨-, -, _, _, ⟨-, rfl, rfl⟩, h⟩
  cases hfind : (db.outbox.find? id).filter fun r => r.state = .inFlight with
  | none => simp [hfind] at h
  | some r =>
    rcases Option.filter_eq_some_iff.mp hfind with ⟨hf, hstate⟩
    rcases Table.find?_eq_some.mp hf with ⟨hr, hid⟩
    refine ⟨r, hr, hid, of_decide_eq_true hstate, ?_⟩
    by_cases huuid : r.uuid = ""
    · have hgrp : r.grouped = false := by simp [Event.grouped, huuid]
      simp only [hfind, huuid, ne_eq, not_true_eq_false, if_false, run_statement_ok,
        run_modify_ok] at h
      rcases h with ⟨-, rfl⟩
      refine ⟨fun hg => by simp [hgrp] at hg, ?_⟩
      simp [Db.acked, hgrp, hid]
    · have hgrp : r.grouped = true := by simp [Event.grouped, huuid]
      simp only [hfind, huuid, ne_eq, not_false_eq_true, if_true, run_bind_ok, run_statement_ok,
        updateStreams_ok, run_require_ok, updateOutbox_ok, run_modify_ok, decide_eq_true_eq] at h
      rcases h with ⟨_, _, ⟨-, hmoved, rfl⟩, _, _, ⟨rfl, rfl⟩, _, _, ⟨-, -, rfl⟩, -, rfl⟩
      have hkey : ∀ s : Stream, (decide (s.call = (r.topic, r.uuid)) &&
          decide (s.nextSeq = r.callSeq.getD 0)) = true → s.call = r.call := by
        intro s hs
        rw [Bool.and_eq_true, decide_eq_true_eq] at hs
        exact hs.1
      rcases (Table.changes_eq_one hkey).mp hmoved with ⟨s, hs, hps⟩
      have hcall : s.call = r.call := hkey s hps
      have hnext : s.nextSeq = r.callSeq.getD 0 := by
        rw [Bool.and_eq_true, decide_eq_true_eq, decide_eq_true_eq] at hps
        exact hps.2
      refine ⟨fun _ => ⟨s, hs, hcall, hnext⟩, ?_⟩
      rw [updateStreams_eq_of_call hs hps (fun q hq => by rw [hcall]; exact hkey q hq), hcall]
      simp [Db.acked, hgrp, hid]

/-! ## The single-statement transitions -/

/-- Exactly one row was selected, and rewritten. -/
theorem updateOne_ok {fault : Option String} {p : Row → Bool} {f : Row → Progress} {msg : String}
    {db db' : Db} {u : Unit} (h : (updateOne fault p f msg).run db = .ok u db') :
    db.outbox.changes p = 1 ∧ db' = db.updateOutbox p f := by
  simp only [updateOne, run_bind_ok, run_statement_ok, updateOutbox_ok, run_require_ok,
    decide_eq_true_eq] at h
  rcases h with ⟨_, _, ⟨-, rfl, rfl⟩, hch, rfl⟩
  exact ⟨hch, rfl⟩

/-- All rows in flight went back to pending. -/
theorem requeueInFlight_ok {now₁ now₂ : Int} {fault : FaultPlan} {db db' : Db} {u : Unit}
    (h : (requeueInFlight now₁ now₂ fault).run db = .ok u db') :
    db' = db.updateOutbox (fun r => r.state = .inFlight) fun r =>
      { r.toProgress with state := .pending, nextAttemptAtMs := now₁, updatedAtMs := now₂ } := by
  simp only [requeueInFlight, run_bind_ok, run_statement_ok, updateOutbox_ok, run_pure_ok] at h
  rcases h with ⟨_, _, ⟨-, -, rfl⟩, -, rfl⟩
  rfl

/-- The rows that expired are dead of their age, and the reply is their number. -/
theorem expireTtl_ok {now ttl : Int} {fault : FaultPlan} {db db' : Db} {n : Int}
    (h : (expireTtl now ttl fault).run db = .ok n db') :
    n = db.outbox.changes (expires now ttl db) ∧
      db' = db.updateOutbox (expires now ttl db) fun r =>
        { r.toProgress with
          state := .dead, lastError := some "expired_ttl", updatedAtMs := now } := by
  simp only [expireTtl, run_bind_ok, run_statement_ok, updateOutbox_ok, run_pure_ok] at h
  rcases h with ⟨_, _, ⟨-, rfl, rfl⟩, rfl, rfl⟩
  exact ⟨rfl, rfl⟩

/-! ## `open` -/

/-- The rows `open` stamps. -/
def unstamped (db : Db) (r : Row) : Bool :=
  r.eligibleAtMs = none && db.deliverable r.toEvent

/-- The checks passed, and the unstamped heads were stamped with their creation. -/
theorem openDb_ok {fault : FaultPlan} {db db' : Db} {u : Unit}
    (h : (openDb fault).run db = .ok u db') :
    db' = db.updateOutbox (unstamped db) fun r =>
      { r.toProgress with eligibleAtMs := some r.createdAtMs } := by
  simp only [openDb, run_transaction_ok, run_bind_ok, run_statement_ok, updateOutbox_ok,
    run_query_ok, run_require_ok, run_pure_ok] at h
  obtain ⟨_, _, ⟨-, -, rfl⟩, -, -, _, _, ⟨-, -, rfl⟩, _, _, ⟨-, -, rfl⟩, _, _, ⟨-, rfl⟩, _, _,
    ⟨-, -, rfl⟩, _, _, ⟨-, rfl⟩, _, _, ⟨-, -, rfl⟩, -, rfl⟩ := h
  rfl

/-! ## `fetch_due` -/

/-- A batch is read off distinct due rows. -/
theorem fetchDue_ok {now limit : Int} {fault : FaultPlan} {db db' : Db} {recs : List OutboxRecord}
    (h : (fetchDue now limit fault).run db = .ok recs db') :
    db = db' ∧ (∀ rec ∈ recs, ∃ r ∈ db.outbox, due now db r = true ∧ rec = record r) ∧
      (recs.map fun rec => rec.eventId).Nodup := by
  simp only [fetchDue, run_statement_ok, run_bind_ok, run_get_ok, run_pure_ok] at h
  rcases h with ⟨-, _, _, ⟨rfl, rfl⟩, rfl, rfl⟩
  have htake : ∀ sorted : List Row,
      (if limit < 0 then sorted else sorted.take limit.toNat).Sublist sorted := by
    intro sorted
    split
    · exact List.Sublist.refl _
    · exact List.take_sublist _ _
  refine ⟨rfl, ?_, ?_⟩
  · intro rec hrec
    rcases List.mem_map.mp hrec with ⟨r, hr, rfl⟩
    have hfilter := (List.mem_insertionSort _).mp ((htake _).subset hr)
    exact ⟨r, (List.mem_filter.mp hfilter).1, (List.mem_filter.mp hfilter).2, rfl⟩
  · -- the rows have distinct keys, and a batch is a part of them in another order
    have hrows : ((db.outbox.rows.filter (due now db)).map fun r => r.eventId).Nodup :=
      db.outbox.key_nodup.sublist (List.filter_sublist.map _)
    have hperm := (List.perm_insertionSort (dueLe db)
      (db.outbox.rows.filter (due now db))).map fun r : Row => r.eventId
    have hids : ∀ l : List Row, (l.map record).map (fun rec => rec.eventId) =
        l.map fun r => r.eventId := by
      intro l
      rw [List.map_map]
      rfl
    rw [hids]
    exact (hperm.nodup_iff.mpr hrows).sublist ((htake _).map _)

/-! ## Reading the effects row by row -/

theorem RoomFor.mem_of_mem {lim : Limits} {rec : OutboxRecord} {t base : OutboxTable}
    (h : RoomFor lim rec t base) {q : Row} (hq : q ∈ base) : q ∈ t := by
  rcases h with ⟨rfl, -⟩ | ⟨rfl, -, -⟩
  · exact hq
  · exact (Table.mem_delete.mp hq).1

/-- Reclaiming spares every grouped row. -/
theorem RoomFor.mem_of_grouped {lim : Limits} {rec : OutboxRecord} {t base : OutboxTable}
    (h : RoomFor lim rec t base) {q : Row} (hq : q ∈ t) (hg : q.grouped = true) : q ∈ base := by
  rcases h with ⟨rfl, -⟩ | ⟨rfl, -, -⟩
  · exact hq
  · refine Table.mem_delete.mpr ⟨hq, ?_⟩
    simp [reclaimable, hg]

/-- After an admission there are the rows of `base` and the new one. -/
theorem Admission.mem_outbox {lim : Limits} {rec : OutboxRecord} {now : Int} {db db' : Db}
    {seq : Int} {dn : Bool} {base : OutboxTable}
    (h : Admission lim rec now db db' seq dn base) {q : Row} :
    q ∈ db'.outbox ↔ q ∈ base ∨ q = newRow rec now seq dn :=
  Table.mem_insert h.row

/-- The stream after `seq` was claimed in it. -/
def Stream.claimed (s : Stream) (seq : Int) : Stream :=
  ⟨s.toOwnership, { s.toCursor with admitSeq := max s.admitSeq (inc64 seq) }⟩

/-- A claim rewrites the claimed stream and leaves the streams of other calls. -/
theorem Claim.mem_claimSeq {lim : Limits} {rec : OutboxRecord} {streams base : StreamTable}
    {s s' : Stream} {seq : Int} {dn : Bool} (h : Claim lim rec streams base s seq dn) :
    s' ∈ claimSeq base rec seq ↔
      s' = s.claimed seq ∨ s' ∈ streams ∧ s'.call ≠ rec.call := by
  have hother : ∀ q, q.call ≠ rec.call → (q ∈ base ↔ q ∈ streams) := by
    intro q hq
    rcases h.found with ⟨-, rfl⟩ | ⟨-, rfl, -, hins⟩
    · exact Iff.rfl
    · rw [Table.mem_insert hins]
      have hne : q ≠ newStream rec := fun hq' => hq (hq' ▸ rfl)
      simp [hne]
  have hmem : s' ∈ claimSeq base rec seq ↔
      ∃ q ∈ base, s' = if decide (q.call = rec.call) then q.claimed seq else q :=
    Table.mem_of_rows_eq_map rfl
  rw [hmem]
  constructor
  · rintro ⟨q, hq, rfl⟩
    by_cases hcall : q.call = rec.call
    · have hqs : q = s := Table.eq_of_key hq h.mem_base (hcall.trans h.call_eq.symm)
      left
      simp [hqs, h.call_eq]
    · right
      simpa [hcall] using (hother q hcall).mp hq
  · rintro (rfl | ⟨hs', hcall⟩)
    · exact ⟨s, h.mem_base, by simp [h.call_eq]⟩
    · exact ⟨s', (hother s' hcall).mpr hs', by simp [hcall]⟩

/-- The stream after the ACK of `r`, one further if `r` belongs to it. -/
def Stream.afterAck (r : Row) (s : Stream) : Stream :=
  if r.grouped = true ∧ s.call = r.call then
    ⟨s.toOwnership, { s.toCursor with nextSeq := s.nextSeq + 1 }⟩
  else s

@[simp] theorem Stream.afterAck_toOwnership (r : Row) (s : Stream) :
    (s.afterAck r).toOwnership = s.toOwnership := by
  unfold Stream.afterAck
  split <;> rfl

@[simp] theorem Stream.afterAck_admitSeq (r : Row) (s : Stream) :
    (s.afterAck r).admitSeq = s.admitSeq := by
  unfold Stream.afterAck
  split <;> rfl

theorem Stream.afterAck_of_call {r : Row} {s : Stream} (hg : r.grouped = true)
    (hcall : s.call = r.call) : (s.afterAck r).nextSeq = s.nextSeq + 1 := by
  simp [Stream.afterAck, hg, hcall]

theorem Stream.afterAck_of_ne {r : Row} {s : Stream} (h : ¬ (r.grouped = true ∧ s.call = r.call)) :
    s.afterAck r = s := by
  simp [Stream.afterAck, h]

/-- The row after the ACK of `r`, stamped if it is the successor. -/
def Row.afterAck (r : Row) (now : Int) (q : Row) : Row :=
  if r.grouped && successor r q then ⟨q.toEvent, { q.toProgress with eligibleAtMs := some now }⟩
  else q

@[simp] theorem Row.afterAck_toEvent (r : Row) (now : Int) (q : Row) :
    (r.afterAck now q).toEvent = q.toEvent := by
  unfold Row.afterAck
  split <;> rfl

@[simp] theorem Row.afterAck_state (r : Row) (now : Int) (q : Row) :
    (r.afterAck now q).state = q.state := by
  unfold Row.afterAck
  split <;> rfl

/-- After an ACK there are the other rows, the successor stamped. -/
theorem Db.mem_acked_outbox {db : Db} {r q : Row} {now : Int} :
    q ∈ (db.acked r now).outbox ↔
      ∃ q₀ ∈ db.outbox, q₀.eventId ≠ r.eventId ∧ q = r.afterAck now q₀ := by
  cases hg : r.grouped with
  | false =>
    simp only [Db.acked, hg, Bool.false_eq_true, if_false, Table.mem_delete, Row.afterAck,
      Bool.false_and, decide_eq_false_iff_not]
    constructor
    · rintro ⟨hq, hne⟩
      exact ⟨q, hq, hne, rfl⟩
    · rintro ⟨q₀, hq₀, hne, rfl⟩
      exact ⟨hq₀, hne⟩
  | true =>
    simp only [Db.acked, hg, if_true, Table.mem_delete, Row.afterAck, Bool.true_and,
      decide_eq_false_iff_not, Db.updateOutbox, Db.updateStreams, Table.mem_update]
    constructor
    · rintro ⟨⟨q₀, hq₀, rfl⟩, hne⟩
      refine ⟨q₀, hq₀, ?_, rfl⟩
      by_cases hs : successor r q₀ <;> simpa [hs] using hne
    · rintro ⟨q₀, hq₀, hne, rfl⟩
      refine ⟨⟨q₀, hq₀, rfl⟩, ?_⟩
      by_cases hs : successor r q₀ <;> simpa [hs] using hne

/-- After an ACK there are the same streams, that of the row one further. -/
theorem Db.mem_acked_callStreams {db : Db} {r : Row} {s : Stream} {now : Int} :
    s ∈ (db.acked r now).callStreams ↔ ∃ s₀ ∈ db.callStreams, s = s₀.afterAck r := by
  cases hg : r.grouped with
  | false => simp [Db.acked, hg, Stream.afterAck]
  | true =>
    have hmem : s ∈ (db.acked r now).callStreams ↔ ∃ s₀ ∈ db.callStreams,
        s = if decide (s₀.call = r.call) then
          ⟨s₀.toOwnership, { s₀.toCursor with nextSeq := s₀.nextSeq + 1 }⟩ else s₀ := by
      apply Table.mem_of_rows_eq_map
      simp only [Db.acked, hg, if_true]
      rfl
    simpa [Stream.afterAck, hg] using hmem

@[simp] theorem Db.acked_retiredCalls {db : Db} {r : Row} {now : Int} :
    (db.acked r now).retiredCalls = db.retiredCalls := by
  cases hg : r.grouped <;> simp [Db.acked, hg]

@[simp] theorem Db.acked_turn {db : Db} {r : Row} {now : Int} :
    (db.acked r now).turn = db.turn := by
  cases hg : r.grouped <;> simp [Db.acked, hg]

end EventKafka
