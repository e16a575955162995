import EventKafka.Outbox.Invariant

/-! # The stamp of deliverable rows

`eligible_at_ms` is NULL on the rows that wait behind another row of their call, and
set on the others. Three places keep it so: `insert_pending` stamps what it puts at the
cursor, `mark_acked` stamps what it moves the cursor onto, and no other transition
makes a row deliverable. The stamp of `open` then has nothing to do.
-/

namespace EventKafka

open Sql

/-- `eligible_at_ms` is NULL exactly on the rows that are not deliverable. -/
structure Stamped (db : Db) : Prop where
  inv : StoreInv db
  null : ∀ r ∈ db.outbox, r.eligibleAtMs = none ↔ db.deliverable r.toEvent = false

theorem Stamped.empty : Stamped .empty :=
  ⟨.empty, fun r hr => absurd hr (Table.notMem_empty r)⟩

/-! ## Who is deliverable after a call -/

/-- `deliverable_now` is what it says. -/
theorem Admission.deliverable_newRow {lim : Limits} {rec : OutboxRecord} {now seq : Int}
    {dn : Bool} {db db' : Db} {base : OutboxTable}
    (h : Admission lim rec now db db' seq dn base) :
    db'.deliverable (newRow rec now seq dn).toEvent = dn := by
  rcases h.streams.inv with ⟨huuid, hdn, -⟩ | ⟨tbl, s, huuid, -, -, hclaim, heq⟩
  · rw [hdn]
    apply Db.deliverable_of_not_grouped
    exact Event.grouped_eq_false.mpr huuid
  · have hg : (newRow rec now seq dn).grouped = true := newRow_grouped.mpr huuid
    have hmem : s.claimed seq ∈ db'.callStreams := heq ▸ hclaim.mem_claimSeq.mpr (Or.inl rfl)
    have hcall : (s.claimed seq).call = (newRow rec now seq dn).call := hclaim.call_eq
    have hseq : (newRow rec now seq dn).callSeq = some seq := by simp [newRow, huuid]
    have hdn : dn = true ↔ seq = s.nextSeq := by
      rw [hclaim.head, decide_eq_true_iff]
    rw [Db.deliverable_of_grouped hg, Bool.eq_iff_iff, Db.isHead_of_grouped hg, hdn]
    constructor
    · rintro ⟨s', hs', hcall', hseq'⟩
      have hs'eq : s' = s.claimed seq := Table.eq_of_key hs' hmem (hcall'.trans hcall.symm)
      rw [hseq, hs'eq, Option.some.injEq] at hseq'
      exact hseq'
    · intro hnext
      exact ⟨s.claimed seq, hmem, hcall, by rw [hseq, hnext]; rfl⟩

section Acked

variable {db : Db} {r q : Row}

/-- The ACK of `r` leaves the other calls alone. -/
theorem acked_deliverable_of_ne {now : Int} (hne : ¬ (r.grouped = true ∧ q.call = r.call)) :
    (db.acked r now).deliverable q.toEvent = db.deliverable q.toEvent := by
  cases hg : q.grouped with
  | false => rw [Db.deliverable_of_not_grouped hg, Db.deliverable_of_not_grouped hg]
  | true =>
    rw [Db.deliverable_of_grouped hg, Db.deliverable_of_grouped hg, Bool.eq_iff_iff,
      Db.isHead_of_grouped hg, Db.isHead_of_grouped hg]
    have hsame : ∀ s : Stream, s.call = q.call → s.afterAck r = s := fun s hs =>
      Stream.afterAck_of_ne fun hmine => hne ⟨hmine.1, hs.symm.trans hmine.2⟩
    constructor
    · rintro ⟨s', hs', hcall, hseq⟩
      rcases Db.mem_acked_callStreams.mp hs' with ⟨s, hs, rfl⟩
      rw [Stream.afterAck_toOwnership] at hcall
      rw [hsame s hcall] at hseq
      exact ⟨s, hs, hcall, hseq⟩
    · rintro ⟨s, hs, hcall, hseq⟩
      exact ⟨s, Db.mem_acked_callStreams.mpr ⟨s, hs, (hsame s hcall).symm⟩, hcall, hseq⟩

/-- In the call of `r`, the ACK makes the next sequence the head. -/
theorem acked_deliverable_of_call (now : Int) (hhead : r.grouped = true →
      ∃ s ∈ db.callStreams, s.call = r.call ∧ s.nextSeq = r.callSeq.getD 0)
    (hrg : r.grouped = true) (hqg : q.grouped = true) (hcall : q.call = r.call) :
    (db.acked r now).deliverable q.toEvent = true ↔
      q.callSeq = some (r.callSeq.getD 0 + 1) := by
  rcases hhead hrg with ⟨s, hs, hsc, hnext⟩
  have hmem : s.afterAck r ∈ (db.acked r now).callStreams :=
    Db.mem_acked_callStreams.mpr ⟨s, hs, rfl⟩
  have hkey : (s.afterAck r).call = q.call := by
    rw [Stream.afterAck_toOwnership]
    exact hsc.trans hcall.symm
  rw [Db.deliverable_of_grouped hqg, Db.isHead_of_grouped hqg, ← hnext,
    ← Stream.afterAck_of_call hrg hsc]
  constructor
  · rintro ⟨s', hs', hcall', hseq⟩
    have heq : s' = s.afterAck r := Table.eq_of_key hs' hmem (hcall'.trans hkey.symm)
    rw [hseq, heq]
  · intro hseq
    exact ⟨_, hmem, hkey, hseq⟩

/-- The other rows of the call were waiting. -/
theorem not_deliverable_of_ne_acked (hinv : StoreInv db) (hr : r ∈ db.outbox)
    (hstate : r.state = .inFlight) (hq : q ∈ db.outbox) (hne : q.eventId ≠ r.eventId)
    (hrg : r.grouped = true) (hqg : q.grouped = true) (hcall : q.call = r.call) :
    db.deliverable q.toEvent = false := by
  rw [Db.deliverable_of_grouped hqg]
  apply Bool.eq_false_iff.mpr
  intro hqh
  apply hne
  rw [eq_of_isHead hq hr hqg hrg hcall hqh (hinv.heads r hr hrg hstate)]

end Acked

/-! ## Every step -/

section Stamped

variable {db db' : Db}

/-- The stamp of `open` would need a deliverable row without a stamp. -/
theorem Stamped.eligible_eq (h : Stamped db) {r r' : Row} (hr : r ∈ db.outbox)
    (hst : RowStep db r r') : r'.eligibleAtMs = r.eligibleAtMs := by
  rcases hst.eligible with hsame | ⟨hnull, hdel, -⟩
  · exact hsame
  · rw [(h.null r hr).mp hnull] at hdel
    simp at hdel

/-- What the ACK of `r` does to the stamp of a row that stays. -/
theorem Stamped.eligible_afterAck (h : Stamped db) {r q : Row} (now : Int) (hr : r ∈ db.outbox)
    (hstate : r.state = .inFlight)
    (hhead : r.grouped = true →
      ∃ s ∈ db.callStreams, s.call = r.call ∧ s.nextSeq = r.callSeq.getD 0)
    (hq : q ∈ db.outbox) (hne : q.eventId ≠ r.eventId) :
    (r.afterAck now q).eligibleAtMs =
        (if !db.deliverable q.toEvent && (db.acked r now).deliverable q.toEvent then some now
          else q.eligibleAtMs) ∧
      (db.deliverable q.toEvent = true → (db.acked r now).deliverable q.toEvent = true) := by
  by_cases hmine : r.grouped = true ∧ q.grouped = true ∧ q.call = r.call
  · rcases hmine with ⟨hrg, hqg, hcall⟩
    have hwait := not_deliverable_of_ne_acked h.inv hr hstate hq hne hrg hqg hcall
    have hnull : q.eligibleAtMs = none := (h.null q hq).mpr hwait
    have hnext := acked_deliverable_of_call now hhead hrg hqg hcall
    have hsucc : successor r q = true ↔ q.callSeq = some (r.callSeq.getD 0 + 1) := by
      rcases Event.grouped_iff.mp hqg with ⟨c, hc, -⟩
      have huuid : q.callUuid = some r.uuid := by
        have := congrArg Prod.snd hcall
        simpa [Event.call, Event.uuid, hc] using this
      have htopic : q.topic = r.topic := congrArg Prod.fst hcall
      simp [successor, htopic, huuid, hnull, (h.inv.spec.ackNext r hr hrg).1]
    by_cases hseq : q.callSeq = some (r.callSeq.getD 0 + 1)
    · simp [Row.afterAck, hrg, hsucc.mpr hseq, hwait, hnext.mpr hseq]
    · have hns : successor r q = false := Bool.eq_false_iff.mpr fun hs => hseq (hsucc.mp hs)
      have hnd : (db.acked r now).deliverable q.toEvent = false :=
        Bool.eq_false_iff.mpr fun hd => hseq (hnext.mp hd)
      simp [Row.afterAck, hns, hnd, hwait]
  · -- another call, or no call at all: nothing moved
    have hother : ¬ (r.grouped = true ∧ q.call = r.call) := by
      rintro ⟨hrg, hcall⟩
      apply hmine
      exact ⟨hrg, (Event.grouped_congr hcall).trans hrg, hcall⟩
    have hsame : r.afterAck now q = q := by
      unfold Row.afterAck
      rw [if_neg]
      intro hs
      simp only [Bool.and_eq_true, successor, decide_eq_true_eq] at hs
      apply hother
      refine ⟨hs.1, ?_⟩
      simp [Event.call, Event.uuid, hs.2.1.1.1, hs.2.1.1.2]
    rw [hsame, acked_deliverable_of_ne hother, Bool.not_and_self]
    exact ⟨rfl, id⟩

theorem Stamped.quiet (h : Stamped db) (hquiet : Quiet db db') : Stamped db' where
  inv := h.inv.quiet hquiet
  null := by
    intro r' hr'
    rcases hquiet.rows.backward hr' with ⟨r, hr, hst⟩
    rw [h.eligible_eq hr hst, hst.event, hquiet.deliverable]
    exact h.null r hr

theorem Stamped.admitted {lim : Limits} {rec : OutboxRecord} {now seq : Int} {dn : Bool}
    {base : OutboxTable} (h : Stamped db) (hadm : Admission lim rec now db db' seq dn base) :
    Stamped db' where
  inv := h.inv.admitted hadm
  null := by
    intro q hq
    rcases hadm.mem_outbox.mp hq with hbase | rfl
    · have hmem := hadm.room.mem_of_mem hbase
      rw [hadm.deliverable h.inv hmem]
      exact h.null q hmem
    · rw [hadm.deliverable_newRow]
      cases dn <;> simp [newRow]

theorem Stamped.acked (h : Stamped db) {r : Row} (now : Int) (hr : r ∈ db.outbox)
    (hstate : r.state = .inFlight)
    (hhead : r.grouped = true →
      ∃ s ∈ db.callStreams, s.call = r.call ∧ s.nextSeq = r.callSeq.getD 0) :
    Stamped (db.acked r now) where
  inv := h.inv.acked hr hstate hhead
  null := by
    intro q' hq'
    rcases Db.mem_acked_outbox.mp hq' with ⟨q, hq, hne, rfl⟩
    rcases h.eligible_afterAck now hr hstate hhead hq hne with ⟨helig, hkeep⟩
    have hnull := h.null q hq
    rw [Row.afterAck_toEvent, helig]
    cases hdel : db.deliverable q.toEvent with
    | true =>
      rw [hdel] at hnull
      simpa [hkeep hdel] using hnull
    | false =>
      have hq0 : q.eligibleAtMs = none := hnull.mpr hdel
      cases hdel' : (db.acked r now).deliverable q.toEvent <;> simp [hq0]

theorem Stamped.step {b : Outbox} (h : Stamped b.db) (op : Op) : Stamped (b.step op).db := by
  cases b.outcome op with
  | quiet _ _ hquiet => exact h.quiet hquiet
  | admitted _ _ _ hadmission => exact h.admitted hadmission
  | acked _ _ _ hr _ hstate hhead hdb =>
    rw [hdb]
    exact h.acked _ hr hstate hhead

/-- A retired call has no row, so the rows keep their streams. -/
theorem Stamped.retired {args : RetireArgs} {atMs : Int} {s : Stream} (h : Stamped db)
    (hret : Retirement args atMs db db' s) : Stamped db' where
  inv := h.inv.retired hret
  null := by
    intro r hr
    rw [hret.outbox] at hr
    have hsame : db'.deliverable r.toEvent = db.deliverable r.toEvent := by
      cases hg : r.grouped with
      | false => rw [Db.deliverable_of_not_grouped hg, Db.deliverable_of_not_grouped hg]
      | true =>
        rw [Db.deliverable_of_grouped hg, Db.deliverable_of_grouped hg, Bool.eq_iff_iff,
          Db.isHead_of_grouped hg, Db.isHead_of_grouped hg]
        constructor
        · rintro ⟨q, hq, hcall, hseq⟩
          rw [hret.streams, Table.mem_delete] at hq
          exact ⟨q, hq.1, hcall, hseq⟩
        · rintro ⟨q, hq, hcall, hseq⟩
          have hne : q.call ≠ args.call := hcall ▸ hret.call_ne hr hg
          refine ⟨q, ?_, hcall, hseq⟩
          rw [hret.streams, Table.mem_delete]
          exact ⟨hq, by simp [hne]⟩
    rw [hsame]
    exact h.null r hr

theorem Stamped.live {b : Outbox} (h : Stamped b.db) (act : LifeOp) :
    Stamped (b.live act).db := by
  cases b.lifeOutcome act with
  | @call op _ => exact h.step op
  | refused hsame =>
    rw [hsame]
    exact h
  | retired hret => exact h.retired hret

theorem stamped_life (acts : List LifeOp) :
    Stamped (Machine.run Outbox.live Outbox.init acts).db :=
  Machine.run_invariant (I := fun b : Outbox => Stamped b.db) Stamped.empty
    (fun _ act h => h.live act) acts

end Stamped

/-! ## Opening -/

/-- Every grouped row has its sequence and its stream. -/
theorem StoreInv.not_corrupt {db : Db} (hinv : StoreInv db) :
    db.outbox.rows.any (corrupt db) = false := by
  rw [List.any_eq_false]
  intro r hr hcor
  simp only [corrupt, Bool.and_eq_true, Bool.or_eq_true, decide_eq_true_eq] at hcor
  rcases hinv.placed r hr hcor.1 with ⟨s, hs, k, hk⟩
  have hfind : db.streamOf r.toEvent = some s := by
    rw [Db.streamOf_of_grouped hcor.1]
    exact Table.find?_eq_some.mpr ⟨hs, hk.call⟩
  rcases hcor.2 with hnone | hnone
  · simp [hk.seq] at hnone
  · simp [hfind] at hnone

theorem StoreInv.not_retiredActive {db : Db} (hinv : StoreInv db) :
    (db.retiredCalls.rows.any fun f => (db.callStreams.find? f.call).isSome) = false := by
  rw [List.any_eq_false]
  intro f hf hsome
  rcases Option.isSome_iff_exists.mp hsome with ⟨s, hs⟩
  rcases Table.find?_eq_some.mp hs with ⟨hmem, hcall⟩
  exact hinv.fenced s hmem f hf hcall.symm

/-- `open` accepts every database that satisfies the store invariant. -/
theorem openDb_accepts {db : Db} (hinv : StoreInv db) :
    (openDb noFault).run db = .ok () (db.updateOutbox (unstamped db) fun r =>
      { r.toProgress with eligibleAtMs := some r.createdAtMs }) := by
  have hcursors := hinv.not_corrupt
  have hretired := hinv.not_retiredActive
  have hbody : openDb noFault = (do
      statement none (pure ())
      transaction none none do
        statement none (pure ())
        let corrupted ← query none fun db : Db => db.outbox.rows.any (corrupt db)
        require (!corrupted) "corrupt ordered outbox/cursor"
        let retiredActive ← query none fun db : Db =>
          db.retiredCalls.rows.any fun f => (db.callStreams.find? f.call).isSome
        require (!retiredActive) "retired call still has active cursor"
        let _ ← statement none (updateOutbox unstamped
          (fun r => { r.toProgress with eligibleAtMs := some r.createdAtMs }))) := rfl
  rw [hbody]
  refine run_bind_ok.mpr ⟨(), db, rfl, ?_⟩
  refine run_transaction_ok.mpr ⟨rfl, rfl, ?_⟩
  refine run_bind_ok.mpr ⟨(), db, rfl, ?_⟩
  refine run_bind_ok.mpr ⟨false, db, run_query_ok.mpr ⟨rfl, hcursors, rfl⟩, ?_⟩
  refine run_bind_ok.mpr ⟨(), db, rfl, ?_⟩
  refine run_bind_ok.mpr ⟨false, db, run_query_ok.mpr ⟨rfl, hretired, rfl⟩, ?_⟩
  refine run_bind_ok.mpr ⟨(), db, rfl, ?_⟩
  exact run_bind_ok.mpr ⟨_, _, run_statement_ok.mpr ⟨rfl, updateOutbox_ok.mpr ⟨rfl, rfl⟩⟩, rfl⟩

/-- The stamp of `open` finds nothing to do. -/
theorem Stamped.stamp_eq {db : Db} (h : Stamped db) (f : Row → Progress) :
    db.updateOutbox (unstamped db) f = db := by
  have hnone : db.outbox.changes (unstamped db) = 0 := by
    rw [Table.changes_eq_zero]
    intro r hr
    have hnull := h.null r hr
    cases helig : r.eligibleAtMs with
    | some t => simp [unstamped, helig]
    | none => simp [unstamped, hnull.mp helig]
  rw [Db.updateOutbox, Table.update_of_changes_eq_zero hnone]

theorem Stamped.openDb_run {db : Db} (h : Stamped db) : (openDb noFault).run db = .ok () db := by
  rw [openDb_accepts h.inv, h.stamp_eq]

end EventKafka
