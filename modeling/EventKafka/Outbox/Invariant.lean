import EventKafka.Outbox.Retire

/-! # The store invariant

What holds of the four tables in every state of every life of a database. The
fields are inductive only together: the cursor test of `mark_acked` needs the
in-flight rows to be heads, the density of an admission stream needs its rows to
lie between the cursors, and the cursors stay inside `int64_t` because a claimed
sequence is tested against `INT64_MAX` first.
-/

namespace EventKafka

open Sql

/-- Row `r` stands at position `k` of stream `s`, between its cursors. -/
structure Placed (r : Row) (s : Stream) (k : Int) : Prop where
  call : s.call = r.call
  key : r.msgKey = some s.msgKey
  seq : r.callSeq = some k
  lo : s.nextSeq ≤ k
  hi : k < s.admitSeq

/-- The cursors of a stream are ordered and fit in `int64_t`. -/
structure Stream.Bounded (s : Stream) : Prop where
  nonneg : 0 ≤ s.nextSeq
  ordered : s.nextSeq ≤ s.admitSeq
  max : s.admitSeq ≤ int64Max

/-- The store invariant. -/
structure StoreInv (db : Db) : Prop where
  placed : ∀ r ∈ db.outbox, r.grouped = true → ∃ s ∈ db.callStreams, ∃ k, Placed r s k
  heads : ∀ r ∈ db.outbox, r.grouped = true → r.state = .inFlight →
    db.isHead r.toEvent = true
  bounded : ∀ s ∈ db.callStreams, s.Bounded
  fenced : ∀ s ∈ db.callStreams, ∀ f ∈ db.retiredCalls, f.call ≠ s.call
  dense : ∀ s ∈ db.callStreams, s.mode = .admission → ∀ k, s.nextSeq ≤ k → k < s.admitSeq →
    ∃ r ∈ db.outbox, r.grouped = true ∧ r.call = s.call ∧ r.callSeq = some k

/-- The outbox that has just been created. -/
theorem StoreInv.empty : StoreInv .empty where
  placed := fun r hr => absurd hr (Table.notMem_empty r)
  heads := fun r hr => absurd hr (Table.notMem_empty r)
  bounded := fun s hs => absurd hs (Table.notMem_empty s)
  fenced := fun s hs => absurd hs (Table.notMem_empty s)
  dense := fun s hs => absurd hs (Table.notMem_empty s)

/-- A row stays placed while its stream is the same and the window only grows. -/
theorem Placed.transfer {r r' : Row} {s s' : Stream} {k : Int} (h : Placed r s k)
    (hevent : r'.toEvent = r.toEvent) (howner : s'.toOwnership = s.toOwnership)
    (hlo : s'.nextSeq ≤ k) (hhi : s.admitSeq ≤ s'.admitSeq) : Placed r' s' k where
  call := by rw [howner, hevent]; exact h.call
  key := by rw [howner, hevent]; exact h.key
  seq := by rw [hevent]; exact h.seq
  lo := hlo
  hi := by have := h.hi; omega

/-! ## Grouped rows under the invariant -/

/-- A grouped row is placed in the stream of its call, whichever way that is found. -/
theorem StoreInv.placed_in {db : Db} (hinv : StoreInv db) {r : Row} {s : Stream}
    (hr : r ∈ db.outbox) (hg : r.grouped = true) (hs : s ∈ db.callStreams)
    (hcall : s.call = r.call) : ∃ k, Placed r s k := by
  rcases hinv.placed r hr hg with ⟨s', hs', k, hk⟩
  have heq : s' = s := Table.eq_of_key hs' hs (hk.call.trans hcall.symm)
  exact ⟨k, heq ▸ hk⟩

/-- Two grouped rows at one position of one call are one row. -/
theorem eq_of_position {db : Db} {r q : Row} {k : Int} (hr : r ∈ db.outbox) (hq : q ∈ db.outbox)
    (hrg : r.grouped = true) (hqg : q.grouped = true) (hcall : r.call = q.call)
    (hrk : r.callSeq = some k) (hqk : q.callSeq = some k) : r = q := by
  rcases Event.grouped_iff.mp hrg with ⟨c, hc, -⟩
  rcases Event.grouped_iff.mp hqg with ⟨d, hd, -⟩
  have htopic : r.topic = q.topic := congrArg Prod.fst hcall
  have huuid : c = d := by
    have h := congrArg Prod.snd hcall
    simpa [Event.call, Event.uuid, hc, hd] using h
  have hri : r.seqIndex = some (r.topic, c, k) := Event.seqIndex_eq.mpr ⟨rfl, hc, hrk⟩
  have hqi : q.seqIndex = some (r.topic, c, k) :=
    Event.seqIndex_eq.mpr ⟨htopic.symm, huuid ▸ hd, hqk⟩
  exact Table.eq_of_index hr hq hri hqi

/-- Two heads of one call are one row. -/
theorem eq_of_isHead {db : Db} {r q : Row} (hr : r ∈ db.outbox) (hq : q ∈ db.outbox)
    (hrg : r.grouped = true) (hqg : q.grouped = true) (hcall : r.call = q.call)
    (hrh : db.isHead r.toEvent = true) (hqh : db.isHead q.toEvent = true) : r = q := by
  rcases (Db.isHead_of_grouped hrg).mp hrh with ⟨s, hs, hsr, hrk⟩
  rcases (Db.isHead_of_grouped hqg).mp hqh with ⟨s', hs', hsq, hqk⟩
  have heq : s' = s := by
    apply Table.eq_of_key hs' hs
    exact hsq.trans (hcall.symm.trans hsr.symm)
  exact eq_of_position hr hq hrg hqg hcall hrk (heq ▸ hqk)

/-! ## Quiet calls -/

/-- A row of a call is deliverable at the head. -/
theorem Db.deliverable_of_grouped {db : Db} {e : Event} (hg : e.grouped = true) :
    db.deliverable e = db.isHead e := by
  simp [Db.deliverable, hg]

/-- A row of no call is always deliverable. -/
theorem Db.deliverable_of_not_grouped {db : Db} {e : Event} (hg : e.grouped = false) :
    db.deliverable e = true := by
  simp [Db.deliverable, hg]

/-- A quiet call moves no cursor. -/
theorem Quiet.isHead {db db' : Db} (h : Quiet db db') {e : Event} (hg : e.grouped = true) :
    db'.isHead e = db.isHead e := by
  rw [Bool.eq_iff_iff, Db.isHead_of_grouped hg, Db.isHead_of_grouped hg]
  constructor
  · rintro ⟨s', hs', hcall, hseq⟩
    rcases h.streams.backward hs' with ⟨s, hs, hst⟩
    refine ⟨s, hs, ?_, hst.next ▸ hseq⟩
    rw [← hcall, hst.owner]
  · rintro ⟨s, hs, hcall, hseq⟩
    rcases h.streams.forward hs with ⟨s', hs', hst⟩
    refine ⟨s', hs', ?_, hst.next ▸ hseq⟩
    rw [← hcall, hst.owner]

/-- A call that moves no cursor changes nothing in this. -/
theorem Quiet.deliverable {db db' : Db} (h : Quiet db db') (e : Event) :
    db'.deliverable e = db.deliverable e := by
  cases hg : e.grouped with
  | false => simp [Db.deliverable, hg]
  | true => simp [Db.deliverable, hg, h.isHead hg]

/-- Changing the progress of rows keeps the invariant, which is about their events. -/
theorem StoreInv.quiet {db db' : Db} (hinv : StoreInv db) (h : Quiet db db') : StoreInv db' where
  placed := by
    intro r' hr' hg
    rcases h.rows.backward hr' with ⟨r, hr, hst⟩
    rcases hinv.placed r hr (hst.event ▸ hg) with ⟨s, hs, k, hk⟩
    rcases h.streams.forward hs with ⟨s', hs', hss⟩
    exact ⟨s', hs', k, hk.transfer hst.event hss.owner (hss.next ▸ hk.lo) hss.admitSeq.ge⟩
  heads := by
    intro r' hr' hg hstate
    rcases h.rows.backward hr' with ⟨r, hr, hst⟩
    rw [h.isHead hg, hst.event]
    have hg' : r.grouped = true := hst.event ▸ hg
    -- a row in flight was in flight before, or has just been marked as a head
    rcases hst.flight hstate with hflight | hdel
    · exact hinv.heads r hr hg' hflight
    · simpa [Db.deliverable, hg'] using hdel
  bounded := by
    intro s' hs'
    rcases h.streams.backward hs' with ⟨s, hs, hst⟩
    rcases hinv.bounded s hs with ⟨h0, hle, hmax⟩
    exact ⟨hst.next ▸ h0, hst.next ▸ hst.admitSeq ▸ hle, hst.admitSeq ▸ hmax⟩
  fenced := by
    intro s' hs' f hf
    rcases h.streams.backward hs' with ⟨s, hs, hst⟩
    rw [h.retired] at hf
    rw [hst.owner]
    exact hinv.fenced s hs f hf
  dense := by
    intro s' hs' hmode k hlo hhi
    rcases h.streams.backward hs' with ⟨s, hs, hst⟩
    rw [hst.owner] at hmode
    rw [hst.next] at hlo
    rw [hst.admitSeq] at hhi
    rcases hinv.dense s hs hmode k hlo hhi with ⟨r, hr, hg, hcall, hseq⟩
    rcases h.rows.forward hr with ⟨r', hr', hrr⟩
    refine ⟨r', hr', ?_, ?_, ?_⟩
    · rw [hrr.event]
      exact hg
    · rw [hrr.event, hst.owner]
      exact hcall
    · rw [hrr.event]
      exact hseq

/-! ## Admissions -/

section Admission

variable {lim : Limits} {rec : OutboxRecord} {now seq : Int} {dn : Bool} {db db' : Db}
  {base : OutboxTable}

/-- A new stream has an empty window. -/
theorem newStream_bounded : (newStream rec).Bounded :=
  ⟨le_refl _, le_refl _, by simp [newStream, int64Max]⟩

/-- The stream a record joins is bounded, be it old or new. -/
theorem Claim.bounded {streams tbl : StreamTable} {s : Stream}
    (h : Claim lim rec streams tbl s seq dn) (hb : ∀ q ∈ streams, q.Bounded) : s.Bounded := by
  rcases h.found with ⟨hs, -⟩ | ⟨-, rfl, -, -⟩
  · exact hb s hs
  · exact newStream_bounded

/-- A sequence below the cursor is refused. -/
theorem Claim.next_le {streams tbl : StreamTable} {s : Stream}
    (h : Claim lim rec streams tbl s seq dn) (hs : s.Bounded) : s.nextSeq ≤ seq := by
  by_cases hneg : rec.callSeq.toInt < 0
  · rw [h.admission hneg]
    exact hs.ordered
  · exact (h.source (by omega)).2

/-- A claimed sequence is an `int64_t`: it is the stream's `admit_seq`, or comes
from the record. -/
theorem Claim.le_max {streams tbl : StreamTable} {s : Stream}
    (h : Claim lim rec streams tbl s seq dn) (hs : s.Bounded) : seq ≤ int64Max := by
  by_cases hneg : rec.callSeq.toInt < 0
  · rw [h.admission hneg]
    exact hs.max
  · rw [(h.source (by omega)).1]
    have hlt := Int64.toInt_lt rec.callSeq
    unfold int64Max
    omega

/-- The range test leaves no sequence whose successor overflows. -/
theorem Claim.inc64_eq {streams tbl : StreamTable} {s : Stream}
    (h : Claim lim rec streams tbl s seq dn) (hs : s.Bounded) (hpos : 0 ≤ seq)
    (hmax : seq ≠ int64Max) : inc64 seq = seq + 1 := by
  have hle := h.le_max hs
  exact EventKafka.inc64_eq hpos (by omega)

/-- The row of a record with a call id belongs to the call. -/
theorem newRow_grouped : (newRow rec now seq dn).grouped = true ↔ rec.callUuid ≠ "" := by
  simp [Event.grouped, Event.uuid, newRow]

/-- Admission keeps every stream; at most it claims a sequence in it. -/
theorem Admission.stream_forward (h : Admission lim rec now db db' seq dn base) {s : Stream}
    (hs : s ∈ db.callStreams) :
    ∃ s' ∈ db'.callStreams, s'.toOwnership = s.toOwnership ∧ s'.nextSeq = s.nextSeq ∧
      s.admitSeq ≤ s'.admitSeq := by
  rcases h.streams.inv with ⟨-, -, heq⟩ | ⟨tbl, s₀, -, -, -, hclaim, heq⟩
  · exact ⟨s, heq ▸ hs, rfl, rfl, le_refl _⟩
  · rw [heq]
    by_cases hcall : s.call = rec.call
    · -- the call has a stream, so none was created for it
      have hfound : s₀ ∈ db.callStreams := by
        rcases hclaim.found with ⟨hs₀, -⟩ | ⟨hno, -⟩
        · exact hs₀
        · exact absurd hcall (hno s hs)
      have hss : s = s₀ := Table.eq_of_key hs hfound (hcall.trans hclaim.call_eq.symm)
      subst hss
      exact ⟨s.claimed seq, hclaim.mem_claimSeq.mpr (Or.inl rfl), rfl, rfl, le_max_left _ _⟩
    · exact ⟨s, hclaim.mem_claimSeq.mpr (Or.inr ⟨hs, hcall⟩), rfl, rfl, le_refl _⟩

/-- Admission moves no cursor under a row that is already there. -/
theorem Admission.isHead (h : Admission lim rec now db db' seq dn base) (hinv : StoreInv db)
    {r : Row} (hr : r ∈ db.outbox) (hg : r.grouped = true) :
    db'.isHead r.toEvent = db.isHead r.toEvent := by
  rcases hinv.placed r hr hg with ⟨s, hs, k, hk⟩
  rcases h.stream_forward hs with ⟨s', hs', howner, hnext, -⟩
  have hcall' : s'.call = r.call := by rw [howner]; exact hk.call
  rw [Bool.eq_iff_iff, Db.isHead_of_grouped hg, Db.isHead_of_grouped hg]
  constructor
  · rintro ⟨q, hq, hcall, hseq⟩
    have heq : q = s' := Table.eq_of_key hq hs' (hcall.trans hcall'.symm)
    exact ⟨s, hs, hk.call, by rw [hseq, heq, hnext]⟩
  · rintro ⟨q, hq, hcall, hseq⟩
    have heq : q = s := Table.eq_of_key hq hs (hcall.trans hk.call.symm)
    exact ⟨s', hs', hcall', by rw [hseq, heq, hnext]⟩

/-- Admission changes nothing for the rows already there. -/
theorem Admission.deliverable (h : Admission lim rec now db db' seq dn base) (hinv : StoreInv db)
    {r : Row} (hr : r ∈ db.outbox) :
    db'.deliverable r.toEvent = db.deliverable r.toEvent := by
  cases hg : r.grouped with
  | false => rw [Db.deliverable_of_not_grouped hg, Db.deliverable_of_not_grouped hg]
  | true =>
    rw [Db.deliverable_of_grouped hg, Db.deliverable_of_grouped hg]
    exact h.isHead hinv hr hg

/-- The new row stands at the claimed position of the claimed stream. -/
theorem Claim.placed {streams tbl : StreamTable} {s : Stream}
    (h : Claim lim rec streams tbl s seq dn) (huuid : rec.callUuid ≠ "") (hs : s.Bounded)
    (hpos : 0 ≤ seq) (hmax : seq ≠ int64Max) :
    Placed (newRow rec now seq dn) (s.claimed seq) seq where
  call := h.call_eq
  key := by
    have hkey := congrArg Ownership.msgKey h.owner
    exact congrArg some hkey.symm
  seq := by simp [newRow, huuid]
  lo := h.next_le hs
  hi := by
    have hinc := h.inc64_eq hs hpos hmax
    simp only [Stream.claimed, hinc]
    omega

/-- Claiming a sequence keeps the window in range. -/
theorem Claim.claimed_bounded {streams tbl : StreamTable} {s : Stream}
    (h : Claim lim rec streams tbl s seq dn) (hs : s.Bounded) (hpos : 0 ≤ seq)
    (hmax : seq ≠ int64Max) : (s.claimed seq).Bounded where
  nonneg := hs.nonneg
  ordered := le_trans hs.ordered (le_max_left _ _)
  max := by
    have hle := h.le_max hs
    have hs_max := hs.max
    simp only [Stream.claimed, h.inc64_eq hs hpos hmax]
    omega

/-- Every stream after an admission: the claimed one, or one that was there. -/
theorem Admission.stream_backward (h : Admission lim rec now db db' seq dn base)
    (hinv : StoreInv db) {s' : Stream} (hs' : s' ∈ db'.callStreams) :
    s' ∈ db.callStreams ∧ (rec.callUuid ≠ "" → s'.call ≠ rec.call) ∨
      ∃ tbl s, rec.callUuid ≠ "" ∧ 0 ≤ seq ∧ seq ≠ int64Max ∧ s.Bounded ∧
        Claim lim rec db.callStreams tbl s seq dn ∧ s' = s.claimed seq := by
  rcases h.streams.inv with ⟨huuid, -, heq⟩ | ⟨tbl, s, huuid, hpos, hmax, hclaim, heq⟩
  · exact Or.inl ⟨heq ▸ hs', fun hne => absurd huuid hne⟩
  · rw [heq] at hs'
    rcases hclaim.mem_claimSeq.mp hs' with rfl | ⟨hs, hcall⟩
    · exact Or.inr ⟨tbl, s, huuid, hpos, hmax, hclaim.bounded hinv.bounded, hclaim, rfl⟩
    · exact Or.inl ⟨hs, fun _ => hcall⟩

/-- An admission places its row at the sequence it claimed. -/
theorem StoreInv.admitted (hinv : StoreInv db) (h : Admission lim rec now db db' seq dn base) :
    StoreInv db' where
  placed := by
    intro q hq hg
    rcases h.mem_outbox.mp hq with hbase | rfl
    · rcases hinv.placed q (h.room.mem_of_mem hbase) hg with ⟨s, hs, k, hk⟩
      rcases h.stream_forward hs with ⟨s', hs', howner, hnext, hadmit⟩
      exact ⟨s', hs', k, hk.transfer rfl howner (hnext ▸ hk.lo) hadmit⟩
    · rcases h.streams.inv with ⟨huuid, -, -⟩ | ⟨tbl, s, huuid, hpos, hmax, hclaim, heq⟩
      · exact absurd huuid (newRow_grouped.mp hg)
      · have hs := hclaim.bounded hinv.bounded
        refine ⟨s.claimed seq, ?_, seq, hclaim.placed huuid hs hpos hmax⟩
        rw [heq]
        exact hclaim.mem_claimSeq.mpr (Or.inl rfl)
  heads := by
    intro q hq hg hstate
    rcases h.mem_outbox.mp hq with hbase | rfl
    · have hmem := h.room.mem_of_mem hbase
      rw [h.isHead hinv hmem hg]
      exact hinv.heads q hmem hg hstate
    · -- a new row is pending
      simp [newRow] at hstate
  bounded := by
    intro s' hs'
    rcases h.stream_backward hinv hs' with ⟨hs, -⟩ | ⟨tbl, s, -, hpos, hmax, hs, hclaim, rfl⟩
    · exact hinv.bounded s' hs
    · exact hclaim.claimed_bounded hs hpos hmax
  fenced := by
    intro s' hs' f hf
    rw [h.fences] at hf
    rcases h.stream_backward hinv hs' with ⟨hs, -⟩ | ⟨tbl, s, huuid, -, -, -, hclaim, rfl⟩
    · exact hinv.fenced s' hs f hf
    · have hcall : (s.claimed seq).call = rec.call := hclaim.call_eq
      rw [hcall]
      exact h.unfenced huuid f hf
  dense := by
    intro s' hs' hmode k hlo hhi
    -- the capacity reclaim spares grouped rows, so no position of a stream is emptied
    have hkeep : ∀ s ∈ db.callStreams, s.mode = .admission → s.nextSeq ≤ k → k < s.admitSeq →
        ∃ r ∈ db'.outbox, r.grouped = true ∧ r.call = s.call ∧ r.callSeq = some k := by
      intro s hs hm hl hh
      rcases hinv.dense s hs hm k hl hh with ⟨r, hr, hg, hrest⟩
      exact ⟨r, h.mem_outbox.mpr (Or.inl (h.room.mem_of_grouped hr hg)), hg, hrest⟩
    rcases h.stream_backward hinv hs' with
      ⟨hs, -⟩ | ⟨tbl, s, huuid, hpos, hmax, hs, hclaim, rfl⟩
    · exact hkeep s' hs hmode hlo hhi
    · -- an admission stream was claimed at its `admit_seq`: one position was added at the end
      have hmode' : modeOf rec = .admission := by
        have := congrArg Ownership.mode hclaim.owner
        exact this.symm.trans hmode
      have hneg : rec.callSeq.toInt < 0 := by
        by_contra hge
        simp [modeOf, hge] at hmode'
      have hseq := hclaim.admission hneg
      have hinc := hclaim.inc64_eq hs hpos hmax
      simp only [Stream.claimed, hinc] at hlo hhi
      by_cases hk : k = seq
      · refine ⟨newRow rec now seq dn, h.mem_outbox.mpr (Or.inr rfl), newRow_grouped.mpr huuid,
          hclaim.call_eq.symm, ?_⟩
        simp [newRow, huuid, hk]
      · rcases hclaim.found with ⟨hmem, -⟩ | ⟨-, rfl, -, -⟩
        · exact hkeep s hmem hmode hlo (by omega)
        · simp only [newStream] at hlo hhi hseq
          omega

end Admission

/-! ## Acknowledgements -/

section Acked

variable {db : Db} {r : Row} {now : Int}

/-- The acknowledged row stands at the cursor of its stream. -/
theorem StoreInv.seq_of_acked (hinv : StoreInv db) (hr : r ∈ db.outbox)
    (hhead : r.grouped = true →
      ∃ s ∈ db.callStreams, s.call = r.call ∧ s.nextSeq = r.callSeq.getD 0)
    {s : Stream} (hs : s ∈ db.callStreams) (hmine : r.grouped = true ∧ s.call = r.call) :
    Placed r s s.nextSeq := by
  rcases hhead hmine.1 with ⟨s', hs', hcall', hnext⟩
  have heq : s' = s := Table.eq_of_key hs' hs (hcall'.trans hmine.2.symm)
  subst heq
  rcases hinv.placed_in hr hmine.1 hs' hcall' with ⟨k, hk⟩
  have hnext' : s'.nextSeq = k := by simpa [hk.seq] using hnext
  exact hnext' ▸ hk

/-- The other rows of the call stand behind it. -/
theorem StoreInv.lt_of_ne_acked (hinv : StoreInv db) (hr : r ∈ db.outbox)
    (hhead : r.grouped = true →
      ∃ s ∈ db.callStreams, s.call = r.call ∧ s.nextSeq = r.callSeq.getD 0)
    {q : Row} (hq : q ∈ db.outbox) (hne : q.eventId ≠ r.eventId) {s : Stream} {k : Int}
    (hs : s ∈ db.callStreams) (hqg : q.grouped = true) (hk : Placed q s k)
    (hmine : r.grouped = true ∧ s.call = r.call) : s.nextSeq < k := by
  have hrs := hinv.seq_of_acked hr hhead hs hmine
  have hkne : k ≠ s.nextSeq := by
    intro hkj
    apply hne
    have hcall : q.call = r.call := hk.call.symm.trans hmine.2
    rw [eq_of_position hq hr hqg hmine.1 hcall (hkj ▸ hk.seq) hrs.seq]
  have hlo := hk.lo
  omega

/-- An ACK takes the row at the cursor away and moves the cursor past it. -/
theorem StoreInv.acked (hinv : StoreInv db) (hr : r ∈ db.outbox) (hstate : r.state = .inFlight)
    (hhead : r.grouped = true →
      ∃ s ∈ db.callStreams, s.call = r.call ∧ s.nextSeq = r.callSeq.getD 0) :
    StoreInv (db.acked r now) where
  placed := by
    intro q hq hg
    rcases Db.mem_acked_outbox.mp hq with ⟨q₀, hq₀, hne, rfl⟩
    rw [Row.afterAck_toEvent] at hg
    rcases hinv.placed q₀ hq₀ hg with ⟨s, hs, k, hk⟩
    refine ⟨s.afterAck r, Db.mem_acked_callStreams.mpr ⟨s, hs, rfl⟩, k, ?_⟩
    refine hk.transfer (by simp) (by simp) ?_ (by simp)
    -- the cursor passed the acknowledged row only, and every other row is behind it
    by_cases hmine : r.grouped = true ∧ s.call = r.call
    · have hlt := hinv.lt_of_ne_acked hr hhead hq₀ hne hs hg hk hmine
      rw [Stream.afterAck_of_call hmine.1 hmine.2]
      omega
    · rw [Stream.afterAck_of_ne hmine]
      exact hk.lo
  heads := by
    intro q hq hg hflight
    rcases Db.mem_acked_outbox.mp hq with ⟨q₀, hq₀, hne, rfl⟩
    rw [Row.afterAck_toEvent] at hg ⊢
    rw [Row.afterAck_state] at hflight
    have hhead₀ := hinv.heads q₀ hq₀ hg hflight
    rcases (Db.isHead_of_grouped hg).mp hhead₀ with ⟨s, hs, hcall, hseq⟩
    -- the in-flight row of another call: its cursor did not move
    have hother : ¬ (r.grouped = true ∧ s.call = r.call) := by
      rintro ⟨hrg, hsr⟩
      apply hne
      have hrh := hinv.heads r hr hrg hstate
      rw [eq_of_isHead hq₀ hr hg hrg (hcall.symm.trans hsr) hhead₀ hrh]
    refine (Db.isHead_of_grouped hg).mpr ⟨s, ?_, hcall, hseq⟩
    exact Db.mem_acked_callStreams.mpr ⟨s, hs, (Stream.afterAck_of_ne hother).symm⟩
  bounded := by
    intro s' hs'
    rcases Db.mem_acked_callStreams.mp hs' with ⟨s, hs, rfl⟩
    have hb := hinv.bounded s hs
    by_cases hmine : r.grouped = true ∧ s.call = r.call
    · -- the row acknowledged stood below `admit_seq`, which leaves room for the cursor
      have hhi := (hinv.seq_of_acked hr hhead hs hmine).hi
      have h0 := hb.nonneg
      constructor
      · rw [Stream.afterAck_of_call hmine.1 hmine.2]
        omega
      · rw [Stream.afterAck_of_call hmine.1 hmine.2, Stream.afterAck_admitSeq]
        omega
      · rw [Stream.afterAck_admitSeq]
        exact hb.max
    · rw [Stream.afterAck_of_ne hmine]
      exact hb
  fenced := by
    intro s' hs' f hf
    rcases Db.mem_acked_callStreams.mp hs' with ⟨s, hs, rfl⟩
    rw [Db.acked_retiredCalls] at hf
    rw [Stream.afterAck_toOwnership]
    exact hinv.fenced s hs f hf
  dense := by
    intro s' hs' hmode k hlo hhi
    rcases Db.mem_acked_callStreams.mp hs' with ⟨s, hs, rfl⟩
    rw [Stream.afterAck_toOwnership] at hmode ⊢
    rw [Stream.afterAck_admitSeq] at hhi
    have hlo' : s.nextSeq ≤ k ∧ (r.grouped = true → s.call = r.call → s.nextSeq < k) := by
      by_cases hmine : r.grouped = true ∧ s.call = r.call
      · rw [Stream.afterAck_of_call hmine.1 hmine.2] at hlo
        exact ⟨by omega, fun _ _ => by omega⟩
      · rw [Stream.afterAck_of_ne hmine] at hlo
        exact ⟨hlo, fun hrg hsr => absurd ⟨hrg, hsr⟩ hmine⟩
    rcases hinv.dense s hs hmode k hlo'.1 hhi with ⟨q, hq, hg, hcall, hseq⟩
    -- the position is behind the old cursor, so its row is not the one deleted
    have hne : q.eventId ≠ r.eventId := by
      intro hid
      have hqr : q = r := Table.eq_of_key hq hr hid
      subst hqr
      have hqs := (hinv.seq_of_acked hr hhead hs ⟨hg, hcall.symm⟩).seq
      rw [hseq, Option.some.injEq] at hqs
      have hlt := hlo'.2 hg hcall.symm
      omega
    refine ⟨r.afterAck now q, Db.mem_acked_outbox.mpr ⟨q, hq, hne, rfl⟩, ?_, ?_, ?_⟩
    · simpa using hg
    · simpa using hcall
    · simpa using hseq

end Acked

/-! ## Retirements -/

/-- A call that is retired has no row left. -/
theorem Retirement.call_ne {args : RetireArgs} {atMs : Int} {db db' : Db} {s₀ : Stream}
    (h : Retirement args atMs db db' s₀) {r : Row} (hr : r ∈ db.outbox) (hg : r.grouped = true) :
    r.call ≠ args.call := by
  intro hcall
  rcases Event.grouped_iff.mp hg with ⟨c, hc, -⟩
  have huuid : c = args.callId := by
    have := congrArg Prod.snd hcall
    simpa [Event.call, Event.uuid, hc, RetireArgs.call] using this
  exact h.empty r hr (congrArg Prod.fst hcall) (huuid ▸ hc)

/-- So retiring it leaves no row without its stream. -/
theorem StoreInv.retired {args : RetireArgs} {atMs : Int} {db db' : Db} {s₀ : Stream}
    (hinv : StoreInv db) (h : Retirement args atMs db db' s₀) : StoreInv db' := by
  have hmem : ∀ {s}, s ∈ db'.callStreams ↔ s ∈ db.callStreams ∧ s.call ≠ args.call := by
    intro s
    rw [h.streams, Table.mem_delete, decide_eq_false_iff_not]
  -- no row of the retired call is left, so every row keeps its stream
  constructor
  case placed =>
    intro r hr hg
    rw [h.outbox] at hr
    rcases hinv.placed r hr hg with ⟨s, hs, k, hk⟩
    exact ⟨s, hmem.mpr ⟨hs, hk.call ▸ h.call_ne hr hg⟩, k, hk⟩
  case heads =>
    intro r hr hg hstate
    rw [h.outbox] at hr
    rcases (Db.isHead_of_grouped hg).mp (hinv.heads r hr hg hstate) with ⟨s, hs, hcall, hseq⟩
    exact (Db.isHead_of_grouped hg).mpr ⟨s, hmem.mpr ⟨hs, hcall ▸ h.call_ne hr hg⟩, hcall, hseq⟩
  case bounded =>
    intro s hs
    exact hinv.bounded s (hmem.mp hs).1
  case fenced =>
    intro s hs f hf
    rcases (Table.mem_insert h.fences).mp hf with hold | rfl
    · exact hinv.fenced s (hmem.mp hs).1 f hold
    · exact Ne.symm (hmem.mp hs).2
  case dense =>
    intro s hs hmode k hlo hhi
    rw [h.outbox]
    exact hinv.dense s (hmem.mp hs).1 hmode k hlo hhi

/-! ## Every step of a life -/

/-- Every call of the interface keeps the invariant. -/
theorem StoreInv.step {b : Outbox} (hinv : StoreInv b.db) (op : Op) : StoreInv (b.step op).db := by
  cases b.outcome op with
  | quiet _ _ h => exact hinv.quiet h
  | admitted _ _ _ h => exact hinv.admitted h
  | acked _ _ _ hr _ hstate hhead h =>
    rw [h]
    exact hinv.acked hr hstate hhead

/-- Every step of a life keeps it, the retirement tool included. -/
theorem StoreInv.live {b : Outbox} (hinv : StoreInv b.db) (act : LifeOp) :
    StoreInv (b.live act).db := by
  cases b.lifeOutcome act with
  | call _ => exact hinv.step _
  | refused h =>
    rw [h]
    exact hinv
  | retired h => exact hinv.retired h

/-- Every state of every life has it. -/
theorem storeInv_life (acts : List LifeOp) :
    StoreInv (Machine.run Outbox.live Outbox.init acts).db :=
  Machine.run_invariant (I := fun b : Outbox => StoreInv b.db) StoreInv.empty
    (fun _ act hinv => hinv.live act) acts

theorem storeInv_run (ops : List Op) : StoreInv (Machine.run Outbox.step Outbox.init ops).db :=
  Machine.run_invariant (I := fun b : Outbox => StoreInv b.db) StoreInv.empty
    (fun _ op hinv => hinv.step op) ops

/-! ## Owners -/

/-- The call of `o` is taken: by a stream `o` owns, or by a fence. -/
def Db.Taken (db : Db) (o : Ownership) : Prop :=
  (∃ s ∈ db.callStreams, s.toOwnership = o) ∨ ∃ f ∈ db.retiredCalls, f.call = o.call

/-- The only stream a taken call can have is its owner's. -/
theorem StoreInv.owner_eq {db : Db} {o : Ownership} (hinv : StoreInv db) (h : db.Taken o)
    {s : Stream} (hs : s ∈ db.callStreams) (hcall : s.call = o.call) : s.toOwnership = o := by
  rcases h with ⟨s', hs', rfl⟩ | ⟨f, hf, hfence⟩
  · rw [Table.eq_of_key hs hs' hcall]
  · exact absurd (hfence.trans hcall.symm) (hinv.fenced s hs f hf)

/-- A call that has or had a stream is remembered. -/
theorem Db.Taken.live {b : Outbox} {o : Ownership} (h : b.db.Taken o) (act : LifeOp) :
    (b.live act).db.Taken o := by
  cases b.lifeOutcome act with
  | refused heq =>
    rw [heq]
    exact h
  | @retired args atMs fault s₀ hret =>
    rcases h with ⟨s, hs, rfl⟩ | ⟨f, hf, hfence⟩
    · by_cases hcall : s.call = args.call
      · -- the stream is gone, and the fence takes the call in its place
        exact Or.inr ⟨_, (Table.mem_insert hret.fences).mpr (Or.inr rfl), hcall.symm⟩
      · refine Or.inl ⟨s, ?_, rfl⟩
        rw [hret.streams, Table.mem_delete, decide_eq_false_iff_not]
        exact ⟨hs, hcall⟩
    · exact Or.inr ⟨f, (Table.mem_insert hret.fences).mpr (Or.inl hf), hfence⟩
  | @call op hout =>
    cases hout with
    | quiet _ _ hquiet =>
      rcases h with ⟨s, hs, rfl⟩ | ⟨f, hf, hfence⟩
      · rcases hquiet.streams.forward hs with ⟨s', hs', hst⟩
        exact Or.inl ⟨s', hs', hst.owner⟩
      · exact Or.inr ⟨f, hquiet.retired ▸ hf, hfence⟩
    | admitted _ _ _ hadm =>
      rcases h with ⟨s, hs, rfl⟩ | ⟨f, hf, hfence⟩
      · rcases hadm.stream_forward hs with ⟨s', hs', howner, -, -⟩
        exact Or.inl ⟨s', hs', howner⟩
      · exact Or.inr ⟨f, hadm.fences ▸ hf, hfence⟩
    | @acked id now fault r _ _ _ _ _ _ _ heq =>
      have hdb : (b.live (.call op)).db = b.db.acked r now := heq
      rw [hdb]
      rcases h with ⟨s, hs, rfl⟩ | ⟨f, hf, hfence⟩
      · exact Or.inl ⟨_, Db.mem_acked_callStreams.mpr ⟨s, hs, rfl⟩, by simp⟩
      · exact Or.inr ⟨f, by simpa using hf, hfence⟩

/-! ## The invariant, in full -/

/-- The store invariant with its consequences: what a reader of the tables may
rely on. -/
structure StoreSpec (db : Db) : Prop where
  placed : ∀ r ∈ db.outbox, r.grouped = true → ∃ s ∈ db.callStreams, ∃ k,
    s.call = r.call ∧ r.msgKey = some s.msgKey ∧ r.callSeq = some k ∧
      s.nextSeq ≤ k ∧ k < s.admitSeq
  positions : ∀ r ∈ db.outbox, ∀ q ∈ db.outbox, r.grouped = true → q.grouped = true →
    r.call = q.call → r.callSeq = q.callSeq → r = q
  heads : ∀ r ∈ db.outbox, r.grouped = true → r.state = .inFlight →
    ∃ s ∈ db.callStreams, s.call = r.call ∧ r.callSeq = some s.nextSeq
  oneInFlight : ∀ r ∈ db.outbox, ∀ q ∈ db.outbox, r.grouped = true → q.grouped = true →
    r.call = q.call → r.state = .inFlight → q.state = .inFlight → r = q
  cursors : ∀ s ∈ db.callStreams,
    0 ≤ s.nextSeq ∧ s.nextSeq ≤ s.admitSeq ∧ s.admitSeq ≤ 2 ^ 63 - 1
  fenced : ∀ s ∈ db.callStreams, ∀ f ∈ db.retiredCalls, f.call ≠ s.call
  dense : ∀ s ∈ db.callStreams, s.mode = .admission → ∀ k : Int,
    (s.nextSeq ≤ k ∧ k < s.admitSeq) ↔
      ∃ r ∈ db.outbox, r.grouped = true ∧ r.call = s.call ∧ r.callSeq = some k
  /-- The `seq + 1` of `insert_pending`: whatever sequence it resolves and lets
  through its range test. -/
  admitNext : ∀ lim rec fault db₁ seq dn db₂, db₁.callStreams = db.callStreams →
    (position lim rec fault).run db₁ = .ok (seq, dn) db₂ → 0 ≤ seq → seq ≠ int64Max →
      inc64 seq = seq + 1
  /-- The `seq + 1` and `next_seq + 1` of `mark_acked`. -/
  ackNext : ∀ r ∈ db.outbox, r.grouped = true → inc64 (r.callSeq.getD 0) = r.callSeq.getD 0 + 1 ∧
    ∀ s ∈ db.callStreams, s.call = r.call → s.nextSeq + 1 ≤ 2 ^ 63 - 1

/-- What the invariant says of the tables, call by call. -/
theorem StoreInv.spec {db : Db} (hinv : StoreInv db) : StoreSpec db where
  placed := by
    intro r hr hg
    rcases hinv.placed r hr hg with ⟨s, hs, k, hk⟩
    exact ⟨s, hs, k, hk.call, hk.key, hk.seq, hk.lo, hk.hi⟩
  positions := by
    intro r hr q hq hrg hqg hcall hseq
    rcases hinv.placed r hr hrg with ⟨s, hs, k, hk⟩
    exact eq_of_position hr hq hrg hqg hcall hk.seq (hseq ▸ hk.seq)
  heads := fun r hr hg hstate => (Db.isHead_of_grouped hg).mp (hinv.heads r hr hg hstate)
  oneInFlight := by
    intro r hr q hq hrg hqg hcall hrf hqf
    exact eq_of_isHead hr hq hrg hqg hcall (hinv.heads r hr hrg hrf) (hinv.heads q hq hqg hqf)
  cursors := by
    intro s hs
    rcases hinv.bounded s hs with ⟨h0, hle, hmax⟩
    exact ⟨h0, hle, hmax⟩
  fenced := hinv.fenced
  dense := by
    -- the converse of the invariant's own field: a row there is placed between the cursors
    intro s hs hmode k
    constructor
    · rintro ⟨hlo, hhi⟩
      exact hinv.dense s hs hmode k hlo hhi
    · rintro ⟨r, hr, hg, hcall, hseq⟩
      rcases hinv.placed_in hr hg hs hcall.symm with ⟨j, hj⟩
      have hjk : j = k := by simpa [hj.seq] using hseq
      subst hjk
      exact ⟨hj.lo, hj.hi⟩
  admitNext := by
    intro lim rec fault db₁ seq dn db₂ hstreams hrun hpos hmax
    rcases position_ok hrun with ⟨s, tbl, hclaim, -⟩
    rw [hstreams] at hclaim
    exact hclaim.inc64_eq (hclaim.bounded hinv.bounded) hpos hmax
  ackNext := by
    intro r hr hg
    rcases hinv.placed r hr hg with ⟨s, hs, k, hk⟩
    have hb := hinv.bounded s hs
    have h0 := hb.nonneg
    have hmax := hb.max
    have hlo := hk.lo
    have hhi := hk.hi
    constructor
    · simp only [hk.seq, Option.getD_some]
      exact inc64_eq (by omega) (by omega)
    · intro s' hs' hcall
      have heq : s' = s := Table.eq_of_key hs' hs (hcall.trans hk.call.symm)
      subst heq
      unfold int64Max at hmax
      omega

/-- In every state of every life the store invariant holds, and no later state of
the life has a stream of the same call under another key or mode. -/
theorem store_invariant (acts : List LifeOp) :
    let db := (Machine.run Outbox.live Outbox.init acts).db
    StoreSpec db ∧
      ∀ later : List LifeOp, ∀ s ∈ db.callStreams,
        ∀ s' ∈ (Machine.run Outbox.live Outbox.init (acts ++ later)).db.callStreams,
          s'.call = s.call → s'.msgKey = s.msgKey ∧ s'.mode = s.mode := by
  intro db
  refine ⟨(storeInv_life acts).spec, ?_⟩
  intro later s hs s' hs' hcall
  have htaken : (Machine.run Outbox.live Outbox.init (acts ++ later)).db.Taken s.toOwnership := by
    rw [Machine.run_append]
    exact Machine.run_invariant (I := fun b : Outbox => b.db.Taken s.toOwnership)
      (Or.inl ⟨s, hs, rfl⟩) (fun _ act h => h.live act) later
  have howner := (storeInv_life (acts ++ later)).owner_eq htaken hs' hcall
  exact ⟨congrArg Ownership.msgKey howner, congrArg Ownership.mode howner⟩

end EventKafka
