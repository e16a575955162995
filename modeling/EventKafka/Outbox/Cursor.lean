import EventKafka.Outbox.Invariant

/-! # The cursor of a call

`next_seq` of a call as a number, zero while the call has no stream. It stands still
in every call but the acknowledgement of a row of this very call, which moves it by
one. A call keeps its stream, with its key, from its first admission on.
-/

namespace EventKafka

open Sql

/-- The cursor of call `c`. -/
def Db.cursor (db : Db) (c : Call) : ℕ :=
  ((db.callStreams.find? c).map fun q => q.nextSeq.toNat).getD 0

section Cursor

variable {db db' : Db} {c : Call}

/-- The cursor of a call that has a stream. -/
theorem Db.cursor_of_mem {q : Stream} (hq : q ∈ db.callStreams) (hcall : q.call = c) :
    db.cursor c = q.nextSeq.toNat := by
  rw [Db.cursor, Table.find?_eq_some.mpr ⟨hq, hcall⟩]
  rfl

/-- The cursor of a call that has none. -/
theorem Db.cursor_of_none (h : ∀ q ∈ db.callStreams, q.call ≠ c) : db.cursor c = 0 := by
  rw [Db.cursor, Table.find?_eq_none.mpr h]
  rfl

/-- Streams that step from one table to the other keep the cursor. -/
theorem Quiet.cursor (h : Quiet db db') (c : Call) : db'.cursor c = db.cursor c := by
  by_cases hsome : ∃ q ∈ db.callStreams, q.call = c
  · rcases hsome with ⟨q, hq, hcall⟩
    rcases h.streams.forward hq with ⟨q', hq', hst⟩
    rw [Db.cursor_of_mem hq hcall, Db.cursor_of_mem hq' (by rw [hst.owner]; exact hcall), hst.next]
  · push Not at hsome
    rw [Db.cursor_of_none hsome, Db.cursor_of_none]
    intro q' hq'
    rcases h.streams.backward hq' with ⟨q, hq, hst⟩
    rw [hst.owner]
    exact hsome q hq

/-- A new stream starts at zero, and a claim does not move the cursor. -/
theorem Admission.cursor {lim : Limits} {rec : OutboxRecord} {now seq : Int} {dn : Bool}
    {base : OutboxTable} (h : Admission lim rec now db db' seq dn base) (hinv : StoreInv db)
    (c : Call) : db'.cursor c = db.cursor c := by
  by_cases hsome : ∃ q ∈ db.callStreams, q.call = c
  · rcases hsome with ⟨q, hq, hcall⟩
    rcases h.stream_forward hq with ⟨q', hq', howner, hnext, -⟩
    rw [Db.cursor_of_mem hq hcall, Db.cursor_of_mem hq' (by rw [howner]; exact hcall), hnext]
  · push Not at hsome
    rw [Db.cursor_of_none hsome]
    by_cases hnew : ∃ q' ∈ db'.callStreams, q'.call = c
    · rcases hnew with ⟨q', hq', hcall'⟩
      rw [Db.cursor_of_mem hq' hcall']
      rcases h.stream_backward hinv hq' with ⟨hold, -⟩ | ⟨tbl, q, -, -, -, -, hclaim, rfl⟩
      · exact absurd hcall' (hsome q' hold)
      · rcases hclaim.found with ⟨hq, -⟩ | ⟨-, rfl, -, -⟩
        · exact absurd hcall' (hsome q hq)
        · rfl
    · push Not at hnew
      exact Db.cursor_of_none hnew

variable {r : Row} {now : Int}

/-- The ACK of a row was one at the cursor, which it moves by one. -/
theorem acked_cursor_of_call (hinv : StoreInv db) (hr : r ∈ db.outbox)
    (hhead : r.grouped = true →
      ∃ q ∈ db.callStreams, q.call = r.call ∧ q.nextSeq = r.callSeq.getD 0)
    (hg : r.grouped = true) :
    (∃ k : ℕ, r.callSeq = some (k : Int) ∧ db.cursor r.call = k) ∧
      (db.acked r now).cursor r.call = db.cursor r.call + 1 := by
  rcases hhead hg with ⟨q, hq, hcall, -⟩
  have hplaced := hinv.seq_of_acked hr hhead hq ⟨hg, hcall⟩
  have h0 := (hinv.bounded q hq).nonneg
  rw [Db.cursor_of_mem hq hcall]
  constructor
  · refine ⟨q.nextSeq.toNat, ?_, rfl⟩
    rw [hplaced.seq, Int.toNat_of_nonneg h0]
  · have hmem : q.afterAck r ∈ (db.acked r now).callStreams :=
      Db.mem_acked_callStreams.mpr ⟨q, hq, rfl⟩
    rw [Db.cursor_of_mem hmem (by rw [Stream.afterAck_toOwnership]; exact hcall),
      Stream.afterAck_of_call hg hcall]
    omega

/-- The cursors of other calls stay. -/
theorem acked_cursor_of_ne (hne : ¬ (r.grouped = true ∧ r.call = c)) :
    (db.acked r now).cursor c = db.cursor c := by
  have hsame : ∀ q : Stream, q.call = c → q.afterAck r = q := fun q hq =>
    Stream.afterAck_of_ne fun hmine => hne ⟨hmine.1, hmine.2.symm.trans hq⟩
  by_cases hsome : ∃ q ∈ db.callStreams, q.call = c
  · rcases hsome with ⟨q, hq, hcall⟩
    have hmem : q ∈ (db.acked r now).callStreams :=
      Db.mem_acked_callStreams.mpr ⟨q, hq, (hsame q hcall).symm⟩
    rw [Db.cursor_of_mem hq hcall, Db.cursor_of_mem hmem hcall]
  · push Not at hsome
    rw [Db.cursor_of_none hsome, Db.cursor_of_none]
    intro q' hq'
    rcases Db.mem_acked_callStreams.mp hq' with ⟨q, hq, rfl⟩
    rw [Stream.afterAck_toOwnership]
    exact hsome q hq

end Cursor

/-! ## The stream of an admitted event -/

/-- A grouped event has a stream with its key, which is not empty, and a position in it. -/
def Anchored (db : Db) (e : Event) : Prop :=
  e.grouped = true → ∃ q ∈ db.callStreams, q.call = e.call ∧ e.msgKey = some q.msgKey ∧
    q.msgKey ≠ "" ∧ ∃ k : ℕ, e.callSeq = some (k : Int) ∧ (k : Int) < int64Max

/-- Streams stay, with their owners. -/
def KeepsStreams (db db' : Db) : Prop :=
  ∀ q ∈ db.callStreams, ∃ q' ∈ db'.callStreams, q'.toOwnership = q.toOwnership

section Anchored

variable {db db' : Db}

theorem Quiet.keepsStreams (h : Quiet db db') : KeepsStreams db db' := by
  intro q hq
  rcases h.streams.forward hq with ⟨q', hq', hst⟩
  exact ⟨q', hq', hst.owner⟩

theorem acked_keepsStreams (db : Db) (r : Row) (now : Int) : KeepsStreams db (db.acked r now) :=
  fun q hq => ⟨q.afterAck r, Db.mem_acked_callStreams.mpr ⟨q, hq, rfl⟩, by simp⟩

/-- A row stays anchored as long as no stream is lost and no key or mode changes. -/
theorem Anchored.keep {e : Event} (h : Anchored db e) (hkeep : KeepsStreams db db') :
    Anchored db' e := by
  intro hg
  rcases h hg with ⟨q, hq, hcall, hkey, hne, hseq⟩
  rcases hkeep q hq with ⟨q', hq', howner⟩
  exact ⟨q', hq', by rw [howner]; exact hcall, by rw [howner]; exact hkey,
    by rw [howner]; exact hne, hseq⟩

/-- An admission adds a stream or moves `admit_seq`. -/
theorem Admission.keepsStreams {lim : Limits} {rec : OutboxRecord} {now seq : Int} {dn : Bool}
    {base : OutboxTable} (h : Admission lim rec now db db' seq dn base) : KeepsStreams db db' := by
  intro q hq
  rcases h.stream_forward hq with ⟨q', hq', howner, -, -⟩
  exact ⟨q', hq', howner⟩

/-- The event an admission stores is anchored. -/
theorem Admission.anchored {lim : Limits} {rec : OutboxRecord} {now seq : Int} {dn : Bool}
    {base : OutboxTable} (h : Admission lim rec now db db' seq dn base) (hinv : StoreInv db) :
    Anchored db' (newRow rec now seq dn).toEvent := by
  intro hg
  have huuid : rec.callUuid ≠ "" := newRow_grouped.mp hg
  rcases h.streams.inv with ⟨hempty, -⟩ | ⟨tbl, q, -, hpos, hmax, hclaim, heq⟩
  · exact absurd hempty huuid
  · have hkey : q.msgKey = rec.msgKey := congrArg Ownership.msgKey hclaim.owner
    have hle := hclaim.le_max (hclaim.bounded hinv.bounded)
    refine ⟨q.claimed seq, heq ▸ hclaim.mem_claimSeq.mpr (Or.inl rfl), hclaim.call_eq, ?_, ?_,
      seq.toNat, ?_, ?_⟩
    · exact congrArg some hkey.symm
    · show q.msgKey ≠ ""
      rw [hkey]
      exact h.streams.msgKey_ne huuid
    · simp [newRow, huuid, Int.toNat_of_nonneg hpos]
    · rw [Int.toNat_of_nonneg hpos]
      omega

end Anchored

end EventKafka
