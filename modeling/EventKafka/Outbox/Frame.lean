import EventKafka.Outbox.Invariant

/-! # Frames and enabledness of the outbox calls

Two things a caller of the outbox relies on. A call leaves the rows it is not about
alone: `Keeps`, with one lemma for each call. And a call that finds its row where it
should be succeeds, unless a statement fails for a storage reason: `markInFlight_enabled`
and its siblings.
-/

namespace EventKafka

open Sql

/-! ## Rows that stay -/

/-- The rows that satisfy `P` stay, in their state, and stay deliverable if they were. -/
def Keeps (P : Row → Prop) (db db' : Db) : Prop :=
  ∀ r ∈ db.outbox, P r → ∃ r' ∈ db'.outbox, r'.toEvent = r.toEvent ∧ r'.state = r.state ∧
    (db.deliverable r.toEvent = true → db'.deliverable r.toEvent = true)

section Keeps

variable {b b' : Outbox} {n : Int} {fault : FaultPlan}

theorem Keeps.refl (P : Row → Prop) (db : Db) : Keeps P db db :=
  fun r hr _ => ⟨r, hr, rfl, rfl, id⟩

/-- An `UPDATE` keeps the rows outside its `WHERE`. -/
theorem Keeps.updateOutbox {P : Row → Prop} {db : Db} {p : Row → Bool} {f : Row → Progress}
    (h : ∀ r ∈ db.outbox, P r → p r = false) : Keeps P db (db.updateOutbox p f) := by
  intro r hr hP
  refine ⟨r, Db.mem_updateOutbox.mpr ⟨r, hr, ?_⟩, rfl, rfl, id⟩
  simp [h r hr hP]

/-- Admission keeps what is not dead: it reclaims expired rows only. -/
theorem keeps_of_insertPending {lim : Limits} {rec : OutboxRecord} {now : Int}
    (hinv : StoreInv b.db) (h : b.exec (.insertPending lim rec now fault) = (.ok n, b')) :
    Keeps (fun r => r.state ≠ .dead) b.db b'.db := by
  rcases call_ok h with ⟨_, hrun, -⟩
  rcases insertPending_ok hrun with ⟨seq, dn, base, hadm, -⟩
  intro r hr hlive
  have hbase : r ∈ base := by
    rcases hadm.room with ⟨rfl, -⟩ | ⟨rfl, -, -⟩
    · exact hr
    · exact Table.mem_delete.mpr ⟨hr, by simp [reclaimable, hlive]⟩
  refine ⟨r, hadm.mem_outbox.mpr (Or.inl hbase), rfl, rfl, ?_⟩
  rw [hadm.deliverable hinv hr]
  exact id

/-- Marking a row in flight keeps every other row. -/
theorem keeps_of_markInFlight {id : String} {now : Int}
    (h : b.exec (.markInFlight id now fault) = (.ok n, b')) :
    Keeps (fun r => r.eventId ≠ id) b.db b'.db := by
  rcases call_ok h with ⟨_, hrun, -⟩
  rcases markInFlight_ok hrun with ⟨q, hq, hsend, -, hdb⟩
  rcases sendable_iff.mp hsend with ⟨hid, -, hdel⟩
  intro r hr hne
  refine ⟨r, ?_, rfl, rfl, ?_⟩
  · rw [hdb]
    exact Db.mem_updateOutbox.mpr ⟨r, hr, by simp [hid, hne]⟩
  · rw [hdb, (Quiet.sent hq hdel).deliverable]
    exact fun hd => hd

/-- An `UPDATE` keeps the rows it does not select. -/
theorem keeps_of_updateOne {P : Row → Prop} {p : Row → Bool} {f : Row → Progress} {msg : String}
    {faultText : Option String} {db db' : Db} {u : Unit}
    (hrun : (updateOne faultText p f msg).run db = .ok u db')
    (hP : ∀ r ∈ db.outbox, P r → p r = false) : Keeps P db db' := by
  rw [(updateOne_ok hrun).2]
  exact Keeps.updateOutbox hP

/-- A retry keeps the rows of other ids. -/
theorem keeps_of_markRetry {id why : String} {next now : Int}
    (h : b.exec (.markRetry id next why now fault) = (.ok n, b')) :
    Keeps (fun r => r.eventId ≠ id) b.db b'.db := by
  rcases call_ok h with ⟨_, hrun, -⟩
  exact keeps_of_updateOne hrun fun r _ hne => by simp [hne]

/-- A death keeps the rows of other ids. -/
theorem keeps_of_markDead {id why : String} {now : Int}
    (h : b.exec (.markDead id why now fault) = (.ok n, b')) :
    Keeps (fun r => r.eventId ≠ id) b.db b'.db := by
  rcases call_ok h with ⟨_, hrun, -⟩
  exact keeps_of_updateOne hrun fun r _ hne => by simp [hne]

/-- Expiry keeps what is in flight. -/
theorem keeps_of_expireTtl {now ttl : Int}
    (h : b.exec (.expireTtl now ttl fault) = (.ok n, b')) :
    Keeps (fun r => r.state = .inFlight) b.db b'.db := by
  by_cases httl : ttl ≤ 0
  · simp only [Outbox.exec, httl, if_true, Prod.mk.injEq] at h
    rw [← h.2]
    exact Keeps.refl _ _
  · simp only [Outbox.exec, httl, if_false] at h
    rcases call_ok h with ⟨_, hrun, -⟩
    rw [(expireTtl_ok hrun).2]
    exact Keeps.updateOutbox fun r _ hflight => by simp [expires, hflight]

/-- An acknowledgement keeps what else is in flight. -/
theorem keeps_of_markAcked {id : String} {now : Int} (hinv : StoreInv b.db)
    (h : b.exec (.markAcked id now fault) = (.ok n, b')) :
    Keeps (fun r => r.eventId ≠ id ∧ r.state = .inFlight) b.db b'.db := by
  rcases call_ok h with ⟨_, hrun, -⟩
  rcases markAcked_ok hrun with ⟨q, hq, hid, hstate, hhead, hdb⟩
  intro r hr hP
  have hmem : q.afterAck now r ∈ b'.db.outbox := by
    rw [hdb]
    exact Db.mem_acked_outbox.mpr ⟨r, hr, hid.symm ▸ hP.1, rfl⟩
  refine ⟨_, hmem, by simp, by simp, fun _ => ?_⟩
  -- a row in flight is a head before and after
  have hinv' : StoreInv b'.db := hdb ▸ hinv.acked hq hstate hhead
  cases hg : r.grouped with
  | false => exact Db.deliverable_of_not_grouped hg
  | true =>
    rw [Db.deliverable_of_grouped hg]
    have := hinv'.heads _ hmem (by simpa using hg) (by simpa using hP.2)
    simpa using this

end Keeps

/-! ## Calls that succeed -/

section Enabled

variable {b : Outbox} {r : Row}

theorem call_of_ok {α : Type} {body : Prog α} {value : α → Int} {a : α} {db : Db}
    (hopen : b.isOpen = true) (h : body.run b.db = .ok a db) :
    (b.call body value).1 = .ok (value a) := by
  simp [Outbox.call, hopen, h]

/-- A pending row that is deliverable can be marked in flight. -/
theorem markInFlight_enabled (now : Int) (hopen : b.isOpen = true) (hr : r ∈ b.db.outbox)
    (hstate : r.state = .pending) (hdel : b.db.deliverable r.toEvent = true)
    (hturn : b.db.turn < int64Max) :
    b.reply (.markInFlight r.eventId now noFault) = .ok 0 := by
  have hkey : ∀ q, sendable r.eventId b.db q = true → q.eventId = r.eventId :=
    fun q hq => (sendable_iff.mp hq).1
  have hone : b.db.outbox.changes (sendable r.eventId b.db) = 1 :=
    (Table.changes_eq_one hkey).mpr ⟨r, hr, sendable_iff.mpr ⟨rfl, hstate, hdel⟩⟩
  have hrun : ∃ db', (markInFlight r.eventId now noFault).run b.db = .ok () db' := by
    simp only [markInFlight, run_transaction_ok, run_bind_ok, run_statement_ok, updateOutbox_ok,
      run_require_ok, run_get_ok, run_ite_ok, run_set_ok, run_pure_ok, updateStreams_ok,
      decide_eq_true_eq]
    exact ⟨_, rfl, rfl, _, _, ⟨rfl, rfl, rfl⟩, (), _, ⟨hone, rfl⟩, 1, _,
      ⟨rfl, _, _, ⟨rfl, rfl⟩, Or.inl ⟨hturn, (), _, rfl, rfl, rfl⟩⟩, (), _, ⟨rfl, rfl⟩, _, _,
      ⟨rfl, rfl, rfl⟩, trivial, rfl⟩
  rcases hrun with ⟨db', hrun⟩
  exact call_of_ok hopen hrun

/-- A row in flight can be acknowledged: it is the head of its call. -/
theorem markAcked_enabled (now : Int) (hinv : StoreInv b.db) (hopen : b.isOpen = true)
    (hr : r ∈ b.db.outbox) (hstate : r.state = .inFlight) :
    b.reply (.markAcked r.eventId now noFault) = .ok 0 := by
  have hfind : (b.db.outbox.find? r.eventId).filter (fun q => q.state = .inFlight) = some r := by
    rw [Table.find?_eq_some.mpr ⟨hr, rfl⟩]
    simp [hstate]
  have hrun : ∃ db', (markAcked r.eventId now noFault).run b.db = .ok () db' := by
    simp only [markAcked, run_transaction_ok, run_bind_ok, run_query_ok]
    by_cases huuid : r.uuid = ""
    · apply Exists.intro
      refine ⟨rfl, rfl, some r, b.db, ⟨rfl, hfind, rfl⟩, ?_⟩
      simp only [huuid, ne_eq, not_true_eq_false, if_false, run_statement_ok, run_modify_ok]
      exact ⟨rfl, rfl⟩
    · have hg : r.grouped = true := by simp [Event.grouped, huuid]
      rcases (Db.isHead_of_grouped hg).mp (hinv.heads r hr hg hstate) with ⟨s, hs, hcall, hseq⟩
      have hone : b.db.callStreams.changes
          (fun s => s.call = (r.topic, r.uuid) && s.nextSeq = r.callSeq.getD 0) = 1 := by
        refine (Table.changes_eq_one (k := r.call) ?_).mpr ⟨s, hs, ?_⟩
        · intro q hq
          rw [Bool.and_eq_true, decide_eq_true_eq] at hq
          exact hq.1
        · rw [Bool.and_eq_true, decide_eq_true_eq, decide_eq_true_eq]
          exact ⟨hcall, by simp [hseq]⟩
      apply Exists.intro
      refine ⟨rfl, rfl, some r, b.db, ⟨rfl, hfind, rfl⟩, ?_⟩
      simp only [huuid, ne_eq, not_false_eq_true, if_true, run_bind_ok, run_statement_ok,
        updateStreams_ok, run_require_ok, updateOutbox_ok, run_modify_ok, decide_eq_true_eq]
      exact ⟨_, _, ⟨rfl, rfl, rfl⟩, (), _, ⟨hone, rfl⟩, _, _, ⟨rfl, rfl, rfl⟩, rfl, rfl⟩
  rcases hrun with ⟨db', hrun⟩
  exact call_of_ok hopen hrun

/-- A keyed `UPDATE` that finds its row succeeds. -/
theorem updateOne_enabled {p : Row → Bool} {f : Row → Progress} {msg : String} {db : Db}
    (hr : r ∈ db.outbox) (hp : p r = true) (hkey : ∀ q, p q = true → q.eventId = r.eventId) :
    (updateOne none p f msg).run db = .ok () (db.updateOutbox p f) := by
  have hone : db.outbox.changes p = 1 := (Table.changes_eq_one hkey).mpr ⟨r, hr, hp⟩
  simp only [updateOne, run_bind_ok, run_statement_ok, updateOutbox_ok, run_require_ok,
    decide_eq_true_eq]
  exact ⟨_, _, ⟨trivial, rfl, rfl⟩, hone, rfl⟩

/-- A row in flight can be put back. -/
theorem markRetry_enabled (next now : Int) (why : String) (hopen : b.isOpen = true)
    (hr : r ∈ b.db.outbox) (hstate : r.state = .inFlight) :
    b.reply (.markRetry r.eventId next why now noFault) = .ok 0 := by
  refine call_of_ok hopen (updateOne_enabled hr ?_ ?_)
  · simp [hstate]
  · intro q hq
    rw [Bool.and_eq_true, decide_eq_true_eq] at hq
    exact hq.1

/-- A row in flight can be killed. -/
theorem markDead_enabled (now : Int) (why : String) (hopen : b.isOpen = true)
    (hr : r ∈ b.db.outbox) (hstate : r.state = .inFlight) :
    b.reply (.markDead r.eventId why now noFault) = .ok 0 := by
  refine call_of_ok hopen (updateOne_enabled hr ?_ ?_)
  · simp [hstate]
  · intro q hq
    rw [Bool.and_eq_true, decide_eq_true_eq] at hq
    exact hq.1

/-- Requeueing and expiring cannot fail but for the storage. -/
theorem requeueInFlight_enabled (now₁ now₂ : Int) (hopen : b.isOpen = true) :
    b.reply (.requeueInFlight now₁ now₂ noFault) = .ok 0 := by
  have hrun : ∃ db', (requeueInFlight now₁ now₂ noFault).run b.db = .ok () db' := ⟨_, rfl⟩
  rcases hrun with ⟨db', hrun⟩
  exact call_of_ok hopen hrun

theorem expireTtl_enabled (now ttl : Int) (hopen : b.isOpen = true) :
    ∃ n, b.reply (.expireTtl now ttl noFault) = .ok n := by
  by_cases httl : ttl ≤ 0
  · exact ⟨0, by simp [Outbox.reply, Outbox.exec, httl]⟩
  · have hrun : ∃ n db', (expireTtl now ttl noFault).run b.db = .ok n db' := ⟨_, _, rfl⟩
    rcases hrun with ⟨n, db', hrun⟩
    refine ⟨n, ?_⟩
    simp only [Outbox.reply, Outbox.exec, httl, if_false]
    exact call_of_ok hopen hrun

end Enabled

end EventKafka
