import EventKafka.Outbox.Retire

/-! # Capacity

`insert_pending` looks at the table before it looks at the record: when the row
count or the payload bytes leave no room it deletes the ungrouped rows that died of
their age, looks again, and refuses. The limits bound every state of a run that
uses one pair of them, and the reclaim takes those rows and no others, all or none.
-/

namespace EventKafka

open Sql

/-! ## The limits -/

/-- The bytes are a matter of the events. -/
theorem payloadBytes_eq (t : OutboxTable) :
    payloadBytes t = (t.rows.map Row.toEvent).foldl (fun n e => n + e.payload.length) 0 := by
  rw [payloadBytes, List.foldl_map]

/-- Fewer events have fewer bytes. -/
theorem foldl_payload_le {l l' : List Event} (h : l'.Sublist l) :
    ∀ {n m : Nat}, n ≤ m →
      l'.foldl (fun n e => n + e.payload.length) n ≤ l.foldl (fun n e => n + e.payload.length) m := by
  induction h with
  | slnil => exact id
  | cons e _ ih =>
    intro n m hle
    exact ih (Nat.le_add_right_of_le hle)
  | cons_cons e _ ih =>
    intro n m hle
    exact ih (Nat.add_le_add_right hle _)

/-- The events of `t'` are events of `t`, in the same order. -/
def Shrinks (t t' : OutboxTable) : Prop :=
  (t'.rows.map Row.toEvent).Sublist (t.rows.map Row.toEvent)

section Shrinks

variable {t t' : OutboxTable}

/-- A table that shrinks has no more rows. -/
theorem Shrinks.length_le (h : Shrinks t t') : t'.rows.length ≤ t.rows.length := by
  simpa using List.Sublist.length_le h

/-- A table that shrinks has no more bytes. -/
theorem Shrinks.bytes_le (h : Shrinks t t') : payloadBytes t' ≤ payloadBytes t := by
  rw [payloadBytes_eq, payloadBytes_eq]
  exact foldl_payload_le h le_rfl

/-- A `DELETE` shrinks the table. -/
theorem shrinks_delete (p : Row → Bool) : Shrinks t (t.delete p) :=
  List.filter_sublist.map Row.toEvent

theorem Shrinks.trans {t'' : OutboxTable} (h : Shrinks t t') (h' : Shrinks t' t'') :
    Shrinks t t'' :=
  List.Sublist.trans h' h

/-- Rewriting the progress of rows keeps the events. -/
theorem shrinks_of_forall₂ {R : Row → Row → Prop} (h : List.Forall₂ R t.rows t'.rows)
    (hevent : ∀ r r', R r r' → r'.toEvent = r.toEvent) : Shrinks t t' := by
  unfold Shrinks
  revert h
  generalize t.rows = as
  generalize t'.rows = bs
  intro h
  induction h with
  | nil => exact .refl _
  | cons hab _ ih =>
    rw [List.map_cons, List.map_cons, hevent _ _ hab]
    exact ih.cons_cons _

end Shrinks

/-- An ACK deletes a row, and its stamp changes no event. -/
theorem acked_shrinks (db : Db) (r : Row) (now : Int) : Shrinks db.outbox (db.acked r now).outbox := by
  have hmoved : ∀ moved : OutboxTable, Shrinks db.outbox moved →
      Shrinks db.outbox (moved.delete fun q => q.eventId = r.eventId) :=
    fun moved h => h.trans (shrinks_delete _)
  unfold Db.acked
  apply hmoved
  split
  · refine shrinks_of_forall₂ (R := fun q q' => q'.toEvent = q.toEvent) ?_ fun _ _ h => h
    exact Table.Stepwise.update rfl (fun _ _ _ => rfl) fun _ _ => rfl
  · exact .refl _

/-- The limits, where a negative one admits nothing. -/
structure Capped (lim : Limits) (db : Db) : Prop where
  rows : (db.outbox.rows.length : Int) ≤ max 0 lim.maxRows
  bytes : (payloadBytes db.outbox : Int) ≤ max 0 lim.maxBytes
  streams : (db.callStreams.rows.length : Int) ≤ max 0 lim.maxRows

section Capped

variable {lim : Limits} {db db' : Db}

/-- The empty outbox is within any limits. -/
theorem Capped.empty (lim : Limits) : Capped lim .empty :=
  ⟨le_max_left .., le_max_left .., le_max_left ..⟩

/-- A smaller table stays within them. -/
theorem Capped.shrink (h : Capped lim db) (hrows : Shrinks db.outbox db'.outbox)
    (hstreams : db'.callStreams.rows.length ≤ db.callStreams.rows.length) : Capped lim db' where
  rows := by
    have := h.rows
    have := hrows.length_le
    omega
  bytes := by
    have := h.bytes
    have := hrows.bytes_le
    omega
  streams := by
    have := h.streams
    omega

/-- An admission creates a stream only below `max_rows`. -/
theorem Admits.length_le {rec : OutboxRecord} {streams streams' : StreamTable} {seq : Int}
    {dn : Bool} (h : Admits lim rec streams streams' seq dn)
    (hcap : (streams.rows.length : Int) ≤ max 0 lim.maxRows) :
    (streams'.rows.length : Int) ≤ max 0 lim.maxRows := by
  rcases h.inv with ⟨-, -, rfl⟩ | ⟨base, s, -, -, -, hclaim, rfl⟩
  · exact hcap
  · have hlen : (claimSeq base rec seq).rows.length = base.rows.length := by
      simp [claimSeq, Table.update]
    rw [hlen]
    rcases hclaim.found with ⟨-, rfl⟩ | ⟨-, -, hroom, hinsert⟩
    · exact hcap
    · -- a new stream was counted before it was created
      rw [(Table.insert_eq_some.mp hinsert).2, List.length_append, List.length_singleton]
      push_cast
      omega

/-- The admitted row is added to a table that had room for it. -/
theorem Capped.admitted {rec : OutboxRecord} {now seq : Int} {dn : Bool} {base : OutboxTable}
    (h : Capped lim db) (hadm : Admission lim rec now db db' seq dn base) : Capped lim db' := by
  have hroom : full lim rec base = false := by
    rcases hadm.room with ⟨rfl, hfull⟩ | ⟨-, -, hfull⟩
    · exact hfull
    · exact hfull
  simp only [full, Bool.or_eq_false_iff, decide_eq_false_iff_not, not_le, not_lt] at hroom
  have hrows : db'.outbox.rows = base.rows ++ [newRow rec now seq dn] :=
    (Table.insert_eq_some.mp hadm.row).2
  constructor
  · rw [hrows, List.length_append, List.length_singleton]
    push_cast
    omega
  · have hbytes : payloadBytes db'.outbox = payloadBytes base + rec.payload.length := by
      simp [payloadBytes, hrows, List.foldl_append, newRow]
    rw [hbytes]
    exact hroom.2.trans (le_max_right ..)
  · exact hadm.streams.length_le h.streams

/-- The limits an action inserts under. -/
def LifeOp.limits : LifeOp → Option Limits
  | .call (.insertPending lim _ _ _) => some lim
  | _ => none

/-- One step of a life, if an admission in it is under these limits. -/
theorem Capped.live {b : Outbox} {act : LifeOp} (h : Capped lim b.db)
    (hlim : ∀ l, act.limits = some l → l = lim) : Capped lim (b.live act).db := by
  cases b.lifeOutcome act with
  | @call op hout =>
    cases hout with
    | quiet _ _ hquiet =>
      refine h.shrink (shrinks_of_forall₂ hquiet.rows fun _ _ hst => hst.event) ?_
      exact (List.Forall₂.length_eq hquiet.streams).symm.le
    | admitted hop _ _ hadm =>
      have heq := hlim _ (by rw [hop]; rfl)
      subst heq
      exact h.admitted hadm
    | acked _ _ _ _ _ _ _ hdb =>
      change Capped lim (b.step op).db
      rw [hdb]
      refine h.shrink (acked_shrinks ..) ?_
      unfold Db.acked
      split
      · simp [Db.updateStreams, Table.update]
      · exact le_rfl
  | refused heq =>
    rw [heq]
    exact h
  | @retired args atMs fault s hret =>
    refine h.shrink ?_ ?_
    · rw [hret.outbox]
      exact .refl _
    · rw [hret.streams]
      exact List.length_filter_le ..

/-- Every life that admits under these limits only. -/
theorem capped_life (lim : Limits) (acts : List LifeOp)
    (hlim : ∀ act ∈ acts, ∀ l, act.limits = some l → l = lim) :
    Capped lim (Machine.run Outbox.live Outbox.init acts).db := by
  have htrace : ∀ x ∈ Machine.trace Outbox.live Outbox.init acts,
      ∀ l, x.2.limits = some l → l = lim := by
    intro x hx
    rcases Machine.exists_prefix_of_mem_trace hx with ⟨pre, post, hacts, -⟩
    apply hlim
    simp [hacts]
  exact Machine.run_invariant_along (I := fun b : Outbox => Capped lim b.db)
    (P := fun _ act => ∀ l, LifeOp.limits act = some l → l = lim) (Capped.empty lim)
    (fun _ _ hP h => h.live hP) acts htrace

end Capped

/-! ## Refusal and reclaim -/

section Insert

variable {lim : Limits} {rec : OutboxRecord} {now : Int} {b : Outbox}

/-- A smaller table is not fuller. -/
theorem full_of_shrinks {t t' : OutboxTable} (h : Shrinks t t') (hfull : full lim rec t' = true) :
    full lim rec t = true := by
  have hlen := h.length_le
  have hbytes := h.bytes_le
  simp only [full, Bool.or_eq_true, decide_eq_true_eq] at hfull ⊢
  omega

/-- A call without a fence passes the first check. -/
theorem run_checkRetired {db : Db}
    (h : rec.callUuid ≠ "" → ∀ f ∈ db.retiredCalls, f.call ≠ rec.call) :
    (checkRetired rec noFault).run db = .ok () db := by
  unfold checkRetired
  split
  · rename_i huuid
    have hnone : db.retiredCalls.find? (rec.topic, rec.callUuid) = none :=
      Table.find?_eq_none.mpr (h huuid)
    rw [EStateM.run_bind, run_query]
    simp [noFault, hnone, require]
  · rfl

/-- Room is there, or is made by the reclaim, or is not to be had. -/
theorem run_makeRoom (db : Db) :
    (makeRoom lim rec noFault).run db =
      if full lim rec db.outbox then
        if full lim rec (db.outbox.delete reclaimable) then
          .error "outbox capacity exceeded" db.reclaim
        else .ok () db.reclaim
      else .ok () db := by
  unfold makeRoom
  rw [EStateM.run_bind, run_query]
  cases hfull : full lim rec db.outbox with
  | false => simp [noFault, EStateM.run_bind, run_query, hfull, require]
  | true =>
    cases hfull' : full lim rec (db.outbox.delete reclaimable) with
    | false =>
      simp [noFault, EStateM.run_bind, run_query, hfull', require, statement, Db.reclaim]
    | true =>
      simp [noFault, EStateM.run_bind, run_query, hfull', require, statement, Db.reclaim]

/-- After the capacity check, every refusal is another one. -/
theorem position_throws :
    Program.Throws (fun e => e ≠ "outbox capacity exceeded") (position lim rec noFault) := by
  refine .bind .query fun found => ?_
  cases found with
  | some s =>
    refine .bind (.require (by decide)) fun _ => ?_
    refine .ite (.pure _) ?_
    exact .bind (.require (by decide)) fun _ => .pure _
  | none =>
    refine .bind .query fun count => ?_
    refine .bind (.require (by decide)) fun _ => ?_
    refine .bind ?_ fun _ => .pure _
    refine .bind .get fun db => ?_
    split
    · exact .set _
    · exact .throw (by decide)

/-- No refusal of a place is the one for capacity. -/
theorem place_throws :
    Program.Throws (fun e => e ≠ "outbox capacity exceeded") (place lim rec noFault) := by
  refine .ite ?_ ?_
  · refine .bind (.require (by decide)) fun _ => ?_
    refine .bind position_throws fun x => ?_
    refine .bind (.require (by decide)) fun _ => ?_
    refine .bind ?_ fun _ => .pure _
    exact .bind .get fun db => .bind (.set _) fun _ => .pure _
  · exact .bind (.require (by decide)) fun _ => .pure _

/-- What follows the capacity check. -/
def storeRow (lim : Limits) (rec : OutboxRecord) (now : Int) : Prog Int := do
  let (seq, deliverableNow) ← place lim rec noFault
  statement (noFault .insertRow) do
    let db ← get
    match db.outbox.insert (newRow rec now seq deliverableNow) with
    | some t => set { db with outbox := t }
    | none => throw (notUnique db.outbox (newRow rec now seq deliverableNow))
  return if rec.callUuid = "" then -1 else seq

/-- No refusal of the row itself is the one for capacity. -/
theorem storeRow_throws :
    Program.Throws (fun e => e ≠ "outbox capacity exceeded") (storeRow lim rec now) := by
  refine .bind place_throws fun x => ?_
  refine .bind ?_ fun _ => .pure _
  refine .bind .get fun db => ?_
  split
  · exact .set _
  · refine .throw ?_
    rw [notUnique]
    split <;> decide

/-- A call that is not retired is refused for capacity exactly when the reclaim does not help. -/
theorem insertPending_refused_iff {db : Db}
    (hfence : rec.callUuid ≠ "" → ∀ f ∈ db.retiredCalls, f.call ≠ rec.call) :
    (∃ db', (insertPending lim rec now noFault).run db = .error "outbox capacity exceeded" db') ↔
      full lim rec (db.outbox.delete reclaimable) = true := by
  have hdef : insertPending lim rec now noFault = transaction none none
      (checkRetired rec noFault >>= fun _ => makeRoom lim rec noFault >>= fun _ =>
        storeRow lim rec now) := rfl
  rw [hdef, transaction_error_iff, run_bind_of_ok (run_checkRetired hfence)]
  -- a room found, with or without the reclaim, leaves only the other refusals
  have hroom : ∀ db₁, (makeRoom lim rec noFault).run db = .ok () db₁ →
      ¬ ∃ db', (makeRoom lim rec noFault >>= fun _ => storeRow lim rec now).run db =
        .error "outbox capacity exceeded" db' := by
    rintro db₁ hok ⟨db', herr⟩
    rw [run_bind_of_ok hok] at herr
    exact storeRow_throws _ _ _ herr rfl
  have hrun : (makeRoom lim rec noFault).run db = _ := run_makeRoom db
  cases hafter : full lim rec (db.outbox.delete reclaimable) with
  | true =>
    rw [full_of_shrinks (shrinks_delete _) hafter, hafter] at hrun
    simp only [if_true] at hrun
    simp only [run_bind_of_error hrun, iff_true]
    exact ⟨_, rfl⟩
  | false =>
    simp only [Bool.false_eq_true, iff_false]
    cases hbefore : full lim rec db.outbox with
    | true => exact hroom db.reclaim (by simp [hrun, hbefore, hafter])
    | false => exact hroom db (by simp [hrun, hbefore])

/-- On an open outbox the reply is the exception of the body. -/
theorem Outbox.reply_error {α : Type} {body : Prog α} {value : α → Int} {e : String}
    (hopen : b.isOpen = true) :
    (b.call body value).1 = .error e ↔ ∃ db', body.run b.db = .error e db' := by
  unfold Outbox.call
  rw [hopen]
  cases hrun : body.run b.db with
  | ok a db => simp
  | error e' db => simp

end Insert

/-- With one pair of limits the table never outgrows them. A record of a call that
is not retired is refused for capacity exactly when there is no room for it even
without the ungrouped rows that died of their age; and an insert that succeeds
removes nothing if there was room, all of those rows if there was not, and no other
row in either case. -/
theorem capacity_is_hard (lim : Limits) (acts : List LifeOp)
    (hlim : ∀ act ∈ acts, ∀ l, act.limits = some l → l = lim) :
    let b := Machine.run Outbox.live Outbox.init acts
    Capped lim b.db ∧
    (∀ rec now, b.isOpen = true →
      (rec.callUuid ≠ "" → ∀ f ∈ b.db.retiredCalls, f.call ≠ rec.call) →
      (b.reply (.insertPending lim rec now noFault) = .error "outbox capacity exceeded" ↔
        full lim rec (b.db.outbox.delete reclaimable) = true)) ∧
    ∀ rec now fault n, b.reply (.insertPending lim rec now fault) = .ok n →
      let after := (b.step (.insertPending lim rec now fault)).db.outbox
      (∃ r, r.eventId = rec.eventId ∧ after.rows =
        (if full lim rec b.db.outbox then b.db.outbox.rows.filter fun q => !reclaimable q
          else b.db.outbox.rows) ++ [r]) ∧
      ∀ r ∈ b.db.outbox,
        r.state ≠ .dead ∨ r.lastError ≠ some "expired_ttl" ∨ r.grouped = true → r ∈ after := by
  intro b
  refine ⟨capped_life lim acts hlim, ?_, ?_⟩
  · intro rec now hopen hfence
    exact (Outbox.reply_error hopen).trans (insertPending_refused_iff hfence)
  · intro rec now fault n hok after
    have hexec : b.exec (.insertPending lim rec now fault) =
      (.ok n, b.step (.insertPending lim rec now fault)) := Prod.ext hok rfl
    rcases call_ok hexec with ⟨_, hrun, -⟩
    rcases insertPending_ok hrun with ⟨seq, dn, base, hadm, -⟩
    -- the room is made first, then the row is inserted last
    have hrows : after.rows = base.rows ++ [newRow rec now seq dn] :=
      (Table.insert_eq_some.mp hadm.row).2
    constructor
    · refine ⟨newRow rec now seq dn, rfl, ?_⟩
      rw [hrows]
      rcases hadm.room with ⟨hbase, hfull⟩ | ⟨hbase, hfull, -⟩
      · simp [hbase, hfull]
      · simp [hbase, hfull, Table.delete]
    · intro r hr hkeep
      apply hadm.mem_outbox.mpr
      left
      rcases hadm.room with ⟨rfl, -⟩ | ⟨rfl, -, -⟩
      · exact hr
      · refine Table.mem_delete.mpr ⟨hr, ?_⟩
        rcases hkeep with h | h | h <;> simp [reclaimable, h]

/-- One row of room, taken by an ungrouped event that then dies of its age. -/
def expiredBacklog : List LifeOp :=
  [.call (.openDb noFault),
   .call (.insertPending ⟨1, 100⟩ (sampleRecord "a" "") 0 noFault),
   .call (.expireTtl 9000 5000 noFault)]

/-- The second admission finds the one row reclaimable and takes its room. -/
theorem capacity_is_hard_reclaimed :
    let b := Machine.run Outbox.live Outbox.init expiredBacklog
    let op : Op := .insertPending ⟨1, 100⟩ (sampleRecord "b" "c") 0 noFault
    Capped ⟨1, 100⟩ b.db ∧ b.reply op = .ok 0 ∧
      ∃ r, r.eventId = "b" ∧ (b.step op).db.outbox.rows = [r] := by
  intro b op
  have hlim : ∀ act ∈ expiredBacklog, ∀ l, act.limits = some l → l = ⟨1, 100⟩ := by
    simp [expiredBacklog, LifeOp.limits]
  have h := capacity_is_hard ⟨1, 100⟩ expiredBacklog hlim
  have hok : b.reply op = .ok 0 := by decide +kernel
  refine ⟨h.1, hok, ?_⟩
  rcases (h.2.2 (sampleRecord "b" "c") 0 noFault 0 hok).1 with ⟨r, hid, hrows⟩
  refine ⟨r, hid, hrows.trans ?_⟩
  have hempty : (if full ⟨1, 100⟩ (sampleRecord "b" "c") b.db.outbox then
      b.db.outbox.rows.filter fun q => !reclaimable q else b.db.outbox.rows) = [] := by
    decide +kernel
  rw [hempty]
  rfl

end EventKafka
