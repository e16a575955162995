import EventKafka.Outbox.History
import EventKafka.Outbox.Stamp

/-! # Retired calls

`outbox_ops.py retire` reads one snapshot: a cursor with `next_seq = admit_seq` and
no row of the call. That this means the call is finished is a fact about the history
behind the snapshot (`Answered` and `Tracks`), and that it stays finished one about
every later life of the output: no statement of the module deletes or rewrites a
fence, and `insert_pending` looks for one first.
-/

namespace EventKafka

open Sql

/-! ## Every admitted event is stored or acknowledged -/

/-- The event is what admitting `rec` at position `k` stored. -/
structure Event.Stores (e : Event) (rec : OutboxRecord) (k : Int) : Prop where
  eventId : e.eventId = rec.eventId
  call : e.call = rec.call
  seq : e.callSeq = some k

/-- Whatever was admitted for the call has its row, or its ACK. -/
def Answered (c : Call) (tr : History) (db : Db) : Prop :=
  ∀ x ∈ tr, ∀ rec k, admittedBy x = some (rec, k) → rec.call = c →
    (∃ r ∈ db.outbox, r.toEvent.Stores rec k) ∨
      ∃ y ∈ tr, ∃ r, ackedBy y = some r ∧ r.toEvent.Stores rec k

section Answered

variable {c : Call} {tr : History} {db db' : Db} {x : Outbox × LifeOp}

/-- A step that admits nothing for the call keeps every row of it, or acknowledges it. -/
theorem Answered.snoc (h : Answered c tr db)
    (hrow : ∀ r ∈ db.outbox, r.call = c →
      (∃ r' ∈ db'.outbox, r'.toEvent = r.toEvent) ∨ ackedBy x = some r)
    (hadm : ∀ rec k, admittedBy x = some (rec, k) → rec.call = c →
      ∃ r ∈ db'.outbox, r.toEvent.Stores rec k) :
    Answered c (tr ++ [x]) db' := by
  intro y hy rec k hsome hcall
  rcases List.mem_append.mp hy with hold | hnew
  · rcases h y hold rec k hsome hcall with ⟨r, hr, hst⟩ | ⟨z, hz, r, hack, hst⟩
    · rcases hrow r hr (hst.call.trans hcall) with ⟨r', hr', hevent⟩ | hack
      · exact Or.inl ⟨r', hr', hevent ▸ hst⟩
      · exact Or.inr ⟨x, by simp, r, hack, hst⟩
    · exact Or.inr ⟨z, List.mem_append_left _ hz, r, hack, hst⟩
  · rw [List.mem_singleton] at hnew
    subst hnew
    exact Or.inl (hadm rec k hsome hcall)

theorem Answered.live (hc : c.2 ≠ "") {b : Outbox} (act : LifeOp) (h : Answered c tr b.db) :
    Answered c (tr ++ [(b, act)]) (b.live act).db := by
  cases b.lifeOutcome act with
  | refused heq =>
    rw [heq]
    exact h.snoc (fun r hr _ => Or.inl ⟨r, hr, rfl⟩) (by simp [admittedBy])
  | retired hret =>
    exact h.snoc (fun r hr _ => Or.inl ⟨r, hret.outbox ▸ hr, rfl⟩) (by simp [admittedBy])
  | @call op hout =>
    cases hout with
    | quiet hadm _ hquiet =>
      refine h.snoc ?_ (by simp [admittedBy, hadm])
      intro r hr _
      rcases hquiet.rows.forward hr with ⟨r', hr', hst⟩
      exact Or.inl ⟨r', hr', hst.event⟩
    | @admitted lim rec now fault seq dn base _ hadm _ hadmission =>
      refine h.snoc ?_ ?_
      · -- reclaiming spares the rows of calls
        intro r hr hcall
        have hbase := hadmission.room.mem_of_grouped hr (Event.grouped_of_call hcall hc)
        exact Or.inl ⟨r, hadmission.mem_outbox.mpr (Or.inl hbase), rfl⟩
      · intro rec' k hsome hcall
        simp only [admittedBy, hadm, Option.some.injEq, Prod.mk.injEq] at hsome
        rcases hsome with ⟨rfl, rfl⟩
        have huuid := OutboxRecord.uuid_ne_of_call hcall hc
        refine ⟨_, hadmission.mem_outbox.mpr (Or.inr rfl), rfl, ?_, ?_⟩
        · simp [newRow, Event.call, Event.uuid, OutboxRecord.call]
        · simp [newRow, huuid]
    | @acked id now fault r _ hadm hack hr hid _ _ hdb =>
      refine h.snoc ?_ (by simp [admittedBy, hadm])
      intro q hq _
      -- the row that goes is the one acknowledged
      by_cases hqr : q.eventId = r.eventId
      · right
        rw [Table.eq_of_key hq hr hqr]
        exact hack
      · left
        refine ⟨r.afterAck now q, ?_, by simp⟩
        change _ ∈ (b.step op).db.outbox
        rw [hdb]
        exact Db.mem_acked_outbox.mpr ⟨q, hq, hqr, rfl⟩

theorem answered_life (hc : c.2 ≠ "") (acts : List LifeOp) :
    Answered c (Machine.trace Outbox.live Outbox.init acts)
      (Machine.run Outbox.live Outbox.init acts).db :=
  Machine.trace_invariant (J := fun tr b => Answered c tr b.db) (P := fun _ _ => True)
    (by simp [Answered]) (fun _ _ act _ h => h.live hc act) acts (fun _ _ => trivial)

end Answered

/-! ## Fences -/

/-- No step of a life takes or changes a fence. -/
theorem fence_stays {b : Outbox} {f : RetiredCall} (hf : f ∈ b.db.retiredCalls) (act : LifeOp) :
    f ∈ (b.live act).db.retiredCalls := by
  cases b.lifeOutcome act with
  | refused heq =>
    rw [heq]
    exact hf
  | retired hret => exact (Table.mem_insert hret.fences).mpr (Or.inl hf)
  | @call op hout =>
    change f ∈ (b.step op).db.retiredCalls
    cases hout with
    | quiet _ _ hquiet =>
      rw [hquiet.retired]
      exact hf
    | admitted _ _ _ hadm =>
      rw [hadm.fences]
      exact hf
    | acked _ _ _ _ _ _ _ hdb =>
      rw [hdb, Db.acked_retiredCalls]
      exact hf

/-- A fence turns away every record of its call. -/
theorem insertPending_fenced {b : Outbox} {f : RetiredCall} {lim : Limits} {rec : OutboxRecord}
    {now : Int} {fault : FaultPlan} (hf : f ∈ b.db.retiredCalls) (hcall : f.call = rec.call)
    (huuid : rec.callUuid ≠ "") (n : Int) :
    b.reply (.insertPending lim rec now fault) ≠ .ok n := by
  intro hok
  have hexec : b.exec (.insertPending lim rec now fault) =
    (.ok n, b.step (.insertPending lim rec now fault)) := Prod.ext hok rfl
  rcases call_ok hexec with ⟨_, hrun, -⟩
  rcases insertPending_ok hrun with ⟨seq, dn, base, hadm, -⟩
  exact hadm.unfenced huuid f hf hcall

/-- Deleting the one stream of a call frees one slot. -/
theorem length_delete_call {t : StreamTable} {s : Stream} (hs : s ∈ t) :
    (t.delete fun q => q.call = s.call).rows.length + 1 = t.rows.length := by
  have hone : t.changes (fun q => decide (q.call = s.call)) = 1 :=
    (Table.changes_eq_one (k := s.call) fun q hq => by simpa using hq).mpr ⟨s, hs, by simp⟩
  have hsplit := List.length_eq_countP_add_countP (fun q : Stream => decide (q.call = s.call))
    (l := t.rows)
  have hrest : (t.delete fun q => q.call = s.call).rows.length =
      t.rows.countP fun q => ¬ decide (q.call = s.call) = true := by
    rw [Table.delete, List.countP_eq_length_filter]
    congr 1
    apply List.filter_congr
    intro q _
    simp
  unfold Table.changes at hone
  omega

/-- `retire` succeeds only for a call all of whose admitted events are acknowledged,
and whose acknowledged positions are those below its cursor. It moves the cursor to a
fence with the same key and `next_seq` and leaves the rest; `open` accepts the
output, and in every later life the fence stays and turns away every record of the
call. -/
theorem retirement_is_final (acts : List LifeOp) (args : RetireArgs) (atMs : Int)
    (fault : FaultPlan) (u : Unit) (db' : Db)
    (hok : (retire args atMs fault).run (Machine.run Outbox.live Outbox.init acts).db =
      .ok u db') :
    let tr := Machine.trace Outbox.live Outbox.init acts
    let db := (Machine.run Outbox.live Outbox.init acts).db
    ∃ s ∈ db.callStreams, ∃ f : RetiredCall, s.call = args.call ∧ f.call = args.call ∧
      f.msgKey = s.msgKey ∧ f.nextSeq = s.nextSeq ∧
      (∀ x ∈ tr, ∀ rec k, admittedBy x = some (rec, k) → rec.call = args.call →
        ∃ y ∈ tr, ∃ r, ackedBy y = some r ∧ r.toEvent.Stores rec k) ∧
      acksOf args.call tr = (List.range s.nextSeq.toNat).map Int.ofNat ∧
      (db'.outbox = db.outbox ∧ db'.turn = db.turn ∧
        db'.callStreams = db.callStreams.delete (fun q => q.call = args.call) ∧
        db'.callStreams.rows.length + 1 = db.callStreams.rows.length ∧
        db'.retiredCalls.rows = db.retiredCalls.rows ++ [f]) ∧
      (∃ db'', (openDb noFault).run db' = .ok () db'') ∧
      ∀ later,
        let b := Machine.run Outbox.live ⟨db', false⟩ later
        f ∈ b.db.retiredCalls ∧
          ∀ lim rec now fault n, rec.call = args.call →
            b.reply (.insertPending lim rec now fault) ≠ .ok n := by
  intro tr db
  rcases retire_ok hok with ⟨s, hret⟩
  have hc : args.call.2 ≠ "" := hret.named
  have htracks : Tracks args.call tr db := tracks_life hc acts
  have hfence : args.fence s atMs ∈ db'.retiredCalls :=
    (Table.mem_insert hret.fences).mpr (Or.inr rfl)
  refine ⟨s, hret.stream, args.fence s atMs, hret.call, rfl, rfl, rfl, ?_, ?_, ?_, ?_, ?_⟩
  · intro x hx rec k hsome hcall
    rcases answered_life hc acts x hx rec k hsome hcall with ⟨r, hr, hst⟩ | hacked
    · -- a row of the call would have stopped the retirement
      have hrc : r.call = args.call := hst.call.trans hcall
      exact absurd hrc (hret.call_ne hr (Event.grouped_of_call hrc hc))
    · exact hacked
  · rw [htracks.next s hret.stream hret.call, Int.toNat_natCast]
    exact htracks.acks
  · refine ⟨hret.outbox, hret.turn, hret.streams, ?_, (Table.insert_eq_some.mp hret.fences).2⟩
    rw [hret.streams, ← hret.call]
    exact length_delete_call hret.stream
  · exact ⟨_, openDb_accepts (htracks.inv.retired hret)⟩
  · intro later b
    have hstay : args.fence s atMs ∈ b.db.retiredCalls :=
      Machine.run_invariant (I := fun b : Outbox => args.fence s atMs ∈ b.db.retiredCalls) hfence
        (fun _ act hf => fence_stays hf act) later
    refine ⟨hstay, ?_⟩
    intro lim rec now fault' n hcall
    have hcallf : (args.fence s atMs).call = rec.call := hcall.symm
    exact insertPending_fenced hstay hcallf (OutboxRecord.uuid_ne_of_call hcall hc) n

/-- The call of two acknowledged events is retired, and never comes back. -/
theorem retirement_is_final_closed :
    let args : RetireArgs := ⟨"events", "c", "closed", 10, true, true⟩
    let db := (Machine.run Outbox.live Outbox.init (closedCall.take 8)).db
    ∃ db', (retire args 5 noFault).run db = .ok () db' ∧ ∀ later lim rec now fault n,
      rec.call = ("events", "c") →
        (Machine.run Outbox.live ⟨db', false⟩ later).reply (.insertPending lim rec now fault) ≠
          .ok n := by
  intro args db
  have hreply : (Outbox.call ⟨db, true⟩ (retire args 5 noFault) fun _ => 0).1 = .ok 0 := by
    decide +kernel
  rcases call_ok (Prod.ext hreply rfl) with ⟨u, hrun, -⟩
  refine ⟨_, hrun, ?_⟩
  rcases retirement_is_final (closedCall.take 8) args 5 noFault u _ hrun with
    ⟨s, -, f, -, -, -, -, -, -, -, -, hlater⟩
  intro later lim rec now fault n hcall
  exact (hlater later).2 lim rec now fault n hcall

end EventKafka
