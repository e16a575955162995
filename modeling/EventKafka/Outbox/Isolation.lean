import EventKafka.Outbox.Part

/-! # Taking out the calls of the others

`owner` says whose event an id is. A run of the outbox and the run that keeps of it only
what is about the events of one call, and what is about no event, go side by side: their
databases stay `Apart`, and every call that is on an event of the call in question is
answered alike.
-/

namespace EventKafka

open Sql

/-- The event a call is on. -/
def Op.event : Op → Option String
  | .insertPending _ rec _ _ => some rec.eventId
  | .markInFlight id _ _ => some id
  | .markAcked id _ _ => some id
  | .markRetry id _ _ _ _ => some id
  | .markDead id _ _ _ => some id
  | .retryDead id _ _ _ => some id
  | .requeueInFlight _ _ _ => none
  | .expireTtl _ _ _ => none
  | .openDb _ => none
  | .close => none

/-- An admission is under an id of its own call. -/
def Op.named (owner : String → Option Call) : Op → Bool
  | .insertPending _ rec _ _ => owner rec.eventId = rec.owner
  | _ => true

/-- The reclaim of an admission meets no storage fault. -/
def Op.reclaims : Op → Bool
  | .insertPending _ _ _ fault => fault .reclaim = none
  | _ => true

/-- The call is on an event of `c`. -/
def Op.on (owner : String → Option Call) (c : Call) (op : Op) : Bool :=
  op.event.any fun id => owner id = some c

/-- The call is on no event, or on one of `c`. -/
def Op.kept (owner : String → Option Call) (c : Call) (op : Op) : Bool :=
  op.event.all fun id => owner id = some c

/-- The call is refused for want of room or of turns. -/
def Outbox.exhausts (b : Outbox) (op : Op) : Bool :=
  match b.reply op with
  | .ok _ => false
  | .error e => Exhausted e

/-- The objects of the two runs. -/
structure Apart (owner : String → Option Call) (c : Call) (b b' : Outbox) : Prop where
  part : Part owner c b.db b'.db
  isOpen : b'.isOpen = b.isOpen
  left : Stamped b.db
  right : Stamped b'.db

section Apart

variable {owner : String → Option Call} {c : Call} {b b' : Outbox}

theorem Apart.init : Apart owner c Outbox.init Outbox.init :=
  ⟨.empty, rfl, .empty, .empty⟩

/-! ## A call on an event of somebody else -/

theorem Part.admitted {lim : Limits} {rec : OutboxRecord} {now seq : Int} {dn : Bool}
    {base : OutboxTable} {db db₁ db' : Db} (h : Part owner c db db')
    (hadm : Admission lim rec now db db₁ seq dn base) (hname : owner rec.eventId = rec.owner)
    (hid : owner rec.eventId ≠ some c) : Part owner c db₁ db' := by
  have hnew : (newRow rec now seq dn).ofCall c = false := by
    rw [Bool.eq_false_iff]
    intro hr
    rcases Row.ofCall_iff.mp hr with ⟨hg, hcall⟩
    have huuid : rec.callUuid ≠ "" := by simpa [newRow, Event.grouped, Event.uuid] using hg
    apply hid
    rw [hname, OutboxRecord.owner, if_neg huuid]
    exact congrArg some hcall
  refine ⟨?_, ?_, h.alone, ?_, ?_, ?_⟩
  · -- the reclaim takes no row of a call
    have hbase : base.rows.filter (Row.ofCall c) = db.outbox.rows.filter (Row.ofCall c) := by
      rcases hadm.room with ⟨rfl, -⟩ | ⟨rfl, -, -⟩
      · rfl
      · show (db.outbox.rows.filter fun r => !reclaimable r).filter (Row.ofCall c) = _
        rw [List.filter_filter]
        apply List.filter_congr
        intro r _
        cases hr : r.ofCall c with
        | false => rfl
        | true => simp [reclaimable, (Row.ofCall_iff.mp hr).1]
    rw [h.rows, (Table.insert_eq_some.mp hadm.row).2, List.filter_append, hbase]
    simp [hnew]
  · -- and the claim is on another stream
    have hfind : db₁.callStreams.find? c = db.callStreams.find? c := by
      rcases hadm.streams.inv with ⟨-, -, heq⟩ | ⟨base, s, huuid, -, -, hclaim, heq⟩
      · rw [heq]
      · have hne : rec.call ≠ c := by
          intro hcall
          rw [hname, OutboxRecord.owner, if_neg huuid, hcall] at hid
          exact hid rfl
        refine Table.find?_congr fun q hq => ?_
        rw [heq, hclaim.mem_claimSeq]
        constructor
        · rintro (rfl | ⟨hmem, -⟩)
          · exact absurd (hclaim.call_eq.symm.trans hq) hne
          · exact hmem
        · intro hmem
          exact Or.inr ⟨hmem, fun hcall => hne (hcall.symm.trans hq)⟩
    rw [h.stream, hfind]
  · intro r hr
    rcases hadm.mem_outbox.mp hr with hold | rfl
    · exact h.owned r (hadm.room.mem_of_mem hold)
    · refine ⟨fun hr => absurd hr (by simp [hnew]), fun hr => absurd hr hid⟩
  · rw [hadm.fences]
    exact h.unfenced
  · rw [hadm.turn]
    exact h.turn

theorem Part.sent {r : Row} {now : Int} {db db' : Db} (h : Part owner c db db')
    (hr : r.ofCall c = false) (hmem : r ∈ db.outbox) : Part owner c (db.sent r now) db' := by
  have hrows := h.updateOutbox_left (p := fun q => q.eventId = r.eventId)
    (f := fun q => { q.toProgress with
      state := .inFlight, attempts := q.attempts + 1, updatedAtMs := now }) ?_
  · refine { hrows with stream := ?_, turn := ?_ }
    · -- the turn of a stream is not part of what its call can tell
      refine h.stream.trans ?_
      have hfind : (db.sent r now).callStreams.find? c =
          (db.callStreams.find? c).map fun s =>
            if (r.topic = s.topic && r.callUuid = some s.callUuid) = true then
              ⟨s.toOwnership, { s.toCursor with lastServedMs := db.turn + 1 }⟩ else s :=
        find?_updateStreams _ _ _ _
      rw [hfind, Option.map_map]
      congr 1
      funext s
      simp only [Function.comp]
      split <;> rfl
    · have hturn := h.turn
      show db'.turn ≤ db.turn + 1
      omega
  · intro q hq hcall
    rw [decide_eq_false_iff_not]
    intro heq
    rw [Table.eq_of_key hq hmem heq, hr] at hcall
    cases hcall

theorem Part.acked {r : Row} {now : Int} {db db' : Db} (h : Part owner c db db')
    (hr : r.ofCall c = false) (hmem : r ∈ db.outbox) : Part owner c (db.acked r now) db' := by
  have hother : ∀ q ∈ db.outbox, q.ofCall c = true → q.eventId ≠ r.eventId := by
    intro q hq hcall heq
    rw [Table.eq_of_key hq hmem heq, hr] at hcall
    cases hcall
  cases hg : r.grouped with
  | false =>
    have hdb : db.acked r now =
        { db with outbox := db.outbox.delete fun q => q.eventId = r.eventId } := by
      simp [Db.acked, hg]
    rw [hdb]
    exact h.delete_left fun q hq hcall => decide_eq_false (hother q hq hcall)
  | true =>
    -- the cursor that moves and the successor that is dated are of the row's own call
    have hne : r.call ≠ c := by
      intro hcall
      rw [Row.ofCall_iff.mpr ⟨hg, hcall⟩] at hr
      cases hr
    have hdb : db.acked r now =
        let moved := (db.updateStreams (fun s => s.call = r.call)
          fun s => { s.toCursor with nextSeq := s.nextSeq + 1 }).updateOutbox (successor r)
          fun q => { q.toProgress with eligibleAtMs := some now }
        { moved with outbox := moved.outbox.delete fun q => q.eventId = r.eventId } := by
      simp [Db.acked, hg]
    rw [hdb]
    refine ((h.updateStreams_left ?_).updateOutbox_left ?_).delete_left ?_
    · intro s hs
      exact decide_eq_false fun hcall => hne (hcall.symm.trans hs)
    · intro q _ hq
      rw [Bool.eq_false_iff]
      intro hsucc
      simp only [successor, Bool.and_eq_true, decide_eq_true_eq] at hsucc
      apply hne
      rw [← (Row.ofCall_iff.mp hq).2, Event.call, Event.call, hsucc.1.1.1]
      simp [Event.uuid, hsucc.1.1.2]
    · intro q hq hcall
      rcases Db.mem_updateOutbox.mp hq with ⟨q₀, hq₀, rfl⟩
      have hevent : (if successor r q₀ then
          ⟨q₀.toEvent, { q₀.toProgress with eligibleAtMs := some now }⟩ else q₀ : Row).toEvent =
          q₀.toEvent := by
        split <;> rfl
      unfold Row.ofCall at hcall
      rw [hevent] at hcall ⊢
      exact decide_eq_false (hother q₀ hq₀ hcall)

/-- A call on an event of somebody else. -/
theorem Apart.other {op : Op} {id : String} (h : Apart owner c b b')
    (hname : op.named owner = true) (hev : op.event = some id) (hid : owner id ≠ some c) :
    Apart owner c (b.step op) b' := by
  refine ⟨?_, ?_, h.left.step op, h.right⟩
  · have hforeign : ∀ r ∈ b.db.outbox, r.eventId = id → r.ofCall c = false := by
      intro r hr heq
      rw [Bool.eq_false_iff]
      intro hcall
      exact hid (heq ▸ (h.part.owned r hr).mp hcall)
    cases b.effect op with
    | same heq _ =>
      rw [heq]
      exact h.part
    | admitted hop _ hadm =>
      subst hop
      cases hev
      exact h.part.admitted hadm (of_decide_eq_true hname) hid
    | sent hop _ hr hsend _ heq =>
      subst hop
      cases hev
      rw [heq]
      exact h.part.sent (hforeign _ hr (sendable_iff.mp hsend).1) hr
    | acked hop _ hr heid _ _ heq =>
      subst hop
      cases hev
      rw [heq]
      exact h.part.acked (hforeign _ hr heid) hr
    -- only the calls that name an event come here; the two that rewrite many name none
    | @rewritten w n hop _ heq =>
      rw [heq]
      refine h.part.updateOutbox_left fun r hr hcall => ?_
      have hne : r.eventId ≠ id := by
        intro heid
        rw [hforeign r hr heid] at hcall
        cases hcall
      cases op with
      | markRetry | markDead | retryDead =>
        cases hev
        cases hop
        simp [hne]
      | insertPending | markInFlight | markAcked => cases hop
      | _ => cases hev
  · rw [h.isOpen]
    refine (b.step_isOpen ?_).symm
    cases op with
    | openDb | close => cases hev
    | _ => rfl

/-! ## A call that both make -/

/-- The larger run does not run out of room or turns, so the two bodies go the same way. -/
theorem Apart.call {α : Type} {V : α → α → Prop} {body : Prog α} {value : α → Int}
    (h : Apart owner c b b') (hbody : Follows owner c V body body) (hatomic : Atomic body)
    (hroom : ∀ e, (b.call body value).1 = .error e → ¬ Exhausted e) :
    Part owner c (b.call body value).2.db (b'.call body value).2.db ∧
      ((∀ a a', V a a' → value a = value a') →
        (b'.call body value).1 = (b.call body value).1) := by
  unfold Outbox.call at hroom ⊢
  rw [h.isOpen]
  cases hopen : b.isOpen with
  | false => exact ⟨h.part, fun _ => rfl⟩
  | true =>
    simp only [hopen, if_true] at hroom ⊢
    rcases Program.Tracks.ends hbody h.part with
      ⟨e, db, hx, he⟩ | ⟨e, db, db', hx, hy⟩ | ⟨a, a', db, db', hx, hy, hV, hpart⟩
    · rw [hx] at hroom
      exact absurd he (hroom e rfl)
    · rw [hx, hy, hatomic _ _ _ hx, hatomic _ _ _ hy]
      exact ⟨h.part, fun _ => rfl⟩
    · rw [hx, hy]
      exact ⟨hpart, fun hvalue => congrArg Except.ok (hvalue a a' hV).symm⟩

/-- `open` finds both databases in order, so only a storage fault can stop it. -/
theorem openDb_both {db db' : Db} (h : Stamped db) (h' : Stamped db') (fault : FaultPlan) :
    (∃ e, (openDb fault).run db = .error e db ∧ (openDb fault).run db' = .error e db') ∨
      (openDb fault).run db = .ok () db ∧ (openDb fault).run db' = .ok () db' := by
  have htracks : Program.Tracks (fun _ => False) (fun s t => s = db ∧ t = db')
      (fun _ _ s t => s = db ∧ t = db') (openDb fault) (openDb fault) := by
    refine .bind (Q := fun _ _ s t => s = db ∧ t = db') (.statement (.pure fun _ _ hst => hst))
      fun _ _ => ?_
    apply Program.Tracks.transaction
    refine .bind (Q := fun _ _ s t => s = db ∧ t = db') (.statement (.pure fun _ _ hst => hst))
      fun _ _ => ?_
    refine .bind (Q := fun a a' s t => a = a' ∧ s = db ∧ t = db') (.query ?_) fun a a' => ?_
    · rintro _ _ ⟨rfl, rfl⟩
      exact ⟨h.inv.not_corrupt.trans h'.inv.not_corrupt.symm, rfl, rfl⟩
    refine .bind (.require fun _ _ hst => by rw [hst.1]) fun _ _ => ?_
    refine .bind (Q := fun a a' s t => a = a' ∧ s = db ∧ t = db') (.query ?_) fun a a' => ?_
    · rintro _ _ ⟨-, rfl, rfl⟩
      exact ⟨h.inv.not_retiredActive.trans h'.inv.not_retiredActive.symm, rfl, rfl⟩
    refine .bind (.require fun _ _ hst => by rw [hst.1]) fun _ _ => ?_
    refine .bind (Q := fun _ _ s t => s = db ∧ t = db') (.statement ?_) fun _ _ =>
      .pure fun _ _ hst => hst
    rintro _ _ ⟨-, rfl, rfl⟩
    exact .done ⟨h.stamp_eq _, h'.stamp_eq _⟩
  rcases htracks.ends ⟨rfl, rfl⟩ with
    ⟨e, s, hx, he⟩ | ⟨e, s, t, hx, hy⟩ | ⟨_, _, s, t, hx, hy, rfl, rfl⟩
  · exact he.elim
  · left
    exact ⟨e, by rw [hx, atomic_openDb _ _ _ hx], by rw [hy, atomic_openDb _ _ _ hy]⟩
  · exact Or.inr ⟨hx, hy⟩

/-- `requeue_in_flight` and `expire_ttl` go by the columns of each row. -/
theorem follows_requeueInFlight {now₁ now₂ : Int} {fault : FaultPlan} :
    Follows owner c (fun _ _ => True) (requeueInFlight now₁ now₂ fault)
      (requeueInFlight now₁ now₂ fault) :=
  .bind (V := fun _ _ => True) (.statement (follows_updateOutbox fun _ _ _ _ _ => rfl))
    fun _ _ _ => .pure trivial

theorem follows_expireTtl {now ttl : Int} {fault : FaultPlan} :
    Follows owner c (fun _ _ => True) (expireTtl now ttl fault) (expireTtl now ttl fault) := by
  refine .bind (V := fun _ _ => True) (.statement (follows_updateOutbox ?_))
    fun _ _ _ => .pure trivial
  intro db db' h r hr
  simp only [expires, h.deliverable hr]

/-- A call on an event of the call, or on none: both databases go the same way, and in the
first case both replies. -/
theorem Apart.both {op : Op} (h : Apart owner c b b') (hname : op.named owner = true)
    (hreclaim : op.reclaims = true) (hkept : op.kept owner c = true)
    (hroom : b.exhausts op = false) :
    Apart owner c (b.step op) (b'.step op) ∧
      (op.on owner c = true → b'.reply op = b.reply op) := by
  have hroom : ∀ e, b.reply op = .error e → ¬ Exhausted e := by
    intro e he
    simpa [Outbox.exhausts, he] using hroom
  have hsession : op.inSession = true → Part owner c (b.step op).db (b'.step op).db →
      Apart owner c (b.step op) (b'.step op) := by
    intro hop hpart
    refine ⟨hpart, ?_, h.left.step op, h.right.step op⟩
    rw [b.step_isOpen hop, b'.step_isOpen hop, h.isOpen]
  have hunit : ∀ a a' : Unit, True → (0 : Int) = 0 := fun _ _ _ => rfl
  have hnobody : op.event = none → op.on owner c = true → b'.reply op = b.reply op := by
    intro hev hon
    simp [Op.on, hev] at hon
  cases op with
  | insertPending lim rec now fault =>
    -- the record is of the call, because its event is
    have hid : owner rec.eventId = some c := by simpa [Op.kept, Op.event] using hkept
    have howner : rec.owner = some c := (of_decide_eq_true hname).symm.trans hid
    have huuid : rec.callUuid ≠ "" := by
      intro huuid
      simp [OutboxRecord.owner, huuid] at howner
    have hcall : rec.call = c := by simpa [OutboxRecord.owner, huuid] using howner
    rcases h.call (follows_insertPending huuid hcall hid (of_decide_eq_true hreclaim))
      atomic_transaction hroom with ⟨hpart, hreply⟩
    exact ⟨hsession rfl hpart, fun _ => hreply fun _ _ heq => heq⟩
  | markInFlight id now fault =>
    have hid : owner id = some c := by simpa [Op.kept, Op.event] using hkept
    rcases h.call (follows_markInFlight hid) atomic_transaction hroom with ⟨hpart, hreply⟩
    exact ⟨hsession rfl hpart, fun _ => hreply hunit⟩
  | markAcked id now fault =>
    have hid : owner id = some c := by simpa [Op.kept, Op.event] using hkept
    rcases h.call (follows_markAcked hid) atomic_transaction hroom with ⟨hpart, hreply⟩
    exact ⟨hsession rfl hpart, fun _ => hreply hunit⟩
  | markRetry id _ _ _ _ | markDead id _ _ _ | retryDead id _ _ _ =>
    have hid : owner id = some c := by simpa [Op.kept, Op.event] using hkept
    rcases h.call (follows_updateOne hid fun _ => eventId_of_keyed)
      (atomic_updateOne id fun _ => eventId_of_keyed) hroom with ⟨hpart, hreply⟩
    exact ⟨hsession rfl hpart, fun _ => hreply hunit⟩
  | requeueInFlight now₁ now₂ fault =>
    -- what goes over all rows counts more of them than the part has
    rcases h.call follows_requeueInFlight atomic_requeueInFlight hroom with ⟨hpart, -⟩
    exact ⟨hsession rfl hpart, hnobody rfl⟩
  | expireTtl now ttl fault =>
    refine ⟨hsession rfl ?_, hnobody rfl⟩
    by_cases httl : ttl ≤ 0
    · simp only [Outbox.step, Outbox.exec, httl, if_true]
      exact h.part
    · simp only [Outbox.reply, Outbox.step, Outbox.exec, httl, if_false] at hroom ⊢
      exact (h.call follows_expireTtl atomic_expireTtl hroom).1
  | openDb fault =>
    refine ⟨?_, hnobody rfl⟩
    cases hopen : b.isOpen with
    | true =>
      have hopen' : b'.isOpen = true := h.isOpen.trans hopen
      simp only [Outbox.step, Outbox.exec, hopen, hopen', if_true]
      exact h
    | false =>
      have hopen' : b'.isOpen = false := h.isOpen.trans hopen
      simp only [Outbox.step, Outbox.exec, hopen, hopen', Bool.false_eq_true, if_false]
      -- neither has a row to stamp, so both are refused alike or both open
      rcases openDb_both h.left h.right fault with ⟨e, hrun, hrun'⟩ | ⟨hrun, hrun'⟩
      · rw [hrun, hrun']
        exact ⟨h.part, rfl, h.left, h.right⟩
      · rw [hrun, hrun']
        exact ⟨h.part, rfl, h.left, h.right⟩
  | close => exact ⟨⟨h.part, rfl, h.left, h.right⟩, hnobody rfl⟩

end Apart

/-! ## Whole runs -/

/-- The replies to the calls on events of `c`. -/
def replies (owner : String → Option Call) (c : Call) (tr : List (Outbox × Op)) :
    List (Except String Int) :=
  (tr.filter fun x => x.2.on owner c).map fun x => x.1.reply x.2

theorem replies_cons (owner : String → Option Call) (c : Call) (b : Outbox) (op : Op)
    (tr : List (Outbox × Op)) :
    replies owner c ((b, op) :: tr) =
      if op.on owner c then b.reply op :: replies owner c tr else replies owner c tr := by
  unfold replies
  cases hon : op.on owner c with
  | false => simp [hon]
  | true => simp [hon]

/-- The two runs stay side by side. -/
theorem apart_run {owner : String → Option Call} {c : Call} (ops : List Op) {b b' : Outbox}
    (h : Apart owner c b b') (hname : ∀ op ∈ ops, op.named owner = true)
    (hreclaim : ∀ op ∈ ops, op.reclaims = true)
    (hroom : ∀ x ∈ Machine.trace Outbox.step b ops, x.1.exhausts x.2 = false) :
    replies owner c (Machine.trace Outbox.step b' (ops.filter (Op.kept owner c))) =
        replies owner c (Machine.trace Outbox.step b ops) ∧
      Apart owner c (Machine.run Outbox.step b ops)
        (Machine.run Outbox.step b' (ops.filter (Op.kept owner c))) := by
  induction ops generalizing b b' with
  | nil => exact ⟨rfl, h⟩
  | cons op ops ih =>
    have hname₀ := hname op (by simp)
    have hname' : ∀ op' ∈ ops, op'.named owner = true := fun op' hop => hname op' (by simp [hop])
    have hreclaim' : ∀ op' ∈ ops, op'.reclaims = true := fun op' hop => hreclaim op' (by simp [hop])
    have hroom' : ∀ x ∈ Machine.trace Outbox.step (b.step op) ops, x.1.exhausts x.2 = false :=
      fun x hx => hroom x (by simp [hx])
    rw [Machine.trace_cons, Machine.run_cons, replies_cons]
    cases hkept : op.kept owner c with
    | true =>
      rw [List.filter_cons_of_pos hkept, Machine.trace_cons, Machine.run_cons, replies_cons]
      rcases h.both hname₀ (hreclaim op (by simp)) hkept (hroom (b, op) (by simp)) with
        ⟨hstep, hreply⟩
      rcases ih hstep hname' hreclaim' hroom' with ⟨hreplies, hrun⟩
      refine ⟨?_, hrun⟩
      rw [hreplies]
      split
      · rename_i hon
        rw [hreply hon]
      · rfl
    | false =>
      -- it is on an event, and not on one of `c`
      rw [List.filter_cons_of_neg (by simp [hkept])]
      rcases hev : op.event with _ | id
      · simp [Op.kept, hev] at hkept
      have hid : owner id ≠ some c := by simpa [Op.kept, hev] using hkept
      have hon : op.on owner c = false := by simpa [Op.on, hev] using hid
      rw [hon]
      exact ih (h.other hname₀ hev hid) hname' hreclaim' hroom'

/-- Calls do not interfere. Take a run in which every admission is under an id of its own
call and nothing runs out of room or of turns, and take out the calls on the events of
other calls and of none: the calls that remain on events of `c` are answered as before,
and the rows of `c` and its cursor end up the same. -/
theorem calls_do_not_interfere (owner : String → Option Call) (c : Call) (ops : List Op)
    (hname : ∀ op ∈ ops, op.named owner = true) (hreclaim : ∀ op ∈ ops, op.reclaims = true)
    (hroom : ∀ x ∈ Machine.trace Outbox.step Outbox.init ops, x.1.exhausts x.2 = false) :
    let whole := Machine.run Outbox.step Outbox.init ops
    let rest := Machine.run Outbox.step Outbox.init (ops.filter (Op.kept owner c))
    replies owner c (Machine.trace Outbox.step Outbox.init (ops.filter (Op.kept owner c))) =
        replies owner c (Machine.trace Outbox.step Outbox.init ops) ∧
      rest.db.outbox.rows.filter (Row.ofCall c) = whole.db.outbox.rows.filter (Row.ofCall c) ∧
      (rest.db.callStreams.find? c).map Stream.part =
        (whole.db.callStreams.find? c).map Stream.part := by
  have hinit : Apart owner c Outbox.init Outbox.init := .init
  rcases apart_run ops hinit hname hreclaim hroom with ⟨hreplies, hrun⟩
  refine ⟨hreplies, ?_, hrun.part.stream⟩
  rw [hrun.part.rows, List.filter_filter]
  simp

/-- Events of the calls `a` and `b` and one of no call, for a concrete run. -/
def sampleOwner (id : String) : Option Call :=
  if id = "b0" ∨ id = "b1" then some ("events", "b")
  else if id = "a0" then some ("events", "a")
  else none

/-- The events of `b` among those of others: `b0` is sent twice and acknowledged, and `b1`
expires. An ACK of `b1` before its time is refused. -/
def mixedCalls : List Op :=
  [.openDb noFault,
    .insertPending ⟨10, 100⟩ (sampleRecord "a0" "a") 1000 noFault,
    .insertPending ⟨10, 100⟩ (sampleRecord "b0" "b") 1000 noFault,
    .insertPending ⟨10, 100⟩ (sampleRecord "x" "") 1000 noFault,
    .markInFlight "a0" 1001 noFault,
    .markInFlight "b0" 1001 noFault,
    .insertPending ⟨10, 100⟩ (sampleRecord "b1" "b") 1000 noFault,
    .markRetry "b0" 1005 "again" 1002 noFault,
    .markDead "x" "refused" 1002 noFault,
    .markInFlight "b0" 1005 noFault,
    .close, .openDb noFault,
    .requeueInFlight 1006 1006 noFault,
    .markInFlight "b0" 1007 noFault,
    .markAcked "b0" 1008 noFault,
    .markAcked "b1" 1008 noFault,
    .expireTtl 2000 500 noFault]

/-- The eight calls about `b` are answered as if the others had not been made. -/
theorem calls_do_not_interfere_mixed :
    replies sampleOwner ("events", "b") (Machine.trace Outbox.step Outbox.init
        (mixedCalls.filter (Op.kept sampleOwner ("events", "b")))) =
      replies sampleOwner ("events", "b") (Machine.trace Outbox.step Outbox.init mixedCalls) ∧
    (replies sampleOwner ("events", "b")
      (Machine.trace Outbox.step Outbox.init mixedCalls)).length = 8 :=
  ⟨(calls_do_not_interfere sampleOwner ("events", "b") mixedCalls (by decide) (by decide)
    (by decide +kernel)).1, by decide +kernel⟩

end EventKafka
