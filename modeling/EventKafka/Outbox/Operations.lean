import EventKafka.Lib.Machine
import EventKafka.Outbox.Effects

/-! # The outbox as a state machine

`Outbox` is the object behind the C++ class: the durable database and whether a
connection to it is open. An `Op` is one method call with its arguments, the
clock readings it takes and the faults its statements meet; the outbox mutex
serialises the calls of all threads, so a run of the object is a list of them.
A crash between two calls is `close`: the connection is gone and the committed
database stays.

`Outbox.outcome` is the inversion every invariant starts from: a call either admits
a record, or acknowledges a row, or is `Quiet` — no row enters or leaves and no
cursor moves.
-/

namespace EventKafka

open Sql

/-- The `Outbox` object. -/
structure Outbox where
  db : Db
  isOpen : Bool
deriving DecidableEq

/-- The object over an empty database, before its first `open`. -/
def Outbox.init : Outbox := ⟨.empty, false⟩

/-- Run a method body on the connection. `value` is the integer it reports; an
exception is caught and its text returned. -/
def Outbox.call {α : Type} (b : Outbox) (body : Prog α) (value : α → Int) :
    Except String Int × Outbox :=
  if b.isOpen then
    match body.run b.db with
    | .ok a db => (.ok (value a), { b with db := db })
    | .error e db => (.error e, { b with db := db })
  else (.error "db closed", b)

/-- A method call. `insertPending` carries the limits of the object it is made
on, which may differ from session to session. -/
inductive Op where
  | insertPending (lim : Limits) (rec : OutboxRecord) (now : Int) (fault : FaultPlan)
  | markInFlight (id : String) (now : Int) (fault : FaultPlan)
  | markAcked (id : String) (now : Int) (fault : FaultPlan)
  | markRetry (id : String) (next : Int) (error : String) (now : Int) (fault : FaultPlan)
  | markDead (id : String) (error : String) (now : Int) (fault : FaultPlan)
  | retryDead (id : String) (now₁ now₂ : Int) (fault : FaultPlan)
  | requeueInFlight (now₁ now₂ : Int) (fault : FaultPlan)
  | expireTtl (now ttl : Int) (fault : FaultPlan)
  | openDb (fault : FaultPlan)
  | close

/-- The reply of a call and the object after it. The value of a success is
`*assigned_sequence` for `insert_pending`, the row count for `expire_ttl`, and 0
for the others; an error is a `false` (a `-1` of `expire_ttl`) with its text. -/
def Outbox.exec (b : Outbox) : Op → Except String Int × Outbox
  | .insertPending lim rec now fault => b.call (insertPending lim rec now fault) id
  | .markInFlight id now fault => b.call (markInFlight id now fault) fun _ => 0
  | .markAcked id now fault => b.call (markAcked id now fault) fun _ => 0
  | .markRetry id next error now fault =>
    b.call (markRetry id next error now fault) fun _ => 0
  | .markDead id error now fault => b.call (markDead id error now fault) fun _ => 0
  | .retryDead id now₁ now₂ fault => b.call (retryDead id now₁ now₂ fault) fun _ => 0
  | .requeueInFlight now₁ now₂ fault => b.call (requeueInFlight now₁ now₂ fault) fun _ => 0
  | .expireTtl now ttl fault =>
    if ttl ≤ 0 then (.ok 0, b) else b.call (expireTtl now ttl fault) id
  | .openDb fault =>
    if b.isOpen then (.ok 0, b)
    else
      match (openDb fault).run b.db with
      | .ok _ db => (.ok 0, ⟨db, true⟩)
      | .error e db => (.error e, ⟨db, false⟩)
  | .close => (.ok 0, { b with isOpen := false })

/-- The reply of a call. -/
def Outbox.reply (b : Outbox) (op : Op) : Except String Int := (b.exec op).1

/-- One step of the machine. -/
def Outbox.step (b : Outbox) (op : Op) : Outbox := (b.exec op).2

/-- The record a call admitted, with the sequence it reported. -/
def Outbox.admission (b : Outbox) (op : Op) : Option (OutboxRecord × Int) :=
  match op, b.reply op with
  | .insertPending _ rec _ _, .ok assigned => some (rec, assigned)
  | _, _ => none

/-- The row a call acknowledged. -/
def Outbox.ack (b : Outbox) (op : Op) : Option Row :=
  match op, b.reply op with
  | .markAcked id _ _, .ok _ => b.db.outbox.find? id
  | _, _ => none

theorem Outbox.admission_eq_some {b : Outbox} {op : Op} {rec : OutboxRecord} {assigned : Int} :
    b.admission op = some (rec, assigned) ↔
      ∃ lim now fault, op = .insertPending lim rec now fault ∧ b.reply op = .ok assigned := by
  cases op with
  | insertPending lim rec' now fault =>
    cases hreply : b.reply (.insertPending lim rec' now fault) with
    | error e => simp [Outbox.admission, hreply]
    | ok n =>
      simp only [Outbox.admission, hreply, Option.some.injEq, Prod.mk.injEq]
      constructor
      · rintro ⟨rfl, rfl⟩
        exact ⟨lim, now, fault, rfl, rfl⟩
      · rintro ⟨_, _, _, hop, hok⟩
        cases hop
        cases hok
        exact ⟨rfl, rfl⟩
  | _ => simp [Outbox.admission]

theorem Outbox.reply_of_ack {b : Outbox} {op : Op} {r : Row} (h : b.ack op = some r) :
    ∃ n, b.reply op = .ok n := by
  cases op with
  | markAcked id now fault =>
    cases hreply : b.reply (.markAcked id now fault) with
    | error e => simp [Outbox.ack, hreply] at h
    | ok n => exact ⟨n, rfl⟩
  | _ => simp [Outbox.ack] at h

/-! ## Failed calls -/

/-- A program whose exceptions undo its writes. -/
def Atomic {α : Type} (body : Prog α) : Prop :=
  ∀ db e db', body.run db = .error e db' → db' = db

theorem atomic_transaction {α : Type} {f g : Option String} {body : Prog α} :
    Atomic (transaction f g body) := by
  intro db e db' h
  exact transaction_error h

theorem eventId_of_keyed {id : String} {more : Bool} {r : Row}
    (h : (decide (r.eventId = id) && more) = true) : r.eventId = id := by
  rw [Bool.and_eq_true, decide_eq_true_eq] at h
  exact h.1

/-- One `UPDATE` keyed by `event_id`: a fault has no effect, and an affected-row
count other than one can only be zero. -/
theorem atomic_updateOne {fault : Option String} {p : Row → Bool} {f : Row → Progress}
    {msg : String} (id : String) (hkey : ∀ r, p r = true → r.eventId = id) :
    Atomic (updateOne fault p f msg) := by
  intro db e db' h
  cases fault with
  | some text =>
    have herr : (updateOne (some text) p f msg).run db = .error text db := rfl
    rw [herr] at h
    cases h
    rfl
  | none =>
    have hrun : (updateOne none p f msg).run db =
        (require (db.outbox.changes p = 1) msg : Prog Unit).run (db.updateOutbox p f) := rfl
    rw [hrun] at h
    by_cases hch : db.outbox.changes p = 1
    · simp [require, hch] at h
    · -- no row was rewritten
      have hzero : db.outbox.changes p = 0 := by
        have hle := Table.changes_le_one (t := db.outbox) hkey
        omega
      have hsame : db.updateOutbox p f = db := by
        rw [Db.updateOutbox, Table.update_of_changes_eq_zero hzero]
      rw [hsame] at h
      simp only [require, hch, decide_false, Bool.false_eq_true, if_false, EStateM.run_throw,
        EStateM.Result.error.injEq] at h
      exact h.2.symm

theorem atomic_requeueInFlight {now₁ now₂ : Int} {fault : FaultPlan} :
    Atomic (requeueInFlight now₁ now₂ fault) := by
  intro db e db' h
  cases hf : fault .requeue with
  | some text =>
    simp only [requeueInFlight, statement, hf] at h
    cases h
    rfl
  | none =>
    simp only [requeueInFlight, statement, hf] at h
    cases h

theorem atomic_expireTtl {now ttl : Int} {fault : FaultPlan} :
    Atomic (expireTtl now ttl fault) := by
  intro db e db' h
  cases hf : fault .expire with
  | some text =>
    simp only [expireTtl, statement, hf] at h
    cases h
    rfl
  | none =>
    simp only [expireTtl, statement, hf] at h
    cases h

theorem atomic_openDb {fault : FaultPlan} : Atomic (openDb fault) := by
  intro db e db' h
  cases hf : fault .openFile with
  | some text =>
    simp only [openDb, statement, hf] at h
    cases h
    rfl
  | none =>
    simp only [openDb, hf] at h
    exact transaction_error h

theorem call_ok {α : Type} {b b' : Outbox} {body : Prog α} {value : α → Int} {n : Int}
    (h : b.call body value = (.ok n, b')) :
    ∃ a, body.run b.db = .ok a b'.db ∧ n = value a := by
  unfold Outbox.call at h
  cases hopen : b.isOpen with
  | false => simp [hopen] at h
  | true =>
    cases hrun : body.run b.db with
    | error e db => simp [hopen, hrun] at h
    | ok a db =>
      simp only [hopen, hrun, if_true, Prod.mk.injEq, Except.ok.injEq] at h
      rcases h with ⟨rfl, rfl⟩
      exact ⟨a, rfl, rfl⟩

theorem call_error {α : Type} {b b' : Outbox} {body : Prog α} {value : α → Int} {e : String}
    (hatomic : Atomic body) (h : b.call body value = (.error e, b')) : b'.db = b.db := by
  unfold Outbox.call at h
  cases hopen : b.isOpen with
  | false =>
    simp only [hopen, Bool.false_eq_true, if_false, Prod.mk.injEq] at h
    rw [← h.2]
  | true =>
    cases hrun : body.run b.db with
    | ok a db => simp [hopen, hrun] at h
    | error e' db =>
      simp only [hopen, hrun, if_true, Prod.mk.injEq] at h
      rw [← h.2]
      exact hatomic _ _ _ hrun

/-- A call that reports a failure leaves the database as it found it. -/
theorem Outbox.exec_error {b b' : Outbox} {op : Op} {e : String}
    (h : b.exec op = (.error e, b')) : b'.db = b.db := by
  cases op with
  | insertPending lim rec now fault => exact call_error atomic_transaction h
  | markInFlight id now fault => exact call_error atomic_transaction h
  | markAcked id now fault => exact call_error atomic_transaction h
  | markRetry id _ _ _ _ | markDead id _ _ _ | retryDead id _ _ _ =>
    exact call_error (atomic_updateOne id fun _ => eventId_of_keyed) h
  | requeueInFlight now₁ now₂ fault => exact call_error atomic_requeueInFlight h
  | expireTtl now ttl fault =>
    by_cases httl : ttl ≤ 0
    · simp [Outbox.exec, httl] at h
    · simp only [Outbox.exec, httl, if_false] at h
      exact call_error atomic_expireTtl h
  | openDb fault =>
    cases hopen : b.isOpen with
    | true => simp [Outbox.exec, hopen] at h
    | false =>
      cases hrun : (openDb fault).run b.db with
      | ok u db => simp [Outbox.exec, hopen, hrun] at h
      | error e' db =>
        simp only [Outbox.exec, hopen, hrun, Bool.false_eq_true, if_false, Prod.mk.injEq] at h
        rw [← h.2]
        exact atomic_openDb _ _ _ hrun
  | close => simp [Outbox.exec] at h

/-! ## Quiet calls -/

/-- What a quiet call may do to one row: its event stays, it goes in flight only
if it is deliverable, and its deliverable age is only ever stamped once. -/
structure RowStep (db : Db) (r r' : Row) : Prop where
  event : r'.toEvent = r.toEvent
  flight : r'.state = .inFlight → r.state = .inFlight ∨ db.deliverable r.toEvent = true
  eligible : r'.eligibleAtMs = r.eligibleAtMs ∨
    r.eligibleAtMs = none ∧ db.deliverable r.toEvent = true ∧
      r'.eligibleAtMs = some r.createdAtMs

theorem RowStep.refl (db : Db) (r : Row) : RowStep db r r :=
  ⟨rfl, Or.inl, Or.inl rfl⟩

/-- What a quiet call may do to one stream: at most serve it. -/
structure StreamStep (s s' : Stream) : Prop where
  owner : s'.toOwnership = s.toOwnership
  next : s'.nextSeq = s.nextSeq
  admitSeq : s'.admitSeq = s.admitSeq

theorem StreamStep.refl (s : Stream) : StreamStep s s := ⟨rfl, rfl, rfl⟩

/-- No row enters or leaves, no cursor moves, no fence changes. -/
structure Quiet (db db' : Db) : Prop where
  rows : Table.Stepwise (RowStep db) db.outbox db'.outbox
  streams : Table.Stepwise StreamStep db.callStreams db'.callStreams
  retired : db'.retiredCalls = db.retiredCalls

theorem Quiet.refl (db : Db) : Quiet db db :=
  ⟨.refl (RowStep.refl db) _, .refl StreamStep.refl _, rfl⟩

/-- An `UPDATE outbox` that sends nothing and stamps nothing is quiet. -/
theorem Quiet.updateOutbox {db : Db} {p : Row → Bool} {f : Row → Progress}
    (h : ∀ r ∈ db.outbox, p r = true → RowStep db r ⟨r.toEvent, f r⟩) :
    Quiet db (db.updateOutbox p f) where
  rows := .update rfl h fun r _ => RowStep.refl db r
  streams := .refl StreamStep.refl _
  retired := rfl

theorem Quiet.sent {db : Db} {r : Row} {now : Int}
    (hr : r ∈ db.outbox) (hdel : db.deliverable r.toEvent = true) :
    Quiet db (db.sent r now) where
  rows := by
    refine .update rfl ?_ fun q _ => RowStep.refl db q
    intro q hq hid
    have hqr : q = r := Table.eq_of_key hq hr (of_decide_eq_true hid)
    exact ⟨rfl, fun _ => Or.inr (hqr ▸ hdel), Or.inl rfl⟩
  streams := .update rfl (fun _ _ _ => ⟨rfl, rfl, rfl⟩) fun s _ => StreamStep.refl s
  retired := rfl

/-! ## The inversion of a call -/

/-- What a call can do. -/
inductive Outcome (b : Outbox) (op : Op) : Prop where
  | quiet (hadm : b.admission op = none) (hack : b.ack op = none)
      (h : Quiet b.db (b.step op).db)
  | admitted {lim : Limits} {rec : OutboxRecord} {now : Int} {fault : FaultPlan} {seq : Int}
      {dn : Bool} {base : OutboxTable} (hop : op = .insertPending lim rec now fault)
      (hadm : b.admission op = some (rec, if rec.callUuid = "" then -1 else seq))
      (hack : b.ack op = none)
      (h : Admission lim rec now b.db (b.step op).db seq dn base)
  | acked {id : String} {now : Int} {fault : FaultPlan} {r : Row}
      (hop : op = .markAcked id now fault) (hadm : b.admission op = none)
      (hack : b.ack op = some r) (hr : r ∈ b.db.outbox) (hid : r.eventId = id)
      (hstate : r.state = .inFlight)
      (hhead : r.grouped = true →
        ∃ s ∈ b.db.callStreams, s.call = r.call ∧ s.nextSeq = r.callSeq.getD 0)
      (h : (b.step op).db = b.db.acked r now)

/-- A transition that only rewrites one row's progress, away from in flight. -/
theorem quiet_of_updateOne {db db' : Db} {fault : Option String} {p : Row → Bool}
    {f : Row → Progress} {msg : String} {u : Unit}
    (h : (updateOne fault p f msg).run db = .ok u db')
    (hstate : ∀ r, (f r).state ≠ .inFlight) (helig : ∀ r, (f r).eligibleAtMs = r.eligibleAtMs) :
    Quiet db db' := by
  rcases updateOne_ok h with ⟨-, rfl⟩
  apply Quiet.updateOutbox
  intro r _ _
  exact ⟨rfl, fun hs => absurd hs (hstate r), Or.inl (helig r)⟩

theorem Outbox.outcome (b : Outbox) (op : Op) : Outcome b op := by
  obtain ⟨reply, b', hexec⟩ : ∃ reply b', b.exec op = (reply, b') := ⟨_, _, rfl⟩
  have hreply : b.reply op = reply := congrArg Prod.fst hexec
  have hstep : b.step op = b' := congrArg Prod.snd hexec
  cases reply with
  | error e =>
    -- a call that fails leaves the database as it was
    have hadm : b.admission op = none := by simp [Outbox.admission, hreply]
    have hack : b.ack op = none := by simp [Outbox.ack, hreply]
    refine .quiet hadm hack ?_
    rw [hstep, Outbox.exec_error hexec]
    exact Quiet.refl b.db
  | ok n =>
    cases op with
    | insertPending lim rec now fault =>
      rcases call_ok hexec with ⟨assigned, hrun, rfl⟩
      rcases insertPending_ok hrun with ⟨seq, dn, base, hadmission, rfl⟩
      refine .admitted rfl ?_ ?_ (hstep ▸ hadmission)
      · simp [Outbox.admission, hreply]
      · simp [Outbox.ack]
    | markAcked id now fault =>
      rcases call_ok hexec with ⟨_, hrun, -⟩
      rcases markAcked_ok hrun with ⟨r, hr, hid, hstate, hhead, hdb⟩
      refine .acked rfl ?_ ?_ hr hid hstate hhead (hstep ▸ hdb)
      · simp [Outbox.admission]
      · simp only [Outbox.ack, hreply]
        exact Table.find?_eq_some.mpr ⟨hr, hid⟩
    | markInFlight id now fault =>
      refine .quiet rfl rfl ?_
      rcases call_ok hexec with ⟨_, hrun, -⟩
      rcases markInFlight_ok hrun with ⟨r, hr, hsend, -, hdb⟩
      rw [hstep, hdb]
      -- the one call that puts a row in flight asks for a deliverable one
      exact Quiet.sent hr (sendable_iff.mp hsend).2.2
    | markRetry id next error now fault =>
      refine .quiet rfl rfl ?_
      rcases call_ok hexec with ⟨_, hrun, -⟩
      rw [hstep]
      exact quiet_of_updateOne hrun (by simp) (by simp)
    | markDead id error now fault =>
      refine .quiet rfl rfl ?_
      rcases call_ok hexec with ⟨_, hrun, -⟩
      rw [hstep]
      exact quiet_of_updateOne hrun (by simp) (by simp)
    | retryDead id now₁ now₂ fault =>
      refine .quiet rfl rfl ?_
      rcases call_ok hexec with ⟨_, hrun, -⟩
      rw [hstep]
      exact quiet_of_updateOne hrun (by simp) (by simp)
    | requeueInFlight now₁ now₂ fault =>
      refine .quiet rfl rfl ?_
      rcases call_ok hexec with ⟨_, hrun, -⟩
      rw [hstep, requeueInFlight_ok hrun]
      apply Quiet.updateOutbox
      intro r _ _
      exact ⟨rfl, fun hs => by simp at hs, Or.inl rfl⟩
    | expireTtl now ttl fault =>
      refine .quiet rfl rfl ?_
      rw [hstep]
      by_cases httl : ttl ≤ 0
      · simp only [Outbox.exec, httl, if_true, Prod.mk.injEq] at hexec
        rw [← hexec.2]
        exact Quiet.refl b.db
      · simp only [Outbox.exec, httl, if_false] at hexec
        rcases call_ok hexec with ⟨_, hrun, -⟩
        rw [(expireTtl_ok hrun).2]
        apply Quiet.updateOutbox
        intro r _ _
        exact ⟨rfl, fun hs => by simp at hs, Or.inl rfl⟩
    | openDb fault =>
      refine .quiet rfl rfl ?_
      rw [hstep]
      cases hopen : b.isOpen with
      | true =>
        simp only [Outbox.exec, hopen, if_true, Prod.mk.injEq] at hexec
        rw [← hexec.2]
        exact Quiet.refl b.db
      | false =>
        cases hrun : (EventKafka.openDb fault).run b.db with
        | error e db => simp [Outbox.exec, hopen, hrun] at hexec
        | ok u db =>
          simp only [Outbox.exec, hopen, hrun, Bool.false_eq_true, if_false,
            Prod.mk.injEq] at hexec
          rw [← hexec.2, openDb_ok hrun]
          -- and the one that stamps a row
          apply Quiet.updateOutbox
          intro r _ hp
          simp only [unstamped, Bool.and_eq_true, decide_eq_true_eq] at hp
          exact ⟨rfl, Or.inl, Or.inr ⟨hp.1, hp.2, rfl⟩⟩
    | close =>
      refine .quiet rfl rfl ?_
      rw [hstep]
      simp only [Outbox.exec, Prod.mk.injEq] at hexec
      rw [← hexec.2]
      exact Quiet.refl b.db

/-! ## The connection -/

/-- The calls made on an open connection. -/
def Op.inSession : Op → Bool
  | .openDb _ => false
  | .close => false
  | _ => true

/-- Only `open` and `close` open and close. -/
theorem Outbox.step_isOpen (b : Outbox) {op : Op} (hop : op.inSession = true) :
    (b.step op).isOpen = b.isOpen := by
  have hcall : ∀ {α : Type} (body : Prog α) (value : α → Int),
      (b.call body value).2.isOpen = b.isOpen := by
    intro α body value
    unfold Outbox.call
    split
    · split <;> rfl
    · rfl
  cases op with
  | openDb fault => simp [Op.inSession] at hop
  | close => simp [Op.inSession] at hop
  | expireTtl now ttl fault =>
    simp only [Outbox.step, Outbox.exec]
    split
    · rfl
    · exact hcall _ _
  | _ => exact hcall _ _

/-- A call of an open connection that reports a failure changes nothing. -/
theorem Outbox.exec_error_eq {b b' : Outbox} {op : Op} {e : String} (hop : op.inSession = true)
    (h : b.exec op = (.error e, b')) : b' = b := by
  have hstep : b.step op = b' := congrArg Prod.snd h
  have hdb := Outbox.exec_error h
  have hopen := b.step_isOpen hop
  rw [hstep] at hopen
  cases b
  cases b'
  simp only at hdb hopen
  rw [hdb, hopen]

/-! ## Rows and their events -/

/-- The event an admission stores: the columns no later statement rewrites. -/
def admittedEvent (rec : OutboxRecord) (now assigned : Int) : Event where
  eventId := rec.eventId
  topic := rec.topic
  msgKey := some rec.msgKey
  payload := rec.payload
  createdAtMs := createdAt rec now
  callUuid := some rec.callUuid
  callSeq := if rec.callUuid = "" then none else some assigned

theorem newRow_toEvent {rec : OutboxRecord} {now seq : Int} {dn : Bool} :
    (newRow rec now seq dn).toEvent =
      admittedEvent rec now (if rec.callUuid = "" then -1 else seq) := by
  by_cases huuid : rec.callUuid = "" <;> simp [newRow, admittedEvent, huuid]

theorem Outbox.row_of_admission {b : Outbox} {lim : Limits} {rec : OutboxRecord} {now : Int}
    {fault : FaultPlan} {assigned : Int}
    (h : b.reply (.insertPending lim rec now fault) = .ok assigned) :
    ∃ r ∈ (b.step (.insertPending lim rec now fault)).db.outbox,
      r.toEvent = admittedEvent rec now assigned := by
  have hsome : b.admission (.insertPending lim rec now fault) = some (rec, assigned) :=
    Outbox.admission_eq_some.mpr ⟨lim, now, fault, rfl, h⟩
  cases b.outcome (.insertPending lim rec now fault) with
  | quiet hno _ _ => simp [hno] at hsome
  | acked _ hno => simp [hno] at hsome
  | admitted hop hadm _ hadmission =>
    cases hop
    rw [hadm, Option.some.injEq, Prod.mk.injEq] at hsome
    refine ⟨_, hadmission.mem_outbox.mpr (Or.inr rfl), ?_⟩
    rw [newRow_toEvent, hsome.2]

/-- A row after a call carries the event of a row before it, or of the admission. -/
theorem Outbox.row_origin {b : Outbox} {op : Op} {q : Row} (hq : q ∈ (b.step op).db.outbox) :
    (∃ q₀ ∈ b.db.outbox, q₀.toEvent = q.toEvent) ∨
      ∃ lim rec now fault assigned, op = .insertPending lim rec now fault ∧
        b.admission op = some (rec, assigned) ∧ q.toEvent = admittedEvent rec now assigned := by
  cases b.outcome op with
  | quiet _ _ hquiet =>
    rcases hquiet.rows.backward hq with ⟨q₀, hq₀, hst⟩
    exact Or.inl ⟨q₀, hq₀, hst.event.symm⟩
  | @admitted lim rec now fault seq dn base hop hadm _ hadmission =>
    rcases hadmission.mem_outbox.mp hq with hbase | rfl
    · exact Or.inl ⟨q, hadmission.room.mem_of_mem hbase, rfl⟩
    · exact Or.inr ⟨lim, rec, now, fault, _, hop, hadm, newRow_toEvent⟩
  | @acked id now fault r _ _ _ _ _ _ _ hdb =>
    rw [hdb] at hq
    rcases Db.mem_acked_outbox.mp hq with ⟨q₀, hq₀, -, rfl⟩
    exact Or.inl ⟨q₀, hq₀, by simp⟩

/-- The record of an event of topic `events` and call `uuid`, for concrete runs. -/
def sampleRecord (id uuid : String) : OutboxRecord :=
  { OutboxRecord.default with
    eventId := id, topic := "events", msgKey := "key", callUuid := uuid, createdAtMs := 1000 }

end EventKafka
