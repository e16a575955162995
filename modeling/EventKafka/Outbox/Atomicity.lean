import EventKafka.Outbox.Transitions

/-! # All-or-nothing transitions

Whatever statements of a call fail, the call either reports a failure and leaves
every table as it found it, or reports a success and has done exactly what it
does when no statement fails. The first half is `Outbox.exec_error`; the second
is `Program.Below`, composed statement by statement: a success met none of the
faults in its plan.
-/

namespace EventKafka

open Sql

/-- The call as issued when no statement fails. -/
def Op.withoutFaults : Op → Op
  | .insertPending lim rec now _ => .insertPending lim rec now noFault
  | .markInFlight id now _ => .markInFlight id now noFault
  | .markAcked id now _ => .markAcked id now noFault
  | .markRetry id next error now _ => .markRetry id next error now noFault
  | .markDead id error now _ => .markDead id error now noFault
  | .retryDead id now₁ now₂ _ => .retryDead id now₁ now₂ noFault
  | .requeueInFlight now₁ now₂ _ => .requeueInFlight now₁ now₂ noFault
  | .expireTtl now ttl _ => .expireTtl now ttl noFault
  | .openDb _ => .openDb noFault
  | .close => .close

/-- `*assigned_sequence` after the call: -1 on entry, overwritten on success. -/
def Outbox.assignedSequence (b : Outbox) (op : Op) : Int :=
  match op, b.reply op with
  | .insertPending _ _ _ _, .ok assigned => assigned
  | _, _ => -1

/-! ## A success met no fault -/

section Below

variable {lim : Limits} {rec : OutboxRecord} {fault : FaultPlan}

/-- The look at the fences is one statement. -/
theorem checkRetired_below :
    Program.Below (checkRetired rec fault) (checkRetired rec noFault) := by
  unfold checkRetired
  apply Program.Below.ite
  · exact .bind .query fun _ => .refl _
  · exact .refl _

/-- Two looks at the capacity, with the reclaim between them. -/
theorem makeRoom_below :
    Program.Below (makeRoom lim rec fault) (makeRoom lim rec noFault) := by
  unfold makeRoom
  refine .bind .query fun noRoom => ?_
  cases noRoom with
  | false => exact .bind .query fun _ => .refl _
  | true => exact .bind (.statement (.refl _)) fun _ => .bind .query fun _ => .refl _

/-- A lookup of the stream and, for a new one, a count and an `INSERT`. -/
theorem position_below :
    Program.Below (position lim rec fault) (position lim rec noFault) := by
  unfold position
  refine .bind .query fun found => ?_
  cases found with
  | some s => exact .refl _
  | none =>
    refine .bind .query fun _ => .bind (.refl _) fun _ => ?_
    exact .bind (.statement (.refl _)) fun _ => .refl _

/-- The position, and the claim of its sequence. -/
theorem place_below : Program.Below (place lim rec fault) (place lim rec noFault) := by
  unfold place
  apply Program.Below.ite
  · refine .bind (.refl _) fun _ => .bind position_below fun _ => ?_
    exact .bind (.refl _) fun _ => .bind (.statement (.refl _)) fun _ => .refl _
  · exact .refl _

/-- The whole admission, between BEGIN and COMMIT. -/
theorem insertPending_below {now : Int} :
    Program.Below (insertPending lim rec now fault) (insertPending lim rec now noFault) := by
  refine .transaction (.bind checkRetired_below fun _ => .bind makeRoom_below fun _ => ?_)
  exact .bind place_below fun _ => .bind (.statement (.refl _)) fun _ => .refl _

/-- Three updates in a transaction: of the row, of the turn and of the stream. -/
theorem markInFlight_below {id : String} {now : Int} :
    Program.Below (markInFlight id now fault) (markInFlight id now noFault) := by
  refine .transaction (.bind (.statement (.refl _)) fun _ => .bind (.refl _) fun _ => ?_)
  refine .bind (.statement (.refl _)) fun _ => .bind (.refl _) fun _ => ?_
  exact .bind (.statement (.refl _)) fun _ => .refl _

/-- A lookup, two updates for a row of a call, and the `DELETE`. -/
theorem markAcked_below {id : String} {now : Int} :
    Program.Below (markAcked id now fault) (markAcked id now noFault) := by
  refine .transaction (.bind .query fun found => ?_)
  cases found with
  | none => exact .refl _
  | some r =>
    apply Program.Below.ite
    · refine .bind (.statement (.refl _)) fun _ => .bind (.refl _) fun _ => ?_
      exact .bind (.statement (.refl _)) fun _ => .statement (.refl _)
    · exact .statement (.refl _)

/-- The calls that are one `UPDATE` checked for its count. -/
theorem updateOne_below {f : Option String} {p : Row → Bool} {g : Row → Progress}
    {msg : String} : Program.Below (updateOne f p g msg) (updateOne none p g msg) :=
  .bind (.statement (.refl _)) fun _ => .refl _

theorem requeueInFlight_below {now₁ now₂ : Int} :
    Program.Below (requeueInFlight now₁ now₂ fault) (requeueInFlight now₁ now₂ noFault) :=
  .bind (.statement (.refl _)) fun _ => .refl _

theorem expireTtl_below {now ttl : Int} :
    Program.Below (expireTtl now ttl fault) (expireTtl now ttl noFault) :=
  .bind (.statement (.refl _)) fun _ => .refl _

/-- `open` runs its schema, two checks and a stamp. -/
theorem openDb_below : Program.Below (openDb fault) (openDb noFault) := by
  refine .bind (.statement (.refl _)) fun _ => .transaction ?_
  refine .bind (.statement (.refl _)) fun _ => .bind .query fun _ => .bind (.refl _) fun _ => ?_
  refine .bind .query fun _ => .bind (.refl _) fun _ => ?_
  exact .bind (.statement (.refl _)) fun _ => .refl _

end Below

/-- The same for a call: on success its body met no fault. -/
theorem call_below {α : Type} {b : Outbox} {x y : Prog α} {value : α → Int} {n : Int}
    (hxy : Program.Below x y) (h : (b.call x value).1 = .ok n) :
    b.call y value = b.call x value := by
  unfold Outbox.call at h ⊢
  cases hopen : b.isOpen with
  | false => rfl
  | true =>
    cases hrun : x.run b.db with
    | error e db => simp [hopen, hrun] at h
    | ok a db => simp [hxy _ _ _ hrun]

/-- A successful call does what it does when no statement fails. -/
theorem Outbox.exec_withoutFaults {b : Outbox} {op : Op} {n : Int} (h : b.reply op = .ok n) :
    b.exec op.withoutFaults = b.exec op := by
  cases op with
  | insertPending lim rec now fault => exact call_below insertPending_below h
  | markInFlight id now fault => exact call_below markInFlight_below h
  | markAcked id now fault => exact call_below markAcked_below h
  | markRetry id next error now fault => exact call_below updateOne_below h
  | markDead id error now fault => exact call_below updateOne_below h
  | retryDead id now₁ now₂ fault => exact call_below updateOne_below h
  | requeueInFlight now₁ now₂ fault => exact call_below requeueInFlight_below h
  | expireTtl now ttl fault =>
    by_cases httl : ttl ≤ 0
    · simp [Op.withoutFaults, Outbox.exec, httl]
    · simp only [Outbox.reply, Outbox.exec, httl, if_false] at h
      simp only [Op.withoutFaults, Outbox.exec, httl, if_false]
      exact call_below expireTtl_below h
  | openDb fault =>
    cases hopen : b.isOpen with
    | true => simp [Op.withoutFaults, Outbox.exec, hopen]
    | false =>
      cases hrun : (EventKafka.openDb fault).run b.db with
      | error e db => simp [Outbox.reply, Outbox.exec, hopen, hrun] at h
      | ok u db =>
        simp [Op.withoutFaults, Outbox.exec, hopen, hrun, openDb_below _ _ _ hrun]
  | close => rfl

/-! ## What a success commits -/

/-- The call is its one `UPDATE`. -/
def Outbox.Rewrites (b : Outbox) (op : Op) (db' : Db) : Prop :=
  ∃ w, op.rewrite = some w ∧ db' = b.db.updateOutbox (w.selects b.db) w.set

/-- The effect of each call. -/
def Outbox.Commits (b : Outbox) (op : Op) (db' : Db) : Prop :=
  match op with
  | .insertPending lim rec now _ =>
    ∃ seq dn base, Admission lim rec now b.db db' seq dn base ∧
      b.assignedSequence op = if rec.callUuid = "" then -1 else seq
  | .markInFlight id now _ =>
    ∃ r ∈ b.db.outbox, sendable id b.db r = true ∧ db' = b.db.sent r now
  | .markAcked id now _ =>
    ∃ r ∈ b.db.outbox, r.eventId = id ∧ r.state = .inFlight ∧ db' = b.db.acked r now
  -- without a limit, and on a file that is open already, there is nothing to do
  | .expireTtl _ ttl _ => if ttl ≤ 0 then db' = b.db else b.Rewrites op db'
  | .openDb _ => if b.isOpen = true then db' = b.db else b.Rewrites op db'
  | .close => db' = b.db
  | _ => b.Rewrites op db'

/-- A call that is an `UPDATE` and cannot be idle makes it. -/
theorem Outbox.rewrites_of_effect {b : Outbox} {op : Op} {w : Rewrite} {n : Int}
    (hop : op.rewrite = some w) (hbusy : op.passive = false) (h : b.reply op = .ok n) :
    b.Rewrites op (b.step op).db := by
  cases b.effect op with
  | same _ hidle =>
    rw [hidle n h] at hbusy
    cases hbusy
  | rewritten hw _ hdb => exact ⟨_, hw, hdb⟩
  | admitted heq | sent heq | acked heq =>
    rw [heq] at hop
    cases hop

/-- With a limit an expiry is its `UPDATE`. -/
theorem Outbox.rewrites_expireTtl {b : Outbox} {now ttl n : Int} {fault : FaultPlan}
    (httl : ¬ ttl ≤ 0) (h : b.reply (.expireTtl now ttl fault) = .ok n) :
    b.Rewrites (.expireTtl now ttl fault) (b.step (.expireTtl now ttl fault)).db := by
  have hexec : b.exec (.expireTtl now ttl fault) = (.ok n, b.step (.expireTtl now ttl fault)) :=
    Prod.ext h rfl
  simp only [Outbox.exec, httl, if_false] at hexec
  rcases call_ok hexec with ⟨_, hrun, -⟩
  exact ⟨_, rfl, (expireTtl_ok hrun).2⟩

/-- A file that was closed is stamped. -/
theorem Outbox.rewrites_openDb {b : Outbox} {n : Int} {fault : FaultPlan}
    (hclosed : ¬ b.isOpen = true) (h : b.reply (.openDb fault) = .ok n) :
    b.Rewrites (.openDb fault) (b.step (.openDb fault)).db := by
  cases hrun : (EventKafka.openDb fault).run b.db with
  | error e db => simp [Outbox.reply, Outbox.exec, hclosed, hrun] at h
  | ok u db =>
    have hdb : (b.step (.openDb fault)).db = db := by
      simp [Outbox.step, Outbox.exec, hclosed, hrun]
    rw [hdb]
    exact ⟨_, rfl, openDb_ok hrun⟩

/-- A success commits the effect of its call, and nothing else. -/
theorem Outbox.commits {b : Outbox} {op : Op} {n : Int} (hreply : b.reply op = .ok n) :
    b.Commits op (b.step op).db := by
  cases op with
  | expireTtl now ttl fault =>
    by_cases httl : ttl ≤ 0
    · simp [Outbox.Commits, Outbox.step, Outbox.exec, httl]
    · rw [Outbox.Commits, if_neg httl]
      exact Outbox.rewrites_expireTtl httl hreply
  | openDb fault =>
    by_cases hopen : b.isOpen = true
    · simp [Outbox.Commits, Outbox.step, Outbox.exec, hopen]
    · rw [Outbox.Commits, if_neg hopen]
      exact Outbox.rewrites_openDb hopen hreply
  | close => rfl
  | insertPending lim rec now fault =>
    cases b.effect (.insertPending lim rec now fault) with
    | same _ hidle => cases hidle n hreply
    | admitted hop hok h =>
      cases hop
      exact ⟨_, _, _, h, by simp [Outbox.assignedSequence, hok]⟩
    | sent hop | acked hop | rewritten hop => cases hop
  | markInFlight id now fault =>
    cases b.effect (.markInFlight id now fault) with
    | same _ hidle => cases hidle n hreply
    | sent hop _ hr hsend _ h =>
      cases hop
      exact ⟨_, hr, hsend, h⟩
    | admitted hop | acked hop | rewritten hop => cases hop
  | markAcked id now fault =>
    cases b.effect (.markAcked id now fault) with
    | same _ hidle => cases hidle n hreply
    | acked hop _ hr hid hstate _ h =>
      cases hop
      exact ⟨_, hr, hid, hstate, h⟩
    | admitted hop | sent hop | rewritten hop => cases hop
  | markRetry id next error now fault | markDead id error now fault
  | retryDead id now₁ now₂ fault | requeueInFlight now₁ now₂ fault =>
    exact Outbox.rewrites_of_effect rfl rfl hreply

/-- Every transition is all-or-nothing, for every database, every argument and
every choice of failing statements: a reported failure leaves all four tables as
they were and `assigned_sequence` at -1, a reported success is the call as it
runs when nothing fails, and commits its effect whole. -/
theorem transition_all_or_nothing (b : Outbox) (op : Op) :
    (∀ e, b.reply op = .error e →
      (b.step op).db = b.db ∧ b.assignedSequence op = -1) ∧
    (∀ n, b.reply op = .ok n →
      b.reply op.withoutFaults = .ok n ∧ (b.step op).db = (b.step op.withoutFaults).db ∧
        b.Commits op (b.step op).db) := by
  constructor
  · intro e he
    have hexec : b.exec op = (.error e, b.step op) := Prod.ext he rfl
    refine ⟨Outbox.exec_error hexec, ?_⟩
    cases op <;> simp [Outbox.assignedSequence, he]
  · intro n hn
    have hsame := Outbox.exec_withoutFaults hn
    refine ⟨?_, ?_, Outbox.commits hn⟩
    · rw [Outbox.reply, hsame]
      exact hn
    · rw [Outbox.step, Outbox.step, hsame]

end EventKafka
