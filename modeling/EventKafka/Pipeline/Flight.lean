import EventKafka.Pipeline.Barrier

/-! # Who has a row in flight

`Linked` says that a message that waits for its report has its row in flight. This is
the other direction: while the pipeline runs, a row in flight is in the worker's hand or
waits for exactly one report of the current producer. So none is left behind that only a
restart would send again. Between the end of a producer and the requeue that follows it
there is nothing to wait for; every other way to lose a report stops the pipeline.
-/

namespace EventKafka

open Sql

/-! ## Rows that are still in flight after a call -/

section Calls

variable {b b' : Outbox} {op : Op} {n : Int}

/-- Only `mark_in_flight` puts a row in flight. -/
theorem Outbox.flight_back {r' : Row} (hr' : r' ∈ (b.step op).db.outbox)
    (hstate : r'.state = .inFlight) :
    (∃ r ∈ b.db.outbox, r.eventId = r'.eventId ∧ r.state = .inFlight) ∨
      ∃ now fault, op = .markInFlight r'.eventId now fault := by
  cases b.effect op with
  | same h =>
    rw [h] at hr'
    exact Or.inl ⟨r', hr', rfl, hstate⟩
  | admitted _ _ h =>
    rcases h.mem_outbox.mp hr' with hbase | rfl
    · exact Or.inl ⟨r', h.room.mem_of_mem hbase, rfl, hstate⟩
    · cases hstate
  | @sent id now fault r hop _ _ hsend _ h =>
    rw [h] at hr'
    rcases Db.mem_updateOutbox.mp hr' with ⟨q, hq, heq⟩
    by_cases hid : q.eventId = r.eventId
    · right
      have hq' : r'.eventId = id := by
        rw [heq, ← (sendable_iff.mp hsend).1, ← hid]
        split <;> rfl
      exact ⟨now, fault, hq' ▸ hop⟩
    · left
      simp only [hid, decide_false, Bool.false_eq_true, if_false] at heq
      exact ⟨q, hq, by rw [heq], by rw [← heq]; exact hstate⟩
  | acked _ _ _ _ _ _ h =>
    rw [h] at hr'
    rcases Db.mem_acked_outbox.mp hr' with ⟨q, hq, -, rfl⟩
    exact Or.inl ⟨q, hq, by simp, by simpa using hstate⟩
  | @rewritten w m hop _ h =>
    left
    rw [h] at hr'
    rcases Db.mem_updateOutbox.mp hr' with ⟨q, hq, heq⟩
    by_cases hsel : w.selects b.db q = true
    · -- no other `SET` writes this state
      simp only [hsel, if_true] at heq
      refine ⟨q, hq, by rw [heq], ?_⟩
      rw [heq] at hstate
      cases op <;> cases hop <;> first | exact hstate | cases hstate
    · simp only [hsel, Bool.false_eq_true, if_false] at heq
      exact ⟨q, hq, by rw [heq], by rw [← heq]; exact hstate⟩

/-- A requeue leaves nothing in flight. -/
theorem landed_of_requeue {now₁ now₂ : Int} {fault : FaultPlan}
    (h : b.exec (.requeueInFlight now₁ now₂ fault) = (.ok n, b')) {r : Row}
    (hr : r ∈ b'.db.outbox) : r.state ≠ .inFlight := by
  rcases call_ok h with ⟨_, hrun, -⟩
  rw [requeueInFlight_ok hrun] at hr
  rcases Db.mem_updateOutbox.mp hr with ⟨q, -, rfl⟩
  by_cases hq : q.state = .inFlight
  · simp [hq]
  · simp [hq]

/-- An acknowledged event has no row. -/
theorem landed_of_markAcked {id : String} {now : Int} {fault : FaultPlan}
    (h : b.exec (.markAcked id now fault) = (.ok n, b')) {r : Row} (hr : r ∈ b'.db.outbox) :
    r.eventId ≠ id := by
  rcases call_ok h with ⟨_, hrun, -⟩
  rcases markAcked_ok hrun with ⟨q, -, hid, -, -, hdb⟩
  rw [hdb] at hr
  rcases Db.mem_acked_outbox.mp hr with ⟨q₀, -, hne, rfl⟩
  simpa [← hid] using hne

/-- A settled event is pending or dead. -/
theorem landed_of_verdict {verdict : Verdict} {id why : String} {env : Env}
    (h : b.exec (verdict.op id why env) = (.ok n, b')) {r : Row} (hr : r ∈ b'.db.outbox)
    (hstate : r.state = .inFlight) : r.eventId ≠ id := by
  rintro rfl
  cases verdict with
  | dead =>
    rcases call_ok h with ⟨_, hrun, -⟩
    rw [(updateOne_ok hrun).2] at hr
    rcases Db.mem_updateOutbox.mp hr with ⟨q, -, heq⟩
    split at heq
    · rw [heq] at hstate
      cases hstate
    · rename_i hsel
      subst heq
      simp [hstate] at hsel
  | retry attempts =>
    rcases call_ok h with ⟨_, hrun, -⟩
    rw [(updateOne_ok hrun).2] at hr
    rcases Db.mem_updateOutbox.mp hr with ⟨q, -, heq⟩
    split at heq
    · rw [heq] at hstate
      cases hstate
    · rename_i hsel
      subst heq
      simp [hstate] at hsel

end Calls

/-! ## The invariant -/

/-- The event is in the worker's hand, or a report on it is owed. -/
def Pipeline.Carried (s : Pipeline) (id : String) : Prop :=
  s.worker.holding = some id ∨ ∃ i m, s.Owes i m ∧ m.record.eventId = id

/-- While the pipeline runs, and unless it is making a new producer, it has one, and every
row in flight is carried. -/
structure Covered (s : Pipeline) : Prop where
  producer : s.running = true → s.worker ≠ .rebuildReset → s.producer ≠ none
  rows : s.running = true → s.worker ≠ .rebuildReset →
    ∀ r ∈ s.outbox.db.outbox, r.state = .inFlight → s.Carried r.eventId

section Covered

variable {kafka : Kafka} {s s' : Pipeline} {env : Env}

theorem Covered.halted (h : s.running = false) : Covered s := by
  constructor
  · intro hrun
    rw [h] at hrun
    cases hrun
  · intro hrun
    rw [h] at hrun
    cases hrun

/-- Nothing the invariant speaks of has changed, but perhaps the phase of the worker. -/
theorem Covered.of_eq (h : Covered s) (hrun : s'.running = s.running)
    (hback : ∀ r ∈ s'.outbox.db.outbox, r.state = .inFlight →
      ∃ q ∈ s.outbox.db.outbox, q.eventId = r.eventId ∧ q.state = .inFlight)
    (hreset : s.worker ≠ .rebuildReset) (hhold : s'.worker.holding = s.worker.holding)
    (hmessages : s'.messages = s.messages) (hproducer : s'.producer = s.producer) :
    Covered s' where
  producer := fun hrun' _ => hproducer ▸ h.producer (hrun ▸ hrun') hreset
  rows := by
    intro hrun' _ r hr hstate
    rcases hback r hr hstate with ⟨q, hq, hid, hqs⟩
    rw [← hid]
    rcases h.rows (hrun ▸ hrun') hreset q hq hqs with hheld | ⟨i, m, howes, hmid⟩
    · exact Or.inl (hhold ▸ hheld)
    · exact Or.inr ⟨i, m, ⟨hmessages ▸ howes.1, howes.2.1, hproducer ▸ howes.2.2⟩, hmid⟩

theorem back_refl (b : Outbox) : ∀ r ∈ b.db.outbox, r.state = .inFlight →
    ∃ q ∈ b.db.outbox, q.eventId = r.eventId ∧ q.state = .inFlight :=
  fun r hr hstate => ⟨r, hr, rfl, hstate⟩

theorem back_of_exec {b b' : Outbox} {op : Op} {reply : Except String Int}
    (h : b.exec op = (reply, b')) (hmark : ∀ id now fault, op ≠ .markInFlight id now fault) :
    ∀ r ∈ b'.db.outbox, r.state = .inFlight →
      ∃ q ∈ b.db.outbox, q.eventId = r.eventId ∧ q.state = .inFlight := by
  have hstep : b.step op = b' := congrArg Prod.snd h
  intro r hr hstate
  rw [← hstep] at hr
  rcases Outbox.flight_back hr hstate with hold | ⟨now, fault, hop⟩
  · exact hold
  · exact absurd hop (hmark _ _ _)

/-- The head of the batch is marked: it is in hand, and what was in flight is owed. -/
theorem Covered.claimed {rec : OutboxRecord} {rest : List OutboxRecord} {now n : Int}
    {fault : FaultPlan} {b : Outbox} (h : Covered s) (hw : s.worker = .batch (rec :: rest))
    (hexec : s.outbox.exec (.markInFlight rec.eventId now fault) = (.ok n, b)) :
    Covered { s with outbox := b, worker := .produce rec rest } := by
  refine ⟨fun hrun _ => h.producer hrun (by simp [hw]), ?_⟩
  intro hrun _ r hr hstate
  have hstep : s.outbox.step (.markInFlight rec.eventId now fault) = b := congrArg Prod.snd hexec
  have hr' : r ∈ (s.outbox.step (.markInFlight rec.eventId now fault)).db.outbox := hstep ▸ hr
  rcases Outbox.flight_back hr' hstate with ⟨q, hq, hid, hqs⟩ | ⟨now', fault', hop⟩
  · rw [← hid]
    rcases h.rows hrun (by simp [hw]) q hq hqs with hheld | ⟨i, m, howes, hmid⟩
    · simp [hw, Worker.holding] at hheld
    · exact Or.inr ⟨i, m, howes, hmid⟩
  · left
    rw [Op.markInFlight.injEq] at hop
    exact congrArg some hop.1

/-- The record in hand is handed over, and its report is owed from now on. -/
theorem Covered.produced {rec : OutboxRecord} {rest : List OutboxRecord} {g : Nat}
    (h : Covered s) (hw : s.worker = .produce rec rest) (hg : s.producer = some g) :
    Covered { s with messages := s.messages ++ [s.message rec g], worker := .batch rest } := by
  refine ⟨fun hrun _ => h.producer hrun (by simp [hw]), ?_⟩
  intro hrun _ r hr hstate
  right
  rcases h.rows hrun (by simp [hw]) r hr hstate with hheld | ⟨i, m, howes, hmid⟩
  · rw [hw] at hheld
    refine ⟨s.messages.length, s.message rec g, ⟨?_, rfl, hg⟩, Option.some.inj hheld⟩
    exact List.getElem?_concat_length
  · refine ⟨i, m, ⟨?_, howes.2⟩, hmid⟩
    have hlt := (List.getElem?_eq_some_iff.mp howes.1).1
    exact (List.getElem?_append_left hlt).trans howes.1

/-- The event in hand is settled, and what else is in flight is owed. -/
theorem Covered.settled {id why : String} {verdict : Verdict} {rest : List OutboxRecord} {n : Int}
    {b : Outbox} (h : Covered s) (hw : s.worker = .settleMark id why verdict rest)
    (hexec : s.outbox.exec (verdict.op id why env) = (.ok n, b)) :
    Covered { s with outbox := b, worker := .batch rest } := by
  refine ⟨fun hrun _ => h.producer hrun (by simp [hw]), ?_⟩
  intro hrun _ r hr hstate
  have hne := landed_of_verdict hexec hr hstate
  have hmark : ∀ id' now fault, verdict.op id why env ≠ .markInFlight id' now fault := by
    cases verdict <;> simp [Verdict.op]
  rcases back_of_exec hexec hmark r hr hstate with ⟨q, hq, hid, hqs⟩
  rw [← hid] at hne ⊢
  rcases h.rows hrun (by simp [hw]) q hq hqs with hheld | hcarried
  · rw [hw] at hheld
    exact absurd (Option.some.inj hheld).symm hne
  · exact Or.inr hcarried

theorem Covered.work (h : Covered s) : Covered (s.work kafka env) := by
  unfold Pipeline.work
  cases hw : s.worker with
  | idle => exact h
  | finished => exact h
  | loop =>
    have hreset : s.worker ≠ .rebuildReset := by simp [hw]
    simp only
    repeat' split
    all_goals
      refine h.of_eq rfl (back_refl _) hreset ?_ rfl rfl
      rw [hw]
      rfl
  | rebuildFlush => exact ⟨fun _ hreset => absurd rfl hreset, fun _ hreset => absurd rfl hreset⟩
  | rebuildReset =>
    rcases hexec : s.outbox.exec (.requeueInFlight (env.clock 0) (env.clock 1) env.fault) with
      ⟨reply, b⟩
    cases reply with
    | error e => exact .halted rfl
    | ok n =>
      simp only
      split
      · exact ⟨by simp, fun _ _ r hr hstate => absurd hstate (landed_of_requeue hexec hr)⟩
      · exact .halted rfl
  | check =>
    have hreset : s.worker ≠ .rebuildReset := by simp [hw]
    simp only
    split
    all_goals
      refine h.of_eq rfl (back_refl _) hreset ?_ rfl rfl
      rw [hw]
      rfl
  | expire =>
    rcases hexec : s.outbox.exec (.expireTtl (env.clock 0) s.cfg.outboxTtlMs env.fault) with
      ⟨reply, b⟩
    cases reply with
    | error e => exact .halted rfl
    | ok n =>
      refine h.of_eq rfl (back_of_exec hexec (by simp)) (by simp [hw]) ?_ rfl rfl
      rw [hw]
      rfl
  | fetch now =>
    simp only
    split
    · exact .halted rfl
    · refine h.of_eq rfl (back_refl _) (by simp [hw]) ?_ rfl rfl
      rw [hw]
      rfl
  | batch due =>
    have hreset : s.worker ≠ .rebuildReset := by simp [hw]
    cases due with
    | nil =>
      refine h.of_eq rfl (back_refl _) hreset ?_ rfl rfl
      rw [hw]
      rfl
    | cons rec rest =>
      simp only
      split
      · refine h.of_eq rfl (back_refl _) hreset ?_ rfl rfl
        rw [hw]
        rfl
      · rcases hexec : s.outbox.exec (.markInFlight rec.eventId (env.clock 0) env.fault) with
          ⟨reply, b⟩
        cases reply with
        | error e => exact .halted rfl
        | ok n => exact h.claimed hw hexec
  | produce rec rest =>
    simp only
    split
    · rename_i hsent
      cases hg : s.producer with
      | none => simp [produceError, hg] at hsent
      | some g =>
        refine (h.produced hw hg).of_eq rfl (back_refl _) (by simp) rfl ?_ ?_
        · simp [Pipeline.message]
        · exact hg.symm
    · refine h.of_eq rfl (back_refl _) (by simp [hw]) ?_ rfl rfl
      rw [hw]
      rfl
  | settle id why permanent rest =>
    simp only
    split
    · exact .halted rfl
    · exact .halted rfl
    · refine h.of_eq rfl (back_refl _) (by simp [hw]) ?_ rfl rfl
      rw [hw]
      rfl
  | settleMark id why verdict rest =>
    simp only
    rcases hexec : s.outbox.exec (verdict.op id why env) with ⟨reply, b⟩
    cases reply with
    | error e => exact .halted rfl
    | ok n => exact (h.settled hw hexec).of_eq rfl (back_refl _) (by simp) rfl rfl rfl
  | poll =>
    refine h.of_eq rfl (back_refl _) (by simp [hw]) ?_ rfl rfl
    rw [hw]
    rfl
  | drain =>
    refine h.of_eq rfl (back_refl _) (by simp [hw]) ?_ rfl rfl
    rw [hw]
    rfl

/-! ## The callback and the other threads -/

/-- A report was handled: its event has landed, and the other reports are still owed. -/
theorem Covered.returned {i : ℕ} {b : Outbox} (h : Covered s)
    (hback : ∀ r ∈ b.db.outbox, r.state = .inFlight →
      ∃ q ∈ s.outbox.db.outbox, q.eventId = r.eventId ∧ q.state = .inFlight)
    (hlanded : ∀ r ∈ b.db.outbox, r.state = .inFlight → r.eventId ≠ s.opaqueId i) :
    Covered ({ s with outbox := b }.returned i) := by
  refine ⟨h.producer, ?_⟩
  intro hrun hreset r hr hstate
  rcases hback r hr hstate with ⟨q, hq, hid, hqs⟩
  have hne := hlanded r hr hstate
  rw [← hid] at hne ⊢
  rcases h.rows hrun hreset q hq hqs with hheld | ⟨j, m, howes, hmid⟩
  · exact Or.inl hheld
  · right
    have hji : i ≠ j := by
      rintro rfl
      rw [Pipeline.opaqueId_of howes.1] at hne
      exact hne hmid.symm
    refine ⟨j, m, ⟨?_, howes.2⟩, hmid⟩
    simp only [Pipeline.returned, List.getElem?_modify, hji, if_false]
    simpa using howes.1

theorem Covered.callback (h : Covered s) :
    Covered (s.step kafka (.callback env)) := by
  simp only [Pipeline.step]
  unfold Pipeline.deliver
  cases hcb : s.callback with
  | none => exact h
  | some cb =>
    cases cb with
    | ack i =>
      simp only
      rcases hexec : s.outbox.exec (.markAcked (s.opaqueId i) (env.clock 0) env.fault) with
        ⟨reply, b⟩
      cases reply with
      | error e => exact .halted rfl
      | ok n =>
        have hdone := h.returned (back_of_exec hexec (by simp))
          fun r hr _ => landed_of_markAcked hexec hr
        exact ⟨hdone.producer, hdone.rows⟩
    | settle i why permanent =>
      simp only
      cases s.outbox.judge s.cfg.maxAttemptsBeforeDead (s.opaqueId i) permanent env.fault with
      | error e => exact .halted rfl
      | ok found =>
        cases found with
        | none => exact .halted rfl
        | some verdict => exact ⟨h.producer, h.rows⟩
    | settleMark i why verdict =>
      simp only
      have hmark : ∀ id' now fault,
          verdict.op (s.opaqueId i) why env ≠ .markInFlight id' now fault := by
        cases verdict <;> simp [Verdict.op]
      rcases hexec : s.outbox.exec (verdict.op (s.opaqueId i) why env) with ⟨reply, b⟩
      cases reply with
      | error e => exact .halted rfl
      | ok n =>
        have hdone := h.returned (back_of_exec hexec hmark)
          fun r hr hstate => landed_of_verdict hexec hr hstate
        exact ⟨hdone.producer, hdone.rows⟩

theorem Covered.step (h : Covered s) (hlinked : Linked s) (hsession : Session s) (act : Act) :
    Covered (s.step kafka act) := by
  cases act with
  | create cfg =>
    simp only [Pipeline.step, Pipeline.create]
    split
    · exact .halted rfl
    · exact h
  | start env =>
    simp only [Pipeline.step]
    cases start_cases s env with
    | refused _ heq =>
      rw [heq]
      exact h
    | failed _ _ hrun heq =>
      rw [heq]
      exact .halted hrun
    | started _ _ _ _ hreq heq =>
      -- a session starts with a requeue
      rw [heq]
      exact ⟨by simp, fun _ _ r hr hstate => absurd hstate (landed_of_requeue hreq hr)⟩
  | enqueue args env =>
    simp only [Pipeline.step, Pipeline.enqueue]
    split
    · exact h
    · rcases hexec : s.outbox.exec (.insertPending s.cfg.limits
          (args.toRecord s.cfg (env.clock 0)) (env.clock 1) env.fault) with ⟨reply, b⟩
      have hstored : Covered { s with outbox := b } := by
        refine ⟨h.producer, ?_⟩
        intro hrun hreset r hr hstate
        rcases back_of_exec hexec (by simp) r hr hstate with ⟨q, hq, hid, hqs⟩
        rw [← hid]
        exact h.rows hrun hreset q hq hqs
      cases reply <;> exact ⟨hstored.producer, hstored.rows⟩
  | requestRebuild => exact ⟨h.producer, h.rows⟩
  | stop =>
    simp only [Pipeline.step, Pipeline.stop]
    split
    · exact h
    · exact .halted rfl
  | joined =>
    simp only [Pipeline.step, Pipeline.joined]
    split
    · rename_i hguard
      -- whoever waits for the worker has stopped it
      refine .halted ?_
      by_contra hrun
      have := hsession.stopping (by simpa using hrun)
      simp [hguard.1] at this
    · exact h
  | work env =>
    simp only [Pipeline.step]
    split
    · exact h.work
    · exact h
  | report i err =>
    simp only [Pipeline.step, Pipeline.report, Pipeline.enter]
    split
    · exact h
    · cases err <;> exact ⟨h.producer, h.rows⟩
  | callback env => exact h.callback
  | append i partition =>
    simp only [Pipeline.step, Pipeline.append]
    split <;> exact ⟨h.producer, h.rows⟩
  | crash => exact .halted rfl
  | retryDead id env =>
    simp only [Pipeline.step, Pipeline.retryDead]
    split
    · exact h
    · rename_i hclosed
      have hstopped : s.running = false := by
        by_contra hrun
        exact hclosed (hlinked.opened (hsession.worker (by simpa using hrun)))
      rcases hexec : s.outbox.exec (.openDb env.fault) with ⟨reply, b⟩
      cases reply <;> exact .halted hstopped

end Covered

theorem covered_run (kafka : Kafka) (cfg : Config) (acts : List Act)
    (h : ∀ x ∈ Machine.trace (Pipeline.step kafka) (Pipeline.init cfg) acts,
      x.1.served x.2 = true) :
    Covered (Machine.run (Pipeline.step kafka) (Pipeline.init cfg) acts) := by
  refine (Machine.run_invariant_along (P := fun s act => s.served act = true)
    (I := fun s => Linked s ∧ Session s ∧ Covered s)
    ⟨Linked.init cfg, .halted ⟨rfl, rfl⟩, .halted rfl⟩ ?_ acts h).2.2
  rintro s act hserved ⟨hlinked, hsession, hcovered⟩
  exact ⟨hlinked.step hserved, hsession.step kafka act, hcovered.step hlinked hsession act⟩

/-- For every run in which reports are served as promised, and while the pipeline runs
with a producer: a row in flight is either in the worker's hand and waits for no report,
or it is not and waits for exactly one. What is in hand or waits for a report, running or
not, has its row in flight. -/
theorem flight_accounted (kafka : Kafka) (cfg : Config) (acts : List Act)
    (hserved : ∀ x ∈ Machine.trace (Pipeline.step kafka) (Pipeline.init cfg) acts,
      x.1.served x.2 = true) :
    let s := Machine.run (Pipeline.step kafka) (Pipeline.init cfg) acts
    (s.running = true → s.worker ≠ .rebuildReset →
      ∀ r ∈ s.outbox.db.outbox, r.state = .inFlight →
        s.worker.holding = some r.eventId ∧
          (¬ ∃ i m, s.Owes i m ∧ m.record.eventId = r.eventId) ∨
        s.worker.holding ≠ some r.eventId ∧
          ∃! i, ∃ m, s.Owes i m ∧ m.record.eventId = r.eventId) ∧
    (∀ i m, s.Owes i m → ∃ r ∈ s.outbox.db.outbox, m.record.Of r.toEvent ∧ r.state = .inFlight) ∧
    ∀ id, s.worker.holding = some id →
      ∃ r ∈ s.outbox.db.outbox, r.eventId = id ∧ r.state = .inFlight := by
  intro s
  have hlinked : Linked s := linked_run kafka cfg acts hserved
  have hcovered : Covered s := covered_run kafka cfg acts hserved
  refine ⟨?_, hlinked.owed, fun id hid => (hlinked.holding id hid).1⟩
  intro hrun hreset r hr hstate
  by_cases hheld : s.worker.holding = some r.eventId
  · refine Or.inl ⟨hheld, ?_⟩
    rintro ⟨i, m, howes, hmid⟩
    exact (hlinked.holding _ hheld).2 i m howes hmid
  · refine Or.inr ⟨hheld, ?_⟩
    rcases hcovered.rows hrun hreset r hr hstate with hno | ⟨i, m, howes, hmid⟩
    · exact absurd hno hheld
    · refine ⟨i, ⟨m, howes, hmid⟩, ?_⟩
      rintro j ⟨m', howes', hmid'⟩
      exact hlinked.owedOnce j i m' m howes' howes (hmid'.trans hmid.symm)

/-- One event waits for its report and the next one is in hand. -/
def secondInHand : List Act :=
  firstSend ++ [.enqueue ⟨"b", [], "key", "d", -1⟩ sampleEnv] ++
    List.replicate 6 (.work sampleEnv)

/-- Both rows are in flight: one is in hand, the other is owed a report. -/
theorem flight_accounted_second :
    let s := Machine.run (Pipeline.step sampleKafka) (Pipeline.init (sampleConfig "events"))
      secondInHand
    s.running = true ∧ s.worker.holding = some "b" ∧
      (∀ r ∈ s.outbox.db.outbox, r.state = .inFlight) ∧
      ∀ r ∈ s.outbox.db.outbox, r.state = .inFlight →
        s.worker.holding = some r.eventId ∧
          (¬ ∃ i m, s.Owes i m ∧ m.record.eventId = r.eventId) ∨
        s.worker.holding ≠ some r.eventId ∧
          ∃! i, ∃ m, s.Owes i m ∧ m.record.eventId = r.eventId := by
  intro s
  have hrun : s.running = true := by decide +kernel
  have hreset : s.worker ≠ .rebuildReset := by decide +kernel
  have hflight : ∀ r ∈ s.outbox.db.outbox.rows, r.state = .inFlight := by decide +kernel
  exact ⟨hrun, by decide +kernel, hflight,
    (flight_accounted sampleKafka _ secondInHand (by decide +kernel)).1 hrun hreset⟩

end EventKafka
