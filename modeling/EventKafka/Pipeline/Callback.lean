import EventKafka.Pipeline.Model

/-! # The delivery callback under storage faults

`on_delivery` from its entry to its return, whatever statements of `mark_acked`,
`get`, `mark_dead` and `mark_retry` fail. The marks report a failure by their
return value, and `on_delivery` then stops the pipeline. `get` does not: it throws,
`settle_send_failure` does not catch, and the exception leaves the callback.
-/

namespace EventKafka

open Sql

/-- `KafkaPipeline::on_delivery`: entry, and at most two calls of the outbox. An
error is an exception that reaches librdkafka. -/
def Pipeline.onDelivery (kafka : Kafka) (s : Pipeline) (i : Nat) (err : Option ErrCode)
    (env : Env) : Except String Pipeline := do
  let s₁ ← (s.enter kafka i err).deliver env
  s₁.deliver env

/-- The durable transition of the row `id` was made, in full: the acknowledgement
for a success, the retry or the dead letter for an error. -/
def Pipeline.Settled (s s' : Pipeline) (id : String) (err : Option ErrCode) : Prop :=
  ∃ op n, s.outbox.exec op = (.ok n, s'.outbox) ∧
    match err with
    | none => ∃ now fault, op = .markAcked id now fault
    | some _ => (∃ why now fault, op = .markDead id why now fault) ∨
        ∃ next why now fault, op = .markRetry id next why now fault

/-- No transition was made, and the pipeline accepts and sends nothing more. -/
structure Pipeline.FailStopped (s s' : Pipeline) : Prop where
  db : s'.outbox.db = s.outbox.db
  accept : s'.accept = false
  running : s'.running = false
  stateErrors : s'.metrics.stateErrors = s.metrics.stateErrors + 1

/-- `on_delivery` returned and kept its promise. -/
def Pipeline.Handles (kafka : Kafka) (s : Pipeline) (i : Nat) (err : Option ErrCode)
    (env : Env) : Prop :=
  ∃ s', s.onDelivery kafka i err env = .ok s' ∧
    (s.Settled s' (s.opaqueId i) err ∨ s.FailStopped s')

/-! ## The outbox calls -/

/-- `get` throws exactly when its `SELECT` fails. -/
theorem Outbox.get_eq {b : Outbox} {id : String} {fault : FaultPlan} :
    b.get id fault =
      if b.isOpen then
        match fault .getRow with
        | some e => .error e
        | none => .ok ((b.db.outbox.find? id).map record)
      else .ok none := by
  cases hopen : b.isOpen with
  | false => simp [Outbox.get, hopen]
  | true =>
    simp only [Outbox.get, hopen, if_true, getRecord, run_query]
    cases fault .getRow <;> rfl

/-- `settle_send_failure` passes the exception of `get` on. -/
theorem Outbox.judge_error {b : Outbox} {maxAttempts : Int} {id : String} {permanent : Bool}
    {fault : FaultPlan} {e : String} :
    b.judge maxAttempts id permanent fault = .error e ↔
      b.isOpen = true ∧ fault .getRow = some e := by
  rw [Outbox.judge, Outbox.get_eq]
  cases hopen : b.isOpen with
  | false => simp
  | true =>
    cases hf : fault .getRow with
    | some e' => simp
    | none =>
      cases b.db.outbox.find? id with
      | none => simp
      | some r =>
        simp only [if_true, Option.map_some]
        split
        · simp
        · split <;> simp

theorem Verdict.op_cases (verdict : Verdict) (id why : String) (env : Env) :
    (∃ why' now fault, verdict.op id why env = .markDead id why' now fault) ∨
      ∃ next why' now fault, verdict.op id why env = .markRetry id next why' now fault := by
  cases verdict with
  | dead => exact Or.inl ⟨_, _, _, rfl⟩
  | retry attempts => exact Or.inr ⟨_, _, _, _, rfl⟩

@[simp] theorem Metrics.settled_stateErrors (m : Metrics) (verdict : Verdict) :
    (m.settled verdict).stateErrors = m.stateErrors := by
  cases verdict <;> rfl

/-! ## One step of the callback -/

section Deliver

variable {s : Pipeline} {i : Nat} (env : Env)

theorem deliver_none (h : s.callback = none) : s.deliver env = .ok s := by
  simp [Pipeline.deliver, h]

theorem deliver_ack (h : s.callback = some (.ack i)) :
    ∃ s', s.deliver env = .ok s' ∧ s'.callback = none ∧
      (s.Settled s' (s.opaqueId i) none ∨ s.FailStopped s') := by
  simp only [Pipeline.deliver, h]
  rcases hexec : s.outbox.exec (.markAcked (s.opaqueId i) (env.clock 0) env.fault) with
    ⟨reply, b⟩
  cases reply with
  | ok n => exact ⟨_, rfl, rfl, Or.inl ⟨_, n, hexec, _, _, rfl⟩⟩
  | error e => exact ⟨_, rfl, rfl, Or.inr ⟨Outbox.exec_error hexec, rfl, rfl, rfl⟩⟩

theorem deliver_settleMark {why : String} {verdict : Verdict} {e : ErrCode}
    (h : s.callback = some (.settleMark i why verdict)) :
    ∃ s', s.deliver env = .ok s' ∧ s'.callback = none ∧
      (s.Settled s' (s.opaqueId i) (some e) ∨ s.FailStopped s') := by
  simp only [Pipeline.deliver, h]
  rcases hexec : s.outbox.exec (verdict.op (s.opaqueId i) why env) with ⟨reply, b⟩
  cases reply with
  | ok n => exact ⟨_, rfl, rfl, Or.inl ⟨_, n, hexec, verdict.op_cases _ _ _⟩⟩
  | error e => exact ⟨_, rfl, rfl, Or.inr ⟨Outbox.exec_error hexec, rfl, rfl, rfl⟩⟩

/-- The first half of a failure report: the exception of `get`, a row that is not
in flight, or a verdict. -/
theorem deliver_settle {why : String} {permanent : Bool}
    (h : s.callback = some (.settle i why permanent)) :
    (∃ e, s.deliver env = .error e ∧ s.outbox.isOpen = true ∧ env.fault .getRow = some e) ∨
      ((∃ s', s.deliver env = .ok s' ∧ s'.callback = none ∧ s.FailStopped s') ∧
        (s.outbox.isOpen = false ∨ env.fault .getRow = none)) ∨
      ((∃ verdict, s.deliver env =
          .ok { s with callback := some (.settleMark i why verdict) }) ∧
        (s.outbox.isOpen = false ∨ env.fault .getRow = none)) := by
  simp only [Pipeline.deliver, h]
  cases hjudge : s.outbox.judge s.cfg.maxAttemptsBeforeDead (s.opaqueId i) permanent env.fault with
  | error e => exact Or.inl ⟨e, rfl, Outbox.judge_error.mp hjudge⟩
  | ok found =>
    have hread : s.outbox.isOpen = false ∨ env.fault .getRow = none := by
      by_contra hno
      push Not at hno
      rcases Option.ne_none_iff_exists'.mp hno.2 with ⟨e, he⟩
      have hopen : s.outbox.isOpen = true := by simpa using hno.1
      rw [Outbox.judge_error.mpr ⟨hopen, he⟩] at hjudge
      cases hjudge
    cases found with
    | none => exact Or.inr (Or.inl ⟨⟨_, rfl, rfl, rfl, rfl, rfl, rfl⟩, hread⟩)
    | some verdict => exact Or.inr (Or.inr ⟨⟨verdict, rfl⟩, hread⟩)

/-- Entering the callback touches neither the outbox nor `state_errors`. -/
theorem handled_of_enter (kafka : Kafka) {err : Option ErrCode} {s' : Pipeline}
    (h : (s.enter kafka i err).Settled s' (s.opaqueId i) err ∨
      (s.enter kafka i err).FailStopped s') :
    s.Settled s' (s.opaqueId i) err ∨ s.FailStopped s' := by
  cases err with
  | none =>
    rcases h with hsettled | ⟨hdb, hacc, hrun, hmet⟩
    · exact Or.inl hsettled
    · exact Or.inr ⟨hdb, hacc, hrun, hmet⟩
  | some e =>
    rcases h with hsettled | ⟨hdb, hacc, hrun, hmet⟩
    · exact Or.inl hsettled
    · exact Or.inr ⟨hdb, hacc, hrun, hmet⟩

end Deliver

/-! ## The callback -/

/-- `on_delivery` returns with the row's transition made, or with the pipeline
stopped and the database unchanged, if and only if its report is a success, or the
outbox is closed, or the `SELECT` of `get` does not fail. -/
theorem on_delivery_handles_iff (kafka : Kafka) (s : Pipeline) (i : Nat) (err : Option ErrCode)
    (env : Env) :
    s.Handles kafka i err env ↔
      err = none ∨ s.outbox.isOpen = false ∨ env.fault .getRow = none := by
  cases err with
  | none =>
    refine iff_of_true ?_ (Or.inl rfl)
    -- one call, whose failure is a return value
    rcases deliver_ack env (s := s.enter kafka i none) rfl with ⟨s', hs', hcb, hdone⟩
    refine ⟨s', ?_, handled_of_enter kafka hdone⟩
    simp only [Pipeline.onDelivery, hs']
    exact deliver_none env hcb
  | some e =>
    rcases deliver_settle env (s := s.enter kafka i (some e)) rfl with
      ⟨text, hthrow, hopened, hfault⟩ | ⟨⟨s', hs', hcb, hstop⟩, hread⟩ | ⟨⟨verdict, hs'⟩, hread⟩
    · -- the exception of `get` leaves the callback
      constructor
      · rintro ⟨s', hs', -⟩
        simp only [Pipeline.onDelivery, hthrow] at hs'
        cases hs'
      · rintro (hnone | hclosed | hok)
        · simp at hnone
        · have hclosed' : (s.enter kafka i (some e)).outbox.isOpen = false := hclosed
          rw [hclosed'] at hopened
          simp at hopened
        · rw [hok] at hfault
          simp at hfault
    · -- the row is not in flight
      refine iff_of_true ⟨s', ?_, handled_of_enter kafka (Or.inr hstop)⟩ (Or.inr hread)
      simp only [Pipeline.onDelivery, hs']
      exact deliver_none env hcb
    · -- the row is marked, or the mark's failure is a return value
      rcases deliver_settleMark env (e := e)
          (s := { s.enter kafka i (some e) with
            callback := some (.settleMark i (kafka.err2str e) verdict) }) rfl with
        ⟨s', hs'', -, hdone⟩
      refine iff_of_true ⟨s', ?_, handled_of_enter kafka ?_⟩ (Or.inr hread)
      · simp only [Pipeline.onDelivery, hs']
        exact hs''
      · rcases hdone with ⟨op, n, hexec, hop⟩ | ⟨hdb, hacc, hrun, hmet⟩
        · exact Or.inl ⟨op, n, hexec, hop⟩
        · exact Or.inr ⟨hdb, hacc, hrun, hmet⟩

/-- The first message is reported as failed while the `SELECT` of `get` cannot be
run: the exception reaches librdkafka. -/
theorem on_delivery_throws :
    let s := Machine.run (Pipeline.step sampleKafka) (Pipeline.init (sampleConfig "events")) firstSend
    let env : Env :=
      { sampleEnv with fault := fun q => if q = .getRow then some "disk I/O error" else none }
    s.worker = .poll ∧ s.messages.length = 1 ∧
      ¬ s.Handles sampleKafka 0 (some (.other 1)) env := by
  intro s env
  refine ⟨by decide, by decide, ?_⟩
  rintro ⟨s', hs', -⟩
  have hthrow : s.onDelivery sampleKafka 0 (some (.other 1)) env = .error "disk I/O error" := by rfl
  rw [hthrow] at hs'
  cases hs'

end EventKafka
