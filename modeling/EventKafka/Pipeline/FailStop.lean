import EventKafka.Pipeline.Linked

/-! # No spurious fail-stop

The error branches of `worker_loop` and `on_delivery` stop the pipeline for good, so
they should be taken only when the storage or librdkafka failed. When neither does,
the link between rows and messages leaves no other way into them.
-/

namespace EventKafka

open Sql

/-- What the step meets, if it meets anything. -/
def Act.env : Act → Option Env
  | .start env => some env
  | .enqueue _ env => some env
  | .work env => some env
  | .callback env => some env
  | .retryDead _ env => some env
  | _ => none

/-- No SQL statement fails for a storage reason, and producers can be made. -/
def Act.Calm (act : Act) : Prop :=
  ∀ env, act.env = some env → env.fault = noFault ∧ env.producerOk = true

/-! ## The calls succeed -/

/-- `settle_send_failure` finds the row in flight. -/
theorem Outbox.judge_of_flying {b : Outbox} {id : String} (maxAttempts : Int) (permanent : Bool)
    (h : Flying b.db fun e => e.eventId = id) (hopen : b.isOpen = true) :
    ∃ verdict, b.judge maxAttempts id permanent noFault = .ok (some verdict) := by
  rcases h with ⟨r, hr, rfl, hstate⟩
  have hfind : b.db.outbox.find? r.eventId = some r := Table.find?_eq_some.mpr ⟨hr, rfl⟩
  have hrec : (record r).state = .inFlight := hstate
  rw [Outbox.judge, Outbox.get_eq]
  simp only [hopen, if_true, noFault, hfind, Option.map_some, hrec, ne_eq, not_true_eq_false,
    if_false]
  split
  · exact ⟨_, rfl⟩
  · exact ⟨_, rfl⟩

theorem verdict_enabled {b : Outbox} {id why : String} {env : Env} (verdict : Verdict)
    (h : Flying b.db fun e => e.eventId = id) (hopen : b.isOpen = true)
    (hcalm : env.fault = noFault) : ∃ n, b.reply (verdict.op id why env) = .ok n := by
  rcases h with ⟨r, hr, rfl, hstate⟩
  cases verdict with
  | dead => exact ⟨0, by rw [Verdict.op, hcalm]; exact markDead_enabled _ _ hopen hr hstate⟩
  | retry attempts =>
    exact ⟨0, by rw [Verdict.op, hcalm]; exact markRetry_enabled _ _ _ hopen hr hstate⟩

theorem fetchDue_enabled (b : Outbox) (now limit : Int) :
    ∃ recs, b.fetchDue now limit noFault = .ok recs := by
  unfold Outbox.fetchDue
  split
  · exact ⟨_, rfl⟩
  · exact ⟨_, rfl⟩

section Enabled

variable {s : Pipeline} {env : Env}

/-- Every call the worker makes succeeds. -/
theorem Linked.workCalls_ok (h : Linked s) (hfault : env.fault = noFault)
    (hturn : s.outbox.db.turn < int64Max) :
    ∀ op ∈ s.workCalls env, ∃ n, s.outbox.reply op = .ok n := by
  intro op hop
  have hopen : s.worker ≠ .idle → s.outbox.isOpen = true := h.opened
  cases workCalls_issues hop with
  | rebuild hw =>
    rw [hfault]
    exact ⟨0, requeueInFlight_enabled _ _ (hopen (by simp [hw]))⟩
  | expire hw =>
    rw [hfault]
    exact expireTtl_enabled _ _ (hopen (by simp [hw]))
  | @mark _ rec rest hw =>
    -- the record is still a pending head
    rcases h.waiting rec (by rw [hw]; exact List.mem_cons_self) with ⟨r, hr, hof, hstate, hdel⟩
    rw [hfault, hof.eventId]
    exact ⟨0, markInFlight_enabled _ (hopen (by simp [hw])) hr hstate hdel hturn⟩
  | @settle _ id why verdict rest hw =>
    -- and the event in hand is in flight
    exact verdict_enabled verdict (h.holding id (by rw [hw]; rfl)).1 (hopen (by simp [hw])) hfault
  | close => exact ⟨0, rfl⟩

theorem Linked.not_workerFails (h : Linked s) (hfault : env.fault = noFault)
    (hproducer : env.producerOk = true) (hturn : s.outbox.db.turn < int64Max) :
    ¬ WorkerFails s env := by
  intro hfails
  cases hfails with
  | call hop herr =>
    rcases h.workCalls_ok hfault hturn _ hop with ⟨n, hok⟩
    simp [hok] at herr
  | producer _ hno => simp [hproducer] at hno
  | @fetch now e _ herr =>
    rcases fetchDue_enabled s.outbox now 32 with ⟨recs, hok⟩
    rw [hfault, hok] at herr
    cases herr
  | @judge id why permanent rest hw hno =>
    rcases Outbox.judge_of_flying s.cfg.maxAttemptsBeforeDead permanent
      (h.holding id (by rw [hw]; rfl)).1 (h.opened (by simp [hw])) with ⟨verdict, hok⟩
    exact hno verdict (hfault ▸ hok)

/-- The row of the message a callback is about is in flight, on an open outbox. -/
theorem Linked.reported_flying (h : Linked s) {cb : Callback} (hcb : s.callback = some cb) :
    (Flying s.outbox.db fun e => e.eventId = s.opaqueId cb.message) ∧ s.outbox.isOpen = true := by
  rcases h.reporting cb hcb with ⟨hpoll, m, ho⟩
  constructor
  · rcases h.owed _ m ho with ⟨r, hr, hof, hstate⟩
    exact ⟨r, hr, by rw [Pipeline.opaqueId_of ho.1, hof.eventId], hstate⟩
  · apply h.opened
    intro hidle
    rw [hidle] at hpoll
    simp [Worker.polling] at hpoll

/-- Every call the callback makes succeeds. -/
theorem Linked.deliverCalls_ok (h : Linked s) (hfault : env.fault = noFault) :
    ∀ op ∈ s.deliverCalls env, ∃ n, s.outbox.reply op = .ok n := by
  intro op hop
  cases deliverCalls_issues hop with
  | @ack _ i hcb =>
    rcases h.reported_flying hcb with ⟨⟨r, hr, hid, hstate⟩, hopen⟩
    have hid' : s.opaqueId i = r.eventId := hid.symm
    rw [hfault, hid']
    exact ⟨0, markAcked_enabled _ h.store hopen hr hstate⟩
  | @settled _ i why verdict hcb =>
    rcases h.reported_flying hcb with ⟨hflying, hopen⟩
    exact verdict_enabled verdict hflying hopen hfault
  | close => exact ⟨0, rfl⟩

theorem Linked.not_callbackFails (h : Linked s) (hfault : env.fault = noFault) :
    ¬ CallbackFails s env := by
  intro hfails
  cases hfails with
  | call hop herr =>
    rcases h.deliverCalls_ok hfault _ hop with ⟨n, hok⟩
    simp [hok] at herr
  | @judge i why permanent hcb hno =>
    rcases h.reported_flying hcb with ⟨hflying, hopen⟩
    rcases Outbox.judge_of_flying s.cfg.maxAttemptsBeforeDead permanent hflying hopen with
      ⟨verdict, hok⟩
    exact hno verdict (hfault ▸ hok)

end Enabled

/-! ## The flags -/

/-- Without a failure the pipeline is brought down by `stop` only, or dies with its
process, and no error is counted. -/
theorem flags_step (kafka : Kafka) {s : Pipeline} {act : Act} (hsession : Session s)
    (hwork : ∀ env, act = .work env → ¬ WorkerFails s env)
    (hcallback : ∀ env, act = .callback env → ¬ CallbackFails s env) :
    (s.running = true → (s.step kafka act).running = true ∨ act = .stop ∨ act = .crash) ∧
      (s.metrics.stateErrors = 0 → (s.step kafka act).metrics.stateErrors = 0) := by
  have hsame : Unflagged s (s.step kafka act) →
      (s.running = true → (s.step kafka act).running = true ∨ act = .stop ∨ act = .crash) ∧
        (s.metrics.stateErrors = 0 → (s.step kafka act).metrics.stateErrors = 0) := fun h =>
    ⟨fun hr => Or.inl (h.running.trans hr), fun h0 => h.stateErrors.trans h0⟩
  cases act with
  | work env =>
    by_cases hcb : s.callback = none
    · have hstep : s.step kafka (.work env) = s.work kafka env := by simp [Pipeline.step, hcb]
      rcases work_flags kafka s env with hun | ⟨hfails, -⟩
      · exact hsame (hstep ▸ hun)
      · exact absurd hfails (hwork env rfl)
    · have hstep : s.step kafka (.work env) = s := by simp [Pipeline.step, hcb]
      apply hsame
      rw [hstep]
      exact Unflagged.refl s
  | callback env =>
    rcases callback_flags kafka s env with hun | ⟨hfails, -⟩
    · exact hsame hun
    · exact absurd hfails (hcallback env rfl)
  | create cfg =>
    simp only [Pipeline.step, Pipeline.create]
    split
    · -- nothing runs when a pipeline is made
      rename_i hidle
      exact ⟨fun hr => absurd hidle.1 (hsession.worker hr), fun _ => rfl⟩
    · exact ⟨fun hr => Or.inl hr, id⟩
  | start env =>
    simp only [Pipeline.step, Pipeline.start]
    repeat' split
    all_goals first | exact ⟨fun hr => Or.inl hr, id⟩ | exact ⟨fun _ => Or.inl rfl, id⟩
  | stop =>
    refine ⟨fun _ => Or.inr (Or.inl rfl), ?_⟩
    simp only [Pipeline.step, Pipeline.stop]
    split <;> exact id
  | crash => exact ⟨fun _ => Or.inr (Or.inr rfl), fun _ => rfl⟩
  | _ =>
    apply hsame
    simp only [Pipeline.step, Pipeline.enqueue, Pipeline.joined, Pipeline.report, Pipeline.enter,
      Pipeline.append, Pipeline.retryDead]
    repeat' split
    all_goals exact ⟨rfl, rfl, rfl⟩

/-! ## Every run -/

/-- A step of the pipeline in which no durable transition fails. -/
structure NoFailStop (kafka : Kafka) (s : Pipeline) (act : Act) : Prop where
  /-- A record whose turn in the batch has come is still a pending head. -/
  head : ∀ rec rest, s.worker = .batch (rec :: rest) → ∃ r ∈ s.outbox.db.outbox,
    r.eventId = rec.eventId ∧ r.state = .pending ∧ s.outbox.db.deliverable r.toEvent = true
  /-- Every call of the outbox by the worker and by `on_delivery` succeeds: each
  `mark_in_flight`, `mark_acked`, `mark_retry` and `mark_dead`. -/
  calls : ∀ env, act = .work env ∨ act = .callback env →
    ∀ op ∈ s.calls act, ∃ n, s.outbox.reply op = .ok n
  /-- `settle_send_failure` decides for Retry or Dead. -/
  workerSettles : ∀ env id why permanent rest, act = .work env →
    s.worker = .settle id why permanent rest →
      ∃ verdict, s.outbox.judge s.cfg.maxAttemptsBeforeDead id permanent env.fault =
        .ok (some verdict)
  callbackSettles : ∀ env i why permanent, act = .callback env →
    s.callback = some (.settle i why permanent) →
      ∃ verdict, s.outbox.judge s.cfg.maxAttemptsBeforeDead (s.opaqueId i) permanent env.fault =
        .ok (some verdict)
  /-- The flags fall through `stop` only, or with the process. -/
  running : s.running = true → (s.step kafka act).running = false → act = .stop ∨ act = .crash
  accept : s.accept = true → (s.step kafka act).accept = false → act = .stop ∨ act = .crash

theorem noFailStop_step {kafka : Kafka} {s : Pipeline} {act : Act} (h : Linked s)
    (hsession : Session s) (hcalm : act.Calm) (hturn : s.outbox.db.turn < int64Max) :
    NoFailStop kafka s act ∧
      (s.metrics.stateErrors = 0 → (s.step kafka act).metrics.stateErrors = 0) := by
  have hwork : ∀ env, act = .work env → ¬ WorkerFails s env := by
    rintro env rfl
    exact h.not_workerFails (hcalm env rfl).1 (hcalm env rfl).2 hturn
  have hcallback : ∀ env, act = .callback env → ¬ CallbackFails s env := by
    rintro env rfl
    exact h.not_callbackFails (hcalm env rfl).1
  rcases flags_step kafka hsession hwork hcallback with ⟨hrunning, herrors⟩
  have hrun : s.running = true → (s.step kafka act).running = false →
      act = .stop ∨ act = .crash := by
    intro hr hr'
    rcases hrunning hr with hon | hdown
    · simp [hon] at hr'
    · exact hdown
  refine ⟨?_, herrors⟩
  constructor
  case head =>
    intro rec rest hw
    rcases h.waiting rec (by rw [hw]; exact List.mem_cons_self) with ⟨r, hr, hof, hstate, hdel⟩
    exact ⟨r, hr, hof.eventId.symm, hstate, hdel⟩
  case calls =>
    rintro env (rfl | rfl) op hop
    · simp only [Pipeline.calls] at hop
      split at hop
      · exact h.workCalls_ok (hcalm env rfl).1 hturn op hop
      · simp at hop
    · exact h.deliverCalls_ok (hcalm env rfl).1 op hop
  case workerSettles =>
    intro env id why permanent rest hact hw
    by_contra hno
    push Not at hno
    exact hwork env hact (.judge hw hno)
  case callbackSettles =>
    intro env i why permanent hact hcb
    by_contra hno
    push Not at hno
    exact hcallback env hact (.judge hcb hno)
  case running => exact hrun
  case accept =>
    -- the two flags are one
    rw [hsession.accept, (hsession.step kafka act).accept]
    exact hrun

/-- In every run without storage faults, in which producers can be made, reports are
served as librdkafka promises and the scheduler's turn does not run out, no durable
transition fails: the error branches are not taken, and the pipeline stops only when
it is told to. -/
theorem no_spurious_fail_stop (kafka : Kafka) (cfg : Config) (acts : List Act)
    (hserved : ∀ x ∈ Machine.trace (Pipeline.step kafka) (Pipeline.init cfg) acts,
      x.1.served x.2 = true)
    (hcalm : ∀ act ∈ acts, act.Calm)
    (hturn : ∀ x ∈ Machine.trace (Pipeline.step kafka) (Pipeline.init cfg) acts,
      x.1.outbox.db.turn < int64Max) :
    (∀ x ∈ Machine.trace (Pipeline.step kafka) (Pipeline.init cfg) acts,
      NoFailStop kafka x.1 x.2) ∧
    (Machine.run (Pipeline.step kafka) (Pipeline.init cfg) acts).metrics.stateErrors = 0 := by
  -- the state each step meets is linked: it is reached by the steps before
  have hstep : ∀ x ∈ Machine.trace (Pipeline.step kafka) (Pipeline.init cfg) acts,
      NoFailStop kafka x.1 x.2 ∧
        (x.1.metrics.stateErrors = 0 →
          (x.1.step kafka x.2).metrics.stateErrors = 0) := by
    intro x hx
    rcases Machine.exists_prefix_of_mem_trace hx with ⟨pre, post, hacts, hrun⟩
    have hlinked : Linked x.1 := by
      rw [hrun]
      apply linked_run
      intro y hy
      apply hserved
      rw [hacts, Machine.trace_append]
      exact List.mem_append_left _ hy
    have hsession : Session x.1 := hrun ▸ session_run kafka cfg pre
    refine noFailStop_step hlinked hsession (hcalm x.2 ?_) (hturn x hx)
    rw [hacts]
    exact List.mem_append_right _ List.mem_cons_self
  refine ⟨fun x hx => (hstep x hx).1, ?_⟩
  exact Machine.run_invariant_along (I := fun s => s.metrics.stateErrors = 0)
    (P := fun s act => s.metrics.stateErrors = 0 → (s.step kafka act).metrics.stateErrors = 0)
    rfl (fun _ _ hP h0 => hP h0) acts (fun x hx => (hstep x hx).2)

/-- Nothing fails, a while later. -/
def laterEnv : Env := { sampleEnv with clock := fun _ => 5000 }

/-- The first message is reported as failed and its event sent again while a second
event is admitted; that message is acknowledged, the producer rebuilt, and the
pipeline stopped while the third message is out. -/
def retriedSend : List Act :=
  firstSend ++ [.report 0 (some (.other 1)), .callback sampleEnv, .callback sampleEnv] ++
    List.replicate 5 (.work laterEnv) ++ [.enqueue ⟨"b", [], "key", "c", -1⟩ laterEnv] ++
    List.replicate 3 (.work laterEnv) ++
    [.append 1 0, .report 1 none, .callback laterEnv, .requestRebuild] ++
    List.replicate 9 (.work laterEnv) ++ [.stop]

/-- Three messages were out, and no state error was counted. -/
theorem no_spurious_fail_stop_retried :
    let tr := Machine.trace (Pipeline.step sampleKafka) (Pipeline.init (sampleConfig "events"))
      retriedSend
    let s := Machine.run (Pipeline.step sampleKafka) (Pipeline.init (sampleConfig "events"))
      retriedSend
    (∀ x ∈ tr, x.1.served x.2 = true ∧ x.1.outbox.db.turn < int64Max) ∧
      (s.messages.length = 3 ∧ s.metrics.acked = 1 ∧ s.metrics.producerRebuilds = 1) ∧
      s.metrics.stateErrors = 0 := by
  intro tr s
  have hpromise : ∀ x ∈ tr, x.1.served x.2 = true ∧ x.1.outbox.db.turn < int64Max := by
    decide +kernel
  have henv : ∀ act ∈ retriedSend,
      act.env = none ∨ act.env = some sampleEnv ∨ act.env = some laterEnv := by
    simp [retriedSend, firstSend, Act.env, or_imp, forall_and]
  have hcalm : ∀ act ∈ retriedSend, act.Calm := by
    intro act hact env hsome
    rcases henv act hact with hno | hsample | hlater
    · simp [hno] at hsome
    · rw [hsample, Option.some.injEq] at hsome
      rw [← hsome]
      exact ⟨rfl, rfl⟩
    · rw [hlater, Option.some.injEq] at hsome
      rw [← hsome]
      exact ⟨rfl, rfl⟩
  exact ⟨hpromise, by decide +kernel,
    (no_spurious_fail_stop sampleKafka _ retriedSend (fun x hx => (hpromise x hx).1) hcalm
      (fun x hx => (hpromise x hx).2)).2⟩

end EventKafka
