import EventKafka.Outbox.Invariant
import EventKafka.Pipeline.Model

/-! # The outbox inside the pipeline

`Pipeline.calls` lists the outbox calls a step makes, and `step_outbox` says that
the outbox after the step is the outbox after these calls. So the outbox of a
pipeline run is itself a run of the outbox machine, and whatever was proved of
every run of that machine holds inside the pipeline: `storeInv_pipeline`.
-/

namespace EventKafka

/-- `open`, then `requeue_in_flight` if it opened, and `close` unless both
succeeded and a producer could be made. -/
def Pipeline.startCalls (s : Pipeline) (env : Env) : List Op :=
  let first := Op.openDb env.fault
  let second := Op.requeueInFlight (env.clock 0) (env.clock 1) env.fault
  match s.outbox.reply first, (s.outbox.step first).reply second with
  | .error _, _ => [first]
  | .ok _, .error _ => [first, second, .close]
  | .ok _, .ok _ => if env.producerOk then [first, second] else [first, second, .close]

/-- The call a step of the worker makes. -/
def Pipeline.workCalls (s : Pipeline) (env : Env) : List Op :=
  match s.worker with
  | .rebuildReset => [.requeueInFlight (env.clock 0) (env.clock 1) env.fault]
  | .expire => [.expireTtl (env.clock 0) s.cfg.outboxTtlMs env.fault]
  | .batch (rec :: _) =>
    if s.running = false ∨ s.rebuildRequested = true then []
    else [.markInFlight rec.eventId (env.clock 0) env.fault]
  | .settleMark id why verdict _ => [verdict.op id why env]
  | _ => []

/-- The call a step of the callback makes; an exception closes the outbox with the
process. -/
def Pipeline.deliverCalls (s : Pipeline) (env : Env) : List Op :=
  match s.callback with
  | none => []
  | some (.ack i) => [.markAcked (s.opaqueId i) (env.clock 0) env.fault]
  | some (.settle i _ permanent) =>
    match s.outbox.judge s.cfg.maxAttemptsBeforeDead (s.opaqueId i) permanent env.fault with
    | .error _ => [.close]
    | .ok _ => []
  | some (.settleMark i why verdict) => [verdict.op (s.opaqueId i) why env]

/-- The outbox calls of a step. -/
def Pipeline.calls (s : Pipeline) : Act → List Op
  | .start env =>
    if s.stopping = true ∨ s.worker ≠ .idle ∨ s.running = true then [] else s.startCalls env
  | .enqueue args env =>
    if s.stopping = true ∨ s.accept = false ∨ args.refused s.cfg = true then []
    else [.insertPending s.cfg.limits (args.toRecord s.cfg (env.clock 0)) (env.clock 1) env.fault]
  | .joined =>
    if s.stopping = true ∧ (s.worker = .idle ∨ s.worker = .finished) then [.close] else []
  | .work env => if s.callback = none then s.workCalls env else []
  | .callback env => s.deliverCalls env
  | .crash => [.close]
  | .retryDead id env =>
    if s.outbox.isOpen then []
    else
      match s.outbox.reply (.openDb env.fault) with
      | .error _ => [.openDb env.fault]
      | .ok _ =>
        [.openDb env.fault, .retryDead id (env.clock 0) (env.clock 1) env.fault, .close]
  | _ => []

/-! ## The calls are what the steps do -/

/-- `start` changes the outbox by the calls it makes. -/
theorem start_outbox (s : Pipeline) (env : Env)
    (h : ¬ (s.stopping = true ∨ s.worker ≠ .idle ∨ s.running = true)) :
    (s.start env).outbox = Machine.run Outbox.step s.outbox (s.startCalls env) := by
  simp only [Pipeline.start, if_neg h, Pipeline.startCalls, Outbox.reply, Outbox.step]
  rcases hopen : s.outbox.exec (.openDb env.fault) with ⟨reply, b⟩
  cases reply with
  | error e => simp [Outbox.step, hopen]
  | ok n =>
    rcases hreq : b.exec (.requeueInFlight (env.clock 0) (env.clock 1) env.fault) with ⟨reply, b'⟩
    cases reply with
    | error e => simp [Outbox.step, hopen, hreq]
    | ok m => cases hp : env.producerOk <;> simp [Outbox.step, hopen, hreq]

/-- A step of the worker changes it by the calls it makes. -/
theorem work_outbox (kafka : Kafka) (s : Pipeline) (env : Env) :
    (s.work kafka env).outbox = Machine.run Outbox.step s.outbox (s.workCalls env) := by
  unfold Pipeline.work Pipeline.workCalls
  cases hw : s.worker with
  | idle => rfl
  | finished => rfl
  | loop =>
    simp only
    split
    · rfl
    · split <;> rfl
  | rebuildFlush => rfl
  -- the phases that call the outbox: the call's reply decides the phase, not the state
  | rebuildReset =>
    rcases hexec : s.outbox.exec (.requeueInFlight (env.clock 0) (env.clock 1) env.fault) with
      ⟨reply, b⟩
    cases reply with
    | error e => simp [Outbox.step, hexec, Pipeline.throw, Pipeline.failStop]
    | ok n =>
      cases hp : env.producerOk <;> simp [Outbox.step, hexec, Pipeline.throw, Pipeline.failStop]
  | check =>
    simp only
    split <;> rfl
  | expire =>
    rcases hexec : s.outbox.exec (.expireTtl (env.clock 0) s.cfg.outboxTtlMs env.fault) with
      ⟨reply, b⟩
    cases reply <;> simp [Outbox.step, hexec, Pipeline.throw, Pipeline.failStop]
  | fetch now =>
    simp only
    split <;> rfl
  | batch due =>
    cases due with
    | nil => rfl
    | cons rec rest =>
      simp only
      split
      · rfl
      · rcases hexec : s.outbox.exec (.markInFlight rec.eventId (env.clock 0) env.fault) with
          ⟨reply, b⟩
        cases reply <;> simp [Outbox.step, hexec, Pipeline.throw, Pipeline.failStop]
  | produce rec rest =>
    simp only
    split <;> rfl
  | settle id why permanent rest =>
    simp only
    split <;> rfl
  | settleMark id why verdict rest =>
    rcases hexec : s.outbox.exec (verdict.op id why env) with ⟨reply, b⟩
    cases reply <;> simp [Outbox.step, hexec, Pipeline.throw, Pipeline.failStop]
  | poll => rfl
  | drain => rfl

/-- A step of a callback changes it by the calls it makes. -/
theorem callback_outbox (kafka : Kafka) (s : Pipeline) (env : Env) :
    (s.step kafka (.callback env)).outbox =
      Machine.run Outbox.step s.outbox (s.deliverCalls env) := by
  simp only [Pipeline.step]
  unfold Pipeline.deliver Pipeline.deliverCalls
  cases hc : s.callback with
  | none => rfl
  | some cb =>
    cases cb with
    | ack i =>
      rcases hexec : s.outbox.exec (.markAcked (s.opaqueId i) (env.clock 0) env.fault) with
        ⟨reply, b⟩
      cases reply <;> simp [Outbox.step, hexec, Pipeline.returned, Pipeline.failStop]
    | settle i why permanent =>
      simp only
      cases s.outbox.judge s.cfg.maxAttemptsBeforeDead (s.opaqueId i) permanent env.fault with
      | error e => rfl
      | ok found => cases found <;> rfl
    | settleMark i why verdict =>
      rcases hexec : s.outbox.exec (verdict.op (s.opaqueId i) why env) with ⟨reply, b⟩
      cases reply <;> simp [Outbox.step, hexec, Pipeline.returned, Pipeline.failStop]

/-- The outbox after a step is the outbox after its calls. -/
theorem step_outbox (kafka : Kafka) (s : Pipeline) (act : Act) :
    (s.step kafka act).outbox = Machine.run Outbox.step s.outbox (s.calls act) := by
  cases act with
  | create cfg =>
    simp only [Pipeline.step, Pipeline.create, Pipeline.calls]
    split <;> rfl
  | start env =>
    by_cases h : s.stopping = true ∨ s.worker ≠ .idle ∨ s.running = true
    · simp [Pipeline.step, Pipeline.start, Pipeline.calls, h]
    · simp only [Pipeline.step, Pipeline.calls, if_neg h]
      exact start_outbox s env h
  | enqueue args env =>
    simp only [Pipeline.step, Pipeline.enqueue, Pipeline.calls]
    split
    · rfl
    · rcases hexec : s.outbox.exec (.insertPending s.cfg.limits
          (args.toRecord s.cfg (env.clock 0)) (env.clock 1) env.fault) with ⟨reply, b⟩
      cases reply <;> simp [Outbox.step, hexec]
  | requestRebuild => rfl
  | stop =>
    simp only [Pipeline.step, Pipeline.stop, Pipeline.calls]
    split <;> rfl
  | joined =>
    simp only [Pipeline.step, Pipeline.joined, Pipeline.calls]
    split <;> rfl
  | work env =>
    simp only [Pipeline.step, Pipeline.calls]
    split
    · exact work_outbox kafka s env
    · rfl
  | report i err =>
    simp only [Pipeline.step, Pipeline.report, Pipeline.enter, Pipeline.calls]
    split
    · rfl
    · cases err <;> rfl
  | callback env => exact callback_outbox kafka s env
  | append i partition =>
    simp only [Pipeline.step, Pipeline.append, Pipeline.calls]
    split <;> rfl
  | crash => rfl
  | retryDead id env =>
    simp only [Pipeline.step, Pipeline.retryDead, Pipeline.calls]
    split
    · rfl
    · rcases hexec : s.outbox.exec (.openDb env.fault) with ⟨reply, b⟩
      cases reply <;> simp [Outbox.reply, Outbox.step, hexec]

/-- The outbox of a pipeline run is a run of the outbox machine. -/
theorem run_outbox (kafka : Kafka) (cfg : Config) (acts : List Act) :
    ∃ ops, (Machine.run (Pipeline.step kafka) (Pipeline.init cfg) acts).outbox =
      Machine.run Outbox.step Outbox.init ops := by
  induction acts using List.reverseRecOn with
  | nil => exact ⟨[], rfl⟩
  | append_singleton acts act ih =>
    rcases ih with ⟨ops, hops⟩
    refine ⟨ops ++ (Machine.run (Pipeline.step kafka) (Pipeline.init cfg) acts).calls act, ?_⟩
    rw [Machine.run_snoc, step_outbox, Machine.run_append, ← hops]

/-- So the invariant of the store holds in every state of the pipeline. -/
theorem storeInv_pipeline (kafka : Kafka) (cfg : Config) (acts : List Act) :
    StoreInv (Machine.run (Pipeline.step kafka) (Pipeline.init cfg) acts).outbox.db := by
  rcases run_outbox kafka cfg acts with ⟨ops, hops⟩
  rw [hops]
  exact storeInv_run ops

/-! ## Which calls a step can make -/

/-- The calls of the outbox, each with the step that makes it. -/
inductive Issues (s : Pipeline) : Act → Op → Prop where
  | openDb {env : Env} : Issues s (.start env) (.openDb env.fault)
  | requeue {env : Env} :
      Issues s (.start env) (.requeueInFlight (env.clock 0) (env.clock 1) env.fault)
  | insert {args : EnqueueArgs} {env : Env} :
      Issues s (.enqueue args env)
        (.insertPending s.cfg.limits (args.toRecord s.cfg (env.clock 0)) (env.clock 1) env.fault)
  | rebuild {env : Env} (hw : s.worker = .rebuildReset) :
      Issues s (.work env) (.requeueInFlight (env.clock 0) (env.clock 1) env.fault)
  | expire {env : Env} (hw : s.worker = .expire) :
      Issues s (.work env) (.expireTtl (env.clock 0) s.cfg.outboxTtlMs env.fault)
  | mark {env : Env} {rec : OutboxRecord} {rest : List OutboxRecord}
      (hw : s.worker = .batch (rec :: rest)) :
      Issues s (.work env) (.markInFlight rec.eventId (env.clock 0) env.fault)
  | settle {env : Env} {id why : String} {verdict : Verdict} {rest : List OutboxRecord}
      (hw : s.worker = .settleMark id why verdict rest) :
      Issues s (.work env) (verdict.op id why env)
  | ack {env : Env} {i : Nat} (hcb : s.callback = some (.ack i)) :
      Issues s (.callback env) (.markAcked (s.opaqueId i) (env.clock 0) env.fault)
  | settled {env : Env} {i : Nat} {why : String} {verdict : Verdict}
      (hcb : s.callback = some (.settleMark i why verdict)) :
      Issues s (.callback env) (verdict.op (s.opaqueId i) why env)
  | reopen {id : String} {env : Env} : Issues s (.retryDead id env) (.openDb env.fault)
  | revive {id : String} {env : Env} :
      Issues s (.retryDead id env) (.retryDead id (env.clock 0) (env.clock 1) env.fault)
  | close {act : Act} : Issues s act .close

/-- Every call of `start` has the arguments of the source. -/
theorem startCalls_issues {s : Pipeline} {env : Env} {op : Op} (h : op ∈ s.startCalls env) :
    Issues s (.start env) op := by
  have hmem : op ∈ [Op.openDb env.fault,
      .requeueInFlight (env.clock 0) (env.clock 1) env.fault, .close] := by
    simp only [Pipeline.startCalls] at h
    repeat' split at h
    all_goals simp only [List.mem_cons, List.not_mem_nil, or_false] at h ⊢
    all_goals tauto
  simp only [List.mem_cons, List.not_mem_nil, or_false] at hmem
  rcases hmem with rfl | rfl | rfl
  · exact .openDb
  · exact .requeue
  · exact .close

/-- Every call of the worker has the arguments of the source. -/
theorem workCalls_issues {s : Pipeline} {env : Env} {op : Op} (h : op ∈ s.workCalls env) :
    Issues s (.work env) op := by
  unfold Pipeline.workCalls at h
  split at h
  · rename_i hw
    rw [List.mem_singleton.mp h]
    exact .rebuild hw
  · rename_i hw
    rw [List.mem_singleton.mp h]
    exact .expire hw
  · rename_i hw
    split at h
    · simp at h
    · rw [List.mem_singleton.mp h]
      exact .mark hw
  · rename_i hw
    rw [List.mem_singleton.mp h]
    exact .settle hw
  · simp at h

/-- Every call of a callback has the arguments of the source. -/
theorem deliverCalls_issues {s : Pipeline} {env : Env} {op : Op} (h : op ∈ s.deliverCalls env) :
    Issues s (.callback env) op := by
  unfold Pipeline.deliverCalls at h
  split at h
  · simp at h
  · rename_i hcb
    rw [List.mem_singleton.mp h]
    exact .ack hcb
  · split at h
    · rw [List.mem_singleton.mp h]
      exact .close
    · simp at h
  · rename_i hcb
    rw [List.mem_singleton.mp h]
    exact .settled hcb

/-- The inversion of `calls`. -/
theorem calls_issues {s : Pipeline} {act : Act} {op : Op} (h : op ∈ s.calls act) :
    Issues s act op := by
  cases act with
  | start env =>
    simp only [Pipeline.calls] at h
    split at h
    · simp at h
    · exact startCalls_issues h
  | enqueue args env =>
    simp only [Pipeline.calls] at h
    split at h
    · simp at h
    · rw [List.mem_singleton.mp h]
      exact .insert
  | joined =>
    simp only [Pipeline.calls] at h
    split at h
    · rw [List.mem_singleton.mp h]
      exact .close
    · simp at h
  | work env =>
    simp only [Pipeline.calls] at h
    split at h
    · exact workCalls_issues h
    · simp at h
  | callback env => exact deliverCalls_issues h
  | crash =>
    rw [List.mem_singleton.mp h]
    exact .close
  | retryDead id env =>
    simp only [Pipeline.calls] at h
    repeat' split at h
    · simp at h
    · rw [List.mem_singleton.mp h]
      exact .reopen
    · simp only [List.mem_cons, List.not_mem_nil, or_false] at h
      rcases h with rfl | rfl | rfl
      · exact .reopen
      · exact .revive
      · exact .close
  | _ => simp [Pipeline.calls] at h

/-- The calls that settle a failure. -/
def Op.settles : Op → Bool
  | .markRetry .. => true
  | .markDead .. => true
  | _ => false

/-- A settlement is the only call of its step. -/
theorem calls_settles {s : Pipeline} {act : Act} {op : Op} (hop : op ∈ s.calls act)
    (h : op.settles = true) : s.calls act = [op] := by
  cases calls_issues hop with
  | settle hw =>
    simp only [Pipeline.calls] at hop ⊢
    split at hop
    · rename_i hcb
      simp [hcb, Pipeline.workCalls, hw]
    · simp at hop
  | settled hcb => simp [Pipeline.calls, Pipeline.deliverCalls, hcb]
  | _ => cases h

end EventKafka
