import EventKafka.Outbox.Operations

/-! # The pipeline

`KafkaPipeline` of `kafka_pipeline.cpp` together with what surrounds it: the
outbox, the messages handed to librdkafka, and the broker's log.

The worker thread is a program counter over `worker_loop`; one step of it makes at
most one call of the outbox, the unit its mutex serialises. `on_delivery` runs in
the same way, as a callback of the thread that polls. Between any two such steps
the other threads may enqueue, ask for a rebuild or stop, the broker may append,
and the process may crash. Clock readings, faults of SQL statements and the replies
of librdkafka are arguments of the step they occur in. An action that is not
enabled in a state leaves it alone.

A counter of `metrics_` is raised in the step of the call it counts. The source raises it
just after that call, with the mutex released; `Counters.lean` has the two apart, for what
another thread reads in between.
-/

namespace EventKafka

open Sql

/-! ## librdkafka -/

/-- The error codes the pipeline tells apart; everything else is `other`. -/
inductive ErrCode where
  | fatal
  | topicAuthorizationFailed
  | clusterAuthorizationFailed
  | invalidMsg
  | msgSizeTooLarge
  | invalidRecord
  | other (code : Int)
deriving DecidableEq, Repr

/-- `KafkaPipeline::is_permanent_error`. -/
def isPermanentError : ErrCode → Bool
  | .topicAuthorizationFailed => true
  | .clusterAuthorizationFailed => true
  | .invalidMsg => true
  | .msgSizeTooLarge => true
  | .invalidRecord => true
  | .fatal => false
  | .other _ => false

/-- What the pipeline does not decide: `rd_kafka_err2str`, and the partition the
default partitioner gives a key of a topic. -/
structure Kafka where
  err2str : ErrCode → String
  partitionOf : String → String → Nat

/-- A message accepted by `rd_kafka_producev`: the record it was made from, the
topic of the handle it was produced on, and the producer. -/
structure Message where
  record : OutboxRecord
  topic : String
  producer : Nat
  /-- Its delivery report has been handled. -/
  reported : Bool
deriving DecidableEq, Repr

/-- `RD_KAFKA_V_KEY`: an empty key is sent as none. -/
def Message.key (m : Message) : Option String :=
  if m.record.msgKey = "" then none else some m.record.msgKey

/-- The headers `produce_record` adds. -/
def Message.headers (m : Message) : List (String × String) :=
  (if 0 ≤ m.record.callSeq.toInt then [("x-fs-call-sequence", toString m.record.callSeq.toInt)] else []) ++
    [("x-fs-event-id", m.record.eventId)]

/-- A record of the broker's log: a copy of message number `message`. -/
structure LogEntry where
  message : Nat
  record : OutboxRecord
  topic : String
  partition : Nat
deriving DecidableEq, Repr

/-! ## The object -/

/-- The part of `PipelineConfig` that decides anything here. -/
structure Config where
  topic : String
  limits : Limits
  requireSourceSequence : Bool
  maxAttemptsBeforeDead : Int
  outboxTtlMs : Int
deriving DecidableEq, Repr

/-- `PipelineMetrics`. -/
structure Metrics where
  enqueued : Nat
  rejectedDiskFull : Nat
  stateErrors : Nat
  produceOk : Nat
  produceFail : Nat
  deliveryFail : Nat
  acked : Nat
  producerRebuilds : Nat
  permanentErrors : Nat
  outboxExpired : Int
deriving DecidableEq, Repr

/-- The metrics of a new object. -/
def Metrics.zero : Metrics := ⟨0, 0, 0, 0, 0, 0, 0, 0, 0, 0⟩

/-- What `settle_send_failure` decides after it has read the row. -/
inductive Verdict where
  | dead
  | retry (attempts : Int)
deriving DecidableEq, Repr

/-- Where the worker thread is in `worker_loop`. -/
inductive Worker where
  /-- No thread: `worker_` is not joinable. -/
  | idle
  /-- `while (running_)` and the test of `rebuild_requested_`. -/
  | loop
  /-- In the `rd_kafka_flush` of `rebuild_producer`, after the purge. -/
  | rebuildFlush
  /-- Destroy, requeue and create in `rebuild_producer`. -/
  | rebuildReset
  /-- `if (!running_) break`. -/
  | check
  | expire
  | fetch (now : Int)
  /-- At the head of the loop over the due records that are left. -/
  | batch (due : List OutboxRecord)
  /-- `rec` is marked in flight and about to be produced. -/
  | produce (rec : OutboxRecord) (rest : List OutboxRecord)
  /-- In `settle_send_failure` for a synchronous failure, before its `get`. -/
  | settle (id why : String) (permanent : Bool) (rest : List OutboxRecord)
  /-- In `settle_send_failure`, before its `mark_dead` or `mark_retry`. -/
  | settleMark (id why : String) (verdict : Verdict) (rest : List OutboxRecord)
  /-- In `rd_kafka_poll`. -/
  | poll
  /-- In the flush, purge and flush after the loop. -/
  | drain
  /-- The thread has returned and waits to be joined. -/
  | finished
deriving DecidableEq, Repr

/-- Where `on_delivery` is, for message number `i`. -/
inductive Callback where
  | ack (i : Nat)
  | settle (i : Nat) (why : String) (permanent : Bool)
  | settleMark (i : Nat) (why : String) (verdict : Verdict)
deriving DecidableEq, Repr

/-- The pipeline, the messages it produced in all its lives and the broker's log. -/
structure Pipeline where
  cfg : Config
  outbox : Outbox
  metrics : Metrics
  running : Bool
  accept : Bool
  rebuildRequested : Bool
  /-- `stop` holds the lifecycle mutex and waits for the worker. -/
  stopping : Bool
  worker : Worker
  callback : Option Callback
  /-- The current producer. -/
  producer : Option Nat
  /-- How many producers have been created so far. -/
  producers : Nat
  messages : List Message
  log : List LogEntry
deriving DecidableEq

/-- A new pipeline over an empty database. -/
def Pipeline.init (cfg : Config) : Pipeline where
  cfg := cfg
  outbox := Outbox.init
  metrics := Metrics.zero
  running := false
  accept := false
  rebuildRequested := false
  stopping := false
  worker := .idle
  callback := none
  producer := none
  producers := 0
  messages := []
  log := []

/-! ## The environment of a step -/

/-- What one step meets: its clock readings in order, the faults of its SQL
statements, the reply of `rd_kafka_producev`, and whether a producer can be made. -/
structure Env where
  clock : Nat → Int
  fault : FaultPlan
  produced : Option ErrCode
  producerOk : Bool

/-- The arguments of `enqueue`, with the event id it draws. -/
structure EnqueueArgs where
  eventId : String
  payload : List UInt8
  msgKey : String
  callUuid : String
  sourceSequence : Int64
deriving DecidableEq, Repr

/-- The events of the system. -/
inductive Act where
  /-- A new `KafkaPipeline` object for the same outbox file. -/
  | create (cfg : Config)
  | start (env : Env)
  | enqueue (args : EnqueueArgs) (env : Env)
  | requestRebuild
  /-- `stop` up to the join. -/
  | stop
  /-- `stop` from the join on. -/
  | joined
  | work (env : Env)
  /-- librdkafka serves the delivery report of message `i`; `none` is success. -/
  | report (i : Nat) (err : Option ErrCode)
  | callback (env : Env)
  /-- The broker appends message `i`; `partition` is used for a message without key. -/
  | append (i : Nat) (partition : Nat)
  | crash
  /-- `open`, `retry_dead`, `close` by the operator while the pipeline is down. -/
  | retryDead (id : String) (env : Env)

/-! ## Queries of the outbox -/

/-- `Outbox::fetch_due`: nothing when closed, an exception on a storage fault. -/
def Outbox.fetchDue (b : Outbox) (now limit : Int) (fault : FaultPlan) :
    Except String (List OutboxRecord) :=
  if b.isOpen then
    match (EventKafka.fetchDue now limit fault).run b.db with
    | .ok recs _ => .ok recs
    | .error e _ => .error e
  else .ok []

/-- `Outbox::get`: nothing when closed, an exception on a storage fault. -/
def Outbox.get (b : Outbox) (id : String) (fault : FaultPlan) :
    Except String (Option OutboxRecord) :=
  if b.isOpen then
    match (getRecord id fault).run b.db with
    | .ok found _ => .ok found
    | .error e _ => .error e
  else .ok none

/-! ## `settle_send_failure` -/

/-- `attempt_backoff_ms`, with its clock reading. -/
def attemptBackoffMs (attempts now : Int) : Int :=
  -- for (int i = 1; i < attempts && i < 8; ++i) base *= 2
  let base := [1, 2, 3, 4, 5, 6, 7].foldl (fun base i => if i < attempts then base * 2 else base) 200
  (if 30000 < base then 30000 else base) + Int.tmod now 97

/-- The first half of `settle_send_failure`: `get`, and what to do with the row.
`none` is the failure "send failure for non-in-flight event". -/
def Outbox.judge (b : Outbox) (maxAttempts : Int) (id : String) (permanent : Bool)
    (fault : FaultPlan) : Except String (Option Verdict) :=
  match b.get id fault with
  | .error e => .error e
  | .ok none => .ok none
  | .ok (some cur) =>
    if cur.state ≠ .inFlight then .ok none
    else if permanent || maxAttempts ≤ cur.attempts then .ok (some .dead)
    else .ok (some (.retry cur.attempts))

/-- The second half of `settle_send_failure`: the transition it makes. -/
def Verdict.op (verdict : Verdict) (id why : String) (env : Env) : Op :=
  match verdict with
  | .dead => .markDead id why (env.clock 0) env.fault
  | .retry attempts =>
    .markRetry id (env.clock 0 + attemptBackoffMs attempts (env.clock 1)) why (env.clock 2) env.fault

/-- `permanent_errors` counts the verdict `dead`. -/
def Metrics.settled (m : Metrics) : Verdict → Metrics
  | .dead => { m with permanentErrors := m.permanentErrors + 1 }
  | .retry _ => m

/-! ## Starting, stopping, enqueueing -/

/-- The metrics and flags of a durable transition that was not made: the branch
`if (!ok)` of `on_delivery` and the `catch` of `worker_loop`. -/
def Pipeline.failStop (s : Pipeline) : Pipeline :=
  { s with
    metrics := { s.metrics with stateErrors := s.metrics.stateErrors + 1 }
    accept := false
    running := false }

/-- A new object takes the place of one that is not running. -/
def Pipeline.create (s : Pipeline) (cfg : Config) : Pipeline :=
  if s.worker = .idle ∧ s.stopping = false then
    { s with
      cfg := cfg
      metrics := .zero
      running := false
      accept := false
      rebuildRequested := false }
  else s

/-- `KafkaPipeline::start`. It waits while `stop` holds the lifecycle mutex. -/
def Pipeline.start (s : Pipeline) (env : Env) : Pipeline :=
  if s.stopping = true ∨ s.worker ≠ .idle ∨ s.running = true then s
  else
    match s.outbox.exec (.openDb env.fault) with
    | (.error _, b) => { s with outbox := b }
    | (.ok _, b) =>
      match b.exec (.requeueInFlight (env.clock 0) (env.clock 1) env.fault) with
      | (.error _, b) => { s with outbox := b.step .close }
      | (.ok _, b) =>
        if env.producerOk then
          { s with
            outbox := b
            running := true
            accept := true
            rebuildRequested := false
            worker := .loop
            producer := some s.producers
            producers := s.producers + 1 }
        else { s with outbox := b.step .close }

/-- The record `enqueue` admits. -/
def EnqueueArgs.toRecord (args : EnqueueArgs) (cfg : Config) (now : Int) : OutboxRecord :=
  { OutboxRecord.default with
    eventId := args.eventId
    topic := cfg.topic
    msgKey := args.msgKey
    payload := args.payload
    callUuid := args.callUuid
    callSeq := args.sourceSequence
    createdAtMs := now }

/-- The test of the source sequence in `enqueue`. -/
def EnqueueArgs.refused (args : EnqueueArgs) (cfg : Config) : Bool :=
  args.sourceSequence.toInt < -1 ||
    (cfg.requireSourceSequence && args.callUuid ≠ "" && args.sourceSequence.toInt < 0)

/-- `KafkaPipeline::enqueue`. -/
def Pipeline.enqueue (s : Pipeline) (args : EnqueueArgs) (env : Env) : Pipeline :=
  if s.stopping = true ∨ s.accept = false ∨ args.refused s.cfg = true then s
  else
    match s.outbox.exec (.insertPending s.cfg.limits (args.toRecord s.cfg (env.clock 0))
        (env.clock 1) env.fault) with
    | (.ok _, b) =>
      { s with outbox := b, metrics := { s.metrics with enqueued := s.metrics.enqueued + 1 } }
    | (.error _, b) =>
      { s with
        outbox := b
        metrics := { s.metrics with rejectedDiskFull := s.metrics.rejectedDiskFull + 1 } }

/-- `KafkaPipeline::stop` up to the join. -/
def Pipeline.stop (s : Pipeline) : Pipeline :=
  if s.stopping = true then s
  else { s with accept := false, running := false, stopping := true }

/-- `KafkaPipeline::stop` once the worker has returned. -/
def Pipeline.joined (s : Pipeline) : Pipeline :=
  if s.stopping = true ∧ (s.worker = .idle ∨ s.worker = .finished) then
    { s with
      worker := .idle
      producer := none
      outbox := s.outbox.step .close
      stopping := false }
  else s

/-- The process dies: the database and what librdkafka was given stay. -/
def Pipeline.crash (s : Pipeline) : Pipeline :=
  { s with
    outbox := s.outbox.step .close
    metrics := .zero
    running := false
    accept := false
    rebuildRequested := false
    stopping := false
    worker := .idle
    callback := none
    producer := none }

/-! ## The worker -/

/-- An exception in `worker_loop`. -/
def Pipeline.throw (s : Pipeline) : Pipeline := { s.failStop with worker := .drain }

/-- `std::string::rfind(prefix, 0) == 0`. -/
def startsWith (s pre : String) : Bool := pre.toList.isPrefixOf s.toList

/-- `produce_record`: `none` when the message was accepted, else the error text. -/
def produceError (kafka : Kafka) (producer : Option Nat) (reply : Option ErrCode) :
    Option String :=
  match producer, reply with
  | none, _ => some "producer not ready"
  | some _, none => none
  | some _, some err =>
    if err = .fatal then some ("FATAL:" ++ kafka.err2str err)
    else if isPermanentError err then some ("PERMANENT:" ++ kafka.err2str err)
    else some (kafka.err2str err)

/-- One step of the worker thread. -/
def Pipeline.work (kafka : Kafka) (s : Pipeline) (env : Env) : Pipeline :=
  match s.worker with
  | .idle => s
  | .finished => s
  | .loop =>
    if s.running = false then { s with worker := .drain }
    else if s.rebuildRequested = true then
      { s with rebuildRequested := false, worker := .rebuildFlush }
    else { s with worker := .check }
  | .rebuildFlush => { s with producer := none, worker := .rebuildReset }
  | .rebuildReset =>
    match s.outbox.exec (.requeueInFlight (env.clock 0) (env.clock 1) env.fault) with
    | (.error _, b) => { s with outbox := b }.throw
    | (.ok _, b) =>
      if env.producerOk then
        { s with
          outbox := b
          producer := some s.producers
          producers := s.producers + 1
          metrics := { s.metrics with producerRebuilds := s.metrics.producerRebuilds + 1 }
          worker := .check }
      else { s with outbox := b }.throw
  | .check => if s.running = true then { s with worker := .expire } else { s with worker := .drain }
  | .expire =>
    match s.outbox.exec (.expireTtl (env.clock 0) s.cfg.outboxTtlMs env.fault) with
    | (.error _, b) => { s with outbox := b }.throw
    | (.ok n, b) =>
      { s with
        outbox := b
        metrics := { s.metrics with outboxExpired := s.metrics.outboxExpired + n }
        worker := .fetch (env.clock 0) }
  | .fetch now =>
    match s.outbox.fetchDue now 32 env.fault with
    | .error _ => s.throw
    | .ok due => { s with worker := .batch due }
  | .batch [] => { s with worker := .poll }
  | .batch (rec :: rest) =>
    if s.running = false ∨ s.rebuildRequested = true then { s with worker := .poll }
    else
      match s.outbox.exec (.markInFlight rec.eventId (env.clock 0) env.fault) with
      | (.error _, b) => { s with outbox := b }.throw
      | (.ok _, b) => { s with outbox := b, worker := .produce rec rest }
  | .produce rec rest =>
    match produceError kafka s.producer env.produced with
    | none =>
      { s with
        messages := s.messages ++
          [{ record := rec, topic := s.cfg.topic, producer := s.producer.getD 0, reported := false }]
        metrics := { s.metrics with produceOk := s.metrics.produceOk + 1 }
        worker := .batch rest }
    | some why =>
      { s with
        metrics := { s.metrics with produceFail := s.metrics.produceFail + 1 }
        rebuildRequested := s.rebuildRequested || startsWith why "FATAL:"
        worker := .settle rec.eventId why (startsWith why "PERMANENT:") rest }
  | .settle id why permanent rest =>
    match s.outbox.judge s.cfg.maxAttemptsBeforeDead id permanent env.fault with
    | .error _ => s.throw
    | .ok none => s.throw
    | .ok (some verdict) => { s with worker := .settleMark id why verdict rest }
  | .settleMark id why verdict rest =>
    match s.outbox.exec (verdict.op id why env) with
    | (.error _, b) => { s with outbox := b }.throw
    | (.ok _, b) =>
      { s with outbox := b, metrics := s.metrics.settled verdict, worker := .batch rest }
  | .poll => { s with worker := .loop }
  | .drain => { s with worker := .finished }

/-! ## Delivery reports -/

/-- Message `i` is in the broker's log. -/
def Pipeline.appended (s : Pipeline) (i : Nat) : Bool := s.log.any fun e => e.message = i

/-- Enter `on_delivery` for message `i`; `none` is a success. -/
def Pipeline.enter (kafka : Kafka) (s : Pipeline) (i : Nat) (err : Option ErrCode) : Pipeline :=
  match err with
  | none => { s with callback := some (.ack i) }
  | some e =>
    { s with
      metrics := { s.metrics with deliveryFail := s.metrics.deliveryFail + 1 }
      rebuildRequested := s.rebuildRequested || e = .fatal
      callback := some (.settle i (kafka.err2str e) (isPermanentError e)) }

/-- librdkafka reports on message `i`: a success only if it was appended. Nothing
here says when, how often or for which producer; what more librdkafka promises is
assumed where it is needed. -/
def Pipeline.report (kafka : Kafka) (s : Pipeline) (i : Nat) (err : Option ErrCode) : Pipeline :=
  if s.callback ≠ none ∨ s.messages.length ≤ i ∨ (err = none ∧ s.appended i = false) then s
  else s.enter kafka i err

/-- `on_delivery` returns: the report of message `i` is handled. -/
def Pipeline.returned (s : Pipeline) (i : Nat) : Pipeline :=
  { s with
    callback := none
    messages := s.messages.modify i fun m => { m with reported := true } }

/-- The `DrOpaque` of message `i`: the event it was produced for. -/
def Pipeline.opaqueId (s : Pipeline) (i : Nat) : String :=
  ((s.messages[i]?).map fun m => m.record.eventId).getD ""

/-- One step of `on_delivery`. An error is an exception that leaves the callback. -/
def Pipeline.deliver (s : Pipeline) (env : Env) : Except String Pipeline :=
  match s.callback with
  | none => .ok s
  | some (.ack i) =>
    match s.outbox.exec (.markAcked (s.opaqueId i) (env.clock 0) env.fault) with
    | (.ok _, b) =>
      .ok ({ s with
        outbox := b, metrics := { s.metrics with acked := s.metrics.acked + 1 } }.returned i)
    | (.error _, b) => .ok ({ s with outbox := b }.failStop.returned i)
  | some (.settle i why permanent) =>
    match s.outbox.judge s.cfg.maxAttemptsBeforeDead (s.opaqueId i) permanent env.fault with
    | .error e => .error e
    | .ok none => .ok (s.failStop.returned i)
    | .ok (some verdict) => .ok { s with callback := some (.settleMark i why verdict) }
  | some (.settleMark i why verdict) =>
    match s.outbox.exec (verdict.op (s.opaqueId i) why env) with
    | (.ok _, b) =>
      .ok ({ s with outbox := b, metrics := s.metrics.settled verdict }.returned i)
    | (.error _, b) => .ok ({ s with outbox := b }.failStop.returned i)

/-! ## The broker and the operator -/

/-- The broker appends message `i` once more. -/
def Pipeline.append (kafka : Kafka) (s : Pipeline) (i partition : Nat) : Pipeline :=
  match s.messages[i]? with
  | none => s
  | some m =>
    let entry : LogEntry :=
      { message := i
        record := m.record
        topic := m.topic
        partition := (m.key.map (kafka.partitionOf m.topic)).getD partition }
    { s with log := s.log ++ [entry] }

/-- `open`, `retry_dead` and `close` on a database nobody holds. -/
def Pipeline.retryDead (s : Pipeline) (id : String) (env : Env) : Pipeline :=
  if s.outbox.isOpen then s
  else
    match s.outbox.exec (.openDb env.fault) with
    | (.error _, b) => { s with outbox := b }
    | (.ok _, b) =>
      { s with
        outbox := (b.step (.retryDead id (env.clock 0) (env.clock 1) env.fault)).step .close }

/-- One step of the system. A callback blocks the thread that polls, and an
exception that leaves it ends the process. -/
def Pipeline.step (kafka : Kafka) (s : Pipeline) : Act → Pipeline
  | .create cfg => s.create cfg
  | .start env => s.start env
  | .enqueue args env => s.enqueue args env
  | .requestRebuild => { s with rebuildRequested := true }
  | .stop => s.stop
  | .joined => s.joined
  | .work env => if s.callback = none then s.work kafka env else s
  | .report i err => s.report kafka i err
  | .callback env =>
    match s.deliver env with
    | .ok s' => s'
    | .error _ => s.crash
  | .append i partition => s.append kafka i partition
  | .crash => s.crash
  | .retryDead id env => s.retryDead id env

/-! ## A concrete run -/

/-- A broker with one partition, for concrete runs. -/
def sampleKafka : Kafka := ⟨fun _ => "error", fun _ _ => 0⟩

def sampleConfig (topic : String) : Config := ⟨topic, ⟨10, 100⟩, false, 50, 120000⟩

/-- Nothing fails, and the clock stands still. -/
def sampleEnv : Env := ⟨fun _ => 1000, noFault, none, true⟩

/-- Start the pipeline, admit event `a` of call `c`, and work until its message is
handed over and the worker polls. -/
def firstSend : List Act :=
  [.start sampleEnv, .enqueue ⟨"a", [], "key", "c", -1⟩ sampleEnv] ++
    List.replicate 7 (.work sampleEnv)

end EventKafka
