import EventKafka.Pipeline.Steps
import Mathlib.Logic.Relation

/-! # Where records come from

A record leaves the outbox as a value: `fetch_due` copies rows into a batch, the
batch hands them to `produce_record`, and messages and log entries keep the copy
long after the row has changed or is gone. Every such copy, and every row, goes
back to one admission: `Origin`, with `origin_run` for every run. On the way there is
one inversion for each part of the state: the database (`db_cases`), the records
held (`mem_held_step`) and the log (`step_log`).
-/

namespace EventKafka

open Sql

/-! ## Copies of rows -/

/-- `rec` is a copy of a row with event `e`. -/
def OutboxRecord.Of (rec : OutboxRecord) (e : Event) : Prop := ∃ p : Progress, rec = record ⟨e, p⟩

/-- A fetched record is the record of its event. -/
theorem record_of (r : Row) : (record r).Of r.toEvent := ⟨r.toProgress, rfl⟩

section Of

variable {rec : OutboxRecord} {e : Event}

theorem OutboxRecord.Of.eventId (h : rec.Of e) : rec.eventId = e.eventId := by
  rcases h with ⟨p, rfl⟩
  rfl

theorem OutboxRecord.Of.topic (h : rec.Of e) : rec.topic = e.topic := by
  rcases h with ⟨p, rfl⟩
  rfl

theorem OutboxRecord.Of.call (h : rec.Of e) : rec.call = e.call := by
  rcases h with ⟨p, rfl⟩
  rfl

theorem OutboxRecord.Of.msgKey (h : rec.Of e) : rec.msgKey = e.msgKey.getD "" := by
  rcases h with ⟨p, rfl⟩
  rfl

theorem OutboxRecord.Of.callSeq (h : rec.Of e) :
    rec.callSeq = (e.callSeq.map Int64.ofInt).getD (-1) := by
  rcases h with ⟨p, rfl⟩
  rfl

end Of

/-- The record the worker is about to produce, and the rest of its batch. -/
def Worker.records : Worker → List OutboxRecord
  | .produce rec rest => rec :: rest
  | w => w.rest

theorem Worker.Free.records {w : Worker} (h : w.Free) : w.records = [] := by
  cases w with
  | produce rec rest => simp [Worker.Free, Worker.holding] at h
  | _ => exact h.1

/-- All copies of rows the pipeline and librdkafka hold. -/
def Pipeline.held (s : Pipeline) : List OutboxRecord :=
  s.worker.records ++ s.messages.map fun m => m.record

/-- A record is held by the worker or by a message. -/
theorem Pipeline.mem_held {s : Pipeline} {rec : OutboxRecord} :
    rec ∈ s.held ↔ rec ∈ s.worker.records ∨ ∃ m ∈ s.messages, m.record = rec := by
  simp [Pipeline.held]

/-- A batch is read off the due rows. -/
theorem Outbox.fetchDue_ok {b : Outbox} {now limit : Int} {fault : FaultPlan}
    {recs : List OutboxRecord} (h : b.fetchDue now limit fault = .ok recs) :
    (∀ rec ∈ recs, ∃ r ∈ b.db.outbox, due now b.db r = true ∧ rec = record r) ∧
      (recs.map fun rec => rec.eventId).Nodup := by
  unfold Outbox.fetchDue at h
  split at h
  · cases hrun : (EventKafka.fetchDue now limit fault).run b.db with
    | error e db => simp [hrun] at h
    | ok recs' db =>
      simp only [hrun, Except.ok.injEq] at h
      subst h
      exact (EventKafka.fetchDue_ok hrun).2
  · simp only [Except.ok.injEq] at h
    subst h
    simp

/-! ## The database -/

/-- A call that neither admits nor acknowledges. -/
def Op.quiet : Op → Bool
  | .insertPending .. => false
  | .markAcked .. => false
  | _ => true

/-- A verdict moves no cursor. -/
theorem Verdict.op_quiet (verdict : Verdict) (id why : String) (env : Env) :
    (verdict.op id why env).quiet = true := by
  cases verdict <;> rfl

theorem Outbox.quiet_of_op {b : Outbox} {op : Op} (h : op.quiet = true) :
    Quiet b.db (b.step op).db := by
  cases b.outcome op with
  | quiet _ _ hquiet => exact hquiet
  | admitted hop => simp [hop, Op.quiet] at h
  | acked hop => simp [hop, Op.quiet] at h

/-- Any number of quiet calls. -/
abbrev QuietRun : Db → Db → Prop := Relation.ReflTransGen Quiet

/-- Calls that move no cursor, one after the other. -/
theorem quietRun_of_ops {ops : List Op} (b : Outbox) (h : ∀ op ∈ ops, op.quiet = true) :
    QuietRun b.db (Machine.run Outbox.step b ops).db := by
  induction ops generalizing b with
  | nil => exact .refl
  | cons op ops ih =>
    have hop : Quiet b.db (b.step op).db := Outbox.quiet_of_op (h op List.mem_cons_self)
    exact .head hop (ih (b.step op) fun op' hop' => h op' (List.mem_cons_of_mem _ hop'))

/-- Apart from admission and the acknowledgement of a report, a step makes quiet
calls only. -/
theorem calls_quiet (s : Pipeline) (act : Act) (henq : ∀ args env, act ≠ .enqueue args env)
    (hack : ∀ env i, act = .callback env → s.callback ≠ some (.ack i)) :
    ∀ op ∈ s.calls act, op.quiet = true := by
  intro op hop
  cases calls_issues hop with
  | insert => exact absurd rfl (henq _ _)
  | ack hcb => exact absurd hcb (hack _ _ rfl)
  | settle | settled => exact Verdict.op_quiet _ _ _ _
  | _ => rfl

/-- The `insert_pending` of an `enqueue`. -/
def Pipeline.insertion (s : Pipeline) (args : EnqueueArgs) (env : Env) : Op :=
  .insertPending s.cfg.limits (args.toRecord s.cfg (env.clock 0)) (env.clock 1) env.fault

/-- The event a step admitted. -/
def Pipeline.admitted (s : Pipeline) : Act → Option Event
  | .enqueue args env =>
    if s.stopping = true ∨ s.accept = false ∨ args.refused s.cfg = true then none
    else
      (s.outbox.admission (s.insertion args env)).map fun x =>
        admittedEvent x.1 (env.clock 1) x.2
  | _ => none

/-- What a step does to the database. -/
inductive DbStep (s : Pipeline) (act : Act) (db' : Db) : Prop where
  | quiet (hadm : s.admitted act = none) (h : QuietRun s.outbox.db db')
  | admitted {args : EnqueueArgs} {env : Env} {seq : Int} {dn : Bool} {base : OutboxTable}
      (hact : act = .enqueue args env)
      (hadm : s.admitted act = some (newRow (args.toRecord s.cfg (env.clock 0)) (env.clock 1)
        seq dn).toEvent)
      (h : Admission s.cfg.limits (args.toRecord s.cfg (env.clock 0)) (env.clock 1) s.outbox.db
        db' seq dn base)
  | acked {env : Env} {i : Nat} {r : Row} (hact : act = .callback env)
      (hcb : s.callback = some (.ack i)) (hr : r ∈ s.outbox.db.outbox)
      (hid : r.eventId = s.opaqueId i) (hstate : r.state = .inFlight)
      (hhead : r.grouped = true →
        ∃ q ∈ s.outbox.db.callStreams, q.call = r.call ∧ q.nextSeq = r.callSeq.getD 0)
      (h : db' = s.outbox.db.acked r (env.clock 0))

/-- What a step of the pipeline does to the database. -/
theorem db_cases (kafka : Kafka) (s : Pipeline) (act : Act) :
    DbStep s act (s.step kafka act).outbox.db := by
  rw [step_outbox]
  by_cases henq : ∃ args env, act = .enqueue args env
  · rcases henq with ⟨args, env, rfl⟩
    by_cases hguard : s.stopping = true ∨ s.accept = false ∨ args.refused s.cfg = true
    · refine .quiet ?_ ?_
      · simp only [Pipeline.admitted, if_pos hguard]
      · simp only [Pipeline.calls, if_pos hguard]
        exact .refl
    · simp only [Pipeline.calls, if_neg hguard]
      have hrun : Machine.run Outbox.step s.outbox [s.insertion args env] =
          s.outbox.step (s.insertion args env) := rfl
      have hadmitted : s.admitted (.enqueue args env) =
          (s.outbox.admission (s.insertion args env)).map fun x =>
            admittedEvent x.1 (env.clock 1) x.2 := by
        simp only [Pipeline.admitted, if_neg hguard]
      cases s.outbox.outcome (s.insertion args env) with
      | quiet hadm _ hquiet =>
        refine .quiet ?_ (.single hquiet)
        rw [hadmitted, hadm]
        rfl
      | @admitted lim rec now fault seq dn base hop hadm _ hadmission =>
        cases hop
        refine .admitted rfl ?_ hadmission
        rw [hadmitted, hadm, newRow_toEvent]
        rfl
      | acked hop => cases hop
  · by_cases hack : ∃ env i, act = .callback env ∧ s.callback = some (.ack i)
    · rcases hack with ⟨env, i, rfl, hcb⟩
      simp only [Pipeline.calls, Pipeline.deliverCalls, hcb]
      cases s.outbox.outcome (.markAcked (s.opaqueId i) (env.clock 0) env.fault) with
      | quiet _ _ hquiet => exact .quiet rfl (.single hquiet)
      | admitted hop => cases hop
      | acked hop _ _ hr hid hstate hhead h =>
        cases hop
        exact .acked rfl hcb hr hid hstate hhead h
    · push Not at henq hack
      refine .quiet ?_ (quietRun_of_ops _ (calls_quiet s act henq ?_))
      · cases act with
        | enqueue args env => exact absurd rfl (henq args env)
        | _ => rfl
      · exact fun env i hact => hack env i hact

/-- A row after a step carries the event of a row before it, or the one admitted. -/
theorem row_of_step {kafka : Kafka} {s : Pipeline} {act : Act} {q : Row}
    (hq : q ∈ (s.step kafka act).outbox.db.outbox) :
    (∃ q₀ ∈ s.outbox.db.outbox, q₀.toEvent = q.toEvent) ∨ s.admitted act = some q.toEvent := by
  cases db_cases kafka s act with
  | quiet _ h =>
    left
    -- backwards through the quiet calls
    generalize (s.step kafka act).outbox.db = db at h hq
    induction h generalizing q with
    | refl => exact ⟨q, hq, rfl⟩
    | tail _ hquiet ih =>
      rcases hquiet.rows.backward hq with ⟨q₁, hq₁, hst⟩
      rcases ih hq₁ with ⟨q₀, hq₀, hevent⟩
      exact ⟨q₀, hq₀, hevent.trans hst.event.symm⟩
  | admitted _ hadm h =>
    rcases h.mem_outbox.mp hq with hbase | rfl
    · exact Or.inl ⟨q, h.room.mem_of_mem hbase, rfl⟩
    · exact Or.inr hadm
  | acked _ _ _ _ _ _ h =>
    rw [h] at hq
    rcases Db.mem_acked_outbox.mp hq with ⟨q₀, hq₀, -, rfl⟩
    exact Or.inl ⟨q₀, hq₀, by simp⟩

/-! ## Messages, held records and the log -/

/-- Everything about a message but whether it was reported. -/
def Message.body (m : Message) : OutboxRecord × String × Nat := (m.record, m.topic, m.producer)

/-- The message `produce_record` hands to the producer `g`. -/
def Pipeline.message (s : Pipeline) (rec : OutboxRecord) (g : Nat) : Message :=
  { record := rec, topic := s.cfg.topic, producer := g, reported := false }

/-- A message that returned keeps its body. -/
theorem returned_bodies (s : Pipeline) (i : Nat) :
    (s.returned i).messages.map Message.body = s.messages.map Message.body := by
  have hmodify : ∀ (ms : List Message) (i : Nat),
      (ms.modify i fun m => { m with reported := true }).map Message.body =
        ms.map Message.body := by
    intro ms
    induction ms with
    | nil => simp
    | cons m ms ih =>
      intro i
      cases i with
      | zero => rfl
      | succ i => simp [ih]
  exact hmodify s.messages i

/-- Lists with the same bodies have the same messages, up to what was reported. -/
theorem exists_of_bodies {ms ms' : List Message} (h : ms'.map Message.body = ms.map Message.body)
    {m : Message} (hm : m ∈ ms') : ∃ m₀ ∈ ms, m₀.body = m.body := by
  have hbody : m.body ∈ ms.map Message.body := h ▸ List.mem_map_of_mem hm
  exact List.mem_map.mp hbody

/-- A step keeps the messages, or hands over the record the worker holds. -/
theorem step_messages (kafka : Kafka) (s : Pipeline) (act : Act) :
    (s.step kafka act).messages.map Message.body = s.messages.map Message.body ∨
      ∃ rec rest g, s.worker = .produce rec rest ∧
        (s.step kafka act).messages = s.messages ++ [s.message rec g] := by
  cases act with
  | work env =>
    simp only [Pipeline.step]
    split
    · cases work_cases kafka s env with
      -- only a produced record becomes a message; a delivery marks one returned
      | @produced rec rest g hw _ h => exact Or.inr ⟨rec, rest, g, hw, h.messages⟩
      | stays h => exact Or.inl (by rw [h])
      | moved _ _ _ _ _ h => exact Or.inl (by rw [h.messages])
      | rebuilt _ _ h => exact Or.inl (by rw [h.messages])
      | stranded _ _ h => exact Or.inl (by rw [h.messages])
      | expired _ _ h => exact Or.inl (by rw [h.messages])
      | fetched _ _ h => exact Or.inl (by rw [h.messages])
      | claimed _ _ h => exact Or.inl (by rw [h.messages])
      | refused _ h => exact Or.inl (by rw [h.messages])
      | judged _ h => exact Or.inl (by rw [h.messages])
      | settled _ _ h => exact Or.inl (by rw [h.messages])
    · exact Or.inl rfl
  | callback env =>
    left
    cases callback_cases kafka s env with
    | stays h => rw [h]
    | acked _ _ h => rw [h.messages, returned_bodies]
    | failed _ h => rw [h.messages, returned_bodies]
    | judged _ h => rw [h.messages]
    | settled _ _ h => rw [h.messages, returned_bodies]
    | escaped h =>
      rw [h]
      rfl
  | _ =>
    left
    simp only [Pipeline.step, Pipeline.create, Pipeline.start, Pipeline.enqueue, Pipeline.stop,
      Pipeline.joined, Pipeline.crash, Pipeline.report, Pipeline.enter, Pipeline.append,
      Pipeline.retryDead]
    repeat' split
    all_goals rfl

/-- A message was there before, or is made of the record the worker held. -/
theorem message_of_step {kafka : Kafka} {s : Pipeline} {act : Act} {m : Message}
    (hm : m ∈ (s.step kafka act).messages) :
    (∃ m₀ ∈ s.messages, m₀.body = m.body) ∨
      ∃ rec rest g, s.worker = .produce rec rest ∧ m = s.message rec g := by
  rcases step_messages kafka s act with hsame | ⟨rec, rest, g, hw, happ⟩
  · exact Or.inl (exists_of_bodies hsame hm)
  · rw [happ, List.mem_append, List.mem_singleton] at hm
    rcases hm with hm | rfl
    · exact Or.inl ⟨m, hm, rfl⟩
    · exact Or.inr ⟨rec, rest, g, hw, rfl⟩

/-- The records of the worker after a step: what it held, or a batch just read. -/
theorem step_records (kafka : Kafka) (s : Pipeline) (act : Act) :
    (s.step kafka act).worker.records <:+ s.worker.records ∨
      ∀ rec ∈ (s.step kafka act).worker.records,
        ∃ r ∈ s.outbox.db.outbox, r.state = .pending ∧ rec = record r := by
  have hnone : ∀ {w : Worker}, w.records = [] → w.records <:+ s.worker.records := fun h => by
    rw [h]
    exact List.nil_suffix
  have hsame : ∀ {w : Worker}, w = s.worker → w.records <:+ s.worker.records := by
    rintro _ rfl
    exact List.suffix_refl _
  cases act with
  | work env =>
    simp only [Pipeline.step]
    split
    · cases work_cases kafka s env with
      | stays h => exact Or.inl (hsame (by rw [h]))
      | moved _ hfree _ _ _ h => exact Or.inl (hnone (by rw [h.worker]; exact hfree.records))
      | rebuilt _ _ h => exact Or.inl (hnone (by rw [h.worker]; rfl))
      | stranded _ _ h => exact Or.inl (hnone (by rw [h.worker]; rfl))
      | expired _ _ h => exact Or.inl (hnone (by rw [h.worker]; rfl))
      -- the one step that brings in records: a read of the table's due rows
      | @fetched now due _ hfetch h =>
        right
        rw [h.worker]
        intro rec hrec
        rcases (Outbox.fetchDue_ok hfetch).1 rec hrec with ⟨r, hr, hdue, hrr⟩
        simp only [EventKafka.due, Bool.and_eq_true, decide_eq_true_eq] at hdue
        exact ⟨r, hr, hdue.1.1, hrr⟩
      -- the claimed record is still held; producing or refusing it drops the head
      | @claimed rec rest _ _ hw _ h =>
        left
        rw [h.worker, hw]
        exact List.suffix_refl _
      | @produced rec rest _ hw _ h =>
        left
        rw [h.worker, hw]
        exact List.suffix_cons rec rest
      | @refused rec rest _ _ hw h =>
        left
        rw [h.worker, hw]
        exact List.suffix_cons rec rest
      | judged hw h =>
        left
        rw [h.worker, hw]
        exact List.suffix_refl _
      | settled hw _ h =>
        left
        rw [h.worker, hw]
        exact List.suffix_refl _
    · exact Or.inl (hsame rfl)
  | callback env =>
    left
    rcases (callback_cases kafka s env).worker_eq with ⟨hw, -⟩ | hcrash
    · exact hsame hw
    · rw [hcrash]
      exact List.nil_suffix
  | _ =>
    left
    simp only [Pipeline.step, Pipeline.create, Pipeline.start, Pipeline.enqueue, Pipeline.stop,
      Pipeline.joined, Pipeline.crash, Pipeline.report, Pipeline.enter, Pipeline.append,
      Pipeline.retryDead]
    repeat' split
    all_goals first | exact List.suffix_refl _ | exact List.nil_suffix

/-- A held record was held before, or is a copy of a row just read. -/
theorem mem_held_step {kafka : Kafka} {s : Pipeline} {act : Act} {rec : OutboxRecord}
    (h : rec ∈ (s.step kafka act).held) :
    rec ∈ s.held ∨ ∃ r ∈ s.outbox.db.outbox, rec = record r := by
  rcases Pipeline.mem_held.mp h with hrec | ⟨m, hm, rfl⟩
  · rcases step_records kafka s act with hsuf | hread
    · exact Or.inl (Pipeline.mem_held.mpr (Or.inl (hsuf.subset hrec)))
    · rcases hread rec hrec with ⟨r, hr, -, hrr⟩
      exact Or.inr ⟨r, hr, hrr⟩
  · left
    rcases message_of_step hm with ⟨m₀, hm₀, hbody⟩ | ⟨rec, rest, g, hw, rfl⟩
    · exact Pipeline.mem_held.mpr (Or.inr ⟨m₀, hm₀, congrArg Prod.fst hbody⟩)
    · refine Pipeline.mem_held.mpr (Or.inl ?_)
      rw [hw]
      exact List.mem_cons_self

/-- The entry the broker appends for message `i`. -/
def Message.entry (kafka : Kafka) (m : Message) (i partition : Nat) : LogEntry where
  message := i
  record := m.record
  topic := m.topic
  partition := (m.key.map (kafka.partitionOf m.topic)).getD partition

/-- Only the broker writes the log. -/
theorem step_log (kafka : Kafka) (s : Pipeline) (act : Act) :
    (s.step kafka act).log = s.log ∨
      ∃ i partition m, act = .append i partition ∧ s.messages[i]? = some m ∧
        (s.step kafka act).log = s.log ++ [m.entry kafka i partition] := by
  cases act with
  | append i partition =>
    simp only [Pipeline.step, Pipeline.append]
    cases hm : s.messages[i]? with
    | none => exact Or.inl rfl
    | some m => exact Or.inr ⟨i, partition, m, rfl, hm, rfl⟩
  | work env =>
    left
    simp only [Pipeline.step]
    split
    · exact (work_cases kafka s env).frame.2.2.2
    · rfl
  | callback env => exact Or.inl (callback_cases kafka s env).frame.2
  | _ =>
    left
    simp only [Pipeline.step, Pipeline.create, Pipeline.start, Pipeline.enqueue, Pipeline.stop,
      Pipeline.joined, Pipeline.report, Pipeline.enter, Pipeline.retryDead]
    repeat' split
    all_goals rfl

/-- A message keeps its number and its body. -/
theorem message_at_step (kafka : Kafka) {s : Pipeline} (act : Act) {i : Nat} {m : Message}
    (h : s.messages[i]? = some m) :
    ∃ m', (s.step kafka act).messages[i]? = some m' ∧ m'.body = m.body := by
  rcases step_messages kafka s act with hsame | ⟨rec, rest, g, -, happ⟩
  · have hbody := congrArg (fun l => l[i]?) hsame
    simp only [List.getElem?_map, h, Option.map_some] at hbody
    exact Option.map_eq_some_iff.mp hbody
  · refine ⟨m, ?_, rfl⟩
    rw [happ, List.getElem?_append_left (List.getElem?_eq_some_iff.mp h).1]
    exact h

/-! ## Every run -/

/-- The events admitted in a history. -/
def admittedEvents (tr : List (Pipeline × Act)) : List Event :=
  tr.filterMap fun x => x.1.admitted x.2

/-- The admissions of a history in two parts. -/
theorem admittedEvents_append (tr tr' : List (Pipeline × Act)) :
    admittedEvents (tr ++ tr') = admittedEvents tr ++ admittedEvents tr' :=
  List.filterMap_append

theorem admittedEvents_singleton (s : Pipeline) (act : Act) :
    admittedEvents [(s, act)] = (s.admitted act).toList := by
  cases hadm : s.admitted act <;> simp [admittedEvents, hadm]

/-- Every row, and every copy of one, goes back to an admitted event. -/
structure Origin (events : List Event) (s : Pipeline) : Prop where
  rows : ∀ r ∈ s.outbox.db.outbox, r.toEvent ∈ events
  held : ∀ rec ∈ s.held, ∃ e ∈ events, rec.Of e

/-- Every record in hand was fetched from a row, and every row was admitted. -/
theorem Origin.step {kafka : Kafka} {tr : List (Pipeline × Act)} {s : Pipeline} {act : Act}
    (h : Origin (admittedEvents tr) s) :
    Origin (admittedEvents (tr ++ [(s, act)])) (s.step kafka act) := by
  rw [admittedEvents_append, admittedEvents_singleton]
  constructor
  case rows =>
    intro q hq
    rcases row_of_step hq with ⟨q₀, hq₀, hevent⟩ | hadm
    · exact List.mem_append_left _ (hevent ▸ h.rows q₀ hq₀)
    · exact List.mem_append_right _ (by simp [hadm])
  case held =>
    intro rec hrec
    rcases mem_held_step hrec with hold | ⟨r, hr, rfl⟩
    · rcases h.held rec hold with ⟨e, he, hof⟩
      exact ⟨e, List.mem_append_left _ he, hof⟩
    · exact ⟨r.toEvent, List.mem_append_left _ (h.rows r hr), record_of r⟩

/-- Every record and every row of a run comes from an admission. -/
theorem origin_run (kafka : Kafka) (cfg : Config) (acts : List Act) :
    Origin (admittedEvents (Machine.trace (Pipeline.step kafka) (Pipeline.init cfg) acts))
      (Machine.run (Pipeline.step kafka) (Pipeline.init cfg) acts) := by
  refine Machine.trace_invariant (J := fun tr s => Origin (admittedEvents tr) s)
    (P := fun _ _ => True) ⟨?_, ?_⟩ (fun _ _ _ _ h => h.step) acts (fun _ _ => trivial)
  · exact fun r hr => absurd hr (Table.notMem_empty r)
  · exact fun rec hrec => absurd hrec List.not_mem_nil

/-- Every entry of the log is an entry of a message that was handed over. -/
def Logged (kafka : Kafka) (s : Pipeline) : Prop :=
  ∀ x ∈ s.log, ∃ m partition, s.messages[x.message]? = some m ∧
    x = m.entry kafka x.message partition

theorem Message.entry_congr {kafka : Kafka} {m m' : Message} (h : m'.body = m.body)
    (i partition : Nat) : m'.entry kafka i partition = m.entry kafka i partition := by
  simp only [Message.body, Prod.mk.injEq] at h
  simp [Message.entry, Message.key, h.1, h.2.1]

/-- What is in the log was sent by a message. -/
theorem Logged.step {kafka : Kafka} {s : Pipeline} (h : Logged kafka s) (act : Act) :
    Logged kafka (s.step kafka act) := by
  intro x hx
  have hkeep : ∀ {m : Message} {partition : Nat}, s.messages[x.message]? = some m →
      x = m.entry kafka x.message partition → ∃ m' partition',
        (s.step kafka act).messages[x.message]? = some m' ∧
          x = m'.entry kafka x.message partition' := by
    intro m partition hm hentry
    rcases message_at_step kafka act hm with ⟨m', hm', hbody⟩
    exact ⟨m', partition, hm', hentry.trans (Message.entry_congr hbody _ _).symm⟩
  rcases step_log kafka s act with hsame | ⟨i, partition, m, -, hm, happ⟩
  · rcases h x (hsame ▸ hx) with ⟨m, partition, hm, hentry⟩
    exact hkeep hm hentry
  · rw [happ, List.mem_append, List.mem_singleton] at hx
    rcases hx with hx | hx
    · rcases h x hx with ⟨m, partition, hm, hentry⟩
      exact hkeep hm hentry
    · have hi : x.message = i := by rw [hx]; rfl
      exact hkeep (hi ▸ hm) (hi ▸ hx)

/-- Every entry of the log is of a message of the run. -/
theorem logged_run (kafka : Kafka) (cfg : Config) (acts : List Act) :
    Logged kafka (Machine.run (Pipeline.step kafka) (Pipeline.init cfg) acts) :=
  Machine.run_invariant (fun _ hx => absurd hx List.not_mem_nil) (fun _ act h => h.step act) acts

end EventKafka
