import EventKafka.Pipeline.Calls
import EventKafka.Pipeline.Callback

/-! # What a step can do

`work` and `on_delivery` are inverted once, up to the metrics and the flags: the
state after a step is one of the explicit states below. The invariants about
records, messages and rows start from `work_cases` and `callback_cases` and never
look at the program counter's code again.
-/

namespace EventKafka

open Sql

/-- `s` is `t` but for the metrics and the three flags other threads set. -/
structure Same (t s : Pipeline) : Prop where
  cfg : s.cfg = t.cfg
  outbox : s.outbox = t.outbox
  stopping : s.stopping = t.stopping
  worker : s.worker = t.worker
  callback : s.callback = t.callback
  producer : s.producer = t.producer
  producers : s.producers = t.producers
  messages : s.messages = t.messages
  log : s.log = t.log

/-- The due records the worker has not come to yet. -/
def Worker.rest : Worker → List OutboxRecord
  | .batch due => due
  | .produce _ rest => rest
  | .settle _ _ _ rest => rest
  | .settleMark _ _ _ rest => rest
  | _ => []

/-- The event the worker has marked in flight and neither handed over nor settled. -/
def Worker.holding : Worker → Option String
  | .produce rec _ => some rec.eventId
  | .settle id _ _ _ => some id
  | .settleMark id _ _ _ => some id
  | _ => none

/-- The worker is between two batches. -/
def Worker.Free (w : Worker) : Prop := w.rest = [] ∧ w.holding = none

/-- The message a callback is about. -/
def Callback.message : Callback → Nat
  | .ack i => i
  | .settle i _ _ => i
  | .settleMark i _ _ => i

@[simp] theorem Verdict.op_inSession (verdict : Verdict) (id why : String) (env : Env) :
    (verdict.op id why env).inSession = true := by
  cases verdict <;> rfl

/-! ## The worker -/

/-- What one step of the worker can do. -/
inductive Worked (s : Pipeline) (env : Env) (s' : Pipeline) : Prop where
  /-- There is no thread, or it has returned. -/
  | stays (h : s' = s)
  /-- Between two batches, or out of one; the outbox was not changed. -/
  | moved {w : Worker} {g : Option Nat} (hrun : s.worker ≠ .idle) (hfree : w.Free)
      (hidle : w ≠ .idle) (hg : g = s.producer ∨ g = none) (hreset : w = .rebuildReset → g = none)
      (h : Same { s with producer := g, worker := w } s')
  | rebuilt {n : Int} {b : Outbox} (hw : s.worker = .rebuildReset)
      (hexec : s.outbox.exec (.requeueInFlight (env.clock 0) (env.clock 1) env.fault) = (.ok n, b))
      (h : Same { s with
        outbox := b, producer := some s.producers, producers := s.producers + 1,
        worker := .check } s')
  /-- The producer could not be made again. -/
  | stranded {n : Int} {b : Outbox} (hw : s.worker = .rebuildReset)
      (hexec : s.outbox.exec (.requeueInFlight (env.clock 0) (env.clock 1) env.fault) = (.ok n, b))
      (h : Same { s with outbox := b, worker := .drain } s')
  | expired {n : Int} {b : Outbox} (hw : s.worker = .expire)
      (hexec : s.outbox.exec (.expireTtl (env.clock 0) s.cfg.outboxTtlMs env.fault) = (.ok n, b))
      (h : Same { s with outbox := b, worker := .fetch (env.clock 0) } s')
  | fetched {now : Int} {due : List OutboxRecord} (hw : s.worker = .fetch now)
      (hfetch : s.outbox.fetchDue now 32 env.fault = .ok due)
      (h : Same { s with worker := .batch due } s')
  | claimed {rec : OutboxRecord} {rest : List OutboxRecord} {n : Int} {b : Outbox}
      (hw : s.worker = .batch (rec :: rest))
      (hexec : s.outbox.exec (.markInFlight rec.eventId (env.clock 0) env.fault) = (.ok n, b))
      (h : Same { s with outbox := b, worker := .produce rec rest } s')
  | produced {rec : OutboxRecord} {rest : List OutboxRecord} {g : Nat}
      (hw : s.worker = .produce rec rest) (hg : s.producer = some g)
      (h : Same { s with
        messages := s.messages ++
          [{ record := rec, topic := s.cfg.topic, producer := g, reported := false }],
        worker := .batch rest } s')
  | refused {rec : OutboxRecord} {rest : List OutboxRecord} {why : String} {permanent : Bool}
      (hw : s.worker = .produce rec rest)
      (h : Same { s with worker := .settle rec.eventId why permanent rest } s')
  | judged {id why : String} {permanent : Bool} {rest : List OutboxRecord} {verdict : Verdict}
      (hw : s.worker = .settle id why permanent rest)
      (h : Same { s with worker := .settleMark id why verdict rest } s')
  | settled {id why : String} {verdict : Verdict} {rest : List OutboxRecord} {n : Int} {b : Outbox}
      (hw : s.worker = .settleMark id why verdict rest)
      (hexec : s.outbox.exec (verdict.op id why env) = (.ok n, b))
      (h : Same { s with outbox := b, worker := .batch rest } s')

/-- The thread moves on and keeps its producer. -/
theorem Worked.of_move {s s' : Pipeline} {env : Env} {w : Worker} (hrun : s.worker ≠ .idle)
    (hfree : w.Free) (hidle : w ≠ .idle) (hreset : w ≠ .rebuildReset)
    (h : Same { s with worker := w } s') : Worked s env s' :=
  .moved (g := s.producer) hrun hfree hidle (Or.inl rfl) (fun hw => absurd hw hreset) h

/-- An exception ends the loop; its last call of the outbox changed nothing. -/
theorem Worked.thrown {s : Pipeline} {env : Env} (hrun : s.worker ≠ .idle) :
    Worked s env s.throw :=
  .of_move (w := .drain) hrun ⟨rfl, rfl⟩ nofun nofun (by constructor <;> rfl)

/-- A call of the outbox that fails changed nothing, so the worker throws as it would
have before it. -/
theorem Worked.failed {s : Pipeline} {env : Env} {op : Op} {e : String} {b : Outbox}
    (hrun : s.worker ≠ .idle) (hop : op.inSession = true)
    (hexec : s.outbox.exec op = (.error e, b)) : Worked s env { s with outbox := b }.throw := by
  have hb := Outbox.exec_error_eq hop hexec
  subst hb
  exact .thrown hrun

theorem work_cases (kafka : Kafka) (s : Pipeline) (env : Env) :
    Worked s env (s.work kafka env) := by
  unfold Pipeline.work
  cases hw : s.worker with
  | idle => exact .stays rfl
  | finished => exact .stays rfl
  | loop =>
    -- the flags decide: leave the loop, rebuild the producer, or send a batch
    have hrun : s.worker ≠ .idle := by simp [hw]
    simp only
    split
    · exact .of_move (w := .drain) hrun ⟨rfl, rfl⟩ nofun nofun (by constructor <;> rfl)
    · split
      · refine .moved (w := .rebuildFlush) (g := s.producer) hrun ⟨rfl, rfl⟩ nofun (Or.inl rfl)
          nofun (by constructor <;> rfl)
      · exact .of_move (w := .check) hrun ⟨rfl, rfl⟩ nofun nofun (by constructor <;> rfl)
  | rebuildFlush =>
    have hrun : s.worker ≠ .idle := by simp [hw]
    exact .moved (w := .rebuildReset) (g := none) hrun ⟨rfl, rfl⟩ nofun (Or.inr rfl)
      (fun _ => rfl) (by constructor <;> rfl)
  | rebuildReset =>
    have hrun : s.worker ≠ .idle := by simp [hw]
    rcases hexec : s.outbox.exec (.requeueInFlight (env.clock 0) (env.clock 1) env.fault) with
      ⟨reply, b⟩
    cases reply with
    | error e => exact .failed hrun rfl hexec
    | ok n =>
      -- the events in flight are pending again, whether or not the producer can be made
      simp only
      split
      · exact .rebuilt hw hexec (by constructor <;> rfl)
      · exact .stranded hw hexec (by constructor <;> rfl)
  | check =>
    have hrun : s.worker ≠ .idle := by simp [hw]
    simp only
    split
    · exact .of_move (w := .expire) hrun ⟨rfl, rfl⟩ nofun nofun (by constructor <;> rfl)
    · exact .of_move (w := .drain) hrun ⟨rfl, rfl⟩ nofun nofun (by constructor <;> rfl)
  | expire =>
    have hrun : s.worker ≠ .idle := by simp [hw]
    rcases hexec : s.outbox.exec (.expireTtl (env.clock 0) s.cfg.outboxTtlMs env.fault) with
      ⟨reply, b⟩
    cases reply with
    | error e => exact .failed hrun rfl hexec
    | ok n => exact .expired hw hexec (by constructor <;> rfl)
  | fetch now =>
    have hrun : s.worker ≠ .idle := by simp [hw]
    simp only
    split
    · exact .thrown hrun
    · rename_i due hfetch
      exact .fetched hw hfetch (by constructor <;> rfl)
  | batch due =>
    have hrun : s.worker ≠ .idle := by simp [hw]
    cases due with
    | nil => exact .of_move (w := .poll) hrun ⟨rfl, rfl⟩ nofun nofun (by constructor <;> rfl)
    | cons rec rest =>
      -- the flags are read again before each event of the batch
      simp only
      split
      · exact .of_move (w := .poll) hrun ⟨rfl, rfl⟩ nofun nofun (by constructor <;> rfl)
      · rcases hexec : s.outbox.exec (.markInFlight rec.eventId (env.clock 0) env.fault) with
          ⟨reply, b⟩
        cases reply with
        | error e => exact .failed hrun rfl hexec
        | ok n => exact .claimed hw hexec (by constructor <;> rfl)
  | produce rec rest =>
    simp only
    split
    · -- a message is accepted only by a producer that is there
      rename_i hsent
      cases hg : s.producer with
      | none => simp [produceError, hg] at hsent
      | some g => exact .produced hw hg (by constructor <;> simp [hg])
    · exact .refused hw (by constructor <;> rfl)
  | settle id why permanent rest =>
    have hrun : s.worker ≠ .idle := by simp [hw]
    simp only
    split
    · -- `get` throws
      exact .thrown hrun
    · -- the row is gone
      exact .thrown hrun
    · exact .judged hw (by constructor <;> rfl)
  | settleMark id why verdict rest =>
    have hrun : s.worker ≠ .idle := by simp [hw]
    simp only
    rcases hexec : s.outbox.exec (verdict.op id why env) with ⟨reply, b⟩
    cases reply with
    | error e => exact .failed hrun (verdict.op_inSession _ _ _) hexec
    | ok n => exact .settled hw hexec (by constructor <;> rfl)
  | poll =>
    have hrun : s.worker ≠ .idle := by simp [hw]
    exact .of_move (w := .loop) hrun ⟨rfl, rfl⟩ nofun nofun (by constructor <;> rfl)
  | drain =>
    have hrun : s.worker ≠ .idle := by simp [hw]
    exact .of_move (w := .finished) hrun ⟨rfl, rfl⟩ nofun nofun (by constructor <;> rfl)

/-- The worker leaves the configuration, the callback and the log alone. -/
theorem Worked.frame {s s' : Pipeline} {env : Env} (h : Worked s env s') :
    s'.cfg = s.cfg ∧ s'.stopping = s.stopping ∧ s'.callback = s.callback ∧ s'.log = s.log := by
  cases h with
  | stays h => rw [h]; exact ⟨rfl, rfl, rfl, rfl⟩
  | moved _ _ _ _ _ h => exact ⟨h.cfg, h.stopping, h.callback, h.log⟩
  | rebuilt _ _ h => exact ⟨h.cfg, h.stopping, h.callback, h.log⟩
  | stranded _ _ h => exact ⟨h.cfg, h.stopping, h.callback, h.log⟩
  | expired _ _ h => exact ⟨h.cfg, h.stopping, h.callback, h.log⟩
  | fetched _ _ h => exact ⟨h.cfg, h.stopping, h.callback, h.log⟩
  | claimed _ _ h => exact ⟨h.cfg, h.stopping, h.callback, h.log⟩
  | produced _ _ h => exact ⟨h.cfg, h.stopping, h.callback, h.log⟩
  | refused _ h => exact ⟨h.cfg, h.stopping, h.callback, h.log⟩
  | judged _ h => exact ⟨h.cfg, h.stopping, h.callback, h.log⟩
  | settled _ _ h => exact ⟨h.cfg, h.stopping, h.callback, h.log⟩

/-! ## The callback -/

/-- What one step of `on_delivery` can do. -/
inductive Delivered (s : Pipeline) (env : Env) (s' : Pipeline) : Prop where
  | stays (h : s' = s)
  | acked {i : Nat} {n : Int} {b : Outbox} (hcb : s.callback = some (.ack i))
      (hexec : s.outbox.exec (.markAcked (s.opaqueId i) (env.clock 0) env.fault) = (.ok n, b))
      (h : Same ({ s with outbox := b }.returned i) s')
  /-- The transition was not made. -/
  | failed {cb : Callback} (hcb : s.callback = some cb) (h : Same (s.returned cb.message) s')
  | judged {i : Nat} {why : String} {permanent : Bool} {verdict : Verdict}
      (hcb : s.callback = some (.settle i why permanent))
      (h : Same { s with callback := some (.settleMark i why verdict) } s')
  | settled {i : Nat} {why : String} {verdict : Verdict} {n : Int} {b : Outbox}
      (hcb : s.callback = some (.settleMark i why verdict))
      (hexec : s.outbox.exec (verdict.op (s.opaqueId i) why env) = (.ok n, b))
      (h : Same ({ s with outbox := b }.returned i) s')
  /-- An exception ended the process. -/
  | escaped (h : s' = s.crash)

theorem callback_cases (kafka : Kafka) (s : Pipeline) (env : Env) :
    Delivered s env (s.step kafka (.callback env)) := by
  simp only [Pipeline.step]
  unfold Pipeline.deliver
  cases hcb : s.callback with
  | none => exact .stays rfl
  | some cb =>
    cases cb with
    | ack i =>
      simp only
      rcases hexec : s.outbox.exec (.markAcked (s.opaqueId i) (env.clock 0) env.fault) with
        ⟨reply, b⟩
      cases reply with
      | ok n => exact .acked hcb hexec (by constructor <;> rfl)
      | error e =>
        have hb := Outbox.exec_error_eq rfl hexec
        subst hb
        exact .failed hcb (by constructor <;> rfl)
    | settle i why permanent =>
      simp only
      cases s.outbox.judge s.cfg.maxAttemptsBeforeDead (s.opaqueId i) permanent env.fault with
      | error e =>
        -- `get` throws, and nothing in the callback catches it
        exact .escaped rfl
      | ok found =>
        cases found with
        | none => exact .failed hcb (by constructor <;> rfl)
        | some verdict => exact .judged hcb (by constructor <;> rfl)
    | settleMark i why verdict =>
      simp only
      rcases hexec : s.outbox.exec (verdict.op (s.opaqueId i) why env) with ⟨reply, b⟩
      cases reply with
      | ok n => exact .settled hcb hexec (by constructor <;> rfl)
      | error e =>
        have hb := Outbox.exec_error_eq (verdict.op_inSession _ _ _) hexec
        subst hb
        exact .failed hcb (by constructor <;> rfl)

theorem Delivered.frame {s s' : Pipeline} {env : Env} (h : Delivered s env s') :
    s'.cfg = s.cfg ∧ s'.log = s.log := by
  cases h with
  | stays h => rw [h]; exact ⟨rfl, rfl⟩
  | acked _ _ h => exact ⟨h.cfg, h.log⟩
  | failed _ h => exact ⟨h.cfg, h.log⟩
  | judged _ h => exact ⟨h.cfg, h.log⟩
  | settled _ _ h => exact ⟨h.cfg, h.log⟩
  | escaped h => rw [h]; exact ⟨rfl, rfl⟩

/-! ## Fail-stop -/

/-- The flags and the error count are as they were. -/
structure Unflagged (s s' : Pipeline) : Prop where
  running : s'.running = s.running
  accept : s'.accept = s.accept
  stateErrors : s'.metrics.stateErrors = s.metrics.stateErrors

theorem Unflagged.refl (s : Pipeline) : Unflagged s s := ⟨rfl, rfl, rfl⟩

/-- The pipeline stopped itself. -/
structure Halted (s' : Pipeline) : Prop where
  running : s'.running = false
  accept : s'.accept = false

/-- Why the worker throws. -/
inductive WorkerFails (s : Pipeline) (env : Env) : Prop where
  | call {op : Op} {e : String} (hop : op ∈ s.workCalls env) (h : s.outbox.reply op = .error e)
  | producer (hw : s.worker = .rebuildReset) (h : env.producerOk = false)
  | fetch {now : Int} {e : String} (hw : s.worker = .fetch now)
      (h : s.outbox.fetchDue now 32 env.fault = .error e)
  | judge {id why : String} {permanent : Bool} {rest : List OutboxRecord}
      (hw : s.worker = .settle id why permanent rest)
      (h : ∀ verdict, s.outbox.judge s.cfg.maxAttemptsBeforeDead id permanent env.fault ≠
        .ok (some verdict))

theorem WorkerFails.of_exec {s : Pipeline} {env : Env} {op : Op} {e : String} {b : Outbox}
    (hcalls : s.workCalls env = [op]) (hexec : s.outbox.exec op = (.error e, b)) :
    WorkerFails s env := by
  refine .call (e := e) (?_ : op ∈ s.workCalls env) (congrArg Prod.fst hexec)
  rw [hcalls]
  exact List.mem_singleton_self op

/-- The worker stops the pipeline only when it throws. -/
theorem work_flags (kafka : Kafka) (s : Pipeline) (env : Env) :
    Unflagged s (s.work kafka env) ∨ WorkerFails s env ∧ Halted (s.work kafka env) := by
  unfold Pipeline.work
  cases hw : s.worker with
  | rebuildReset =>
    simp only
    rcases hexec : s.outbox.exec (.requeueInFlight (env.clock 0) (env.clock 1) env.fault) with
      ⟨reply, b⟩
    cases reply with
    | error e =>
      refine Or.inr ⟨.of_exec ?_ hexec, rfl, rfl⟩
      rw [Pipeline.workCalls, hw]
    | ok n =>
      cases hp : env.producerOk with
      | true => exact Or.inl ⟨rfl, rfl, rfl⟩
      | false => exact Or.inr ⟨.producer hw hp, rfl, rfl⟩
  | expire =>
    simp only
    rcases hexec : s.outbox.exec (.expireTtl (env.clock 0) s.cfg.outboxTtlMs env.fault) with
      ⟨reply, b⟩
    cases reply with
    | error e =>
      refine Or.inr ⟨.of_exec ?_ hexec, rfl, rfl⟩
      rw [Pipeline.workCalls, hw]
    | ok n => exact Or.inl ⟨rfl, rfl, rfl⟩
  | fetch now =>
    simp only
    split
    · rename_i e hfetch
      exact Or.inr ⟨.fetch hw hfetch, rfl, rfl⟩
    · exact Or.inl ⟨rfl, rfl, rfl⟩
  | batch due =>
    cases due with
    | nil => exact Or.inl ⟨rfl, rfl, rfl⟩
    | cons rec rest =>
      simp only
      split
      · exact Or.inl ⟨rfl, rfl, rfl⟩
      · rename_i hgo
        rcases hexec : s.outbox.exec (.markInFlight rec.eventId (env.clock 0) env.fault) with
          ⟨reply, b⟩
        cases reply with
        | error e =>
          refine Or.inr ⟨.of_exec ?_ hexec, rfl, rfl⟩
          simp only [Pipeline.workCalls, hw, if_neg hgo]
        | ok n => exact Or.inl ⟨rfl, rfl, rfl⟩
  | settle id why permanent rest =>
    simp only
    split
    · rename_i e hjudge
      exact Or.inr ⟨.judge hw (by simp [hjudge]), rfl, rfl⟩
    · rename_i hjudge
      exact Or.inr ⟨.judge hw (by simp [hjudge]), rfl, rfl⟩
    · exact Or.inl ⟨rfl, rfl, rfl⟩
  | settleMark id why verdict rest =>
    simp only
    rcases hexec : s.outbox.exec (verdict.op id why env) with ⟨reply, b⟩
    cases reply with
    | error e =>
      refine Or.inr ⟨.of_exec ?_ hexec, rfl, rfl⟩
      rw [Pipeline.workCalls, hw]
    | ok n => exact Or.inl ⟨rfl, rfl, by simp⟩
  | _ =>
    -- no other step can throw
    left
    simp only
    repeat' split
    all_goals exact ⟨rfl, rfl, rfl⟩

/-- Why `on_delivery` stops the pipeline, or ends the process. -/
inductive CallbackFails (s : Pipeline) (env : Env) : Prop where
  | call {op : Op} {e : String} (hop : op ∈ s.deliverCalls env) (h : s.outbox.reply op = .error e)
  | judge {i : Nat} {why : String} {permanent : Bool}
      (hcb : s.callback = some (.settle i why permanent))
      (h : ∀ verdict, s.outbox.judge s.cfg.maxAttemptsBeforeDead (s.opaqueId i) permanent
        env.fault ≠ .ok (some verdict))

theorem callback_flags (kafka : Kafka) (s : Pipeline) (env : Env) :
    Unflagged s (s.step kafka (.callback env)) ∨
      CallbackFails s env ∧ Halted (s.step kafka (.callback env)) := by
  simp only [Pipeline.step]
  unfold Pipeline.deliver
  cases hcb : s.callback with
  | none => exact Or.inl (Unflagged.refl s)
  | some cb =>
    cases cb with
    | ack i =>
      simp only
      rcases hexec : s.outbox.exec (.markAcked (s.opaqueId i) (env.clock 0) env.fault) with
        ⟨reply, b⟩
      cases reply with
      | ok n => exact Or.inl ⟨rfl, rfl, rfl⟩
      | error e =>
        refine Or.inr ⟨.call (e := e) ?_ (congrArg Prod.fst hexec), rfl, rfl⟩
        simp [Pipeline.deliverCalls, hcb]
    | settle i why permanent =>
      simp only
      cases hjudge : s.outbox.judge s.cfg.maxAttemptsBeforeDead (s.opaqueId i) permanent
          env.fault with
      | error e => exact Or.inr ⟨.judge hcb (by simp [hjudge]), rfl, rfl⟩
      | ok found =>
        cases found with
        | none => exact Or.inr ⟨.judge hcb (by simp [hjudge]), rfl, rfl⟩
        | some verdict => exact Or.inl ⟨rfl, rfl, rfl⟩
    | settleMark i why verdict =>
      simp only
      rcases hexec : s.outbox.exec (verdict.op (s.opaqueId i) why env) with ⟨reply, b⟩
      cases reply with
      | ok n => exact Or.inl ⟨rfl, rfl, by simp [Pipeline.returned]⟩
      | error e =>
        refine Or.inr ⟨.call (e := e) ?_ (congrArg Prod.fst hexec), rfl, rfl⟩
        simp [Pipeline.deliverCalls, hcb]

/-! ## Sessions -/

/-- A thread that runs is not brought back to `idle` by itself. -/
theorem Worked.idle_iff {s s' : Pipeline} {env : Env} (h : Worked s env s') :
    s'.worker = .idle ↔ s.worker = .idle := by
  cases h with
  | stays h => rw [h]
  | moved hrun _ hidle _ _ h => simp [h.worker, hidle, hrun]
  | rebuilt hw _ h => simp [h.worker, hw]
  | stranded hw _ h => simp [h.worker, hw]
  | expired hw _ h => simp [h.worker, hw]
  | fetched hw _ h => simp [h.worker, hw]
  | claimed hw _ h => simp [h.worker, hw]
  | produced hw _ h => simp [h.worker, hw]
  | refused hw h => simp [h.worker, hw]
  | judged hw h => simp [h.worker, hw]
  | settled hw _ h => simp [h.worker, hw]

theorem Delivered.worker_eq {s s' : Pipeline} {env : Env} (h : Delivered s env s') :
    s'.worker = s.worker ∧ s'.stopping = s.stopping ∨ s' = s.crash := by
  cases h with
  | stays h => exact Or.inl (by simp [h])
  | acked _ _ h => exact Or.inl ⟨h.worker, h.stopping⟩
  | failed _ h => exact Or.inl ⟨h.worker, h.stopping⟩
  | judged _ h => exact Or.inl ⟨h.worker, h.stopping⟩
  | settled _ _ h => exact Or.inl ⟨h.worker, h.stopping⟩
  | escaped h => exact Or.inr h

/-! ## Starting -/

/-- What `start` can do. -/
inductive Started (s : Pipeline) (env : Env) (s' : Pipeline) : Prop where
  | refused (hguard : s.stopping = true ∨ s.worker ≠ .idle ∨ s.running = true) (h : s' = s)
  /-- The outbox or the producer could not be opened. -/
  | failed {b : Outbox} (hstop : s.stopping = false) (hidle : s.worker = .idle)
      (hrun : s.running = false) (h : s' = { s with outbox := b })
  | started {n m : Int} {b b' : Outbox} (hstop : s.stopping = false) (hidle : s.worker = .idle)
      (hrun : s.running = false) (hopen : s.outbox.exec (.openDb env.fault) = (.ok n, b))
      (hrequeue : b.exec (.requeueInFlight (env.clock 0) (env.clock 1) env.fault) = (.ok m, b'))
      (h : s' = { s with
        outbox := b', running := true, accept := true, rebuildRequested := false,
        worker := .loop, producer := some s.producers, producers := s.producers + 1 })

theorem start_cases (s : Pipeline) (env : Env) : Started s env (s.start env) := by
  unfold Pipeline.start
  split
  · rename_i hguard
    exact .refused hguard rfl
  · rename_i hguard
    push Not at hguard
    have hstop : s.stopping = false := by simpa using hguard.1
    have hrun : s.running = false := by simpa using hguard.2.2
    rcases hopen : s.outbox.exec (.openDb env.fault) with ⟨reply, b⟩
    cases reply with
    | error e => exact .failed hstop hguard.2.1 hrun rfl
    | ok n =>
      dsimp only
      rcases hreq : b.exec (.requeueInFlight (env.clock 0) (env.clock 1) env.fault) with
        ⟨reply, b'⟩
      cases reply with
      | error e => exact .failed hstop hguard.2.1 hrun rfl
      | ok m =>
        dsimp only
        split
        · exact .started hstop hguard.2.1 hrun hopen hreq rfl
        · exact .failed hstop hguard.2.1 hrun rfl

/-- Only `start` makes a thread. -/
theorem start_of_idle {kafka : Kafka} {s : Pipeline} {act : Act} (hidle : s.worker = .idle)
    (h : (s.step kafka act).worker ≠ .idle) : ∃ env, act = .start env := by
  cases act with
  | start env => exact ⟨env, rfl⟩
  | work env =>
    simp only [Pipeline.step] at h
    split at h
    · exact absurd ((work_cases kafka s env).idle_iff.mpr hidle) h
    · exact absurd hidle h
  | callback env =>
    rcases (callback_cases kafka s env).worker_eq with ⟨hw, -⟩ | hcrash
    · exact absurd (hw.trans hidle) h
    · rw [hcrash] at h
      exact absurd rfl h
  | _ =>
    simp only [Pipeline.step, Pipeline.create, Pipeline.enqueue, Pipeline.stop, Pipeline.joined,
      Pipeline.crash, Pipeline.report, Pipeline.enter, Pipeline.append, Pipeline.retryDead] at h
    repeat' split at h
    all_goals simp [hidle] at h

/-- The configuration changes only between sessions. -/
theorem step_cfg (kafka : Kafka) (s : Pipeline) (act : Act) :
    (s.step kafka act).cfg = s.cfg ∨ ∃ cfg, act = .create cfg ∧ (s.step kafka act).cfg = cfg ∧
      (s.step kafka act).worker = .idle := by
  cases act with
  | create cfg =>
    simp only [Pipeline.step, Pipeline.create]
    split
    · rename_i hidle
      exact Or.inr ⟨cfg, rfl, rfl, hidle.1⟩
    · exact Or.inl rfl
  | work env =>
    left
    simp only [Pipeline.step]
    split
    · exact (work_cases kafka s env).frame.1
    · rfl
  | callback env => exact Or.inl (callback_cases kafka s env).frame.1
  | _ =>
    left
    simp only [Pipeline.step, Pipeline.start, Pipeline.enqueue, Pipeline.stop, Pipeline.joined,
      Pipeline.crash, Pipeline.report, Pipeline.enter, Pipeline.append, Pipeline.retryDead]
    repeat' split
    all_goals rfl

/-- While the pipeline runs there is a worker, and nobody is waiting for its end. -/
structure Session (s : Pipeline) : Prop where
  accept : s.accept = s.running
  worker : s.running = true → s.worker ≠ .idle
  stopping : s.running = true → s.stopping = false

theorem Session.halted {s : Pipeline} (h : Halted s) : Session s :=
  ⟨h.accept.trans h.running.symm, fun hr => by simp [h.running] at hr,
    fun hr => by simp [h.running] at hr⟩

theorem Session.step {s : Pipeline} (h : Session s) (kafka : Kafka) (act : Act) :
    Session (s.step kafka act) := by
  cases act with
  | work env =>
    simp only [Pipeline.step]
    split
    · rcases work_flags kafka s env with hsame | ⟨-, hhalt⟩
      · have hcases := work_cases kafka s env
        constructor
        · rw [hsame.accept, hsame.running]
          exact h.accept
        · rw [hsame.running]
          exact fun hr hidle => h.worker hr (hcases.idle_iff.mp hidle)
        · rw [hsame.running, hcases.frame.2.1]
          exact h.stopping
      · exact .halted hhalt
    · exact h
  | callback env =>
    -- a callback that fails halts; another one leaves the flags, unless the process dies
    rcases callback_flags kafka s env with hsame | ⟨-, hhalt⟩
    · rcases (callback_cases kafka s env).worker_eq with ⟨hw, hstop⟩ | hcrash
      · exact ⟨by rw [hsame.accept, hsame.running, h.accept],
          by rw [hsame.running, hw]; exact h.worker,
          by rw [hsame.running, hstop]; exact h.stopping⟩
      · rw [hcrash]
        exact .halted ⟨rfl, rfl⟩
    · exact .halted hhalt
  | create cfg =>
    simp only [Pipeline.step, Pipeline.create]
    split
    · exact .halted ⟨rfl, rfl⟩
    · exact h
  | start env =>
    simp only [Pipeline.step, Pipeline.start]
    split
    · exact h
    · rename_i hguard
      push Not at hguard
      repeat' split
      · exact ⟨h.accept, h.worker, h.stopping⟩
      · exact ⟨h.accept, h.worker, h.stopping⟩
      · -- the only branch that sets the flags also makes the thread
        exact ⟨rfl, fun _ => by simp, fun _ => by simpa using hguard.1⟩
      · exact ⟨h.accept, h.worker, h.stopping⟩
  | stop =>
    simp only [Pipeline.step, Pipeline.stop]
    split
    · exact h
    · exact .halted ⟨rfl, rfl⟩
  | joined =>
    simp only [Pipeline.step, Pipeline.joined]
    split
    · rename_i hguard
      -- whoever waits for the worker has cleared the flags before
      have hrun : s.running = false := by
        by_contra hr
        have := h.stopping (by simpa using hr)
        simp [hguard.1] at this
      exact .halted ⟨hrun, h.accept.trans hrun⟩
    · exact h
  | crash => exact .halted ⟨rfl, rfl⟩
  | _ =>
    simp only [Pipeline.step, Pipeline.enqueue, Pipeline.report, Pipeline.enter, Pipeline.append,
      Pipeline.retryDead]
    repeat' split
    all_goals exact ⟨h.accept, h.worker, h.stopping⟩

theorem session_run (kafka : Kafka) (cfg : Config) (acts : List Act) :
    Session (Machine.run (Pipeline.step kafka) (Pipeline.init cfg) acts) :=
  Machine.run_invariant (.halted ⟨rfl, rfl⟩) (fun _ act h => h.step kafka act) acts

/-! ## A session holds the outbox open -/

/-- A call within a session neither opens nor closes the outbox. -/
theorem isOpen_of_exec {s : Pipeline} {b : Outbox} {op : Op} {reply : Except String Int}
    (hop : op.inSession = true) (hexec : s.outbox.exec op = (reply, b)) : b.isOpen = s.outbox.isOpen := by
  have hstep : s.outbox.step op = b := congrArg Prod.snd hexec
  exact hstep ▸ s.outbox.step_isOpen hop

/-- What `open` opened is open. -/
theorem isOpen_of_openDb {b b' : Outbox} {n : Int} {fault : FaultPlan}
    (h : b.exec (.openDb fault) = (.ok n, b')) : b'.isOpen = true := by
  cases hopen : b.isOpen with
  | true =>
    simp only [Outbox.exec, hopen, if_true, Prod.mk.injEq] at h
    rw [← h.2]
    exact hopen
  | false =>
    cases hrun : (openDb fault).run b.db with
    | error e db => simp [Outbox.exec, hopen, hrun] at h
    | ok u db =>
      simp only [Outbox.exec, hopen, hrun, Bool.false_eq_true, if_false, Prod.mk.injEq] at h
      rw [← h.2]

/-- The worker neither opens nor closes the outbox. -/
theorem workCalls_isOpen (s : Pipeline) (env : Env) :
    (Machine.run Outbox.step s.outbox (s.workCalls env)).isOpen = s.outbox.isOpen := by
  have hops : ∀ op ∈ s.workCalls env, op.inSession = true := by
    unfold Pipeline.workCalls
    repeat' split
    all_goals simp only [List.mem_singleton, List.not_mem_nil, forall_eq, false_imp_iff,
      implies_true, Verdict.op_inSession]
    all_goals simp [Op.inSession]
  exact Machine.run_invariant_along (I := fun b : Outbox => b.isOpen = s.outbox.isOpen)
    (P := fun _ op => op.inSession = true) rfl (fun b _ hop h => (b.step_isOpen hop).trans h)
    (s.workCalls env) fun x hx => hops x.2 (Machine.mem_of_mem_trace hx)

/-- A session holds the outbox open. -/
theorem isOpen_step (kafka : Kafka) {s : Pipeline} (act : Act)
    (h : s.worker ≠ .idle → s.outbox.isOpen = true) :
    (s.step kafka act).worker ≠ .idle → (s.step kafka act).outbox.isOpen = true := by
  cases act with
  | start env =>
    simp only [Pipeline.step]
    cases start_cases s env with
    | refused _ hs =>
      rw [hs]
      exact h
    | failed _ hidle _ hs =>
      rw [hs]
      exact fun hw => absurd hidle hw
    | started _ _ _ hopen hrequeue hs =>
      rw [hs]
      exact fun _ => (isOpen_of_exec (s := { s with outbox := _ }) rfl hrequeue).trans
        (isOpen_of_openDb hopen)
  | work env =>
    simp only [Pipeline.step]
    split
    · intro hw
      rw [work_outbox, workCalls_isOpen]
      exact h fun hidle => hw ((work_cases kafka s env).idle_iff.mpr hidle)
    · exact h
  | callback env =>
    cases callback_cases kafka s env with
    | stays hs =>
      rw [hs]
      exact h
    | acked _ hexec hsame =>
      rw [hsame.worker, hsame.outbox]
      exact fun hw => (isOpen_of_exec rfl hexec).trans (h hw)
    | failed _ hsame | judged _ hsame =>
      rw [hsame.worker, hsame.outbox]
      exact h
    | settled _ hexec hsame =>
      rw [hsame.worker, hsame.outbox]
      exact fun hw => (isOpen_of_exec (Verdict.op_inSession ..) hexec).trans (h hw)
    | escaped hcrash =>
      rw [hcrash]
      exact fun hw => absurd rfl hw
  | enqueue args env =>
    simp only [Pipeline.step, Pipeline.enqueue]
    split
    · exact h
    · rcases hexec : s.outbox.exec (.insertPending s.cfg.limits (args.toRecord s.cfg (env.clock 0))
        (env.clock 1) env.fault) with ⟨reply, b⟩
      cases reply with
      | ok n => exact fun hw => (isOpen_of_exec rfl hexec).trans (h hw)
      | error e => exact fun hw => (isOpen_of_exec rfl hexec).trans (h hw)
  | joined =>
    simp only [Pipeline.step, Pipeline.joined]
    split
    · exact fun hw => absurd rfl hw
    · exact h
  | crash => exact fun hw => absurd rfl hw
  | retryDead id env =>
    simp only [Pipeline.step, Pipeline.retryDead]
    split
    · exact h
    · rename_i hclosed
      -- a worker's lock keeps the operator out
      have hidle : s.worker = .idle := by
        by_contra hw
        exact hclosed (h hw)
      split
      · exact fun hw => absurd hidle hw
      · exact fun hw => absurd hidle hw
  | _ =>
    simp only [Pipeline.step, Pipeline.create, Pipeline.stop, Pipeline.report, Pipeline.enter,
      Pipeline.append]
    repeat' split
    all_goals exact h

end EventKafka
