import EventKafka.Outbox.Frame
import EventKafka.Pipeline.Records

/-! # Rows in flight and messages outstanding

What librdkafka promises about delivery reports is `Pipeline.served`: a report is
served inside `rd_kafka_poll` or `rd_kafka_flush`, by the producer that took the
message and once. Under this promise the rows in flight and the messages that still
wait for their report stay linked: `Linked`, an invariant of every run, whatever
statements fail in it.
-/

namespace EventKafka

open Sql

/-- The worker is inside a call of librdkafka that serves reports. -/
def Worker.polling : Worker → Bool
  | .poll => true
  | .rebuildFlush => true
  | .drain => true
  | _ => false

/-- What librdkafka promises: a report is served inside `rd_kafka_poll` or
`rd_kafka_flush`, for a message of the current producer, and at most once. -/
def Pipeline.served (s : Pipeline) : Act → Bool
  | .report i _ =>
    s.worker.polling && (s.messages[i]?).any fun m => !m.reported && s.producer = some m.producer
  | _ => true

/-- The current producer still owes the report on message `i`. -/
def Pipeline.Owes (s : Pipeline) (i : Nat) (m : Message) : Prop :=
  s.messages[i]? = some m ∧ m.reported = false ∧ s.producer = some m.producer

/-- The row of the event `P` is in flight. -/
def Flying (db : Db) (P : Event → Prop) : Prop :=
  ∃ r ∈ db.outbox, P r.toEvent ∧ r.state = .inFlight

/-- The row `rec` was read from is pending and may be sent. -/
def Waiting (db : Db) (rec : OutboxRecord) : Prop :=
  ∃ r ∈ db.outbox, rec.Of r.toEvent ∧ r.state = .pending ∧ db.deliverable r.toEvent = true

/-- The link between rows and messages. -/
structure Linked (s : Pipeline) : Prop where
  store : StoreInv s.outbox.db
  opened : s.worker ≠ .idle → s.outbox.isOpen = true
  idle : s.worker = .idle → s.producer = none
  reset : s.worker = .rebuildReset → s.producer = none
  current : ∀ g, s.producer = some g → g < s.producers
  numbered : ∀ m ∈ s.messages, m.producer < s.producers
  /-- A message that waits for its report has its row in flight. -/
  owed : ∀ i m, s.Owes i m → Flying s.outbox.db m.record.Of
  owedOnce : ∀ i j m m', s.Owes i m → s.Owes j m' → m.record.eventId = m'.record.eventId → i = j
  /-- What is left of the batch can still be marked. -/
  waiting : ∀ rec ∈ s.worker.rest, Waiting s.outbox.db rec
  distinct : (s.worker.rest.map fun rec => rec.eventId).Nodup
  /-- The event in hand is in flight and has no message out. -/
  holding : ∀ id, s.worker.holding = some id →
    Flying s.outbox.db (fun e => e.eventId = id) ∧ ∀ i m, s.Owes i m → m.record.eventId ≠ id
  producing : ∀ rec rest, s.worker = .produce rec rest → Flying s.outbox.db rec.Of
  reporting : ∀ cb, s.callback = some cb →
    s.worker.polling = true ∧ ∃ m, s.Owes cb.message m

/-! ## Small facts -/

theorem Worker.free_of_polling {w : Worker} (h : w.polling = true) : w.Free := by
  cases w <;> first | exact ⟨rfl, rfl⟩ | simp [Worker.polling] at h

theorem Worker.Free.not_produce {w : Worker} (h : w.Free) (rec : OutboxRecord)
    (rest : List OutboxRecord) : w ≠ .produce rec rest := by
  rintro rfl
  simp [Worker.Free, Worker.holding] at h

theorem Flying.keep {K : Row → Prop} {db db' : Db} {P : Event → Prop} (h : Flying db P)
    (hkeep : Keeps K db db')
    (hK : ∀ r ∈ db.outbox, P r.toEvent → r.state = .inFlight → K r) : Flying db' P := by
  rcases h with ⟨r, hr, hP, hstate⟩
  rcases hkeep r hr (hK r hr hP hstate) with ⟨r', hr', hevent, hstate', -⟩
  exact ⟨r', hr', hevent ▸ hP, hstate'.trans hstate⟩

theorem Waiting.keep {K : Row → Prop} {db db' : Db} {rec : OutboxRecord} (h : Waiting db rec)
    (hkeep : Keeps K db db')
    (hK : ∀ r ∈ db.outbox, rec.Of r.toEvent → r.state = .pending → K r) : Waiting db' rec := by
  rcases h with ⟨r, hr, hof, hstate, hdel⟩
  rcases hkeep r hr (hK r hr hof hstate) with ⟨r', hr', hevent, hstate', hdel'⟩
  exact ⟨r', hr', hevent ▸ hof, hstate'.trans hstate, hevent ▸ hdel' hdel⟩

/-- One event is not both in flight and waiting. -/
theorem Flying.ne_of_waiting {db : Db} {P : Event → Prop} {id : String} {rec : OutboxRecord}
    (h : Flying db P) (hid : ∀ e, P e → e.eventId = id) (hwait : Waiting db rec) :
    id ≠ rec.eventId := by
  rintro rfl
  rcases h with ⟨r, hr, hP, hstate⟩
  rcases hwait with ⟨q, hq, hof, hpend, -⟩
  have hrq : r = q := Table.eq_of_key hr hq ((hid _ hP).trans hof.eventId)
  subst hrq
  rw [hstate] at hpend
  cases hpend

theorem Pipeline.opaqueId_of {s : Pipeline} {i : Nat} {m : Message}
    (h : s.messages[i]? = some m) : s.opaqueId i = m.record.eventId := by
  simp [Pipeline.opaqueId, h]

/-- After its report is handled a message is owed no more; the others as before. -/
theorem owes_of_returned {s : Pipeline} {i j : Nat} {m : Message}
    (h : (s.returned i).Owes j m) : s.Owes j m ∧ j ≠ i := by
  have hat := h.1
  simp only [Pipeline.returned, List.getElem?_modify] at hat
  by_cases hij : i = j
  · subst hij
    rcases Option.map_eq_some_iff.mp hat with ⟨m₀, -, rfl⟩
    have := h.2.1
    simp at this
  · simp only [hij, if_false, Option.map_eq_map, Option.map_id'] at hat
    exact ⟨⟨by simpa using hat, h.2.1, h.2.2⟩, Ne.symm hij⟩

theorem numbered_returned {s : Pipeline} {i : Nat} (h : ∀ m ∈ s.messages, m.producer < s.producers) :
    ∀ m ∈ (s.returned i).messages, m.producer < s.producers := by
  intro m hm
  rcases exists_of_bodies (returned_bodies s i) hm with ⟨m₀, hm₀, hbody⟩
  simp only [Message.body, Prod.mk.injEq] at hbody
  rw [← hbody.2.2]
  exact h m₀ hm₀

/-! ## Building the link -/

/-- The link is between the outbox, the two threads and the messages. -/
theorem Linked.of_eq {t s : Pipeline} (h : Linked t) (houtbox : s.outbox = t.outbox)
    (hworker : s.worker = t.worker) (hcallback : s.callback = t.callback)
    (hproducer : s.producer = t.producer) (hproducers : s.producers = t.producers)
    (hmessages : s.messages = t.messages) : Linked s := by
  rcases s with ⟨_, _, _, _, _, _, _, _, _, _, _, _, _⟩
  rcases t with ⟨_, _, _, _, _, _, _, _, _, _, _, _, _⟩
  simp only at houtbox hworker hcallback hproducer hproducers hmessages
  subst houtbox hworker hcallback hproducer hproducers hmessages
  exact ⟨h.store, h.opened, h.idle, h.reset, h.current, h.numbered,
    h.owed, h.owedOnce, h.waiting, h.distinct, h.holding, h.producing, h.reporting⟩

/-- It does not depend on the metrics and flags. -/
theorem Linked.congr {t s : Pipeline} (h : Linked t) (hsame : Same t s) : Linked s :=
  h.of_eq hsame.outbox hsame.worker hsame.callback hsame.producer hsame.producers hsame.messages

/-- Nothing is owed and nothing in hand: only the store has to be in order. -/
theorem Linked.unowed {s : Pipeline} (hstore : StoreInv s.outbox.db)
    (hopen : s.worker ≠ .idle → s.outbox.isOpen = true) (hidle : s.worker = .idle → s.producer = none)
    (hreset : s.worker = .rebuildReset → s.producer = none)
    (hcurrent : ∀ g, s.producer = some g → g < s.producers)
    (hnum : ∀ m ∈ s.messages, m.producer < s.producers) (hno : ∀ i m, ¬ s.Owes i m)
    (hfree : s.worker.Free) (hcb : s.callback = none) : Linked s where
  store := hstore
  opened := hopen
  idle := hidle
  reset := hreset
  current := hcurrent
  numbered := hnum
  owed := fun i m ho => absurd ho (hno i m)
  owedOnce := fun i _ m _ ho => absurd ho (hno i m)
  waiting := fun rec hrec => by simp [hfree.1] at hrec
  distinct := by simp [hfree.1]
  holding := fun id hid => by simp [hfree.2] at hid
  producing := fun rec rest hw => absurd hw (hfree.not_produce rec rest)
  reporting := fun cb hsome => by simp [hcb] at hsome

/-- A pipeline without a worker. -/
theorem Linked.asleep {s : Pipeline} (hstore : StoreInv s.outbox.db) (hw : s.worker = .idle)
    (hp : s.producer = none) (hnum : ∀ m ∈ s.messages, m.producer < s.producers)
    (hcb : s.callback = none) : Linked s := by
  refine .unowed hstore (fun h => absurd hw h) (fun _ => hp) (fun _ => hp) ?_ hnum ?_ ?_ hcb
  · intro g hg
    simp [hp] at hg
  · intro i m ho
    have := ho.2.2
    simp [hp] at this
  · rw [hw]
    exact ⟨rfl, rfl⟩

/-- A producer was made. It has taken no message yet, so no report is owed. -/
theorem Linked.renewed {s : Pipeline} {w : Worker} {b : Outbox} (h : Linked s)
    (hstore : StoreInv b.db) (hopen : b.isOpen = true) (hfree : w.Free) (hidle : w ≠ .idle)
    (hreset : w ≠ .rebuildReset) (hcb : s.callback = none) :
    Linked { s with
      outbox := b, producer := some s.producers, producers := s.producers + 1, worker := w } := by
  refine .unowed hstore (fun _ => hopen) (fun hw => absurd hw hidle) (fun hw => absurd hw hreset)
    ?_ ?_ ?_ hfree hcb
  · intro g hg
    simp only [Option.some.injEq] at hg
    show g < s.producers + 1
    omega
  · exact fun m hm => Nat.lt_succ_of_lt (h.numbered m hm)
  · -- the messages so far have lower producer numbers
    intro i m ho
    have hlt := h.numbered m (List.mem_of_getElem? ho.1)
    have heq : s.producers = m.producer := by simpa using ho.2.2
    omega

/-- A callback runs on a message that is owed its report. -/
theorem Linked.entered {s : Pipeline} {m : Message} (h : Linked s) (cb : Callback)
    (hpoll : s.worker.polling = true) (howes : s.Owes cb.message m) :
    Linked { s with callback := some cb } := by
  refine ⟨h.store, h.opened, h.idle, h.reset, h.current, h.numbered, h.owed, h.owedOnce,
    h.waiting, h.distinct, h.holding, h.producing, ?_⟩
  intro cb' hsome
  simp only [Option.some.injEq] at hsome
  rw [← hsome]
  exact ⟨hpoll, m, howes⟩

theorem Linked.init (cfg : Config) : Linked (Pipeline.init cfg) :=
  .asleep StoreInv.empty rfl rfl (fun _ hm => absurd hm List.not_mem_nil) rfl

theorem Linked.crash {s : Pipeline} (h : Linked s) : Linked s.crash :=
  .asleep (h.store.step .close) rfl rfl h.numbered rfl

/-- The worker is between batches, with a database that kept the rows in flight. -/
theorem Linked.move {s : Pipeline} {w : Worker} {g : Option Nat} {b : Outbox} (h : Linked s)
    (hrun : s.worker ≠ .idle) (hfree : w.Free) (hidle : w ≠ .idle)
    (hg : g = s.producer ∨ g = none) (hreset : w = .rebuildReset → g = none)
    (hcb : s.callback = none) (hstore : StoreInv b.db) (hopen : b.isOpen = s.outbox.isOpen)
    (hkeep : Keeps (fun r => r.state = .inFlight) s.outbox.db b.db) :
    Linked { s with outbox := b, producer := g, worker := w } := by
  have howes : ∀ {i m}, { s with outbox := b, producer := g, worker := w }.Owes i m →
      s.Owes i m := by
    intro i m ho
    rcases hg with rfl | rfl
    · exact ho
    · have := ho.2.2
      simp at this
  constructor
  case store => exact hstore
  case opened => exact fun _ => hopen.trans (h.opened hrun)
  case idle => exact fun hw => absurd hw hidle
  case reset => exact hreset
  case current =>
    intro g' hg'
    rcases hg with rfl | rfl
    · exact h.current g' hg'
    · simp at hg'
  case numbered => exact h.numbered
  case owed => exact fun i m ho => (h.owed i m (howes ho)).keep hkeep fun _ _ _ hstate => hstate
  case owedOnce => exact fun i j m m' ho ho' => h.owedOnce i j m m' (howes ho) (howes ho')
  case waiting => exact fun rec hrec => by simp [hfree.1] at hrec
  case distinct => simp [hfree.1]
  case holding => exact fun id hid => by simp [hfree.2] at hid
  case producing => exact fun rec rest hw => absurd hw (hfree.not_produce rec rest)
  case reporting => exact fun cb hsome => by simp [hcb] at hsome

/-! ## The worker -/

section Work

variable {s : Pipeline} {b : Outbox} {n : Int} {env : Env}

theorem store_of_exec {op : Op} {reply : Except String Int} (h : StoreInv s.outbox.db)
    (hexec : s.outbox.exec op = (reply, b)) : StoreInv b.db := by
  have hstep : s.outbox.step op = b := congrArg Prod.snd hexec
  exact hstep ▸ h.step op

theorem keeps_of_verdict {verdict : Verdict} {id why : String}
    (hexec : s.outbox.exec (verdict.op id why env) = (.ok n, b)) :
    Keeps (fun r => r.eventId ≠ id) s.outbox.db b.db := by
  cases verdict with
  | dead => exact keeps_of_markDead hexec
  | retry attempts => exact keeps_of_markRetry hexec

/-- A batch was read. -/
theorem Linked.fetched {now : Int} {recs : List OutboxRecord} (h : Linked s)
    (hw : s.worker = .fetch now) (hcb : s.callback = none)
    (hfetch : s.outbox.fetchDue now 32 env.fault = .ok recs) :
    Linked { s with worker := .batch recs } := by
  have hrows := Outbox.fetchDue_ok hfetch
  constructor
  case store => exact h.store
  case opened => exact fun _ => h.opened (by simp [hw])
  case idle => exact fun hidle => by simp at hidle
  case reset => exact fun hreset => by simp at hreset
  case current => exact h.current
  case numbered => exact h.numbered
  case owed => exact h.owed
  case owedOnce => exact h.owedOnce
  case waiting =>
    intro rec hrec
    rcases hrows.1 rec hrec with ⟨r, hr, hdue, rfl⟩
    simp only [due, Bool.and_eq_true, decide_eq_true_eq] at hdue
    exact ⟨r, hr, record_of r, hdue.1.1, hdue.2⟩
  case distinct => exact hrows.2
  case holding => exact fun id hid => by simp [Worker.holding] at hid
  case producing => exact fun rec rest hprod => by simp at hprod
  case reporting => exact fun cb hsome => by simp [hcb] at hsome

/-- The head of the batch was marked in flight. -/
theorem Linked.claimed {rec : OutboxRecord} {rest : List OutboxRecord} (h : Linked s)
    (hw : s.worker = .batch (rec :: rest)) (hcb : s.callback = none)
    (hexec : s.outbox.exec (.markInFlight rec.eventId (env.clock 0) env.fault) = (.ok n, b)) :
    Linked { s with outbox := b, worker := .produce rec rest } := by
  have hkeep := keeps_of_markInFlight hexec
  have hwait : ∀ q ∈ rec :: rest, Waiting s.outbox.db q := fun q hq => h.waiting q (by rw [hw]; exact hq)
  have hnodup : ((rec :: rest).map fun q => q.eventId).Nodup := by
    have := h.distinct
    rw [hw] at this
    exact this
  rw [List.map_cons, List.nodup_cons] at hnodup
  -- the row that was marked is the one the record was read from
  have hflying : Flying b.db rec.Of := by
    rcases hwait rec List.mem_cons_self with ⟨r, hr, hof, -, -⟩
    rcases call_ok hexec with ⟨_, hrun, -⟩
    rcases markInFlight_ok hrun with ⟨q, hq, hsend, -, hdb⟩
    have hqr : q = r := Table.eq_of_key hq hr ((sendable_iff.mp hsend).1.trans hof.eventId)
    subst hqr
    refine ⟨⟨q.toEvent, { q.toProgress with
      state := .inFlight, attempts := q.attempts + 1, updatedAtMs := env.clock 0 }⟩, ?_, hof, rfl⟩
    rw [hdb]
    exact Db.mem_updateOutbox.mpr ⟨q, hq, by simp⟩
  -- no message is out for it: that would put its row in flight, and it was pending
  have hne : ∀ i m, s.Owes i m → m.record.eventId ≠ rec.eventId := fun i m ho =>
    (h.owed i m ho).ne_of_waiting (fun _ hof => hof.eventId.symm) (hwait rec List.mem_cons_self)
  constructor
  case store => exact store_of_exec h.store hexec
  case opened => exact fun _ => (isOpen_of_exec rfl hexec).trans (h.opened (by simp [hw]))
  case idle => exact fun hidle => by simp at hidle
  case reset => exact fun hreset => by simp at hreset
  case current => exact h.current
  case numbered => exact h.numbered
  case owed =>
    intro i m ho
    exact (h.owed i m ho).keep hkeep fun r _ hof _ hid => hne i m ho (hof.eventId.trans hid)
  case owedOnce => exact h.owedOnce
  case waiting =>
    intro q hq
    refine (hwait q (List.mem_cons_of_mem _ hq)).keep hkeep fun r _ hof _ hid => ?_
    apply hnodup.1
    rw [← hid, ← hof.eventId]
    exact List.mem_map_of_mem hq
  case distinct => exact hnodup.2
  case holding =>
    intro id hid
    have hid' : rec.eventId = id := by simpa [Worker.holding] using hid
    subst hid'
    refine ⟨?_, hne⟩
    rcases hflying with ⟨r, hr, hof, hstate⟩
    exact ⟨r, hr, hof.eventId.symm, hstate⟩
  case producing =>
    intro rec' rest' hprod
    simp only [Worker.produce.injEq] at hprod
    rw [← hprod.1]
    exact hflying
  case reporting => exact fun cb hsome => by simp [hcb] at hsome

/-- The record in hand became a message. -/
theorem Linked.produced {rec : OutboxRecord} {rest : List OutboxRecord} {g : Nat} (h : Linked s)
    (hw : s.worker = .produce rec rest) (hcb : s.callback = none) (hg : s.producer = some g) :
    Linked { s with messages := s.messages ++ [s.message rec g], worker := .batch rest } := by
  have hhold := h.holding rec.eventId (by rw [hw]; rfl)
  -- an owed message is an old one, or the new one at the end
  have howes : ∀ {i m}, { s with
      messages := s.messages ++ [s.message rec g], worker := .batch rest }.Owes i m →
      s.Owes i m ∨ i = s.messages.length ∧ m = s.message rec g := by
    intro i m ho
    have hat := ho.1
    simp only [List.getElem?_append] at hat
    split at hat
    · exact Or.inl ⟨hat, ho.2⟩
    · rename_i hi
      rcases List.getElem?_eq_some_iff.mp hat with ⟨hlt, hget⟩
      simp only [List.length_singleton] at hlt
      exact Or.inr ⟨by omega, by simpa using hget.symm⟩
  constructor
  case store => exact h.store
  case opened => exact fun _ => h.opened (by simp [hw])
  case idle => exact fun hidle => by simp at hidle
  case reset => exact fun hreset => by simp at hreset
  case current => exact h.current
  case numbered =>
    intro m hm
    rcases List.mem_append.mp hm with hm | hm
    · exact h.numbered m hm
    · rw [List.mem_singleton.mp hm]
      exact h.current g hg
  case owed =>
    intro i m ho
    rcases howes ho with ho | ⟨-, rfl⟩
    · exact h.owed i m ho
    · exact h.producing rec rest hw
  case owedOnce =>
    -- no older message was out for the event in hand
    intro i j m m' ho ho' hid
    rcases howes ho with ho | ⟨rfl, rfl⟩
    · rcases howes ho' with ho' | ⟨rfl, rfl⟩
      · exact h.owedOnce i j m m' ho ho' hid
      · exact absurd hid (hhold.2 i m ho)
    · rcases howes ho' with ho' | ⟨rfl, rfl⟩
      · exact absurd hid.symm (hhold.2 j m' ho')
      · rfl
  case waiting => exact fun q hq => h.waiting q (by rw [hw]; exact hq)
  case distinct =>
    have := h.distinct
    rw [hw] at this
    exact this
  case holding => exact fun id hid => by simp [Worker.holding] at hid
  case producing => exact fun rec rest hprod => by simp at hprod
  case reporting => exact fun cb hsome => by simp [hcb] at hsome

/-- The worker moves on inside `settle_send_failure` with the same event in hand. -/
theorem Linked.settling {w : Worker} (h : Linked s) (hrun : s.worker ≠ .idle)
    (hcb : s.callback = none) (hrest : w.rest = s.worker.rest)
    (hhold : w.holding = s.worker.holding) (hidle : w ≠ .idle) (hreset : w ≠ .rebuildReset)
    (hprod : ∀ rec rest, w ≠ .produce rec rest) : Linked { s with worker := w } where
  store := h.store
  opened := fun _ => h.opened hrun
  idle := fun hw => absurd hw hidle
  reset := fun hw => absurd hw hreset
  current := h.current
  numbered := h.numbered
  owed := h.owed
  owedOnce := h.owedOnce
  waiting := fun q hq => h.waiting q (hrest ▸ hq)
  distinct := by
    show (w.rest.map fun rec => rec.eventId).Nodup
    rw [hrest]
    exact h.distinct
  holding := fun id hid => h.holding id (hhold ▸ hid)
  producing := fun rec rest hw => absurd hw (hprod rec rest)
  reporting := fun cb hsome => by
    have hnone : s.callback = some cb := hsome
    simp [hcb] at hnone

/-- The event in hand was settled. -/
theorem Linked.settled {id why : String} {verdict : Verdict} {rest : List OutboxRecord}
    (h : Linked s) (hw : s.worker = .settleMark id why verdict rest) (hcb : s.callback = none)
    (hexec : s.outbox.exec (verdict.op id why env) = (.ok n, b)) :
    Linked { s with outbox := b, worker := .batch rest } := by
  have hkeep := keeps_of_verdict hexec
  have hhold := h.holding id (by rw [hw]; rfl)
  constructor
  case store => exact store_of_exec h.store hexec
  case opened =>
    exact fun _ => (isOpen_of_exec (verdict.op_inSession _ _ _) hexec).trans (h.opened (by simp [hw]))
  case idle => exact fun hidle => by simp at hidle
  case reset => exact fun hreset => by simp at hreset
  case current => exact h.current
  case numbered => exact h.numbered
  case owed =>
    intro i m ho
    exact (h.owed i m ho).keep hkeep fun r _ hof _ hid => hhold.2 i m ho (hof.eventId.trans hid)
  case owedOnce => exact h.owedOnce
  case waiting =>
    intro q hq
    have hwait : Waiting s.outbox.db q := h.waiting q (by rw [hw]; exact hq)
    -- the event settled is in flight, the rest of the batch is pending
    refine hwait.keep hkeep fun r _ hof _ hid => ?_
    exact hhold.1.ne_of_waiting (fun _ he => he) hwait (hid.symm.trans hof.eventId.symm)
  case distinct =>
    have := h.distinct
    rw [hw] at this
    exact this
  case holding => exact fun id' hid => by simp [Worker.holding] at hid
  case producing => exact fun rec rest hprod => by simp at hprod
  case reporting => exact fun cb hsome => by simp [hcb] at hsome

end Work

theorem Linked.work {s : Pipeline} {kafka : Kafka} {env : Env} (h : Linked s)
    (hcb : s.callback = none) : Linked (s.work kafka env) := by
  cases work_cases kafka s env with
  | stays heq =>
    rw [heq]
    exact h
  | moved hrun hfree hidle hg hreset hsame =>
    exact (h.move (b := s.outbox) hrun hfree hidle hg hreset hcb h.store rfl
      (Keeps.refl _ _)).congr hsame
  | rebuilt hw hexec hsame =>
    have hopen : s.outbox.isOpen = true := h.opened (by simp [hw])
    refine Linked.congr ?_ hsame
    exact h.renewed (store_of_exec h.store hexec) ((isOpen_of_exec rfl hexec).trans hopen)
      ⟨rfl, rfl⟩ nofun nofun hcb
  | stranded hw hexec hsame =>
    have hnone : s.producer = none := h.reset hw
    refine Linked.congr ?_ hsame
    refine .unowed (store_of_exec h.store hexec) ?_ nofun nofun h.current h.numbered ?_ ⟨rfl, rfl⟩
      hcb
    · exact fun _ => (isOpen_of_exec rfl hexec).trans (h.opened (by simp [hw]))
    · -- the old producer is destroyed and there is no other
      intro i m ho
      have hsome : s.producer = some m.producer := ho.2.2
      simp [hnone] at hsome
  | expired hw hexec hsame =>
    refine Linked.congr ?_ hsame
    exact h.move (by simp [hw]) ⟨rfl, rfl⟩ nofun (Or.inl rfl) nofun hcb
      (store_of_exec h.store hexec) (isOpen_of_exec rfl hexec) (keeps_of_expireTtl hexec)
  | fetched hw hfetch hsame => exact (h.fetched hw hcb hfetch).congr hsame
  | claimed hw hexec hsame => exact (h.claimed hw hcb hexec).congr hsame
  | produced hw hg hsame => exact (h.produced hw hcb hg).congr hsame
  | refused hw hsame =>
    refine Linked.congr ?_ hsame
    refine h.settling (by simp [hw]) hcb ?_ ?_ nofun nofun ?_
    · rw [hw]
      rfl
    · rw [hw]
      rfl
    · intro rec rest hproduce
      cases hproduce
  | judged hw hsame =>
    refine Linked.congr ?_ hsame
    refine h.settling (by simp [hw]) hcb ?_ ?_ nofun nofun ?_
    · rw [hw]
      rfl
    · rw [hw]
      rfl
    · intro rec rest hproduce
      cases hproduce
  | settled hw hexec hsame => exact (h.settled hw hcb hexec).congr hsame

/-! ## The callback -/

section Deliver

variable {s : Pipeline} {b : Outbox}

/-- The report on message `i` was handled, on a database that kept what else is in
flight. -/
theorem Linked.returned {cb : Callback} (h : Linked s) (hcb : s.callback = some cb)
    (hstore : StoreInv b.db) (hopen : b.isOpen = s.outbox.isOpen)
    (hkeep : Keeps (fun r => r.eventId ≠ s.opaqueId cb.message ∧ r.state = .inFlight)
      s.outbox.db b.db) :
    Linked ({ s with outbox := b }.returned cb.message) := by
  rcases h.reporting cb hcb with ⟨hpoll, m₀, ho₀⟩
  have hfree : s.worker.Free := Worker.free_of_polling hpoll
  constructor
  case store => exact hstore
  case opened => exact fun hrun => hopen.trans (h.opened hrun)
  case idle => exact h.idle
  case reset => exact h.reset
  case current => exact h.current
  case numbered => exact numbered_returned h.numbered
  case owed =>
    intro i m ho
    rcases owes_of_returned ho with ⟨hold, hne⟩
    refine (h.owed i m hold).keep hkeep fun r _ hof hstate => ⟨fun hid => ?_, hstate⟩
    -- the row acknowledged belongs to this message and to no other
    rw [Pipeline.opaqueId_of ho₀.1] at hid
    exact hne (h.owedOnce i _ m m₀ hold ho₀ (hof.eventId.trans hid))
  case owedOnce =>
    intro i j m m' ho ho'
    exact h.owedOnce i j m m' (owes_of_returned ho).1 (owes_of_returned ho').1
  case waiting =>
    intro rec hrec
    have hmem : rec ∈ s.worker.rest := hrec
    simp [hfree.1] at hmem
  case distinct =>
    show (s.worker.rest.map fun rec => rec.eventId).Nodup
    simp [hfree.1]
  case holding =>
    intro id hid
    have hhold : s.worker.holding = some id := hid
    simp [hfree.2] at hhold
  case producing => exact fun rec rest hw => absurd hw (hfree.not_produce rec rest)
  case reporting => exact fun cb' hsome => by simp [Pipeline.returned] at hsome

theorem Linked.callback {kafka : Kafka} {env : Env} (h : Linked s) :
    Linked (s.step kafka (.callback env)) := by
  cases callback_cases kafka s env with
  | stays heq =>
    rw [heq]
    exact h
  | acked hcb hexec hsame =>
    exact (h.returned hcb (store_of_exec h.store hexec) (isOpen_of_exec rfl hexec)
      (keeps_of_markAcked h.store hexec)).congr hsame
  | failed hcb hsame =>
    exact (h.returned (b := s.outbox) hcb h.store rfl (Keeps.refl _ _)).congr hsame
  | judged hcb hsame =>
    rcases h.reporting _ hcb with ⟨hpoll, m, howes⟩
    refine Linked.congr ?_ hsame
    exact h.entered _ hpoll howes
  | settled hcb hexec hsame =>
    refine (h.returned hcb (store_of_exec h.store hexec)
      (isOpen_of_exec (Verdict.op_inSession _ _ _ _) hexec) ?_).congr hsame
    exact fun r hr hP => keeps_of_verdict hexec r hr hP.1
  | escaped heq =>
    rw [heq]
    exact h.crash

/-- A report served as promised is about a message that is owed one. -/
theorem Linked.report {kafka : Kafka} {i : Nat} {err : Option ErrCode} (h : Linked s)
    (hserved : s.served (.report i err) = true) : Linked (s.report kafka i err) := by
  unfold Pipeline.report
  split
  · exact h
  · simp only [Pipeline.served, Bool.and_eq_true, Option.any_eq_true, Bool.not_eq_true',
      decide_eq_true_eq] at hserved
    rcases hserved with ⟨hpoll, m, hm, hopen, hprod⟩
    have howes : s.Owes i m := ⟨hm, hopen, hprod⟩
    cases err with
    | none => exact h.entered (.ack i) hpoll howes
    | some e =>
      have hentered := h.entered (.settle i (kafka.err2str e) (isPermanentError e)) hpoll howes
      exact hentered.congr (by constructor <;> rfl)

end Deliver

/-! ## Sessions and the other threads -/

theorem Linked.callback_none {s : Pipeline} (h : Linked s) (hw : s.worker.polling = false) :
    s.callback = none := by
  cases hcb : s.callback with
  | none => rfl
  | some cb =>
    have := (h.reporting cb hcb).1
    simp [hw] at this

/-- With the worker gone only the database can change, and it stays in order. -/
theorem Linked.sleeping {s : Pipeline} {b : Outbox} (h : Linked s) (hw : s.worker = .idle)
    (hstore : StoreInv b.db) : Linked { s with outbox := b } :=
  .asleep hstore hw (h.idle hw) h.numbered (h.callback_none (by rw [hw]; rfl))

theorem Linked.start {s : Pipeline} {env : Env} (h : Linked s) : Linked (s.start env) := by
  unfold Pipeline.start
  split
  · exact h
  · rename_i hguard
    push Not at hguard
    have hw : s.worker = .idle := hguard.2.1
    rcases hexec : s.outbox.exec (.openDb env.fault) with ⟨reply, b⟩
    have hb : StoreInv b.db := store_of_exec h.store hexec
    cases reply with
    | error e => exact h.sleeping hw hb
    | ok n =>
      simp only
      rcases hreq : b.exec (.requeueInFlight (env.clock 0) (env.clock 1) env.fault) with
        ⟨reply, b'⟩
      have hb' : StoreInv b'.db := by
        have hstep : b.step _ = b' := congrArg Prod.snd hreq
        exact hstep ▸ hb.step _
      cases reply with
      | error e => exact h.sleeping hw (hb'.step .close)
      | ok m =>
        simp only
        split
        · have hopen : b'.isOpen = true := by
            have hstep : b.step _ = b' := congrArg Prod.snd hreq
            rw [← hstep, b.step_isOpen rfl]
            exact isOpen_of_openDb hexec
          have hcb : s.callback = none := h.callback_none (by rw [hw]; rfl)
          exact (h.renewed (w := .loop) hb' hopen ⟨rfl, rfl⟩ nofun nofun hcb).congr
            (by constructor <;> rfl)
        · exact h.sleeping hw (hb'.step .close)

/-- Admission keeps every row that is not dead, so it disturbs nobody. -/
theorem Linked.stored {s : Pipeline} {b : Outbox} (h : Linked s) (hstore : StoreInv b.db)
    (hopen : b.isOpen = s.outbox.isOpen)
    (hkeep : Keeps (fun r => r.state ≠ .dead) s.outbox.db b.db) :
    Linked { s with outbox := b } := by
  have hflying : ∀ {P : Event → Prop}, Flying s.outbox.db P → Flying b.db P := fun hf =>
    hf.keep hkeep fun r _ _ hstate hdead => by simp [hstate] at hdead
  constructor
  case store => exact hstore
  case opened => exact fun hrun => hopen.trans (h.opened hrun)
  case idle => exact h.idle
  case reset => exact h.reset
  case current => exact h.current
  case numbered => exact h.numbered
  case owed => exact fun i m ho => hflying (h.owed i m ho)
  case owedOnce => exact h.owedOnce
  case waiting =>
    intro rec hrec
    refine (h.waiting rec hrec).keep hkeep fun r _ _ hstate hdead => ?_
    simp [hstate] at hdead
  case distinct => exact h.distinct
  case holding => exact fun id hid => ⟨hflying (h.holding id hid).1, (h.holding id hid).2⟩
  case producing => exact fun rec rest hw => hflying (h.producing rec rest hw)
  case reporting => exact h.reporting

theorem Linked.enqueue {s : Pipeline} {args : EnqueueArgs} {env : Env} (h : Linked s) :
    Linked (s.enqueue args env) := by
  unfold Pipeline.enqueue
  split
  · exact h
  · rcases hexec : s.outbox.exec (.insertPending s.cfg.limits
        (args.toRecord s.cfg (env.clock 0)) (env.clock 1) env.fault) with ⟨reply, b⟩
    cases reply with
    | ok n =>
      exact (h.stored (store_of_exec h.store hexec) (isOpen_of_exec rfl hexec)
        (keeps_of_insertPending h.store hexec)).congr (by constructor <;> rfl)
    | error e =>
      have hb := Outbox.exec_error_eq rfl hexec
      subst hb
      exact h.congr (by constructor <;> rfl)

theorem Linked.retryDead {s : Pipeline} {id : String} {env : Env} (h : Linked s) :
    Linked (s.retryDead id env) := by
  unfold Pipeline.retryDead
  split
  · exact h
  · rename_i hclosed
    -- a worker holds the outbox open, and its lock keeps the operator out
    have hw : s.worker = .idle := by
      by_contra hrun
      exact hclosed (h.opened hrun)
    rcases hexec : s.outbox.exec (.openDb env.fault) with ⟨reply, b⟩
    have hb : StoreInv b.db := store_of_exec h.store hexec
    cases reply with
    | error e => exact h.sleeping hw hb
    | ok n => exact h.sleeping hw ((hb.step _).step .close)

/-- Every step keeps the link, if reports are served as promised. -/
theorem Linked.step {kafka : Kafka} {s : Pipeline} {act : Act} (h : Linked s)
    (hserved : s.served act = true) : Linked (s.step kafka act) := by
  cases act with
  | create cfg =>
    simp only [Pipeline.step, Pipeline.create]
    split
    · exact h.of_eq rfl rfl rfl rfl rfl rfl
    · exact h
  | start env => exact h.start
  | enqueue args env => exact h.enqueue
  | requestRebuild => exact h.congr (by constructor <;> rfl)
  | stop =>
    simp only [Pipeline.step, Pipeline.stop]
    split
    · exact h
    · exact h.of_eq rfl rfl rfl rfl rfl rfl
  | joined =>
    simp only [Pipeline.step, Pipeline.joined]
    split
    -- no thread is left: only the store's own part of the link is to keep
    · rename_i hguard
      refine .asleep (h.store.step .close) rfl rfl h.numbered (h.callback_none ?_)
      rcases hguard.2 with hw | hw
      · rw [hw]
        rfl
      · rw [hw]
        rfl
    · exact h
  | work env =>
    simp only [Pipeline.step]
    split
    · rename_i hcb
      exact h.work hcb
    · exact h
  | report i err => exact h.report hserved
  | callback env => exact h.callback
  | append i partition =>
    simp only [Pipeline.step, Pipeline.append]
    split
    · exact h
    · exact h.of_eq rfl rfl rfl rfl rfl rfl
  | crash => exact h.crash
  | retryDead id env => exact h.retryDead

theorem linked_run (kafka : Kafka) (cfg : Config) (acts : List Act)
    (h : ∀ x ∈ Machine.trace (Pipeline.step kafka) (Pipeline.init cfg) acts,
      x.1.served x.2 = true) :
    Linked (Machine.run (Pipeline.step kafka) (Pipeline.init cfg) acts) :=
  Machine.run_invariant_along (P := fun s act => s.served act = true) (Linked.init cfg)
    (fun _ _ hserved hinv => hinv.step hserved) acts h

end EventKafka
