import EventKafka.Lib.CursorLog
import EventKafka.Outbox.Cursor
import EventKafka.Pipeline.Linked
import EventKafka.Pipeline.Topics

/-! # Order of a call in the broker's log

For one call the outbox is the sender of `CursorLog`: it hands over a message only
for the row at the cursor, and moves the cursor only when the report says that the
row's message is in the log. What was handed over earlier may be appended later, again
and out of turn; it lies behind the cursor and disturbs nothing.

Both steps look a row up by `event_id` and act on a record read earlier, so they
rely on the row still being the one the record was read from: `Faithful`. That holds
if no event id is drawn twice, and also without, if librdkafka serves reports as it
promises.
-/

namespace EventKafka

open Sql

/-! ## Records and their rows -/

/-- The row with the id of `rec`, if any, is the one `rec` was read from. -/
def Agrees (db : Db) (rec : OutboxRecord) : Prop :=
  ∀ r ∈ db.outbox, r.eventId = rec.eventId → rec.Of r.toEvent

/-- The records the next step acts on agree with their rows. -/
structure Faithful (s : Pipeline) : Prop where
  batch : ∀ rec rest, s.worker = .batch (rec :: rest) → Agrees s.outbox.db rec
  ack : ∀ i m, s.callback = some (.ack i) → s.messages[i]? = some m →
    Agrees s.outbox.db m.record

theorem agrees_of_row {db : Db} {rec : OutboxRecord} {r : Row} (hr : r ∈ db.outbox)
    (hof : rec.Of r.toEvent) : Agrees db rec := by
  intro q hq hid
  have hqr : q = r := Table.eq_of_key hq hr (hid.trans hof.eventId)
  rw [hqr]
  exact hof

theorem Linked.faithful {s : Pipeline} (h : Linked s) : Faithful s where
  batch := by
    intro rec rest hw
    rcases h.waiting rec (by rw [hw]; exact List.mem_cons_self) with ⟨r, hr, hof, -, -⟩
    exact agrees_of_row hr hof
  ack := by
    intro i m hcb hm
    rcases h.reporting _ hcb with ⟨-, m', ho⟩
    have heq : m' = m := Option.some.inj (ho.1.symm.trans hm)
    rcases h.owed _ m' ho with ⟨r, hr, hof, -⟩
    exact agrees_of_row hr (heq ▸ hof)

/-- No two admitted events have one id. -/
theorem Origin.agrees {events : List Event} {s : Pipeline} {rec : OutboxRecord}
    (h : Origin events s) (hids : (events.map fun e => e.eventId).Nodup) (hrec : rec ∈ s.held) :
    Agrees s.outbox.db rec := by
  intro r hr hid
  rcases h.held rec hrec with ⟨e, he, hof⟩
  have heq : r.toEvent = e :=
    List.inj_on_of_nodup_map hids (h.rows r hr) he (hid.trans hof.eventId)
  rw [heq]
  exact hof

theorem Origin.faithful {events : List Event} {s : Pipeline} (h : Origin events s)
    (hids : (events.map fun e => e.eventId).Nodup) : Faithful s where
  batch := by
    intro rec rest hw
    refine h.agrees hids (Pipeline.mem_held.mpr (Or.inl ?_))
    rw [hw]
    exact List.mem_cons_self
  ack := fun i m _ hm =>
    h.agrees hids (Pipeline.mem_held.mpr (Or.inr ⟨m, List.mem_of_getElem? hm, rfl⟩))

/-! ## The ordinals of a call -/

/-- `call_seq` of a record as a position. -/
def OutboxRecord.ordinal (rec : OutboxRecord) : ℕ := rec.callSeq.toInt.toNat

/-- A position inside `int64_t` survives the copy. -/
theorem OutboxRecord.Of.callSeq_toInt {rec : OutboxRecord} {e : Event} {k : ℕ} (h : rec.Of e)
    (hseq : e.callSeq = some (k : Int)) (hmax : (k : Int) < int64Max) : rec.callSeq.toInt = k := by
  unfold int64Max at hmax
  rw [h.callSeq, hseq, Option.map_some, Option.getD_some, Int64.toInt_ofInt_of_le] <;> omega

/-- The entries of call `c` in the log. -/
def Pipeline.entries (s : Pipeline) (c : Call) : List LogEntry :=
  s.log.filter fun x => x.record.call = c

/-- The `call_seq`s of call `c`, in the order of the log. -/
def Pipeline.ordinals (s : Pipeline) (c : Call) : List Int :=
  (s.entries c).map fun x => x.record.callSeq.toInt

/-- The same as positions. -/
def Pipeline.positions (s : Pipeline) (c : Call) : List ℕ :=
  (s.entries c).map fun x => x.record.ordinal

/-- A message for position `k` of call `c` was handed over. -/
def Pipeline.issued (s : Pipeline) (c : Call) (k : ℕ) : Prop :=
  ∃ m ∈ s.messages, m.record.call = c ∧ m.record.ordinal = k

/-- A row of call `c` at position `k`, and a record read from it. -/
theorem ordinal_of_row {db : Db} {rec : OutboxRecord} {r : Row} {k : ℕ} (hinv : StoreInv db)
    (hr : r ∈ db.outbox) (hg : r.grouped = true) (hof : rec.Of r.toEvent)
    (hseq : r.callSeq = some (k : Int)) : rec.ordinal = k := by
  rcases hinv.placed r hr hg with ⟨q, hq, j, hj⟩
  have hjk : j = k := Option.some.inj (hj.seq.symm.trans hseq)
  have hmax := (hinv.bounded q hq).max
  have hhi := hj.hi
  rw [OutboxRecord.ordinal, hof.callSeq_toInt hseq (by omega), Int.toNat_natCast]

/-! ## One step -/

section Step

variable {kafka : Kafka} {s : Pipeline} {act : Act}

/-- A step moves the cursor of a call only by acknowledging the row at it. -/
theorem cursor_step (kafka : Kafka) (act : Act) (hinv : StoreInv s.outbox.db) (c : Call) :
    (s.step kafka act).outbox.db.cursor c = s.outbox.db.cursor c ∨
      ∃ i r, s.callback = some (.ack i) ∧ r ∈ s.outbox.db.outbox ∧ r.eventId = s.opaqueId i ∧
        r.grouped = true ∧ r.call = c ∧ r.callSeq = some (s.outbox.db.cursor c : Int) ∧
        (s.step kafka act).outbox.db.cursor c = s.outbox.db.cursor c + 1 := by
  cases db_cases kafka s act with
  | quiet _ h =>
    left
    generalize (s.step kafka act).outbox.db = db at h
    induction h with
    | refl => rfl
    | tail _ hquiet ih => rw [hquiet.cursor, ih]
  | admitted _ _ h =>
    -- a new stream starts at 0, where the cursor of a call without stream stands
    exact Or.inl (h.cursor hinv c)
  | @acked env i r _ hcb hr hid hstate hhead h =>
    rw [h]
    by_cases hmine : r.grouped = true ∧ r.call = c
    · rcases hmine with ⟨hg, rfl⟩
      rcases acked_cursor_of_call hinv hr hhead hg with ⟨⟨k, hseq, hk⟩, hnext⟩
      exact Or.inr ⟨i, r, hcb, hr, hid, hg, rfl, hk ▸ hseq, hnext⟩
    · exact Or.inl (acked_cursor_of_ne hmine)

/-- The worker comes to produce a record by marking it in flight. -/
theorem produce_step {rec : OutboxRecord} {rest : List OutboxRecord}
    (h : (s.step kafka act).worker = .produce rec rest) :
    s.worker = .produce rec rest ∨
      s.worker = .batch (rec :: rest) ∧
        ∃ r ∈ s.outbox.db.outbox, r.eventId = rec.eventId ∧
          s.outbox.db.deliverable r.toEvent = true := by
  cases act with
  | work env =>
    simp only [Pipeline.step] at h
    split at h
    · cases work_cases kafka s env with
      | stays heq => exact Or.inl (heq ▸ h)
      | moved _ hfree _ _ _ hsame =>
        exact absurd (hsame.worker.symm.trans h) (hfree.not_produce rec rest)
      | rebuilt _ _ hsame => simp [hsame.worker] at h
      | stranded _ _ hsame => simp [hsame.worker] at h
      | expired _ _ hsame => simp [hsame.worker] at h
      | fetched _ _ hsame => simp [hsame.worker] at h
      | produced _ _ hsame => simp [hsame.worker] at h
      | refused _ hsame => simp [hsame.worker] at h
      | judged _ hsame => simp [hsame.worker] at h
      | settled _ _ hsame => simp [hsame.worker] at h
      -- the claim went through, so the row was deliverable when it ran
      | @claimed rec' rest' _ _ hw hexec hsame =>
        rw [hsame.worker, Worker.produce.injEq] at h
        rcases h with ⟨rfl, rfl⟩
        rcases call_ok hexec with ⟨_, hrun, -⟩
        rcases markInFlight_ok hrun with ⟨r, hr, hsend, -, -⟩
        rcases sendable_iff.mp hsend with ⟨hid, -, hdel⟩
        exact Or.inr ⟨hw, r, hr, hid, hdel⟩
    · exact Or.inl h
  | callback env =>
    rcases (callback_cases kafka s env).worker_eq with ⟨hw, -⟩ | hcrash
    · exact Or.inl (hw ▸ h)
    · rw [hcrash] at h
      simp [Pipeline.crash] at h
  | _ =>
    left
    simp only [Pipeline.step, Pipeline.create, Pipeline.start, Pipeline.enqueue, Pipeline.stop,
      Pipeline.joined, Pipeline.crash, Pipeline.report, Pipeline.enter, Pipeline.append,
      Pipeline.retryDead] at h
    repeat' split at h
    all_goals first | exact h | simp at h

/-- The callback comes to acknowledge a message that was reported as appended. -/
theorem ack_step {i : ℕ} (h : (s.step kafka act).callback = some (.ack i)) :
    s.callback = some (.ack i) ∨ s.appended i = true := by
  cases act with
  | report j err =>
    simp only [Pipeline.step, Pipeline.report] at h
    split at h
    · exact Or.inl h
    -- the broker reports no success for a message it did not append
    · rename_i hguard
      cases err with
      | some e => simp [Pipeline.enter] at h
      | none =>
        simp only [Pipeline.enter, Option.some.injEq, Callback.ack.injEq] at h
        subst h
        right
        simpa using fun hno => hguard (Or.inr (Or.inr ⟨rfl, hno⟩))
  | callback env =>
    cases callback_cases kafka s env with
    | stays heq => exact Or.inl (heq ▸ h)
    | acked _ _ hsame => simp [hsame.callback, Pipeline.returned] at h
    | failed _ hsame => simp [hsame.callback, Pipeline.returned] at h
    | judged _ hsame => simp [hsame.callback] at h
    | settled _ _ hsame => simp [hsame.callback, Pipeline.returned] at h
    | escaped heq => simp [heq, Pipeline.crash] at h
  | work env =>
    simp only [Pipeline.step] at h
    split at h
    · exact Or.inl ((work_cases kafka s env).frame.2.2.1 ▸ h)
    · exact Or.inl h
  | _ =>
    left
    simp only [Pipeline.step, Pipeline.create, Pipeline.start, Pipeline.enqueue, Pipeline.stop,
      Pipeline.joined, Pipeline.crash, Pipeline.append, Pipeline.retryDead] at h
    repeat' split at h
    all_goals first | exact h | simp at h

theorem appended_step {i : ℕ} (h : s.appended i = true) :
    (s.step kafka act).appended i = true := by
  rcases step_log kafka s act with hsame | ⟨_, _, _, -, -, happ⟩
  · rw [Pipeline.appended, hsame]
    exact h
  · rw [Pipeline.appended, happ, List.any_append]
    exact Bool.or_eq_true_iff.mpr (Or.inl h)

/-- What is handed over stays handed over; what is new was in the worker's hand. -/
theorem issued_step {c : Call} {k : ℕ} :
    (s.issued c k → (s.step kafka act).issued c k) ∧
      ((s.step kafka act).issued c k → s.issued c k ∨
        ∃ rec rest, s.worker = .produce rec rest ∧ rec.call = c ∧ rec.ordinal = k) := by
  rcases step_messages kafka s act with hsame | ⟨rec, rest, g, hw, happ⟩
  · have hmove : ∀ {ms ms' : List Message}, ms.map Message.body = ms'.map Message.body →
        (∃ m ∈ ms, m.record.call = c ∧ m.record.ordinal = k) →
          ∃ m ∈ ms', m.record.call = c ∧ m.record.ordinal = k := by
      rintro ms ms' heq ⟨m, hm, hcall, hord⟩
      rcases exists_of_bodies heq hm with ⟨m', hm', hmm⟩
      have hrec : m'.record = m.record := congrArg Prod.fst hmm
      exact ⟨m', hm', hrec ▸ hcall, hrec ▸ hord⟩
    exact ⟨hmove hsame.symm, fun h => Or.inl (hmove hsame h)⟩
  · constructor
    · rintro ⟨m, hm, hrest⟩
      exact ⟨m, happ ▸ List.mem_append_left _ hm, hrest⟩
    · rintro ⟨m, hm, hcall, hord⟩
      rw [happ, List.mem_append, List.mem_singleton] at hm
      rcases hm with hm | rfl
      · exact Or.inl ⟨m, hm, hcall, hord⟩
      · exact Or.inr ⟨rec, rest, hw, hcall, hord⟩

end Step

/-! ## The invariant -/

/-- Call `c` is sent in order: its log is that of a sender with its cursor. -/
structure Ordered (c : Call) (s : Pipeline) : Prop where
  sound : CursorLog.Sound (s.outbox.db.cursor c) (s.issued c) (s.positions c)
  producing : ∀ rec rest, s.worker = .produce rec rest → rec.call = c →
    rec.ordinal ≤ s.outbox.db.cursor c
  acking : ∀ i, s.callback = some (.ack i) → s.appended i = true

theorem Ordered.init (c : Call) (cfg : Config) : Ordered c (Pipeline.init cfg) where
  sound := by
    have hno : (Pipeline.init cfg).issued c = fun _ => False := by
      funext k
      simp [Pipeline.issued, Pipeline.init]
    rw [hno]
    exact CursorLog.Sound.init
  producing := fun _ _ hw => by simp [Pipeline.init] at hw
  acking := fun _ hcb => by simp [Pipeline.init] at hcb

section OrderedStep

variable {kafka : Kafka} {s : Pipeline} {act : Act} {c : Call}

/-- The message being acknowledged is in the log, so the cursor may pass it. -/
theorem Ordered.cursor_logged (h : Ordered c s) (hinv : StoreInv s.outbox.db)
    (hfaithful : Faithful s) (hlogged : Logged kafka s) {i : ℕ} {r : Row}
    (hcb : s.callback = some (.ack i)) (hr : r ∈ s.outbox.db.outbox)
    (hid : r.eventId = s.opaqueId i) (hg : r.grouped = true) (hcall : r.call = c)
    (hseq : r.callSeq = some (s.outbox.db.cursor c : Int)) :
    s.outbox.db.cursor c ∈ s.positions c := by
  rcases List.any_eq_true.mp (h.acking i hcb) with ⟨x, hx, hxi⟩
  have hxi' : x.message = i := of_decide_eq_true hxi
  rcases hlogged x hx with ⟨m, partition, hm, hentry⟩
  rw [hxi'] at hm hentry
  have hrec : x.record = m.record := by rw [hentry]; rfl
  have hof : m.record.Of r.toEvent := by
    apply hfaithful.ack i m hcb hm r hr
    rw [hid, Pipeline.opaqueId_of hm]
  refine List.mem_map.mpr ⟨x, List.mem_filter.mpr ⟨hx, ?_⟩, ?_⟩
  · rw [hrec, decide_eq_true_iff, hof.call]
    exact hcall
  · rw [hrec]
    exact ordinal_of_row hinv hr hg hof hseq

theorem Ordered.step (h : Ordered c s) (hc : c.2 ≠ "") (hinv : StoreInv s.outbox.db)
    (hfaithful : Faithful s) (hlogged : Logged kafka s) : Ordered c (s.step kafka act) := by
  have hmono : s.outbox.db.cursor c ≤ (s.step kafka act).outbox.db.cursor c := by
    rcases cursor_step kafka act hinv c with
      hsame | ⟨_, _, -, -, -, -, -, -, hnext⟩
    · exact hsame.ge
    · omega
  constructor
  case sound =>
    -- first the cursor, then what was handed over, then the log
    have hmoved : CursorLog.Sound ((s.step kafka act).outbox.db.cursor c) (s.issued c)
        (s.positions c) := by
      rcases cursor_step kafka act hinv c with
        hsame | ⟨i, r, hcb, hr, hid, hg, hcall, hseq, hnext⟩
      · rw [hsame]
        exact h.sound
      · rw [hnext]
        exact h.sound.advance (h.cursor_logged hinv hfaithful hlogged hcb hr hid hg hcall hseq)
    have hissued : CursorLog.Sound ((s.step kafka act).outbox.db.cursor c)
        ((s.step kafka act).issued c) (s.positions c) := by
      refine hmoved.issue (fun k => issued_step.1) fun k hk => ?_
      rcases issued_step.2 hk with hold | ⟨rec, rest, hw, hcall, rfl⟩
      · exact hmoved.issued_le k hold
      · -- its row was the head when it was marked, and the cursor only grows
        exact le_trans (h.producing rec rest hw hcall) hmono
    rcases step_log kafka s act with hsame | ⟨i, partition, m, -, hm, happ⟩
    · have hpos : (s.step kafka act).positions c = s.positions c := by
        simp only [Pipeline.positions, Pipeline.entries, hsame]
      rw [hpos]
      exact hissued
    · -- however late, what is appended was handed over at or below the cursor
      by_cases hcall : m.record.call = c
      · have hpos : (s.step kafka act).positions c = s.positions c ++ [m.record.ordinal] := by
          simp [Pipeline.positions, Pipeline.entries, happ, Message.entry, hcall]
        rw [hpos]
        refine hissued.append (issued_step.1 ⟨m, List.mem_of_getElem? hm, hcall, rfl⟩)
      · have hpos : (s.step kafka act).positions c = s.positions c := by
          simp [Pipeline.positions, Pipeline.entries, happ, Message.entry, hcall]
        rw [hpos]
        exact hissued
  case producing =>
    intro rec rest hw hcall
    refine le_trans ?_ hmono
    rcases produce_step hw with hold | ⟨hbatch, r, hr, hid, hdel⟩
    · exact h.producing rec rest hold hcall
    · -- the row that was marked is the head of the call
      have hof := hfaithful.batch rec rest hbatch r hr hid
      have hrc : r.call = c := hof.call.symm.trans hcall
      have hg : r.grouped = true := Event.grouped_of_call hrc hc
      rw [Db.deliverable_of_grouped hg] at hdel
      rcases (Db.isHead_of_grouped hg).mp hdel with ⟨q, hq, hqc, hseq⟩
      have h0 := (hinv.bounded q hq).nonneg
      have hseq' : r.callSeq = some ((q.nextSeq.toNat : ℕ) : Int) := by
        rw [hseq, Int.toNat_of_nonneg h0]
      rw [ordinal_of_row hinv hr hg hof hseq', Db.cursor_of_mem hq (hqc.trans hrc)]
  case acking =>
    intro i hcb
    rcases ack_step hcb with hold | happended
    · exact appended_step (h.acking i hold)
    · exact appended_step happended

end OrderedStep

/-! ## Every run -/

/-- Records agree with their rows at every step, if no id is drawn twice or if reports
are served as promised. -/
theorem faithful_along (kafka : Kafka) (cfg : Config) (acts : List Act)
    (hids : (∀ x ∈ Machine.trace (Pipeline.step kafka) (Pipeline.init cfg) acts,
        x.1.served x.2 = true) ∨
      ((admittedEvents (Machine.trace (Pipeline.step kafka) (Pipeline.init cfg) acts)).map
        fun e => e.eventId).Nodup) :
    ∀ x ∈ Machine.trace (Pipeline.step kafka) (Pipeline.init cfg) acts, Faithful x.1 := by
  intro x hx
  rcases Machine.exists_prefix_of_mem_trace hx with ⟨pre, post, hacts, hrun⟩
  rw [hrun]
  have htrace : Machine.trace (Pipeline.step kafka) (Pipeline.init cfg) acts =
      Machine.trace (Pipeline.step kafka) (Pipeline.init cfg) pre ++
        Machine.trace (Pipeline.step kafka)
          (Machine.run (Pipeline.step kafka) (Pipeline.init cfg) pre) (x.2 :: post) := by
    rw [← Machine.trace_append, ← hacts]
  rcases hids with hserved | hnodup
  · refine (linked_run kafka cfg pre fun y hy => hserved y ?_).faithful
    rw [htrace]
    exact List.mem_append_left _ hy
  · refine (origin_run kafka cfg pre).faithful (hnodup.sublist (List.Sublist.map _ ?_))
    rw [htrace, admittedEvents_append]
    exact List.sublist_append_left _ _

theorem ordered_run (kafka : Kafka) (cfg : Config) (acts : List Act)
    (hids : (∀ x ∈ Machine.trace (Pipeline.step kafka) (Pipeline.init cfg) acts,
        x.1.served x.2 = true) ∨
      ((admittedEvents (Machine.trace (Pipeline.step kafka) (Pipeline.init cfg) acts)).map
        fun e => e.eventId).Nodup)
    {c : Call} (hc : c.2 ≠ "") :
    Ordered c (Machine.run (Pipeline.step kafka) (Pipeline.init cfg) acts) := by
  refine Machine.run_invariant_along
    (P := fun s _ => StoreInv s.outbox.db ∧ Faithful s ∧ Logged kafka s) (Ordered.init c cfg)
    (fun _ _ hP h => h.step hc hP.1 hP.2.1 hP.2.2) acts ?_
  intro x hx
  have hfaithful := faithful_along kafka cfg acts hids x hx
  rcases Machine.exists_prefix_of_mem_trace hx with ⟨pre, post, -, hrun⟩
  rw [hrun] at hfaithful ⊢
  exact ⟨storeInv_pipeline kafka cfg pre, hfaithful, logged_run kafka cfg pre⟩

theorem keepsStreams_step (kafka : Kafka) (s : Pipeline) (act : Act) :
    KeepsStreams s.outbox.db (s.step kafka act).outbox.db := by
  cases db_cases kafka s act with
  | quiet _ h =>
    generalize (s.step kafka act).outbox.db = db at h
    induction h with
    | refl => exact fun q hq => ⟨q, hq, rfl⟩
    | tail _ hquiet ih =>
      intro q hq
      rcases ih q hq with ⟨q₁, hq₁, howner₁⟩
      rcases hquiet.keepsStreams q₁ hq₁ with ⟨q₂, hq₂, howner₂⟩
      exact ⟨q₂, hq₂, howner₂.trans howner₁⟩
  | admitted _ _ h => exact h.keepsStreams
  | acked _ _ _ _ _ _ h =>
    rw [h]
    exact acked_keepsStreams _ _ _

/-- Every event that was admitted has its stream for the rest of the run. -/
theorem anchored_run (kafka : Kafka) (cfg : Config) (acts : List Act) :
    ∀ e ∈ admittedEvents (Machine.trace (Pipeline.step kafka) (Pipeline.init cfg) acts),
      Anchored (Machine.run (Pipeline.step kafka) (Pipeline.init cfg) acts).outbox.db e := by
  refine (Machine.trace_invariant
    (J := fun tr s => StoreInv s.outbox.db ∧ ∀ e ∈ admittedEvents tr, Anchored s.outbox.db e)
    (P := fun _ _ => True) ⟨StoreInv.empty, fun e he => absurd he List.not_mem_nil⟩ ?_ acts
    (fun _ _ => trivial)).2
  rintro tr s act - ⟨hinv, hall⟩
  constructor
  · rw [step_outbox]
    exact Machine.run_invariant (I := fun b : Outbox => StoreInv b.db) hinv
      (fun _ op h => h.step op) _
  · intro e he
    rw [admittedEvents_append, List.mem_append, admittedEvents_singleton] at he
    rcases he with hold | hnew
    · exact (hall e hold).keep (keepsStreams_step kafka s act)
    · have hadm : s.admitted act = some e := by simpa using hnew
      cases db_cases kafka s act with
      | quiet hnone => simp [hnone] at hadm
      | admitted hact hsome h =>
        rw [hsome, Option.some.injEq] at hadm
        rw [← hadm]
        exact h.anchored hinv
      | acked hact =>
        rw [hact] at hadm
        simp [Pipeline.admitted] at hadm

/-- With one topic in all sessions, everything is of this topic and sent to it. -/
structure FixedTopic (topic : String) (s : Pipeline) : Prop where
  cfg : s.cfg.topic = topic
  rows : ∀ r ∈ s.outbox.db.outbox, r.topic = topic
  held : ∀ rec ∈ s.held, rec.topic = topic
  messages : ∀ m ∈ s.messages, m.topic = topic

theorem FixedTopic.step {kafka : Kafka} {topic : String} {s : Pipeline} {act : Act}
    (h : FixedTopic topic s) (hact : ∀ cfg, act = .create cfg → cfg.topic = topic) :
    FixedTopic topic (s.step kafka act) where
  cfg := by
    rcases step_cfg kafka s act with hsame | ⟨cfg, rfl, hcfg, -⟩
    · rw [hsame]
      exact h.cfg
    · rw [hcfg]
      exact hact cfg rfl
  rows := by
    intro r hr
    rcases row_of_step hr with ⟨r₀, hr₀, hevent⟩ | hadm
    · rw [← hevent]
      exact h.rows r₀ hr₀
    · rw [admitted_topic hadm]
      exact h.cfg
  held := by
    intro rec hrec
    rcases mem_held_step hrec with hold | ⟨r, hr, rfl⟩
    · exact h.held rec hold
    · exact h.rows r hr
  messages := by
    intro m hm
    rcases message_of_step hm with ⟨m₀, hm₀, hbody⟩ | ⟨rec, rest, g, -, rfl⟩
    · simp only [Message.body, Prod.mk.injEq] at hbody
      rw [← hbody.2.1]
      exact h.messages m₀ hm₀
    · exact h.cfg

theorem fixedTopic_run (kafka : Kafka) (cfg : Config) (acts : List Act)
    (htopic : ∀ cfg', Act.create cfg' ∈ acts → cfg'.topic = cfg.topic) :
    FixedTopic cfg.topic (Machine.run (Pipeline.step kafka) (Pipeline.init cfg) acts) := by
  have hinit : FixedTopic cfg.topic (Pipeline.init cfg) :=
    ⟨rfl, fun r hr => absurd hr (Table.notMem_empty r),
      fun rec hrec => absurd hrec List.not_mem_nil, fun m hm => absurd hm List.not_mem_nil⟩
  refine Machine.run_invariant_along
    (P := fun _ act => ∀ cfg', act = .create cfg' → cfg'.topic = cfg.topic)
    hinit (fun _ _ hact h => h.step hact) acts ?_
  intro x hx cfg' hact
  rcases Machine.exists_prefix_of_mem_trace hx with ⟨pre, post, hacts, -⟩
  apply htopic
  rw [hacts, ← hact]
  exact List.mem_append_right _ List.mem_cons_self

/-- An entry of a call has its key from the stream of the call, and a position in it. -/
theorem entry_anchored {kafka : Kafka} {cfg : Config} {acts : List Act} {c : Call}
    (hc : c.2 ≠ "") {x : LogEntry}
    (hx : x ∈ (Machine.run (Pipeline.step kafka) (Pipeline.init cfg) acts).entries c) :
    ∃ q ∈ (Machine.run (Pipeline.step kafka) (Pipeline.init cfg) acts).outbox.db.callStreams,
      q.call = c ∧ x.record.msgKey = q.msgKey ∧ q.msgKey ≠ "" ∧
        ∃ k : ℕ, x.record.callSeq.toInt = k := by
  rcases List.mem_filter.mp hx with ⟨hlog, hcall⟩
  have hcall' : x.record.call = c := of_decide_eq_true hcall
  rcases logged_run kafka cfg acts x hlog with ⟨m, partition, hm, hentry⟩
  have hrec : x.record = m.record := by rw [hentry]; rfl
  have hheld : m.record ∈ (Machine.run (Pipeline.step kafka) (Pipeline.init cfg) acts).held :=
    Pipeline.mem_held.mpr (Or.inr ⟨m, List.mem_of_getElem? hm, rfl⟩)
  rcases (origin_run kafka cfg acts).held _ hheld with ⟨e, he, hof⟩
  rw [← hrec] at hof
  have hec : e.call = c := hof.call.symm.trans hcall'
  have hg : e.grouped = true := Event.grouped_of_call hec hc
  rcases anchored_run kafka cfg acts e he hg with ⟨q, hq, hqc, hkey, hne, k, hseq, hmax⟩
  refine ⟨q, hq, hqc.trans hec, ?_, hne, k, hof.callSeq_toInt hseq hmax⟩
  rw [hof.msgKey, hkey]
  rfl

/-- For every run from an empty database, with one topic in all sessions, and every
call: the first occurrences of the call's events in the log have `call_seq`
0, 1, 2, ... in exactly this order, and all its entries are in one partition of
its topic. Of librdkafka only this is assumed: what is appended was produced, a
success is reported only for what is appended, and equal keys go to one partition.
The ids drawn for admitted events differ, or else reports are served as promised. -/
theorem per_call_order (kafka : Kafka) (cfg : Config) (acts : List Act)
    (htopic : ∀ cfg', Act.create cfg' ∈ acts → cfg'.topic = cfg.topic)
    (hids : (∀ x ∈ Machine.trace (Pipeline.step kafka) (Pipeline.init cfg) acts,
        x.1.served x.2 = true) ∨
      ((admittedEvents (Machine.trace (Pipeline.step kafka) (Pipeline.init cfg) acts)).map
        fun e => e.eventId).Nodup)
    (c : Call) (hc : c.2 ≠ "") :
    let s := Machine.run (Pipeline.step kafka) (Pipeline.init cfg) acts
    (∃ n : ℕ, (s.ordinals c).eraseDups = (List.range n).map Int.ofNat) ∧
      ∃ partition, ∀ x ∈ s.entries c, x.topic = c.1 ∧ x.partition = partition := by
  intro s
  constructor
  · have hsound := (ordered_run kafka cfg acts hids hc).sound
    have hcast : s.ordinals c = (s.positions c).map Int.ofNat := by
      rw [Pipeline.ordinals, Pipeline.positions, List.map_map]
      apply List.map_congr_left
      intro x hx
      rcases entry_anchored hc hx with ⟨_, -, -, -, -, k, hk⟩
      simp only [Function.comp_apply, OutboxRecord.ordinal, hk, Int.toNat_natCast, Int.ofNat_eq_natCast]
    refine ⟨(s.positions c).eraseDups.length, ?_⟩
    rw [hcast, CursorLog.eraseDups_map (fun _ _ h => Int.ofNat.inj h), ← hsound.ordered]
  · have hfixed := fixedTopic_run kafka cfg acts htopic
    refine ⟨((s.outbox.db.callStreams.find? c).map fun q =>
      kafka.partitionOf c.1 q.msgKey).getD 0, fun x hx => ?_⟩
    rcases entry_anchored hc hx with ⟨q, hq, hqc, hkey, hne, -⟩
    rcases List.mem_filter.mp hx with ⟨hlog, hcall⟩
    have hcall' : x.record.call = c := of_decide_eq_true hcall
    rcases logged_run kafka cfg acts x hlog with ⟨m, partition, hm, hentry⟩
    have hmem := List.mem_of_getElem? hm
    have hrec : x.record = m.record := by rw [hentry]; rfl
    have htopic' : m.topic = c.1 := by
      have hheld := hfixed.held m.record (Pipeline.mem_held.mpr (Or.inr ⟨m, hmem, rfl⟩))
      rw [hfixed.messages m hmem, ← hheld, ← hrec]
      exact congrArg Prod.fst hcall'
    have hmkey : m.key = some q.msgKey := by
      simp [Message.key, ← hrec, hkey, hne]
    rw [Table.find?_eq_some.mpr ⟨hq, hqc⟩, hentry]
    exact ⟨htopic', by simp [Message.entry, hmkey, htopic']⟩

/-- The process dies with the first message out, the next one sends the event again
and then a second one, and the message of the dead process is appended last. -/
def lateAppend : List Act :=
  firstSend ++ [.crash, .start sampleEnv] ++ List.replicate 7 (.work sampleEnv) ++
    [.append 1 0, .report 1 none, .callback sampleEnv,
      .enqueue ⟨"b", [], "key", "c", -1⟩ sampleEnv] ++
    List.replicate 7 (.work sampleEnv) ++ [.append 2 0, .append 0 0, .append 2 0]

/-- In the log the ordinals are 0, 1, 0, 1, and without repetitions 0, 1. -/
theorem per_call_order_late :
    let s := Machine.run (Pipeline.step sampleKafka) (Pipeline.init (sampleConfig "events"))
      lateAppend
    s.ordinals ("events", "c") = [0, 1, 0, 1] ∧
      (∃ n : ℕ, (s.ordinals ("events", "c")).eraseDups = (List.range n).map Int.ofNat) ∧
      ∃ partition, ∀ x ∈ s.entries ("events", "c"), x.topic = "events" ∧ x.partition = partition := by
  refine ⟨by decide +kernel, ?_⟩
  refine per_call_order sampleKafka (sampleConfig "events") lateAppend ?_ (Or.inr ?_)
    ("events", "c") (by decide)
  · intro cfg hcfg
    simp [lateAppend, firstSend] at hcfg
  · decide +kernel

end EventKafka
