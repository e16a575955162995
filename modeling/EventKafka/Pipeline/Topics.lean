import EventKafka.Outbox.Transitions
import EventKafka.Pipeline.Records

/-! # Topics across sessions

A row keeps the topic it was admitted for, `produce_record` uses the topic handle of
the running session, and `fetch_due` does not look at topics. So what a session
finds in the outbox goes to the session's own topic, whatever the rows say. The two
agree as long as a change of `cfg.topic` meets no row that is still to be sent.
-/

namespace EventKafka

open Sql

/-- A session starts on a backlog of its own topic only. Dead rows may be of any. -/
def Pipeline.ownBacklog (s : Pipeline) : Act → Bool
  | .start _ => s.worker ≠ .idle ||
    s.outbox.db.outbox.rows.all fun r => r.state = .dead || r.topic = s.cfg.topic
  | _ => true

/-- Every row that may still be sent is of topic `t`. -/
def LiveOf (t : String) (db : Db) : Prop := ∀ r ∈ db.outbox, r.state ≠ .dead → r.topic = t

/-- The call neither brings a dead row back nor admits one of another topic. -/
structure Op.KeepsTopic (t : String) (op : Op) : Prop where
  kept : ∀ id now₁ now₂ fault, op ≠ .retryDead id now₁ now₂ fault
  admitted : ∀ lim rec now fault, op = .insertPending lim rec now fault → rec.topic = t

theorem LiveOf.step {t : String} {b : Outbox} {op : Op} (h : LiveOf t b.db)
    (hop : op.KeepsTopic t) : LiveOf t (b.step op).db := by
  intro q hq hlive
  rcases Outbox.live_origin hq hlive hop.kept with ⟨r, hr, hevent, hstate⟩ | ⟨lim, rec, now, fault,
    heq, htopic⟩
  · have htopic := h r hr hstate
    rwa [hevent] at htopic
  · rw [htopic]
    exact hop.admitted lim rec now fault heq

/-- A verdict admits nothing. -/
theorem Verdict.op_keepsTopic (verdict : Verdict) (id why t : String) (env : Env) :
    (verdict.op id why env).KeepsTopic t := by
  cases verdict <;> exact ⟨by simp [Verdict.op], by simp [Verdict.op]⟩

/-- Within a session nobody brings dead rows back, and events are admitted for its topic. -/
theorem calls_keepTopic {s : Pipeline} {act : Act}
    (hopen : ∀ id env, act = .retryDead id env → s.outbox.isOpen = true) :
    ∀ op ∈ s.calls act, op.KeepsTopic s.cfg.topic := by
  intro op hop
  have hissues := calls_issues hop
  cases hissues with
  | insert =>
    refine ⟨by simp, ?_⟩
    intro lim rec now fault heq
    cases heq
    rfl
  | settle | settled => exact Verdict.op_keepsTopic ..
  | revive =>
    -- the operator finds the outbox open and leaves
    rw [Pipeline.calls, if_pos (hopen _ _ rfl)] at hop
    exact absurd hop List.not_mem_nil
  | _ => exact ⟨by simp, by simp⟩

/-- An event is admitted with the topic of the configuration. -/
theorem admitted_topic {s : Pipeline} {act : Act} {e : Event} (h : s.admitted act = some e) :
    e.topic = s.cfg.topic := by
  cases act with
  | enqueue args env =>
    simp only [Pipeline.admitted] at h
    split at h
    · simp at h
    · rcases Option.map_eq_some_iff.mp h with ⟨⟨rec, assigned⟩, hadm, rfl⟩
      rcases Outbox.admission_eq_some.mp hadm with ⟨lim, now, fault, hop, -⟩
      cases hop
      rfl
  | _ => simp [Pipeline.admitted] at h

/-- Within a session everything has the session's topic, and what was sent in any
session went where its row said. -/
structure TopicInv (s : Pipeline) : Prop where
  opened : s.worker ≠ .idle → s.outbox.isOpen = true
  rows : s.worker ≠ .idle → LiveOf s.cfg.topic s.outbox.db
  records : ∀ rec ∈ s.worker.records, rec.topic = s.cfg.topic
  messages : ∀ m ∈ s.messages, m.topic = m.record.topic

/-- Who has records is at work. -/
theorem Worker.ne_idle_of_mem {w : Worker} {rec : OutboxRecord} (h : rec ∈ w.records) :
    w ≠ .idle := by
  intro hidle
  rw [hidle] at h
  exact List.not_mem_nil h

/-- While a session runs, or is just starting, the live rows it meets have its topic. -/
theorem TopicInv.rows_before {kafka : Kafka} {s : Pipeline} {act : Act} (h : TopicInv s)
    (hown : s.ownBacklog act = true) (hrun : (s.step kafka act).worker ≠ .idle) :
    (s.step kafka act).cfg = s.cfg ∧ LiveOf s.cfg.topic s.outbox.db := by
  constructor
  · rcases step_cfg kafka s act with hsame | ⟨_, -, -, hidle⟩
    · exact hsame
    · exact absurd hidle hrun
  · by_cases hidle : s.worker = .idle
    · rcases start_of_idle hidle hrun with ⟨env, rfl⟩
      intro r hr hlive
      simp only [Pipeline.ownBacklog, hidle, ne_eq, not_true_eq_false, decide_false,
        Bool.false_or, List.all_eq_true, Bool.or_eq_true, decide_eq_true_eq] at hown
      exact (hown r hr).resolve_left hlive
    · exact h.rows hidle

/-- The operator finds the outbox locked while a session runs. -/
theorem TopicInv.locked {kafka : Kafka} {s : Pipeline} {act : Act} (h : TopicInv s)
    (hrun : (s.step kafka act).worker ≠ .idle) :
    ∀ id env, act = .retryDead id env → s.outbox.isOpen = true := by
  rintro id env rfl
  apply h.opened
  intro hidle
  rcases start_of_idle hidle hrun with ⟨env, hstart⟩
  cases hstart

theorem TopicInv.step {kafka : Kafka} {s : Pipeline} {act : Act} (h : TopicInv s)
    (hown : s.ownBacklog act = true) : TopicInv (s.step kafka act) where
  opened := isOpen_step kafka act h.opened
  rows := by
    intro hrun
    rcases h.rows_before hown hrun with ⟨hcfg, hrows⟩
    have hcalls := calls_keepTopic (h.locked hrun)
    rw [hcfg, step_outbox]
    exact Machine.run_invariant_along (I := fun b : Outbox => LiveOf s.cfg.topic b.db)
      (P := fun _ op => op.KeepsTopic s.cfg.topic) hrows (fun _ _ hop hlive => hlive.step hop)
      (s.calls act) fun x hx => hcalls x.2 (Machine.mem_of_mem_trace hx)
  records := by
    intro rec hrec
    rcases h.rows_before hown (Worker.ne_idle_of_mem hrec) with ⟨hcfg, hrows⟩
    rw [hcfg]
    rcases step_records kafka s act with hsuf | hread
    · exact h.records rec (hsuf.subset hrec)
    · rcases hread rec hrec with ⟨r, hr, hpending, rfl⟩
      exact hrows r hr (by rw [hpending]; decide)
  messages := by
    intro m hm
    rcases message_of_step hm with ⟨m₀, hm₀, hbody⟩ | ⟨rec, rest, g, hw, rfl⟩
    · simp only [Message.body, Prod.mk.injEq] at hbody
      rw [← hbody.1, ← hbody.2.1]
      exact h.messages m₀ hm₀
    · -- the record in hand has the topic of the handle
      have hrec : rec ∈ s.worker.records := by
        rw [hw]
        exact List.mem_cons_self
      exact (h.records rec hrec).symm

/-- Over a run whose every session starts on a backlog of its own topic. -/
theorem topicInv_run (kafka : Kafka) (cfg : Config) (acts : List Act)
    (h : ∀ x ∈ Machine.trace (Pipeline.step kafka) (Pipeline.init cfg) acts,
      x.1.ownBacklog x.2 = true) :
    TopicInv (Machine.run (Pipeline.step kafka) (Pipeline.init cfg) acts) := by
  refine Machine.run_invariant_along (P := fun s act => s.ownBacklog act = true) ⟨?_, ?_, ?_, ?_⟩
    (fun _ _ hown hinv => hinv.step hown) acts h
  · exact fun hrun => absurd rfl hrun
  · exact fun hrun => absurd rfl hrun
  · exact fun rec hrec => absurd hrec List.not_mem_nil
  · exact fun m hm => absurd hm List.not_mem_nil

/-- In every sequence of sessions of which each starts on a backlog of its own topic,
every message goes to the topic of its row, which is the `cfg.topic` the row was
admitted under, and two topics never meet in one topic of the broker. -/
theorem messages_keep_topic (kafka : Kafka) (cfg : Config) (acts : List Act)
    (h : ∀ x ∈ Machine.trace (Pipeline.step kafka) (Pipeline.init cfg) acts,
      x.1.ownBacklog x.2 = true) :
    let tr := Machine.trace (Pipeline.step kafka) (Pipeline.init cfg) acts
    let s := Machine.run (Pipeline.step kafka) (Pipeline.init cfg) acts
    (∀ m ∈ s.messages, m.topic = m.record.topic ∧
      ∃ x ∈ tr, ∃ e, x.1.admitted x.2 = some e ∧ m.record.Of e ∧ m.topic = x.1.cfg.topic) ∧
    (∀ x ∈ s.log, x.topic = x.record.topic) ∧
    ∀ x ∈ s.log, ∀ y ∈ s.log, x.record.topic ≠ y.record.topic → x.topic ≠ y.topic := by
  intro tr s
  have hinv : TopicInv s := topicInv_run kafka cfg acts h
  have hlog : ∀ x ∈ s.log, x.topic = x.record.topic := by
    intro x hx
    rcases logged_run kafka cfg acts x hx with ⟨m, partition, hm, hentry⟩
    rw [hentry]
    exact hinv.messages m (List.mem_of_getElem? hm)
  refine ⟨?_, hlog, ?_⟩
  · intro m hm
    refine ⟨hinv.messages m hm, ?_⟩
    have hheld : m.record ∈ s.held := Pipeline.mem_held.mpr (Or.inr ⟨m, hm, rfl⟩)
    rcases (origin_run kafka cfg acts).held m.record hheld with ⟨e, he, hof⟩
    rcases List.mem_filterMap.mp he with ⟨x, hx, hadm⟩
    refine ⟨x, hx, e, hadm, hof, ?_⟩
    rw [hinv.messages m hm, hof.topic, admitted_topic hadm]
  · intro x hx y hy hne
    rw [hlog x hx, hlog y hy]
    exact hne

/-- The first event of call `c` is acknowledged and the pipeline stopped; the next
session has another topic and sends an event of its own. -/
def drainedChange : List Act :=
  firstSend ++
    [.append 0 0, .report 0 none, .callback sampleEnv, .stop, .work sampleEnv, .work sampleEnv,
      .work sampleEnv, .joined, .create (sampleConfig "t2"), .start sampleEnv,
      .enqueue ⟨"b", [], "key", "c", -1⟩ sampleEnv] ++
    List.replicate 7 (.work sampleEnv) ++ [.append 1 0]

/-- Each session sent to its topic what it had admitted under it. -/
theorem messages_keep_topic_drained :
    (∀ x ∈ Machine.trace (Pipeline.step sampleKafka) (Pipeline.init (sampleConfig "t1"))
        drainedChange, x.1.ownBacklog x.2 = true) ∧
      let s := Machine.run (Pipeline.step sampleKafka) (Pipeline.init (sampleConfig "t1"))
        drainedChange
      s.messages.map (fun m => m.topic) = ["t1", "t2"] ∧
        ∀ x ∈ s.log, x.topic = x.record.topic := by
  have hown : ∀ x ∈ Machine.trace (Pipeline.step sampleKafka) (Pipeline.init (sampleConfig "t1"))
      drainedChange, x.1.ownBacklog x.2 = true := by
    decide +kernel
  exact ⟨hown, by decide +kernel, (messages_keep_topic sampleKafka _ drainedChange hown).2.1⟩

/-- The pipeline is stopped before the first event of call `c` was sent, and the next
session, with another topic, sends it together with an event of its own. -/
def backlogChange : List Act :=
  [.start sampleEnv, .enqueue ⟨"a", [], "key", "c", -1⟩ sampleEnv, .stop, .work sampleEnv,
      .work sampleEnv, .joined, .create (sampleConfig "t2"), .start sampleEnv,
      .enqueue ⟨"b", [], "key", "c", -1⟩ sampleEnv] ++
    List.replicate 9 (.work sampleEnv) ++ [.append 0 0, .append 1 0]

/-- A backlog that survives a change of topic goes to the new topic, and the streams
`(t1, c)` and `(t2, c)` meet there. -/
theorem backlog_crosses_topics :
    let s := Machine.run (Pipeline.step sampleKafka) (Pipeline.init (sampleConfig "t1"))
      backlogChange
    (∃ m ∈ s.messages, m.record.topic = "t1" ∧ m.topic = "t2") ∧
      ∃ x ∈ s.log, ∃ y ∈ s.log,
        x.record.call = ("t1", "c") ∧ y.record.call = ("t2", "c") ∧ x.topic = y.topic := by
  decide +kernel

end EventKafka
