import EventKafka.Outbox.Age
import EventKafka.Outbox.Transitions
import EventKafka.Pipeline.Linked

/-! # A dead head is a barrier

`mark_dead` does not look at the cursor. That a dead row is nevertheless the head
of its call is a property of the whole pipeline: `expire_ttl` selects deliverable
rows, and `settle_send_failure` marks a row it has just seen in flight, on the one
thread that sends and polls. From then on the call stands still: the cursor moves
with an ACK of the head, and the head is not in flight, until the operator revives
that event.
-/

namespace EventKafka

open Sql

/-! ## Dead rows and cursors -/

/-- Every dead row of a call is its head. -/
def DeadHeads (db : Db) : Prop :=
  ∀ r ∈ db.outbox, r.grouped = true → r.state = .dead → db.isHead r.toEvent = true

/-- The event a call marks dead whatever its position. -/
def Op.kills : Op → Option String
  | .markDead id _ _ _ => some id
  | _ => none

section Outbox

variable {b : Outbox} {op : Op} {r : Row}

/-- A call keeps dead rows at the head, if the event it kills is in flight. -/
theorem DeadHeads.step (hinv : StoreInv b.db) (hdead : DeadHeads b.db)
    (hkill : ∀ id, op.kills = some id → Flying b.db fun e => e.eventId = id) :
    DeadHeads (b.step op).db := by
  intro r hr hg hstate
  cases b.effect op with
  | same h =>
    rw [h] at hr ⊢
    exact hdead r hr hg hstate
  | admitted _ _ hadm =>
    rcases hadm.mem_outbox.mp hr with hbase | rfl
    · have hmem := hadm.room.mem_of_mem hbase
      rw [hadm.isHead hinv hmem hg]
      exact hdead r hmem hg hstate
    · simp [newRow] at hstate
  | sent _ _ hq hsend _ h =>
    rw [h] at hr ⊢
    rw [(Quiet.sent hq (sendable_iff.mp hsend).2.2).isHead hg]
    rcases Db.mem_updateOutbox.mp hr with ⟨q, hq', rfl⟩
    split at hstate
    · simp at hstate
    · rename_i hne
      simp only [hne] at hg ⊢
      exact hdead q hq' hg hstate
  | @acked id now fault q _ _ hq _ hflight _ h =>
    rw [h] at hr ⊢
    rcases Db.mem_acked_outbox.mp hr with ⟨r₀, hr₀, hne, rfl⟩
    simp only [Row.afterAck_toEvent, Row.afterAck_state] at hg hstate ⊢
    have hhead := hdead r₀ hr₀ hg hstate
    rw [← Db.deliverable_of_grouped hg] at hhead ⊢
    by_cases hmine : q.grouped = true ∧ r₀.call = q.call
    · -- the acknowledged row is the head of its call, so the dead row is not
      have hnot := not_deliverable_of_ne_acked hinv hq hflight hr₀ hne hmine.1 hg hmine.2
      simp [hnot] at hhead
    · rw [acked_deliverable_of_ne hmine]
      exact hhead
  | @rewritten w n hop _ h =>
    rw [h] at hr ⊢
    rcases Db.mem_updateOutbox.mp hr with ⟨q, hq, rfl⟩
    change b.db.isHead _ = true
    split at hstate
    · rename_i hsel
      simp only [hsel, if_true] at hg ⊢
      rcases Op.rewrite_to_dead hop hsel hstate with hd | hd | ⟨error, now, fault, rfl⟩
      · exact hdead q hq hg hd
      · rw [← Db.deliverable_of_grouped hg]
        exact hd
      · rcases hkill q.eventId rfl with ⟨q', hq', hid, hflight⟩
        have heq : q' = q := Table.eq_of_key hq' hq hid
        exact hinv.heads q hq hg (heq ▸ hflight)
    · rename_i hsel
      simp only [hsel] at hg ⊢
      exact hdead q hq hg hstate

/-- Calls that kill nothing keep dead rows at the heads. -/
theorem deadHeads_run {ops : List Op} (hinv : StoreInv b.db) (hdead : DeadHeads b.db)
    (h : ∀ op ∈ ops, op.kills = none) : DeadHeads (Machine.run Outbox.step b ops).db := by
  induction ops generalizing b with
  | nil => exact hdead
  | cons op ops ih =>
    apply ih (hinv.step op)
    · apply hdead.step hinv
      intro id hid
      simp [h op (List.mem_cons_self ..)] at hid
    · intro op' hop'
      exact h op' (List.mem_cons_of_mem _ hop')

/-- A dead row of a call stays dead in every call but its own `retry_dead`. -/
theorem Outbox.dead_stays (hr : r ∈ b.db.outbox) (hg : r.grouped = true) (hdead : r.state = .dead)
    (hop : ∀ now₁ now₂ fault, op ≠ .retryDead r.eventId now₁ now₂ fault) :
    ∃ r' ∈ (b.step op).db.outbox, r'.toEvent = r.toEvent ∧ r'.state = .dead := by
  cases b.effect op with
  | same h => exact ⟨r, h ▸ hr, rfl, hdead⟩
  | admitted _ _ hadm =>
    -- the reclaim takes ungrouped rows only
    exact ⟨r, hadm.mem_outbox.mpr (Or.inl (hadm.room.mem_of_grouped hr hg)), rfl, hdead⟩
  | @sent id now fault q _ _ hq hsend _ h =>
    have hne : r.eventId ≠ q.eventId := by
      intro hid
      have hpend := (sendable_iff.mp hsend).2.1
      rw [← Table.eq_of_key hr hq hid, hdead] at hpend
      cases hpend
    refine ⟨r, ?_, rfl, hdead⟩
    rw [h]
    exact Db.mem_updateOutbox.mpr ⟨r, hr, by simp [hne]⟩
  | @acked id now fault q _ _ hq _ hflight _ h =>
    have hne : r.eventId ≠ q.eventId := by
      intro hid
      rw [← Table.eq_of_key hr hq hid, hdead] at hflight
      cases hflight
    refine ⟨q.afterAck now r, ?_, by simp, by simp [hdead]⟩
    rw [h]
    exact Db.mem_acked_outbox.mpr ⟨r, hr, hne, rfl⟩
  | @rewritten w n hrw _ h =>
    rw [h]
    cases hsel : w.selects b.db r with
    | false => exact ⟨r, Db.mem_updateOutbox.mpr ⟨r, hr, by simp [hsel]⟩, rfl, hdead⟩
    | true =>
      refine ⟨⟨r.toEvent, w.set r⟩, Db.mem_updateOutbox.mpr ⟨r, hr, by simp [hsel]⟩, rfl, ?_⟩
      rcases Op.rewrite_of_dead hrw hsel hdead with hd | ⟨now₁, now₂, fault, rfl⟩
      · exact hd
      · exact absurd rfl (hop now₁ now₂ fault)

/-- A dead row of a call stays until it is retried by name. -/
theorem Outbox.dead_stays_run {ops : List Op} (hr : r ∈ b.db.outbox) (hg : r.grouped = true)
    (hdead : r.state = .dead)
    (hops : ∀ op ∈ ops, ∀ now₁ now₂ fault, op ≠ .retryDead r.eventId now₁ now₂ fault) :
    ∃ r' ∈ (Machine.run Outbox.step b ops).db.outbox,
      r'.toEvent = r.toEvent ∧ r'.state = .dead := by
  induction ops generalizing b r with
  | nil => exact ⟨r, hr, rfl, hdead⟩
  | cons op ops ih =>
    rcases b.dead_stays hr hg hdead (hops op (List.mem_cons_self ..)) with ⟨r₁, hr₁, he₁, hd₁⟩
    have hrest : ∀ op' ∈ ops, ∀ now₁ now₂ fault, op' ≠ .retryDead r₁.eventId now₁ now₂ fault := by
      rw [he₁]
      intro op' hop'
      exact hops op' (List.mem_cons_of_mem _ hop')
    rcases ih hr₁ (he₁ ▸ hg) hd₁ hrest with ⟨r₂, hr₂, he₂, hd₂⟩
    exact ⟨r₂, hr₂, he₂.trans he₁, hd₂⟩

end Outbox

/-! ## The pipeline -/

/-- librdkafka calls `on_delivery` from `rd_kafka_poll` and `rd_kafka_flush` only. -/
def Pipeline.polled (s : Pipeline) : Act → Bool
  | .report _ _ => s.worker.polling
  | _ => true

/-- Whatever is about to be marked dead is in flight. -/
structure Guarded (s : Pipeline) : Prop where
  store : StoreInv s.outbox.db
  dead : DeadHeads s.outbox.db
  opened : s.worker ≠ .idle → s.outbox.isOpen = true
  polling : s.callback ≠ none → s.worker.polling = true
  holding : ∀ id, s.worker.holding = some id → Flying s.outbox.db fun e => e.eventId = id
  settling : ∀ i why verdict, s.callback = some (.settleMark i why verdict) →
    Flying s.outbox.db fun e => e.eventId = s.opaqueId i

section Guarded

variable {s s' : Pipeline} {kafka : Kafka} {env : Env}

/-- Outside a poll there is no callback to serve. -/
theorem Guarded.callback_none (h : Guarded s) (hw : s.worker.polling = false) :
    s.callback = none := by
  by_contra hcb
  simp [h.polling hcb] at hw

/-- The invariant reads four fields. -/
theorem Guarded.congr (h : Guarded s) (houtbox : s'.outbox = s.outbox)
    (hworker : s'.worker = s.worker) (hcallback : s'.callback = s.callback)
    (hmessages : s'.messages = s.messages) : Guarded s' := by
  have hopaque : ∀ i, s'.opaqueId i = s.opaqueId i := by
    intro i
    rw [Pipeline.opaqueId, Pipeline.opaqueId, hmessages]
  constructor
  · rw [houtbox]
    exact h.store
  · rw [houtbox]
    exact h.dead
  · rw [houtbox, hworker]
    exact h.opened
  · rw [hcallback, hworker]
    exact h.polling
  · rw [houtbox, hworker]
    exact h.holding
  · intro i why verdict hcb
    rw [houtbox, hopaque]
    exact h.settling i why verdict (hcallback ▸ hcb)

/-- A state in which nothing is being settled. -/
theorem Guarded.unheld (hstore : StoreInv s.outbox.db) (hdead : DeadHeads s.outbox.db)
    (hopen : s.worker ≠ .idle → s.outbox.isOpen = true) (hcb : s.callback = none)
    (hhold : s.worker.holding = none) : Guarded s where
  store := hstore
  dead := hdead
  opened := hopen
  polling := fun h => absurd hcb h
  holding := by simp [hhold]
  settling := by simp [hcb]

theorem Op.settles_of_kills {op : Op} (h : op.kills ≠ none) : op.settles = true := by
  cases op with
  | markDead => rfl
  | _ => exact absurd rfl h

/-- A verdict kills the row it names. -/
theorem Verdict.kills_op {verdict : Verdict} {id id' why : String}
    (h : (verdict.op id why env).kills = some id') : id' = id := by
  cases verdict with
  | dead => exact (Option.some.inj h).symm
  | retry n => cases h

/-- The calls of a step kill nothing but the event being settled. -/
theorem Guarded.kills (h : Guarded s) (act : Act) :
    (∀ op ∈ s.calls act, op.kills = none) ∨
      ∃ op, s.calls act = [op] ∧
        ∀ id, op.kills = some id → Flying s.outbox.db fun e => e.eventId = id := by
  by_cases hnone : ∀ op ∈ s.calls act, op.kills = none
  · exact Or.inl hnone
  push Not at hnone
  rcases hnone with ⟨op, hop, hkills⟩
  refine Or.inr ⟨op, calls_settles hop (Op.settles_of_kills hkills), fun id hid => ?_⟩
  cases calls_issues hop with
  | settle hw =>
    -- the worker marks dead only what it holds
    rw [Verdict.kills_op hid]
    exact h.holding _ (by rw [hw]; rfl)
  | settled hcb =>
    -- and the callback only what was reported
    rw [Verdict.kills_op hid]
    exact h.settling _ _ _ hcb
  | _ => cases hid

variable (kafka) in
/-- Only a row in flight is killed, and that is at the head of its call. -/
theorem Guarded.dead_step (h : Guarded s) (act : Act) :
    DeadHeads (s.step kafka act).outbox.db := by
  rw [step_outbox]
  rcases h.kills act with hnone | ⟨op, hcalls, hkill⟩
  · exact deadHeads_run h.store h.dead hnone
  · rw [hcalls]
    exact h.dead.step h.store hkill

variable (kafka) in
/-- Every step of the pipeline keeps the invariant of the store. -/
theorem StoreInv.pipeline (h : StoreInv s.outbox.db) (act : Act) :
    StoreInv (s.step kafka act).outbox.db := by
  rw [step_outbox]
  exact Machine.run_invariant (I := fun b : Outbox => StoreInv b.db) h
    (fun _ op hinv => hinv.step op) _

/-- `settle_send_failure` goes on to its transition only with a row in flight. -/
theorem Outbox.flying_of_judge {b : Outbox} {maxAttempts : Int} {id : String} {permanent : Bool}
    {fault : FaultPlan} {verdict : Verdict}
    (h : b.judge maxAttempts id permanent fault = .ok (some verdict)) :
    Flying b.db fun e => e.eventId = id := by
  unfold Outbox.judge at h
  rw [Outbox.get_eq] at h
  cases hopen : b.isOpen with
  | false => simp [hopen] at h
  | true =>
    cases hfault : fault .getRow with
    | some e => simp [hopen, hfault] at h
    | none =>
      cases hfind : b.db.outbox.find? id with
      | none => simp [hopen, hfault, hfind] at h
      | some r =>
        rcases Table.find?_eq_some.mp hfind with ⟨hr, hid⟩
        by_cases hflight : r.state = .inFlight
        · exact ⟨r, hr, hid, hflight⟩
        · simp [hopen, hfault, hfind, record, hflight] at h

/-- The row that was marked is in flight. -/
theorem flying_of_markInFlight {b b' : Outbox} {id : String} {now n : Int} {fault : FaultPlan}
    (hexec : b.exec (.markInFlight id now fault) = (.ok n, b')) :
    Flying b'.db fun e => e.eventId = id := by
  rcases call_ok hexec with ⟨_, hrun, -⟩
  rcases markInFlight_ok hrun with ⟨r, hr, hsend, -, hdb⟩
  refine ⟨⟨r.toEvent, { r.toProgress with
    state := .inFlight, attempts := r.attempts + 1, updatedAtMs := now }⟩, ?_,
    (sendable_iff.mp hsend).1, rfl⟩
  rw [hdb]
  exact Db.mem_updateOutbox.mpr ⟨r, hr, by simp⟩

/-- One step of the worker, from state to state of it. -/
theorem Guarded.work (h : Guarded s) (hcb : s.callback = none) : Guarded (s.work kafka env) := by
  have hstep : s.step kafka (.work env) = s.work kafka env := by simp [Pipeline.step, hcb]
  have hstore := h.store.pipeline kafka (.work env)
  have hdead := h.dead_step kafka (.work env)
  rw [hstep] at hstore hdead
  have hcases := work_cases kafka s env
  have hcb' : (s.work kafka env).callback = none := hcases.frame.2.2.1.trans hcb
  have hopen : (s.work kafka env).worker ≠ .idle → (s.work kafka env).outbox.isOpen = true := by
    intro hw
    rw [work_outbox, workCalls_isOpen]
    exact h.opened fun hidle => hw (hcases.idle_iff.mpr hidle)
  refine ⟨hstore, hdead, hopen, fun hne => absurd hcb' hne, ?_, by simp [hcb']⟩
  intro id hid
  cases hcases with
  | stays heq =>
    rw [heq] at hid ⊢
    exact h.holding id hid
  | moved _ hfree _ _ _ hsame =>
    rw [hsame.worker] at hid
    simp [hfree.2] at hid
  | rebuilt _ _ hsame | stranded _ _ hsame | expired _ _ hsame | fetched _ _ hsame =>
    rw [hsame.worker] at hid
    simp [Worker.holding] at hid
  | produced _ _ hsame | settled _ _ hsame =>
    rw [hsame.worker] at hid
    simp [Worker.holding] at hid
  | claimed _ hexec hsame =>
    rw [hsame.worker] at hid
    rw [hsame.outbox]
    cases hid
    exact flying_of_markInFlight hexec
  | refused hw hsame | judged hw hsame =>
    rw [hsame.worker] at hid
    rw [hsame.outbox]
    exact h.holding id (by simpa [hw, Worker.holding] using hid)

variable (kafka) in
/-- `on_delivery` goes on to its transition only with a row in flight. -/
theorem flying_of_judged {i : Nat} {why : String} {permanent : Bool} {verdict : Verdict}
    (hcb : s.callback = some (.settle i why permanent))
    (h : (s.step kafka (.callback env)).callback = some (.settleMark i why verdict)) :
    Flying s.outbox.db fun e => e.eventId = s.opaqueId i := by
  simp only [Pipeline.step, Pipeline.deliver, hcb] at h
  cases hjudge : s.outbox.judge s.cfg.maxAttemptsBeforeDead (s.opaqueId i) permanent env.fault with
  | error e => simp [hjudge, Pipeline.crash] at h
  | ok found =>
    cases found with
    | none => simp [hjudge, Pipeline.returned] at h
    | some v => exact Outbox.flying_of_judge hjudge

/-- One step of a callback. -/
theorem Guarded.callback (h : Guarded s) : Guarded (s.step kafka (.callback env)) := by
  have hstore := h.store.pipeline kafka (.callback env)
  have hdead := h.dead_step kafka (.callback env)
  cases hcb : s.callback with
  | none =>
    have hsame : s.step kafka (.callback env) = s := by simp [Pipeline.step, deliver_none env hcb]
    rw [hsame]
    exact h
  | some cb =>
    -- the thread that polls holds no record
    have hhold := (Worker.free_of_polling (h.polling (by simp [hcb]))).2
    have hrun : s.worker ≠ .idle := by
      intro hidle
      have hpoll := h.polling (by simp [hcb])
      simp [hidle, Worker.polling] at hpoll
    cases callback_cases kafka s env with
    | stays heq =>
      rw [heq]
      exact h
    | acked hcb' hexec hsame =>
      refine .unheld hstore hdead ?_ hsame.callback (hsame.worker ▸ hhold)
      rw [hsame.outbox]
      exact fun _ => (isOpen_of_exec rfl hexec).trans (h.opened hrun)
    | failed hcb' hsame =>
      refine .unheld hstore hdead ?_ hsame.callback (hsame.worker ▸ hhold)
      rw [hsame.outbox]
      exact fun _ => h.opened hrun
    | settled hcb' hexec hsame =>
      refine .unheld hstore hdead ?_ hsame.callback (hsame.worker ▸ hhold)
      rw [hsame.outbox]
      exact fun _ => (isOpen_of_exec (Verdict.op_inSession ..) hexec).trans (h.opened hrun)
    | escaped hcrash =>
      rw [hcrash] at hstore hdead ⊢
      exact .unheld hstore hdead (fun hw => absurd rfl hw) rfl rfl
    | @judged i why permanent verdict hcb' hsame =>
      have hfly := flying_of_judged kafka hcb' hsame.callback
      refine ⟨hstore, hdead, ?_, ?_, ?_, ?_⟩
      · rw [hsame.outbox]
        exact fun _ => h.opened hrun
      · rw [hsame.worker]
        exact fun _ => h.polling (by simp [hcb])
      · rw [hsame.worker]
        simp [hhold]
      · intro j why' verdict' hmark
        rw [hsame.callback] at hmark
        cases hmark
        rw [hsame.outbox, Pipeline.opaqueId, hsame.messages]
        exact hfly

/-- `start` finds no worker, and requeues what is in flight. -/
theorem Guarded.start (h : Guarded s) : Guarded (s.step kafka (.start env)) := by
  have hstore := h.store.pipeline kafka (.start env)
  have hdead := h.dead_step kafka (.start env)
  simp only [Pipeline.step] at hstore hdead ⊢
  cases start_cases s env with
  | refused _ hs =>
    rw [hs]
    exact h
  | failed _ hidle _ hs =>
    rw [hs] at hstore hdead ⊢
    exact .unheld hstore hdead (fun hw => absurd hidle hw) (h.callback_none (by rw [hidle]; rfl))
      (by rw [hidle]; rfl)
  | started _ hidle _ hopen hreq hs =>
    rw [hs] at hstore hdead ⊢
    refine .unheld hstore hdead (fun _ => ?_) (h.callback_none (by rw [hidle]; rfl)) rfl
    exact (isOpen_of_exec (s := { s with outbox := _ }) rfl hreq).trans (isOpen_of_openDb hopen)

theorem Guarded.enqueue {args : EnqueueArgs} (h : Guarded s) :
    Guarded (s.step kafka (.enqueue args env)) := by
  have hstore := h.store.pipeline kafka (.enqueue args env)
  have hdead := h.dead_step kafka (.enqueue args env)
  simp only [Pipeline.step, Pipeline.enqueue] at hstore hdead ⊢
  split
  · exact h
  · rename_i hguard
    simp only [hguard, if_false] at hstore hdead
    rcases hexec : s.outbox.exec (.insertPending s.cfg.limits
        (args.toRecord s.cfg (env.clock 0)) (env.clock 1) env.fault) with ⟨reply, b⟩
    rw [hexec] at hstore hdead
    cases reply with
    | error e =>
      have hb := Outbox.exec_error_eq rfl hexec
      subst hb
      exact h.congr rfl rfl rfl rfl
    | ok n =>
      -- admission keeps every row that is not dead
      have hfly : ∀ P, Flying s.outbox.db P → Flying b.db P := fun P hP =>
        hP.keep (keeps_of_insertPending h.store hexec) fun r _ _ hflight => by simp [hflight]
      exact ⟨hstore, hdead, fun hw => (isOpen_of_exec rfl hexec).trans (h.opened hw), h.polling,
        fun id hid => hfly _ (h.holding id hid),
        fun i why verdict hcb => hfly _ (h.settling i why verdict hcb)⟩

/-- A worker holds the outbox open, and its lock keeps the operator out. -/
theorem Guarded.idle_of_closed (h : Guarded s) (hclosed : ¬ s.outbox.isOpen = true) :
    s.worker = .idle := by
  by_contra hrun
  exact hclosed (h.opened hrun)

theorem Guarded.retryDead {id : String} (h : Guarded s) :
    Guarded (s.step kafka (.retryDead id env)) := by
  have hstore := h.store.pipeline kafka (.retryDead id env)
  have hdead := h.dead_step kafka (.retryDead id env)
  simp only [Pipeline.step, Pipeline.retryDead] at hstore hdead ⊢
  split
  · exact h
  · rename_i hclosed
    have hidle := h.idle_of_closed hclosed
    have hcb := h.callback_none (by rw [hidle]; rfl)
    simp only [hclosed] at hstore hdead
    rcases hexec : s.outbox.exec (.openDb env.fault) with ⟨reply, b⟩
    rw [hexec] at hstore hdead
    cases reply with
    | error e =>
      exact .unheld hstore hdead (fun hw => absurd hidle hw) hcb (by rw [hidle]; rfl)
    | ok n =>
      exact .unheld hstore hdead (fun hw => absurd hidle hw) hcb (by rw [hidle]; rfl)

/-- Every step that polls as librdkafka documents it. -/
theorem Guarded.step {act : Act} (h : Guarded s) (hpolled : s.polled act = true) :
    Guarded (s.step kafka act) := by
  cases act with
  | create cfg =>
    simp only [Pipeline.step, Pipeline.create]
    split
    · exact h.congr rfl rfl rfl rfl
    · exact h
  | start env => exact h.start
  | enqueue args env => exact h.enqueue
  | requestRebuild => exact h.congr rfl rfl rfl rfl
  | stop =>
    simp only [Pipeline.step, Pipeline.stop]
    split
    · exact h
    · exact h.congr rfl rfl rfl rfl
  | joined =>
    have hstore := h.store.pipeline kafka .joined
    have hdead := h.dead_step kafka .joined
    simp only [Pipeline.step, Pipeline.joined] at hstore hdead ⊢
    split
    · rename_i hguard
      rw [if_pos hguard] at hstore hdead
      refine .unheld hstore hdead (fun hw => absurd rfl hw) (h.callback_none ?_) rfl
      rcases hguard.2 with hw | hw
      · rw [hw]
        rfl
      · rw [hw]
        rfl
    · exact h
  | work env =>
    simp only [Pipeline.step]
    split
    · rename_i hcb
      exact h.work hcb
    · exact h
  | report i err =>
    simp only [Pipeline.step, Pipeline.report]
    split
    · exact h
    · -- the callback is entered before it has read the row
      cases err with
      | none =>
        exact ⟨h.store, h.dead, h.opened, fun _ => hpolled, h.holding, by simp [Pipeline.enter]⟩
      | some e =>
        exact ⟨h.store, h.dead, h.opened, fun _ => hpolled, h.holding, by simp [Pipeline.enter]⟩
  | callback env => exact h.callback
  | append i partition =>
    simp only [Pipeline.step, Pipeline.append]
    split
    · exact h
    · exact h.congr rfl rfl rfl rfl
  | crash =>
    exact .unheld (h.store.step .close) (h.dead_step kafka .crash)
      (fun hw => absurd rfl hw) rfl rfl
  | retryDead id env => exact h.retryDead

/-- Every run of such steps. -/
theorem guarded_run (cfg : Config) (acts : List Act)
    (h : ∀ x ∈ Machine.trace (Pipeline.step kafka) (Pipeline.init cfg) acts,
      x.1.polled x.2 = true) :
    Guarded (Machine.run (Pipeline.step kafka) (Pipeline.init cfg) acts) := by
  refine Machine.run_invariant_along ?_ (fun _ _ hpolled hs => hs.step hpolled) acts h
  exact .unheld .empty (fun r hr => absurd hr (Table.notMem_empty r)) (fun hw => absurd rfl hw)
    rfl rfl

/-- A step revives only the event the operator names. -/
theorem calls_retryDead {act : Act} {id : String} {now₁ now₂ : Int} {fault : FaultPlan}
    (h : Op.retryDead id now₁ now₂ fault ∈ s.calls act) : ∃ env, act = .retryDead id env := by
  have hissue := calls_issues h
  generalize hop : Op.retryDead id now₁ now₂ fault = op at hissue
  cases hissue with
  | @revive id' env =>
    cases hop
    exact ⟨env, rfl⟩
  | @settle env id' why verdict | @settled env i why verdict =>
    cases verdict <;> cases hop
  | _ => cases hop

variable (kafka) in
/-- A dead row of a call stays until `retry_dead` names it. -/
theorem dead_stays_pipeline {acts : List Act} {r : Row} (hr : r ∈ s.outbox.db.outbox)
    (hg : r.grouped = true) (hdead : r.state = .dead)
    (hacts : ∀ act ∈ acts, ∀ env, act ≠ .retryDead r.eventId env) :
    ∃ r' ∈ (Machine.run (Pipeline.step kafka) s acts).outbox.db.outbox,
      r'.toEvent = r.toEvent ∧ r'.state = .dead := by
  induction acts generalizing s r with
  | nil => exact ⟨r, hr, rfl, hdead⟩
  | cons act acts ih =>
    have hcalls : ∀ op ∈ s.calls act, ∀ now₁ now₂ fault,
        op ≠ .retryDead r.eventId now₁ now₂ fault := by
      rintro op hop now₁ now₂ fault rfl
      rcases calls_retryDead hop with ⟨env, hact⟩
      exact hacts act (List.mem_cons_self ..) env hact
    rcases Outbox.dead_stays_run hr hg hdead hcalls with ⟨r₁, hr₁, he₁, hd₁⟩
    rw [← step_outbox kafka] at hr₁
    have hrest : ∀ act' ∈ acts, ∀ env, act' ≠ .retryDead r₁.eventId env := by
      rw [he₁]
      intro act' hact'
      exact hacts act' (List.mem_cons_of_mem _ hact')
    rcases ih hr₁ (he₁ ▸ hg) hd₁ hrest with ⟨r₂, hr₂, he₂, hd₂⟩
    exact ⟨r₂, hr₂, he₂.trans he₁, hd₂⟩

end Guarded

/-! ## The barrier -/

/-- No row of the call is due, and none can be sent. -/
structure Stalled (b : Outbox) (c : Call) : Prop where
  fetch : ∀ now limit fault recs, b.fetchDue now limit fault = .ok recs →
    ∀ rec ∈ recs, rec.call ≠ c
  send : ∀ q ∈ b.db.outbox, q.grouped = true → q.call = c →
    ∀ now fault n, b.reply (.markInFlight q.eventId now fault) ≠ .ok n

/-- Behind a dead row nothing of the call is deliverable. -/
theorem stalled_of_dead {b : Outbox} {r : Row} (hdead : DeadHeads b.db) (hr : r ∈ b.db.outbox)
    (hg : r.grouped = true) (hstate : r.state = .dead) : Stalled b r.call := by
  have hhead := hdead r hr hg hstate
  -- a row that could be sent is the head of the call, and that is the dead row
  have hno : ∀ q ∈ b.db.outbox, q.grouped = true → q.call = r.call → q.state = .pending →
      b.db.deliverable q.toEvent = false := by
    intro q hq hqg hcall hpend
    by_contra hdel
    rw [Bool.not_eq_false, Db.deliverable_of_grouped hqg] at hdel
    rw [eq_of_isHead hq hr hqg hg hcall hdel hhead, hstate] at hpend
    cases hpend
  constructor
  · intro now limit fault recs hfetch rec hrec hcall
    rcases (Outbox.fetchDue_ok hfetch).1 rec hrec with ⟨q, hq, hdue, rfl⟩
    rw [(record_of q).call] at hcall
    have hqg : q.grouped = true := (Event.grouped_congr hcall).trans hg
    simp only [due, Bool.and_eq_true, decide_eq_true_eq] at hdue
    simp [hno q hq hqg hcall hdue.1.1] at hdue
  · intro q hq hqg hcall now fault n hok
    have hexec : b.exec (.markInFlight q.eventId now fault) =
      (.ok n, b.step (.markInFlight q.eventId now fault)) := Prod.ext hok rfl
    rcases call_ok hexec with ⟨_, hrun, -⟩
    rcases markInFlight_ok hrun with ⟨q', hq', hsend, -, -⟩
    rcases sendable_iff.mp hsend with ⟨hid, hpend, hdel⟩
    rw [Table.eq_of_key hq' hq hid] at hpend hdel
    simp [hno q hq hqg hcall hpend] at hdel

/-- The cursor of a call with a dead row stands at it. -/
theorem DeadHeads.next_eq {db : Db} {r : Row} (hdead : DeadHeads db) (hr : r ∈ db.outbox)
    (hg : r.grouped = true) (hstate : r.state = .dead) :
    (db.callStreams.find? r.call).map (fun q => q.nextSeq) = r.callSeq := by
  rcases (Db.isHead_of_grouped hg).mp (hdead r hr hg hstate) with ⟨q, hq, hcall, hseq⟩
  rw [Table.find?_eq_some.mpr ⟨hq, hcall⟩, hseq]
  rfl

/-- A row of a call that is dead or in flight is its head, so a call has at most one.
While the head is dead the call stands still: until `retry_dead` of that event the
row stays dead, `next_seq` stays, `fetch_due` returns no row of the call and
`mark_in_flight` succeeds on none. -/
theorem dead_head_is_barrier (kafka : Kafka) (cfg : Config) (acts : List Act)
    (hpolled : ∀ x ∈ Machine.trace (Pipeline.step kafka) (Pipeline.init cfg) acts,
      x.1.polled x.2 = true) :
    let s := Machine.run (Pipeline.step kafka) (Pipeline.init cfg) acts
    let db := s.outbox.db
    (∀ r ∈ db.outbox, r.grouped = true → r.state = .dead ∨ r.state = .inFlight →
      ∃ q ∈ db.callStreams, q.call = r.call ∧ r.callSeq = some q.nextSeq) ∧
    (∀ r ∈ db.outbox, ∀ q ∈ db.outbox, r.grouped = true → q.grouped = true → r.call = q.call →
      r.state ≠ .pending → q.state ≠ .pending → r = q) ∧
    ∀ r ∈ db.outbox, r.grouped = true → r.state = .dead → ∀ more,
      (∀ x ∈ Machine.trace (Pipeline.step kafka) s more, x.1.polled x.2 = true) →
      (∀ act ∈ more, ∀ env, act ≠ .retryDead r.eventId env) →
      let s' := Machine.run (Pipeline.step kafka) s more
      (∃ r' ∈ s'.outbox.db.outbox, r'.toEvent = r.toEvent ∧ r'.state = .dead) ∧
      (s'.outbox.db.callStreams.find? r.call).map (fun q => q.nextSeq) =
        (db.callStreams.find? r.call).map (fun q => q.nextSeq) ∧
      Stalled s'.outbox r.call := by
  intro s db
  have hs : Guarded s := guarded_run cfg acts hpolled
  -- claimed or given up, a grouped row is what its call waits for
  have hheads : ∀ r ∈ db.outbox, r.grouped = true → r.state ≠ .pending →
      db.isHead r.toEvent = true := by
    intro r hr hg hstate
    cases hst : r.state with
    | pending => exact absurd hst hstate
    | inFlight => exact hs.store.heads r hr hg hst
    | dead => exact hs.dead r hr hg hst
  refine ⟨?_, ?_, ?_⟩
  · intro r hr hg hstate
    refine (Db.isHead_of_grouped hg).mp (hheads r hr hg ?_)
    rcases hstate with h | h <;> simp [h]
  · intro r hr q hq hrg hqg hcall hrs hqs
    exact eq_of_isHead hr hq hrg hqg hcall (hheads r hr hrg hrs) (hheads q hq hqg hqs)
  · intro r hr hg hdead more hmore hkeep s'
    have hs' : Guarded s' :=
      Machine.run_invariant_along hs (fun _ _ hp h => h.step hp) more hmore
    rcases dead_stays_pipeline kafka hr hg hdead hkeep with ⟨r', hr', hevent, hdead'⟩
    have hg' : r'.grouped = true := by rw [hevent]; exact hg
    have hcall' : r'.call = r.call := by rw [hevent]
    have hseq' : r'.callSeq = r.callSeq := by rw [hevent]
    refine ⟨⟨r', hr', hevent, hdead'⟩, ?_, ?_⟩
    · rw [hs.dead.next_eq hr hg hdead, ← hcall', ← hseq']
      exact hs'.dead.next_eq hr' hg' hdead'
    · rw [← hcall']
      exact stalled_of_dead hs'.dead hr' hg' hdead'

/-- Event `a` of call `c` is refused for good, with `b` admitted behind it. -/
def refusedSend : List Act :=
  firstSend ++ [.enqueue ⟨"b", [], "key", "c", -1⟩ sampleEnv, .report 0 (some .invalidMsg),
    .callback sampleEnv, .callback sampleEnv]

/-- The head is dead, and its call is stalled until it is retried. -/
theorem dead_head_is_barrier_refused :
    let s := Machine.run (Pipeline.step sampleKafka) (Pipeline.init (sampleConfig "events"))
      refusedSend
    (∃ r ∈ s.outbox.db.outbox, r.eventId = "a" ∧ r.grouped = true ∧ r.state = .dead) ∧
    ∀ more, (∀ x ∈ Machine.trace (Pipeline.step sampleKafka) s more, x.1.polled x.2 = true) →
      (∀ act ∈ more, ∀ env, act ≠ .retryDead "a" env) →
      Stalled (Machine.run (Pipeline.step sampleKafka) s more).outbox ("events", "c") := by
  intro s
  have hdead : ∃ r ∈ s.outbox.db.outbox.rows, r.eventId = "a" ∧ r.grouped = true ∧
      r.state = .dead ∧ r.call = ("events", "c") := by
    decide +kernel
  rcases hdead with ⟨r, hr, hid, hg, hstate, hcall⟩
  refine ⟨⟨r, hr, hid, hg, hstate⟩, ?_⟩
  intro more hmore hkeep
  rw [← hcall]
  exact ((dead_head_is_barrier sampleKafka (sampleConfig "events") refusedSend
    (by decide +kernel)).2.2 r hr hg hstate more hmore (by rw [hid]; exact hkeep)).2.2

end EventKafka
