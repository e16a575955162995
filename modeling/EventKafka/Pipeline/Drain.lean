import EventKafka.Lib.Ranking
import EventKafka.Pipeline.FailStop
import EventKafka.Pipeline.Flight

/-! # A healthy session drains the outbox

When nothing fails and librdkafka has reported on everything before a poll returns, each
round of the worker sends what is due, and what was sent is acknowledged before the next
round. Every step of the worker brings it nearer to a `fetch_due` that finds nothing:
`Pipeline.toDrain` is the rank. An event admitted meanwhile puts it off by one send. At
that fetch the rows left are dead, or pending and not due; and in admission mode, with no
dead row and no delay left, there are none.
-/

namespace EventKafka

open Sql

/-! ## Pending rows -/

/-- The events of the pending rows. -/
def Db.pendingIds (db : Db) : List String :=
  (db.outbox.rows.filter fun r => r.state = .pending).map fun r => r.eventId

theorem Db.mem_pendingIds {db : Db} {id : String} :
    id ∈ db.pendingIds ↔ ∃ r ∈ db.outbox, r.eventId = id ∧ r.state = .pending := by
  simp only [Db.pendingIds, List.mem_map, List.mem_filter, decide_eq_true_eq]
  constructor
  · rintro ⟨r, ⟨hr, hstate⟩, hid⟩
    exact ⟨r, hr, hid, hstate⟩
  · rintro ⟨r, hr, hid, hstate⟩
    exact ⟨r, ⟨hr, hstate⟩, hid⟩

theorem Db.pendingIds_nodup (db : Db) : db.pendingIds.Nodup :=
  db.outbox.key_nodup.sublist (List.filter_sublist.map _)

/-- Different pending events are no more than there are. -/
theorem Db.length_le_pendingIds (db : Db) {ids : List String} (hnodup : ids.Nodup)
    (hsub : ∀ id ∈ ids, id ∈ db.pendingIds) : ids.length ≤ db.pendingIds.length :=
  (List.subperm_of_subset hnodup hsub).length_le

section Calls

variable {b b' : Outbox} {n : Int} {fault : FaultPlan}

theorem pendingIds_of_expireTtl {now ttl : Int}
    (h : b.exec (.expireTtl now ttl fault) = (.ok n, b')) :
    b'.db.pendingIds.length ≤ b.db.pendingIds.length := by
  refine Db.length_le_pendingIds b.db b'.db.pendingIds_nodup fun id hid => ?_
  rcases Db.mem_pendingIds.mp hid with ⟨r, hr, hrid, hstate⟩
  by_cases httl : ttl ≤ 0
  · simp only [Outbox.exec, httl, if_true, Prod.mk.injEq] at h
    rw [← h.2] at hr
    exact Db.mem_pendingIds.mpr ⟨r, hr, hrid, hstate⟩
  · simp only [Outbox.exec, httl, if_false] at h
    rcases call_ok h with ⟨_, hrun, -⟩
    rw [(expireTtl_ok hrun).2] at hr
    rcases Db.mem_updateOutbox.mp hr with ⟨q, hq, heq⟩
    split at heq
    · rw [heq] at hstate
      cases hstate
    · subst heq
      exact Db.mem_pendingIds.mpr ⟨r, hq, hrid, hstate⟩

/-- A claim takes one row out. -/
theorem pendingIds_of_markInFlight {id : String} {now : Int}
    (h : b.exec (.markInFlight id now fault) = (.ok n, b')) :
    b'.db.pendingIds.length + 1 ≤ b.db.pendingIds.length := by
  rcases call_ok h with ⟨_, hrun, -⟩
  rcases markInFlight_ok hrun with ⟨q, hq, hsend, -, hdb⟩
  rcases sendable_iff.mp hsend with ⟨hid, hpend, -⟩
  have hback : ∀ id' ∈ b'.db.pendingIds, id' ≠ id ∧ id' ∈ b.db.pendingIds := by
    intro id' hid'
    rcases Db.mem_pendingIds.mp hid' with ⟨r, hr, rfl, hstate⟩
    rw [hdb] at hr
    rcases Db.mem_updateOutbox.mp hr with ⟨r₀, hr₀, heq⟩
    split at heq
    · rw [heq] at hstate
      cases hstate
    · rename_i hne
      subst heq
      rw [decide_eq_true_iff, hid] at hne
      exact ⟨hne, Db.mem_pendingIds.mpr ⟨r, hr₀, rfl, hstate⟩⟩
  have hnodup : (id :: b'.db.pendingIds).Nodup :=
    List.nodup_cons.mpr ⟨fun hmem => (hback id hmem).1 rfl, b'.db.pendingIds_nodup⟩
  refine Db.length_le_pendingIds b.db hnodup fun id' hid' => ?_
  rcases List.mem_cons.mp hid' with rfl | hid'
  · exact Db.mem_pendingIds.mpr ⟨q, hq, hid, hpend⟩
  · exact (hback id' hid').2

theorem pendingIds_of_markAcked {id : String} {now : Int}
    (h : b.exec (.markAcked id now fault) = (.ok n, b')) :
    b'.db.pendingIds.length ≤ b.db.pendingIds.length := by
  rcases call_ok h with ⟨_, hrun, -⟩
  rcases markAcked_ok hrun with ⟨q, -, -, -, -, hdb⟩
  refine Db.length_le_pendingIds b.db b'.db.pendingIds_nodup fun id' hid' => ?_
  rcases Db.mem_pendingIds.mp hid' with ⟨r, hr, rfl, hstate⟩
  rw [hdb] at hr
  rcases Db.mem_acked_outbox.mp hr with ⟨r₀, hr₀, -, rfl⟩
  exact Db.mem_pendingIds.mpr ⟨r₀, hr₀, by simp, by simpa using hstate⟩

theorem pendingIds_of_insertPending {lim : Limits} {rec : OutboxRecord} {now : Int}
    (h : b.exec (.insertPending lim rec now fault) = (.ok n, b')) :
    b'.db.pendingIds.length ≤ b.db.pendingIds.length + 1 := by
  rcases call_ok h with ⟨_, hrun, -⟩
  rcases insertPending_ok hrun with ⟨seq, dn, base, hadm, -⟩
  have hsub : ∀ id ∈ b'.db.pendingIds, id ∈ rec.eventId :: b.db.pendingIds := by
    intro id hid
    rcases Db.mem_pendingIds.mp hid with ⟨r, hr, rfl, hstate⟩
    rcases hadm.mem_outbox.mp hr with hbase | rfl
    · exact List.mem_cons_of_mem _
        (Db.mem_pendingIds.mpr ⟨r, hadm.room.mem_of_mem hbase, rfl, hstate⟩)
    · exact List.mem_cons_self
  exact (List.subperm_of_subset b'.db.pendingIds_nodup hsub).length_le

end Calls

/-- An empty batch means that nothing is due. -/
theorem Outbox.fetchDue_nil {b : Outbox} {now : Int} (hopen : b.isOpen = true)
    (h : b.fetchDue now 32 noFault = .ok []) : ∀ r ∈ b.db.outbox, due now b.db r = false := by
  intro r hr
  by_contra hdue
  have hmem : r ∈ (b.db.outbox.rows.filter (due now b.db)).insertionSort (dueLe b.db) :=
    (List.mem_insertionSort _).mpr (List.mem_filter.mpr ⟨hr, by simpa using hdue⟩)
  have hrun : (EventKafka.fetchDue now 32 noFault).run b.db = .ok
      ((((b.db.outbox.rows.filter (due now b.db)).insertionSort (dueLe b.db)).take 32).map record)
      b.db := rfl
  rw [Outbox.fetchDue, if_pos hopen, hrun] at h
  simp only [Except.ok.injEq, List.map_eq_nil_iff, List.take_eq_nil_iff] at h
  rcases h with hzero | hnil
  · cases hzero
  · rw [hnil] at hmem
    exact absurd hmem List.not_mem_nil

/-! ## The rank -/

/-- The phases of a round in which nothing goes wrong. -/
def Worker.inRound : Worker → Bool
  | .loop => true
  | .check => true
  | .expire => true
  | .fetch _ => true
  | .batch _ => true
  | .produce _ _ => true
  | .poll => true
  | _ => false

/-- Before the batch of the round is read. -/
def Worker.beforeBatch : Worker → Bool
  | .loop => true
  | .check => true
  | .expire => true
  | .fetch _ => true
  | _ => false

/-- A bound on the steps of the worker until nothing is due: eight for each pending row
that is not in the batch, two for each that is, and the rest of the round. -/
def Pipeline.toDrain (s : Pipeline) : ℕ :=
  match s.worker with
  | .fetch _ => 8 * s.outbox.db.pendingIds.length + 1
  | .expire => 8 * s.outbox.db.pendingIds.length + 2
  | .check => 8 * s.outbox.db.pendingIds.length + 3
  | .loop => 8 * s.outbox.db.pendingIds.length + 4
  | .poll => 8 * s.outbox.db.pendingIds.length + 5
  | .batch due => 8 * (s.outbox.db.pendingIds.length - due.length) + 2 * due.length + 6
  | .produce _ rest => 8 * (s.outbox.db.pendingIds.length - rest.length) + 2 * rest.length + 7
  | _ => 0

/-- Nothing fails in the act: the statements succeed, a producer can be made, and messages
are accepted. -/
def Act.Healthy : Act → Prop
  | .work env => env.fault = noFault ∧ env.producerOk = true ∧ env.produced = none
  | .callback env => env.fault = noFault
  | _ => True

/-- No report is owed. -/
def Pipeline.owesNone (s : Pipeline) : Bool :=
  s.messages.all fun m => m.reported || s.producer ≠ some m.producer

theorem Pipeline.not_owes {s : Pipeline} (h : s.owesNone = true) (i : ℕ) (m : Message) :
    ¬ s.Owes i m := by
  rintro ⟨hm, hopen, hproducer⟩
  have hno := List.all_eq_true.mp h m (List.mem_of_getElem? hm)
  simp [hopen, hproducer] at hno

/-- Nobody stops the session, messages are reported as delivered, and a poll returns when
every report was served. -/
def Pipeline.smooth (s : Pipeline) : Act → Bool
  | .work _ => s.callback.isNone && s.outbox.db.turn < int64Max &&
      (s.worker ≠ .poll || s.owesNone)
  | .report i err => err.isNone && s.served (.report i err)
  | .callback _ => true
  | .enqueue _ _ => true
  | .append _ _ => true
  | _ => false

/-- A step of a session in which nothing goes wrong. -/
def Pipeline.Smooth (s : Pipeline) (act : Act) : Prop := act.Healthy ∧ s.smooth act = true

theorem Pipeline.Smooth.work {s : Pipeline} {env : Env} (h : s.Smooth (.work env)) :
    s.callback = none ∧ env.fault = noFault ∧ env.producerOk = true ∧ env.produced = none ∧
      s.outbox.db.turn < int64Max ∧ (s.worker = .poll → ∀ i m, ¬ s.Owes i m) := by
  rcases h with ⟨⟨hfault, hproducer, hsent⟩, hsmooth⟩
  simp only [Pipeline.smooth, Bool.and_eq_true, Option.isNone_iff_eq_none, decide_eq_true_eq,
    Bool.or_eq_true] at hsmooth
  refine ⟨hsmooth.1.1, hfault, hproducer, hsent, hsmooth.1.2, ?_⟩
  intro hpoll
  exact Pipeline.not_owes (hsmooth.2.resolve_left fun hne => hne hpoll)

/-- A session in which nothing went wrong since a poll. -/
structure Flowing (s : Pipeline) : Prop where
  linked : Linked s
  covered : Covered s
  session : Session s
  running : s.running = true
  settled : s.rebuildRequested = false
  inRound : s.worker.inRound = true
  callback : ∀ cb, s.callback = some cb → ∃ i, cb = .ack i
  /-- What the last round sent was reported on before this one. -/
  reported : s.worker.beforeBatch = true → ∀ i m, ¬ s.Owes i m

/-- The worker is about to find that nothing is due. -/
def Pipeline.Drained (s : Pipeline) : Prop :=
  ∃ now, s.worker = .fetch now ∧ ∀ r ∈ s.outbox.db.outbox, due now s.outbox.db r = false

section Flowing

variable {kafka : Kafka} {s : Pipeline}

/-- A step of the worker that brings the goal nearer: what the rank and the round need of it. -/
structure Advances (s s' : Pipeline) : Prop where
  settled : s'.rebuildRequested = s.rebuildRequested
  inRound : s'.worker.inRound = true
  reported : s'.worker.beforeBatch = true → ∀ i m, ¬ s'.Owes i m
  nearer : s'.toDrain < s.toDrain

/-- The rest follows from what is known of any step. -/
theorem Flowing.advance {env : Env} (h : Flowing s) (hsmooth : s.Smooth (.work env))
    (hstep : Advances s (s.work kafka env)) : Flowing (s.work kafka env) := by
  rcases hsmooth.work with ⟨hcb, hfault, hproducer, -, hturn, -⟩
  have hwork : s.step kafka (.work env) = s.work kafka env := by simp [Pipeline.step, hcb]
  have hserved : s.served (.work env) = true := rfl
  constructor
  case linked => exact hwork ▸ h.linked.step hserved
  case covered => exact hwork ▸ h.covered.step h.linked h.session (.work env)
  case session => exact hwork ▸ h.session.step kafka (.work env)
  case running =>
    rcases work_flags kafka s env with hflags | ⟨hfails, -⟩
    · rw [hflags.running]
      exact h.running
    · exact absurd hfails (h.linked.not_workerFails hfault hproducer hturn)
  case settled => rw [hstep.settled]; exact h.settled
  case inRound => exact hstep.inRound
  case callback =>
    rw [(work_cases kafka s env).frame.2.2.1, hcb]
    simp
  case reported => exact hstep.reported

/-- A session holds the outbox open. -/
theorem Flowing.opened (h : Flowing s) : s.outbox.isOpen = true := by
  apply h.linked.opened
  intro hidle
  have hround := h.inRound
  simp [hidle, Worker.inRound] at hround

theorem Flowing.work_loop {env : Env} (h : Flowing s) (hw : s.worker = .loop) :
    Advances s (s.work kafka env) := by
  have hwork : s.work kafka env = { s with worker := .check } := by
    simp [Pipeline.work, hw, h.running, h.settled]
  rw [hwork]
  refine ⟨rfl, rfl, fun _ => h.reported (by rw [hw]; rfl), ?_⟩
  simp only [Pipeline.toDrain, hw]
  omega

theorem Flowing.work_check {env : Env} (h : Flowing s) (hw : s.worker = .check) :
    Advances s (s.work kafka env) := by
  have hwork : s.work kafka env = { s with worker := .expire } := by
    simp [Pipeline.work, hw, h.running]
  rw [hwork]
  refine ⟨rfl, rfl, fun _ => h.reported (by rw [hw]; rfl), ?_⟩
  simp only [Pipeline.toDrain, hw]
  omega

/-- What expires is not pending any more. -/
theorem Flowing.work_expire {env : Env} (h : Flowing s) (hw : s.worker = .expire)
    (hfault : env.fault = noFault) : Advances s (s.work kafka env) := by
  rcases expireTtl_enabled (env.clock 0) s.cfg.outboxTtlMs h.opened with ⟨n, hreply⟩
  rcases hexec : s.outbox.exec (.expireTtl (env.clock 0) s.cfg.outboxTtlMs noFault) with ⟨reply, b⟩
  have hok : reply = .ok n := (congrArg Prod.fst hexec).symm.trans hreply
  subst hok
  have hwork : s.work kafka env = { s with
      outbox := b
      metrics := { s.metrics with outboxExpired := s.metrics.outboxExpired + n }
      worker := .fetch (env.clock 0) } := by
    simp [Pipeline.work, hw, hfault, hexec]
  have hpending := pendingIds_of_expireTtl hexec
  rw [hwork]
  refine ⟨rfl, rfl, fun _ => h.reported (by rw [hw]; rfl), ?_⟩
  simp only [Pipeline.toDrain, hw]
  omega

/-- The goal is not reached, so there is something to send, and no more than is pending. -/
theorem Flowing.work_fetch {env : Env} (h : Flowing s) {now : Int} (hw : s.worker = .fetch now)
    (hfault : env.fault = noFault) (hgoal : ¬ s.Drained) : Advances s (s.work kafka env) := by
  rcases fetchDue_enabled s.outbox now 32 with ⟨recs, hfetch⟩
  have hwork : s.work kafka env = { s with worker := .batch recs } := by
    simp [Pipeline.work, hw, hfault, hfetch]
  have hsome : 0 < recs.length := by
    rw [List.length_pos_iff]
    rintro rfl
    exact hgoal ⟨now, hw, Outbox.fetchDue_nil h.opened hfetch⟩
  have hle : recs.length ≤ s.outbox.db.pendingIds.length := by
    rcases Outbox.fetchDue_ok hfetch with ⟨hrows, hnodup⟩
    have hids := s.outbox.db.length_le_pendingIds hnodup ?_
    · simpa using hids
    · intro id hid
      rcases List.mem_map.mp hid with ⟨rec, hrec, rfl⟩
      rcases hrows rec hrec with ⟨r, hr, hdue, rfl⟩
      simp only [due, Bool.and_eq_true, decide_eq_true_eq] at hdue
      exact Db.mem_pendingIds.mpr ⟨r, hr, rfl, hdue.1.1⟩
  rw [hwork]
  refine ⟨rfl, rfl, by simp [Worker.beforeBatch], ?_⟩
  simp only [Pipeline.toDrain, hw]
  omega

theorem Flowing.work_batchEnd {env : Env} (hw : s.worker = .batch []) :
    Advances s (s.work kafka env) := by
  have hwork : s.work kafka env = { s with worker := .poll } := by simp [Pipeline.work, hw]
  rw [hwork]
  refine ⟨rfl, rfl, by simp [Worker.beforeBatch], ?_⟩
  simp only [Pipeline.toDrain, hw, List.length_nil]
  omega

/-- The record is still a pending head, so it can be marked. -/
theorem Flowing.work_batch {env : Env} (h : Flowing s) {rec : OutboxRecord}
    {rest : List OutboxRecord} (hw : s.worker = .batch (rec :: rest))
    (hfault : env.fault = noFault) (hturn : s.outbox.db.turn < int64Max) :
    Advances s (s.work kafka env) := by
  rcases h.linked.workCalls_ok hfault hturn (.markInFlight rec.eventId (env.clock 0) env.fault)
    (by simp [Pipeline.workCalls, hw, h.running, h.settled]) with ⟨n, hreply⟩
  rcases hexec : s.outbox.exec (.markInFlight rec.eventId (env.clock 0) env.fault) with
    ⟨reply, b⟩
  have hok : reply = .ok n := (congrArg Prod.fst hexec).symm.trans hreply
  subst hok
  have hwork : s.work kafka env = { s with outbox := b, worker := .produce rec rest } := by
    simp [Pipeline.work, hw, h.running, h.settled, hexec]
  have hpending := pendingIds_of_markInFlight hexec
  rw [hwork]
  refine ⟨rfl, rfl, by simp [Worker.beforeBatch], ?_⟩
  simp only [Pipeline.toDrain, hw, List.length_cons]
  omega

theorem Flowing.work_produce {env : Env} (h : Flowing s) {rec : OutboxRecord}
    {rest : List OutboxRecord} (hw : s.worker = .produce rec rest) (hsent : env.produced = none) :
    Advances s (s.work kafka env) := by
  have hsome : s.producer ≠ none := h.covered.producer h.running (by simp [hw])
  rcases Option.ne_none_iff_exists'.mp hsome with ⟨g, hg⟩
  have hwork : s.work kafka env = { s with
      messages := s.messages ++
        [{ record := rec, topic := s.cfg.topic, producer := g, reported := false }]
      metrics := { s.metrics with produceOk := s.metrics.produceOk + 1 }
      worker := .batch rest } := by
    simp [Pipeline.work, hw, hg, hsent, produceError]
  rw [hwork]
  refine ⟨rfl, rfl, by simp [Worker.beforeBatch], ?_⟩
  simp only [Pipeline.toDrain, hw]
  omega

/-- The poll has served all reports. -/
theorem Flowing.work_poll {env : Env} (hw : s.worker = .poll)
    (hpolled : ∀ i m, ¬ s.Owes i m) : Advances s (s.work kafka env) := by
  have hwork : s.work kafka env = { s with worker := .loop } := by simp [Pipeline.work, hw]
  rw [hwork]
  refine ⟨rfl, rfl, fun _ => hpolled, ?_⟩
  simp only [Pipeline.toDrain, hw]
  omega

/-- A step of the worker brings the goal nearer. -/
theorem Flowing.work {env : Env} (h : Flowing s) (hsmooth : s.Smooth (.work env))
    (hgoal : ¬ s.Drained) : Advances s (s.work kafka env) := by
  obtain ⟨-, hfault, -, hsent, hturn, hpolled⟩ := hsmooth.work
  have hround := h.inRound
  cases hw : s.worker with
  | loop => exact h.work_loop hw
  | check => exact h.work_check hw
  | expire => exact h.work_expire hw hfault
  | fetch now => exact h.work_fetch hw hfault hgoal
  | batch due =>
    cases due with
    | nil => exact Flowing.work_batchEnd hw
    | cons rec rest => exact h.work_batch hw hfault hturn
  | produce rec rest => exact h.work_produce hw hsent
  | poll => exact Flowing.work_poll hw (hpolled hw)
  | _ => simp [hw, Worker.inRound] at hround

/-- What else happens leaves the worker where it is. -/
theorem Flowing.of_other {act : Act} (h : Flowing s) (hserved : s.served act = true)
    (hrunning : (s.step kafka act).running = s.running)
    (hsettled : (s.step kafka act).rebuildRequested = s.rebuildRequested)
    (hworker : (s.step kafka act).worker = s.worker)
    (hcallback : ∀ cb, (s.step kafka act).callback = some cb → ∃ i, cb = .ack i)
    (hreported : s.worker.beforeBatch = true → ∀ i m, ¬ (s.step kafka act).Owes i m) :
    Flowing (s.step kafka act) where
  linked := h.linked.step hserved
  covered := h.covered.step h.linked h.session act
  session := h.session.step kafka act
  running := hrunning.trans h.running
  settled := hsettled.trans h.settled
  inRound := hworker ▸ h.inRound
  callback := hcallback
  reported := fun hbefore => hreported (hworker ▸ hbefore)

/-- `k` more pending rows make the way longer by `8 k`. -/
theorem toDrain_le {s' : Pipeline} {k : ℕ} (hworker : s'.worker = s.worker)
    (hpending : s'.outbox.db.pendingIds.length ≤ s.outbox.db.pendingIds.length + k) :
    s'.toDrain ≤ s.toDrain + 8 * k := by
  unfold Pipeline.toDrain
  rw [hworker]
  cases s.worker <;> simp only <;> omega

def Act.isWork : Act → Bool
  | .work _ => true
  | _ => false

def Act.isEnqueue : Act → Bool
  | .enqueue _ _ => true
  | _ => false

/-- What one act adds to the way. -/
def Act.cost (act : Act) : ℕ := if act.isEnqueue then 8 else 0

theorem Flowing.enqueue {args : EnqueueArgs} {env : Env} (h : Flowing s) :
    Flowing (s.step kafka (.enqueue args env)) ∧
      (s.step kafka (.enqueue args env)).toDrain ≤ s.toDrain + 8 := by
  have hstep : ∃ b m, s.step kafka (.enqueue args env) = { s with outbox := b, metrics := m } ∧
      b.db.pendingIds.length ≤ s.outbox.db.pendingIds.length + 1 := by
    simp only [Pipeline.step, Pipeline.enqueue]
    split
    · exact ⟨s.outbox, s.metrics, rfl, Nat.le_succ _⟩
    · rcases hexec : s.outbox.exec (.insertPending s.cfg.limits
          (args.toRecord s.cfg (env.clock 0)) (env.clock 1) env.fault) with ⟨reply, b⟩
      cases reply with
      | ok n => exact ⟨b, _, rfl, pendingIds_of_insertPending hexec⟩
      | error e =>
        have hb := Outbox.exec_error_eq rfl hexec
        subst hb
        exact ⟨s.outbox, _, rfl, Nat.le_succ _⟩
  rcases hstep with ⟨b, m, hstep, hpending⟩
  refine ⟨h.of_other rfl ?_ ?_ ?_ ?_ ?_, toDrain_le (k := 1) ?_ ?_⟩
  · rw [hstep]
  · rw [hstep]
  · rw [hstep]
  · rw [hstep]
    exact h.callback
  · rw [hstep]
    exact h.reported
  · rw [hstep]
  · rw [hstep]
    exact hpending

theorem Flowing.append {i partition : ℕ} (h : Flowing s) :
    Flowing (s.step kafka (.append i partition)) ∧
      (s.step kafka (.append i partition)).toDrain ≤ s.toDrain := by
  have hstep : ∃ log, s.step kafka (.append i partition) = { s with log := log } := by
    simp only [Pipeline.step, Pipeline.append]
    split
    · exact ⟨s.log, rfl⟩
    · exact ⟨_, rfl⟩
  rcases hstep with ⟨log, hstep⟩
  refine ⟨h.of_other rfl ?_ ?_ ?_ ?_ ?_, toDrain_le (k := 0) ?_ ?_⟩
  · rw [hstep]
  · rw [hstep]
  · rw [hstep]
  · rw [hstep]
    exact h.callback
  · rw [hstep]
    exact h.reported
  · rw [hstep]
  · rw [hstep]
    exact Nat.le_refl _

theorem Flowing.report {i : ℕ} (h : Flowing s) (hserved : s.served (.report i none) = true) :
    Flowing (s.step kafka (.report i none)) ∧
      (s.step kafka (.report i none)).toDrain ≤ s.toDrain := by
  have hstep : ∃ cb, s.step kafka (.report i none) = { s with callback := cb } ∧
      ∀ cb', cb = some cb' → ∃ j, cb' = .ack j := by
    simp only [Pipeline.step, Pipeline.report, Pipeline.enter]
    split
    · exact ⟨s.callback, rfl, h.callback⟩
    · exact ⟨some (.ack i), rfl, fun cb' hcb => ⟨i, (Option.some.inj hcb).symm⟩⟩
  rcases hstep with ⟨cb, hstep, hack⟩
  refine ⟨h.of_other hserved ?_ ?_ ?_ ?_ ?_, toDrain_le (k := 0) ?_ ?_⟩
  · rw [hstep]
  · rw [hstep]
  · rw [hstep]
  · rw [hstep]
    exact hack
  · rw [hstep]
    exact h.reported
  · rw [hstep]
  · rw [hstep]
    exact Nat.le_refl _

/-- The report that was entered is acknowledged: its row is in flight. -/
theorem Flowing.deliver {env : Env} (h : Flowing s) (hfault : env.fault = noFault) :
    Flowing (s.step kafka (.callback env)) ∧
      (s.step kafka (.callback env)).toDrain ≤ s.toDrain := by
  cases hcb : s.callback with
  | none =>
    have hstep : s.step kafka (.callback env) = s := by
      simp [Pipeline.step, Pipeline.deliver, hcb]
    rw [hstep]
    exact ⟨h, Nat.le_refl _⟩
  | some cb =>
    rcases h.callback cb hcb with ⟨i, rfl⟩
    rcases h.linked.deliverCalls_ok hfault (.markAcked (s.opaqueId i) (env.clock 0) env.fault)
      (by simp [Pipeline.deliverCalls, hcb]) with ⟨n, hreply⟩
    rcases hexec : s.outbox.exec (.markAcked (s.opaqueId i) (env.clock 0) env.fault) with ⟨reply, b⟩
    have hok : reply = .ok n := (congrArg Prod.fst hexec).symm.trans hreply
    subst hok
    have hstep : s.step kafka (.callback env) = { s with
        outbox := b
        metrics := { s.metrics with acked := s.metrics.acked + 1 }
        callback := none
        messages := s.messages.modify i fun m => { m with reported := true } } := by
      simp [Pipeline.step, Pipeline.deliver, hcb, hexec, Pipeline.returned]
    refine ⟨h.of_other rfl ?_ ?_ ?_ ?_ ?_, toDrain_le (k := 0) ?_ ?_⟩
    · rw [hstep]
    · rw [hstep]
    · rw [hstep]
    · rw [hstep]
      simp
    · -- a callback runs inside a poll
      intro hbefore
      have hpoll := (h.linked.reporting _ hcb).1
      cases hw : s.worker <;> simp [hw, Worker.polling, Worker.beforeBatch] at hpoll hbefore
    · rw [hstep]
    · rw [hstep]
      exact pendingIds_of_markAcked hexec

theorem flowing_ranked (kafka : Kafka) :
    Machine.Ranked (Pipeline.step kafka) Pipeline.Smooth Flowing Pipeline.Drained
      (fun x => x.2.isWork) (fun x => x.2.cost) Pipeline.toDrain := by
  have hwork : ∀ {s : Pipeline} {env : Env}, s.Smooth (.work env) → Flowing s → ¬ s.Drained →
      Flowing (s.step kafka (.work env)) ∧ (s.step kafka (.work env)).toDrain < s.toDrain := by
    intro s env hsmooth h hgoal
    have hstep : s.step kafka (.work env) = s.work kafka env := by
      simp [Pipeline.step, hsmooth.work.1]
    rw [hstep]
    have hnear : Advances s (s.work kafka env) := h.work hsmooth hgoal
    exact ⟨h.advance hsmooth hnear, hnear.nearer⟩
  have hall : ∀ (s : Pipeline) (act : Act), s.Smooth act → Flowing s → ¬ s.Drained →
      Flowing (s.step kafka act) ∧ (s.step kafka act).toDrain ≤ s.toDrain + act.cost := by
    intro s act hsmooth h hgoal
    cases act with
    | work env => exact ⟨(hwork hsmooth h hgoal).1, (hwork hsmooth h hgoal).2.le⟩
    | enqueue args env => exact h.enqueue
    | append i partition => exact h.append
    | report i err =>
      have hreport := hsmooth.2
      simp only [Pipeline.smooth, Bool.and_eq_true, Option.isNone_iff_eq_none] at hreport
      rcases hreport with ⟨rfl, hserved⟩
      exact h.report hserved
    | callback env => exact h.deliver hsmooth.1
    | _ => exact absurd hsmooth.2 (by simp [Pipeline.smooth])
  constructor
  case keeps => exact fun s act hsmooth h hgoal => (hall s act hsmooth h hgoal).1
  case bounds => exact fun s act hsmooth h hgoal => (hall s act hsmooth h hgoal).2
  case lowers =>
    intro s act hsmooth h hgoal hfair
    cases act with
    | work env => exact (hwork hsmooth h hgoal).2
    | _ => simp [Act.isWork] at hfair

/-- Where a healthy session has drained nothing is in flight. -/
theorem Flowing.landed (h : Flowing s) (hdrained : s.Drained) {r : Row}
    (hr : r ∈ s.outbox.db.outbox) : r.state ≠ .inFlight := by
  rcases hdrained with ⟨now, hw, -⟩
  intro hstate
  rcases h.covered.rows h.running (by simp [hw]) r hr hstate with hheld | ⟨i, m, howes, -⟩
  · simp [hw, Worker.holding] at hheld
  · exact h.reported (by rw [hw]; rfl) i m howes

end Flowing

/-- In admission mode the positions of a call have no gap, so if nothing is due, dead, in
flight or put off there is nothing. -/
theorem empty_of_not_due {db : Db} {now : Int} (hinv : StoreInv db)
    (hmode : ∀ q ∈ db.callStreams, q.mode = .admission)
    (hrows : ∀ r ∈ db.outbox, r.state = .pending ∧ r.nextAttemptAtMs ≤ now)
    (hdue : ∀ r ∈ db.outbox, due now db r = false) : db.outbox.rows = [] := by
  have hundeliverable : ∀ r ∈ db.outbox, db.deliverable r.toEvent = false := by
    intro r hr
    have hno := hdue r hr
    simp only [due, (hrows r hr).1, (hrows r hr).2, decide_true, Bool.true_and] at hno
    exact hno
  by_contra hne
  rcases List.exists_mem_of_ne_nil _ hne with ⟨r, hr⟩
  cases hg : r.grouped with
  | false =>
    have hno := hundeliverable r hr
    rw [Db.deliverable_of_not_grouped hg] at hno
    cases hno
  | true =>
    -- the head of the call is a row too, and it is deliverable
    rcases hinv.placed r hr hg with ⟨q, hq, k, hk⟩
    have hlo := hk.lo
    have hhi := hk.hi
    rcases hinv.dense q hq (hmode q hq) q.nextSeq (Int.le_refl _) (by omega) with
      ⟨r', hr', hg', hcall, hseq⟩
    have hhead : db.isHead r'.toEvent = true :=
      (Db.isHead_of_grouped hg').mpr ⟨q, hq, hcall.symm, hseq⟩
    have hno := hundeliverable r' hr'
    rw [Db.deliverable_of_grouped hg', hhead] at hno
    cases hno

theorem sum_cost (acts : List Act) : (acts.map Act.cost).sum = 8 * acts.countP Act.isEnqueue := by
  induction acts with
  | nil => rfl
  | cons act acts ih =>
    rw [List.map_cons, List.sum_cons, List.countP_cons, ih, Act.cost]
    split <;> omega

/-- From a poll of a running session on, if nothing fails and every poll returns with all
reports served, then after more than `8 n + 5` steps of the worker — `n` the number of
pending rows, and eight steps more for each event admitted meanwhile — the worker has come
to a `fetch_due` at which no row is in flight and none is due. If moreover no row is dead
or put off, and all calls are in admission mode, the outbox is empty there. -/
theorem healthy_session_drains (kafka : Kafka) (cfg : Config) (acts more : List Act)
    (hserved : ∀ x ∈ Machine.trace (Pipeline.step kafka) (Pipeline.init cfg) acts,
      x.1.served x.2 = true)
    (hrun : (Machine.run (Pipeline.step kafka) (Pipeline.init cfg) acts).running = true)
    (hpoll : (Machine.run (Pipeline.step kafka) (Pipeline.init cfg) acts).worker = .poll)
    (hcb : (Machine.run (Pipeline.step kafka) (Pipeline.init cfg) acts).callback = none)
    (hsettled : (Machine.run (Pipeline.step kafka) (Pipeline.init cfg) acts).rebuildRequested =
      false)
    (hhealthy : ∀ act ∈ more, act.Healthy)
    (hsmooth : ∀ x ∈ Machine.trace (Pipeline.step kafka)
      (Machine.run (Pipeline.step kafka) (Pipeline.init cfg) acts) more, x.1.smooth x.2 = true)
    (hmany : 8 * (Machine.run (Pipeline.step kafka)
        (Pipeline.init cfg) acts).outbox.db.pendingIds.length + 5 + 8 * more.countP Act.isEnqueue <
      more.countP Act.isWork) :
    ∃ pre post, more = pre ++ post ∧
      let t := Machine.run (Pipeline.step kafka) (Pipeline.init cfg) (acts ++ pre)
      ∃ now, t.worker = .fetch now ∧ t.running = true ∧
        (∀ r ∈ t.outbox.db.outbox, r.state ≠ .inFlight ∧ due now t.outbox.db r = false) ∧
        ((∀ r ∈ t.outbox.db.outbox, r.state ≠ .dead ∧ r.nextAttemptAtMs ≤ now) →
          (∀ q ∈ t.outbox.db.callStreams, q.mode = .admission) → t.outbox.db.outbox.rows = []) := by
  generalize hs : Machine.run (Pipeline.step kafka) (Pipeline.init cfg) acts = s at *
  have hflowing : Flowing s := by
    refine ⟨?_, ?_, ?_, hrun, hsettled, by rw [hpoll]; rfl, by simp [hcb], by simp [hpoll, Worker.beforeBatch]⟩
    · exact hs ▸ linked_run kafka cfg acts hserved
    · exact hs ▸ covered_run kafka cfg acts hserved
    · exact hs ▸ session_run kafka cfg acts
  have hcost : ((Machine.trace (Pipeline.step kafka) s more).map fun x => x.2.cost).sum =
      8 * more.countP Act.isEnqueue := by
    have hmap : ((Machine.trace (Pipeline.step kafka) s more).map fun x => x.2.cost) =
        ((Machine.trace (Pipeline.step kafka) s more).map Prod.snd).map Act.cost := by
      rw [List.map_map]
      rfl
    rw [hmap, Machine.trace_map_snd, sum_cost]
  have hwork : (Machine.trace (Pipeline.step kafka) s more).countP (fun x => x.2.isWork) =
      more.countP Act.isWork := by
    have hcount := List.countP_map (p := Act.isWork) (f := Prod.snd)
      (l := Machine.trace (Pipeline.step kafka) s more)
    rw [Machine.trace_map_snd] at hcount
    exact hcount.symm
  rcases Machine.exists_goal_of_rank (flowing_ranked kafka) hflowing
      (fun x hx => ⟨hhealthy x.2 (Machine.mem_of_mem_trace hx), hsmooth x hx⟩)
      (by rw [hcost, hwork, Pipeline.toDrain, hpoll]; exact hmany) with
    ⟨pre, post, hmore, hflow, hdrained⟩
  refine ⟨pre, post, hmore, ?_⟩
  rw [Machine.run_append, hs]
  intro t
  obtain ⟨now, hw, hdue⟩ := id hdrained
  refine ⟨now, hw, hflow.running, fun r hr => ⟨hflow.landed hdrained hr, hdue r hr⟩, ?_⟩
  intro hlive hmode
  refine empty_of_not_due hflow.linked.store hmode (fun r hr => ⟨?_, (hlive r hr).2⟩) hdue
  cases hstate : r.state with
  | pending => rfl
  | inFlight => exact absurd hstate (hflow.landed hdrained hr)
  | dead => exact absurd hstate (hlive r hr).1

/-- The first event is reported, a second one admitted, sent and reported, and the worker
goes round once more. -/
def drainedSession : List Act :=
  [.append 0 0, .report 0 none, .callback sampleEnv,
      .enqueue ⟨"b", [], "key", "c", -1⟩ sampleEnv] ++
    List.replicate 8 (.work sampleEnv) ++ [.append 1 0, .report 1 none, .callback sampleEnv] ++
    List.replicate 6 (.work sampleEnv)

/-- On the way the worker comes to a `fetch_due` that finds nothing. -/
theorem healthy_session_drains_second :
    let s := Machine.run (Pipeline.step sampleKafka) (Pipeline.init (sampleConfig "events")) firstSend
    s.running = true ∧ s.outbox.db.outbox.rows.length = 1 ∧
    ∃ pre post, drainedSession = pre ++ post ∧
      let t := Machine.run (Pipeline.step sampleKafka) (Pipeline.init (sampleConfig "events"))
        (firstSend ++ pre)
      ∃ now, t.worker = .fetch now ∧ t.running = true ∧
        (∀ r ∈ t.outbox.db.outbox, r.state ≠ .inFlight ∧ due now t.outbox.db r = false) ∧
        ((∀ r ∈ t.outbox.db.outbox, r.state ≠ .dead ∧ r.nextAttemptAtMs ≤ now) →
          (∀ q ∈ t.outbox.db.callStreams, q.mode = .admission) → t.outbox.db.outbox.rows = []) := by
  intro s
  have hhealthy : ∀ act ∈ drainedSession, act.Healthy := by
    simp [drainedSession, Act.Healthy, sampleEnv, or_imp, forall_and]
  exact ⟨by decide +kernel, by decide +kernel,
    healthy_session_drains sampleKafka (sampleConfig "events") firstSend drainedSession
      (by decide +kernel) (by decide +kernel) (by decide +kernel) (by decide +kernel)
      (by decide +kernel) hhealthy (by decide +kernel) (by decide +kernel)⟩

end EventKafka
