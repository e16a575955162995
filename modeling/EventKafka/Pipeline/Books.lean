import EventKafka.Outbox.Stats
import EventKafka.Pipeline.Records

/-! # The books of a pipeline

`PipelineMetrics` counts what the pipeline did, `outbox_stats` what is left in the table.
While one object lives the two agree, whatever is interleaved and whatever fails: an event
that was admitted and neither acknowledged nor declared dead is a live row, and a dead row
was declared dead by a counter. Here a commit is counted in the step that makes it
(`step_counts`); `Pipeline/Counters.lean` has the two apart, as other threads see them.
-/

namespace EventKafka

open Sql

/-- `KafkaPipeline::outbox_stats`. -/
def Pipeline.outboxStats (s : Pipeline) (fault : Option String) : Except String OutboxStats :=
  s.outbox.stats fault

/-- The step ends the life of the object, and its counters are lost. -/
def Pipeline.ends (s : Pipeline) : Act → Bool
  | .create _ => s.worker = .idle && !s.stopping
  | .crash => true
  | .callback env =>
    match s.deliver env with
    | .ok _ => false
    | .error _ => true
  | _ => false

/-- The dead rows the operator brings back in a step. -/
def Pipeline.revives (s : Pipeline) : Act → Nat
  | .retryDead id env =>
    if s.outbox.isOpen then 0
    else
      match s.outbox.exec (.openDb env.fault) with
      | (.error _, _) => 0
      | (.ok _, b) =>
        match b.reply (.retryDead id (env.clock 0) (env.clock 1) env.fault) with
        | .error _ => 0
        | .ok _ => 1
  | _ => 0

/-- The dead rows an admission makes room from. -/
def Pipeline.reclaims (s : Pipeline) : Act → Nat
  | .enqueue args env =>
    if s.stopping = true ∨ s.accept = false ∨ args.refused s.cfg = true then 0
    else s.outbox.reclaimedRows (s.insertion args env)
  | _ => 0

/-- The dead rows that were brought back over a history. -/
def revived (tr : List (Pipeline × Act)) : Nat := (tr.map fun x => x.1.revives x.2).sum

/-- The dead rows that were reclaimed over a history. -/
def reclaimed (tr : List (Pipeline × Act)) : Nat := (tr.map fun x => x.1.reclaims x.2).sum

/-- The counters the books are kept with. -/
def Metrics.books (m : Metrics) : Nat × Nat × Nat × Int :=
  (m.enqueued, m.acked, m.permanentErrors, m.outboxExpired)

/-- The live rows the counters do not account for. -/
def Pipeline.balance (s : Pipeline) : Int :=
  s.outbox.db.live + s.metrics.acked + s.metrics.outboxExpired + s.metrics.permanentErrors -
    s.metrics.enqueued

/-- The dead rows they do not account for. -/
def Pipeline.deadBalance (s : Pipeline) : Int :=
  s.outbox.db.count .dead - s.metrics.outboxExpired - s.metrics.permanentErrors

/-! ## One step -/

section Step

variable {s : Pipeline}

/-- The rows are counted as before. -/
structure SameRows (b b' : Outbox) : Prop where
  live : b'.db.live = b.db.live
  dead : b'.db.count .dead = b.db.count .dead

theorem SameRows.trans {b b' b'' : Outbox} (h : SameRows b b') (h' : SameRows b' b'') :
    SameRows b b'' := ⟨h'.live.trans h.live, h'.dead.trans h.dead⟩

/-- A call that failed moved nothing. -/
theorem SameRows.of_error {b b' : Outbox} {op : Op} {e : String}
    (h : b.exec op = (.error e, b')) : SameRows b b' := by
  have hdb := Outbox.exec_error h
  exact ⟨by rw [hdb], by rw [hdb]⟩

/-- Opening, requeueing and claiming leave the counts alone. -/
theorem SameRows.of_exec {b b' : Outbox} {op : Op} {reply : Except String Int}
    (h : b.exec op = (reply, b')) (hborn : ∀ n, op.born n = 0) (hdied : ∀ n, op.died n = 0)
    (hrec : b.reclaimedRows op = 0) : SameRows b b' := by
  cases reply with
  | error e => exact SameRows.of_error h
  | ok n =>
    have htally := Outbox.tally h
    rw [hborn, hdied, hrec] at htally
    exact ⟨by omega, by omega⟩

/-- Closing the file leaves the rows in it. -/
theorem SameRows.of_close (b : Outbox) : SameRows b (b.step .close) := ⟨rfl, rfl⟩

/-- If neither the rows nor the books move, the balances stay. -/
theorem SameRows.balanced {s s' : Pipeline} (h : SameRows s.outbox s'.outbox)
    (hbooks : s'.metrics.books = s.metrics.books) :
    s'.balance = s.balance ∧ s'.deadBalance = s.deadBalance := by
  simp only [Metrics.books, Prod.mk.injEq] at hbooks
  rw [Pipeline.balance, Pipeline.balance, Pipeline.deadBalance, Pipeline.deadBalance, h.live,
    h.dead, hbooks.1, hbooks.2.1, hbooks.2.2.1, hbooks.2.2.2]
  exact ⟨rfl, rfl⟩

/-- `start` moves rows between pending and in flight only. -/
theorem start_balanced (s : Pipeline) (env : Env) :
    (s.start env).balance = s.balance ∧ (s.start env).deadBalance = s.deadBalance := by
  rw [Pipeline.start]
  split
  · exact ⟨rfl, rfl⟩
  rcases hexec : s.outbox.exec (.openDb env.fault) with ⟨reply, b⟩
  have hopen : SameRows s.outbox b := .of_exec hexec (fun _ => rfl) (fun _ => rfl) rfl
  cases reply with
  | error e => exact SameRows.balanced hopen rfl
  | ok n =>
    simp only
    rcases hexec' : b.exec (.requeueInFlight (env.clock 0) (env.clock 1) env.fault) with
      ⟨reply, b'⟩
    have hrequeue : SameRows s.outbox b' :=
      hopen.trans (.of_exec hexec' (fun _ => rfl) (fun _ => rfl) rfl)
    cases reply with
    | error e => exact SameRows.balanced (hrequeue.trans (.of_close b')) rfl
    | ok n =>
      simp only
      split
      · exact SameRows.balanced hrequeue rfl
      · exact SameRows.balanced (hrequeue.trans (.of_close b')) rfl

/-- The counters follow a verdict. -/
theorem settled_balanced {verdict : Verdict} {id why : String} {env : Env} {n : Int}
    {s' : Pipeline} (h : s.outbox.exec (verdict.op id why env) = (.ok n, s'.outbox))
    (hmetrics : s'.metrics = s.metrics.settled verdict) :
    s'.balance = s.balance ∧ s'.deadBalance = s.deadBalance := by
  have htally := Outbox.tally h
  rw [Pipeline.balance, Pipeline.balance, Pipeline.deadBalance, Pipeline.deadBalance, hmetrics]
  cases verdict with
  | dead =>
    simp only [Verdict.op, Op.born, Op.died, Outbox.reclaimedRows, Metrics.settled] at htally ⊢
    omega
  | retry attempts =>
    simp only [Verdict.op, Op.born, Op.died, Outbox.reclaimedRows, Metrics.settled] at htally ⊢
    omega

/-- The worker books every row it kills. -/
theorem work_balanced (kafka : Kafka) (s : Pipeline) (env : Env) :
    (s.work kafka env).balance = s.balance ∧ (s.work kafka env).deadBalance = s.deadBalance := by
  rw [Pipeline.work]
  cases s.worker with
  | rebuildReset =>
    simp only
    rcases hexec : s.outbox.exec (.requeueInFlight (env.clock 0) (env.clock 1) env.fault) with
      ⟨reply, b⟩
    have hrequeue : SameRows s.outbox b := .of_exec hexec (fun _ => rfl) (fun _ => rfl) rfl
    cases reply with
    | error e => exact SameRows.balanced hrequeue rfl
    | ok n =>
      simp only
      split
      · exact SameRows.balanced hrequeue rfl
      · exact SameRows.balanced hrequeue rfl
  | expire =>
    simp only
    rcases hexec : s.outbox.exec (.expireTtl (env.clock 0) s.cfg.outboxTtlMs env.fault) with
      ⟨reply, b⟩
    cases reply with
    | error e => exact SameRows.balanced (SameRows.of_error hexec) rfl
    | ok n =>
      have htally := Outbox.tally hexec
      simp only [Op.born, Op.died, Outbox.reclaimedRows] at htally
      simp only [Pipeline.balance, Pipeline.deadBalance]
      omega
  | batch due =>
    cases due with
    | nil => exact ⟨rfl, rfl⟩
    | cons rec rest =>
      simp only
      split
      · exact ⟨rfl, rfl⟩
      rcases hexec : s.outbox.exec (.markInFlight rec.eventId (env.clock 0) env.fault) with
        ⟨reply, b⟩
      have hmark : SameRows s.outbox b := .of_exec hexec (fun _ => rfl) (fun _ => rfl) rfl
      cases reply with
      | error e => exact SameRows.balanced hmark rfl
      | ok n => exact SameRows.balanced hmark rfl
  | settleMark id why verdict rest =>
    simp only
    rcases hexec : s.outbox.exec (verdict.op id why env) with ⟨reply, b⟩
    cases reply with
    | error e => exact SameRows.balanced (SameRows.of_error hexec) rfl
    | ok n => exact settled_balanced hexec rfl
  -- the other steps touch neither the rows nor these counters
  | loop =>
    simp only
    split
    · exact ⟨rfl, rfl⟩
    · split
      · exact ⟨rfl, rfl⟩
      · exact ⟨rfl, rfl⟩
  | check | fetch | produce | settle =>
    simp only
    split
    all_goals exact ⟨rfl, rfl⟩
  | idle | finished | rebuildFlush | poll | drain => exact ⟨rfl, rfl⟩

/-- A callback books every row it acknowledges or kills. -/
theorem deliver_balanced {env : Env} {s' : Pipeline} (h : s.deliver env = .ok s') :
    s'.balance = s.balance ∧ s'.deadBalance = s.deadBalance := by
  rw [Pipeline.deliver] at h
  cases hcb : s.callback with
  | none =>
    simp only [hcb, Except.ok.injEq] at h
    rw [← h]
    exact ⟨rfl, rfl⟩
  | some cb =>
    cases cb with
    | ack i =>
      simp only [hcb] at h
      rcases hexec : s.outbox.exec (.markAcked (s.opaqueId i) (env.clock 0) env.fault) with
        ⟨reply, b⟩
      cases reply with
      | error e =>
        simp only [hexec, Except.ok.injEq] at h
        rw [← h]
        exact SameRows.balanced (SameRows.of_error hexec) rfl
      | ok n =>
        simp only [hexec, Except.ok.injEq] at h
        rw [← h]
        have htally := Outbox.tally hexec
        simp only [Op.born, Op.died, Outbox.reclaimedRows] at htally
        simp only [Pipeline.balance, Pipeline.deadBalance, Pipeline.returned]
        omega
    | settle i why permanent =>
      simp only [hcb] at h
      cases hjudge : s.outbox.judge s.cfg.maxAttemptsBeforeDead (s.opaqueId i) permanent
          env.fault with
      | error e => simp [hjudge] at h
      | ok found =>
        cases found with
        | none =>
          simp only [hjudge, Except.ok.injEq] at h
          rw [← h]
          exact ⟨rfl, rfl⟩
        | some verdict =>
          simp only [hjudge, Except.ok.injEq] at h
          rw [← h]
          exact ⟨rfl, rfl⟩
    | settleMark i why verdict =>
      simp only [hcb] at h
      rcases hexec : s.outbox.exec (verdict.op (s.opaqueId i) why env) with ⟨reply, b⟩
      cases reply with
      | error e =>
        simp only [hexec, Except.ok.injEq] at h
        rw [← h]
        exact SameRows.balanced (SameRows.of_error hexec) rfl
      | ok n =>
        simp only [hexec, Except.ok.injEq] at h
        rw [← h]
        exact settled_balanced hexec rfl

/-- `retry_dead` is booked nowhere. -/
theorem retryDead_balanced (s : Pipeline) (id : String) (env : Env) :
    (s.retryDead id env).balance = s.balance + s.revives (.retryDead id env) ∧
      (s.retryDead id env).deadBalance = s.deadBalance - s.revives (.retryDead id env) := by
  rw [Pipeline.retryDead, Pipeline.revives]
  split
  · exact ⟨(Int.add_zero _).symm, (Int.sub_zero _).symm⟩
  rcases hexec : s.outbox.exec (.openDb env.fault) with ⟨reply, b⟩
  have hopen : SameRows s.outbox b := .of_exec hexec (fun _ => rfl) (fun _ => rfl) rfl
  cases reply with
  | error e =>
    have hsame : SameRows s.outbox { s with outbox := b }.outbox := hopen
    rcases hsame.balanced rfl with ⟨hlive, hdead⟩
    exact ⟨by simpa using hlive, by simpa using hdead⟩
  | ok n =>
    simp only
    rcases hexec' : b.exec (.retryDead id (env.clock 0) (env.clock 1) env.fault) with ⟨reply, b'⟩
    have hstep : b.step (.retryDead id (env.clock 0) (env.clock 1) env.fault) = b' :=
      congrArg Prod.snd hexec'
    have hreply : b.reply (.retryDead id (env.clock 0) (env.clock 1) env.fault) = reply :=
      congrArg Prod.fst hexec'
    have hclose := SameRows.of_close b'
    have hlive := hopen.live
    have hdead := hopen.dead
    simp only [Pipeline.balance, Pipeline.deadBalance]
    rw [hstep, hreply, hclose.live, hclose.dead]
    cases reply with
    | error e =>
      have hdb := Outbox.exec_error hexec'
      rw [hdb, hlive, hdead]
      simp
    | ok m =>
      have htally := Outbox.tally hexec'
      simp only [Op.born, Op.died, Outbox.reclaimedRows] at htally
      simp only
      omega

/-- An admission is booked, and so is what it reclaims. -/
theorem enqueue_balanced (s : Pipeline) (args : EnqueueArgs) (env : Env) :
    (s.enqueue args env).balance = s.balance ∧
      (s.enqueue args env).deadBalance + s.reclaims (.enqueue args env) = s.deadBalance := by
  rw [Pipeline.enqueue, Pipeline.reclaims]
  split
  · exact ⟨rfl, Int.add_zero _⟩
  rcases hexec : s.outbox.exec (.insertPending s.cfg.limits (args.toRecord s.cfg (env.clock 0))
    (env.clock 1) env.fault) with ⟨reply, b⟩
  cases reply with
  | error e =>
    have hrec : s.outbox.reclaimedRows (s.insertion args env) = 0 := by
      have hdb : (s.outbox.step (s.insertion args env)).db = s.outbox.db := by
        rw [show s.outbox.step (s.insertion args env) = b from congrArg Prod.snd hexec]
        exact Outbox.exec_error hexec
      rw [Pipeline.insertion] at hdb
      rw [Pipeline.insertion, Outbox.reclaimedRows, hdb, Table.changes_eq_zero]
      intro r hr
      rw [decide_eq_false_iff_not]
      exact fun hno => hno hr
    rw [hrec]
    have hsame : SameRows s.outbox { s with outbox := b }.outbox := SameRows.of_error hexec
    rcases hsame.balanced rfl with ⟨hlive, hdead⟩
    exact ⟨hlive, (Int.add_zero _).trans hdead⟩
  | ok n =>
    have htally := Outbox.tally hexec
    simp only [Op.born, Op.died] at htally
    simp only [Pipeline.balance, Pipeline.deadBalance, Pipeline.insertion]
    omega

/-- One step, whatever fails in it. -/
theorem step_balanced (kafka : Kafka) {act : Act} (h : s.ends act = false) :
    (s.step kafka act).balance = s.balance + s.revives act ∧
      (s.step kafka act).deadBalance + s.reclaims act = s.deadBalance - s.revives act := by
  have hkeep : ∀ s' : Pipeline, s'.balance = s.balance ∧ s'.deadBalance = s.deadBalance →
      s'.balance = s.balance + (0 : ℕ) ∧ s'.deadBalance + (0 : ℕ) = s.deadBalance - (0 : ℕ) := by
    rintro s' ⟨hlive, hdead⟩
    rw [hlive, hdead]
    simp
  cases act with
  | create cfg =>
    refine hkeep _ ?_
    have hguard : ¬ (s.worker = .idle ∧ s.stopping = false) := by
      simpa [Pipeline.ends] using h
    rw [Pipeline.step, Pipeline.create, if_neg hguard]
    exact ⟨rfl, rfl⟩
  | start env => exact hkeep _ (start_balanced s env)
  | enqueue args env =>
    rcases enqueue_balanced s args env with ⟨hlive, hdead⟩
    exact ⟨hlive.trans (Int.add_zero _).symm, hdead.trans (Int.sub_zero _).symm⟩
  | requestRebuild => exact hkeep _ ⟨rfl, rfl⟩
  | stop =>
    refine hkeep _ ?_
    rw [Pipeline.step, Pipeline.stop]
    split
    · exact ⟨rfl, rfl⟩
    · exact ⟨rfl, rfl⟩
  | joined =>
    refine hkeep _ ?_
    rw [Pipeline.step, Pipeline.joined]
    split
    · exact SameRows.balanced (.of_close s.outbox) rfl
    · exact ⟨rfl, rfl⟩
  | work env =>
    refine hkeep _ ?_
    rw [Pipeline.step]
    split
    · exact work_balanced kafka s env
    · exact ⟨rfl, rfl⟩
  | report i err =>
    refine hkeep _ ?_
    rw [Pipeline.step, Pipeline.report]
    split
    · exact ⟨rfl, rfl⟩
    · cases err with
      | none => exact ⟨rfl, rfl⟩
      | some e => exact ⟨rfl, rfl⟩
  | callback env =>
    refine hkeep _ ?_
    rw [Pipeline.step]
    cases hdeliver : s.deliver env with
    | ok s' => exact deliver_balanced hdeliver
    | error e => simp [Pipeline.ends, hdeliver] at h
  | append i partition =>
    refine hkeep _ ?_
    rw [Pipeline.step, Pipeline.append]
    split
    · exact ⟨rfl, rfl⟩
    · exact ⟨rfl, rfl⟩
  | crash => simp [Pipeline.ends] at h
  | retryDead id env =>
    rcases retryDead_balanced s id env with ⟨hlive, hdead⟩
    refine ⟨hlive, ?_⟩
    rw [Pipeline.step, hdead]
    exact Int.add_zero _

/-! ## The counters -/

/-- A counter the worker's thread raises for what it has committed. -/
inductive Update where
  | acked
  | permanent
  | expired (n : Int)
deriving DecidableEq, Repr

/-- The `fetch_add` on the worker's thread. -/
def Metrics.count (m : Metrics) : Option Update → Metrics
  | none => m
  | some .acked => { m with acked := m.acked + 1 }
  | some .permanent => { m with permanentErrors := m.permanentErrors + 1 }
  | some (.expired n) => { m with outboxExpired := m.outboxExpired + n }

/-- The `fetch_add` of `enqueue`, if it admitted an event. -/
def Metrics.countAdmitted (m : Metrics) (admitted : Bool) : Metrics :=
  { m with enqueued := m.enqueued + admitted.toNat }

/-- A settlement is counted when it declared the event dead. -/
def Verdict.counts (verdict : Verdict) (reply : Except String Int) : Option Update :=
  match verdict, reply with
  | .dead, .ok _ => some .permanent
  | _, _ => none

/-- What a step of the worker's thread commits that a counter has to tell. -/
def Pipeline.counts (s : Pipeline) : Act → Option Update
  | .work env =>
    if s.callback = none then
      match s.worker with
      | .expire =>
        match s.outbox.reply (.expireTtl (env.clock 0) s.cfg.outboxTtlMs env.fault) with
        | .ok n => some (.expired n)
        | .error _ => none
      | .settleMark id why verdict _ => verdict.counts (s.outbox.reply (verdict.op id why env))
      | _ => none
    else none
  | .callback env =>
    match s.callback with
    | some (.ack i) =>
      match s.outbox.reply (.markAcked (s.opaqueId i) (env.clock 0) env.fault) with
      | .ok _ => some .acked
      | .error _ => none
    | some (.settleMark i why verdict) =>
      verdict.counts (s.outbox.reply (verdict.op (s.opaqueId i) why env))
    | _ => none
  | _ => none

theorem Verdict.settled_eq (m : Metrics) (verdict : Verdict) (n : Int) :
    m.settled verdict = m.count (verdict.counts (.ok n)) := by
  cases verdict <;> rfl

/-- What the worker adds to the books is the update of its call. -/
theorem work_counts (kafka : Kafka) (s : Pipeline) (env : Env) (hcb : s.callback = none) :
    (s.work kafka env).metrics.books = (s.metrics.count (s.counts (.work env))).books := by
  rw [Pipeline.work, Pipeline.counts, if_pos hcb]
  cases s.worker with
  | expire =>
    simp only [Outbox.reply]
    rcases s.outbox.exec (.expireTtl (env.clock 0) s.cfg.outboxTtlMs env.fault) with ⟨reply, b⟩
    cases reply with
    | error e => rfl
    | ok n => rfl
  | settleMark id why verdict rest =>
    simp only [Outbox.reply]
    rcases s.outbox.exec (verdict.op id why env) with ⟨reply, b⟩
    cases reply with
    | error e => cases verdict <;> rfl
    | ok n => exact congrArg Metrics.books (Verdict.settled_eq s.metrics verdict n)
  | batch due =>
    cases due with
    | nil => rfl
    | cons rec rest =>
      simp only
      repeat' split
      all_goals rfl
  | idle | finished | rebuildFlush | poll | drain => rfl
  | _ =>
    simp only
    repeat' split
    all_goals rfl

/-- The same for a callback. -/
theorem deliver_counts {env : Env} {s' : Pipeline} (h : s.deliver env = .ok s') :
    s'.metrics.books = (s.metrics.count (s.counts (.callback env))).books := by
  rw [Pipeline.deliver] at h
  rw [Pipeline.counts]
  cases hcb : s.callback with
  | none =>
    simp only [hcb, Except.ok.injEq] at h
    rw [← h]
    rfl
  | some cb =>
    cases cb with
    | ack i =>
      simp only [hcb, Outbox.reply] at h ⊢
      rcases hexec : s.outbox.exec (.markAcked (s.opaqueId i) (env.clock 0) env.fault) with
        ⟨reply, b⟩
      cases reply with
      | error e =>
        simp only [hexec, Except.ok.injEq] at h
        rw [← h]
        rfl
      | ok n =>
        simp only [hexec, Except.ok.injEq] at h
        rw [← h]
        rfl
    | settle i why permanent =>
      simp only [hcb] at h
      repeat' split at h
      all_goals cases h
      all_goals rfl
    | settleMark i why verdict =>
      simp only [hcb, Outbox.reply] at h ⊢
      rcases hexec : s.outbox.exec (verdict.op (s.opaqueId i) why env) with ⟨reply, b⟩
      cases reply with
      | error e =>
        simp only [hexec, Except.ok.injEq] at h
        rw [← h]
        cases verdict <;> rfl
      | ok n =>
        simp only [hexec, Except.ok.injEq] at h
        rw [← h]
        exact congrArg Metrics.books (Verdict.settled_eq s.metrics verdict n)

/-- Every step raises the counters of what it commits, and no others. -/
theorem step_counts (kafka : Kafka) {act : Act} (h : s.ends act = false) :
    (s.step kafka act).metrics.books =
      ((s.metrics.count (s.counts act)).countAdmitted (s.admitted act).isSome).books := by
  cases act with
  | create cfg =>
    have hguard : ¬ (s.worker = .idle ∧ s.stopping = false) := by
      simpa [Pipeline.ends] using h
    rw [Pipeline.step, Pipeline.create, if_neg hguard]
    rfl
  | enqueue args env =>
    rw [Pipeline.step, Pipeline.enqueue, Pipeline.admitted]
    split
    · rfl
    simp only [Outbox.admission, Pipeline.insertion, Outbox.reply]
    rcases hexec : s.outbox.exec (.insertPending s.cfg.limits (args.toRecord s.cfg (env.clock 0))
      (env.clock 1) env.fault) with ⟨reply, b⟩
    cases reply with
    | error e => rfl
    | ok n => rfl
  | work env =>
    rw [Pipeline.step]
    split
    · next hcb => exact work_counts kafka s env hcb
    · next hcb =>
      rw [Pipeline.counts, if_neg hcb]
      rfl
  | callback env =>
    rw [Pipeline.step]
    cases hdeliver : s.deliver env with
    | ok s' => exact deliver_counts hdeliver
    | error e => simp [Pipeline.ends, hdeliver] at h
  | crash => simp [Pipeline.ends] at h
  | report i err =>
    rw [Pipeline.step, Pipeline.report]
    split
    · rfl
    · cases err <;> rfl
  | _ =>
    simp only [Pipeline.step, Pipeline.start, Pipeline.stop, Pipeline.joined, Pipeline.append,
      Pipeline.retryDead]
    repeat' split
    all_goals rfl

/-- `expire_ttl` counts no fewer than none. -/
theorem counts_nonneg {act : Act} {n : Int} (h : s.counts act = some (.expired n)) : 0 ≤ n := by
  have hverdict : ∀ (verdict : Verdict) reply, verdict.counts reply ≠ some (.expired n) := by
    intro verdict reply
    cases verdict <;> cases reply <;> simp [Verdict.counts]
  cases act with
  | work env =>
    simp only [Pipeline.counts] at h
    split at h
    · cases hw : s.worker with
      | expire =>
        simp only [hw, Outbox.reply] at h
        rcases hexec : s.outbox.exec (.expireTtl (env.clock 0) s.cfg.outboxTtlMs env.fault) with
          ⟨reply, b⟩
        cases reply with
        | error e => simp [hexec] at h
        | ok m =>
          simp only [hexec, Option.some.injEq, Update.expired.injEq] at h
          rw [← h]
          exact Outbox.expireTtl_nonneg hexec
      | settleMark id why verdict rest =>
        simp only [hw] at h
        exact absurd h (hverdict _ _)
      | _ => simp [hw] at h
    · cases h
  | callback env =>
    simp only [Pipeline.counts] at h
    split at h
    · split at h <;> simp at h
    · exact absurd h (hverdict _ _)
    · cases h
  | _ => simp [Pipeline.counts] at h

/-- `enqueued` grew by `n`, and none of the others went back. -/
structure Metrics.Grows (m : Metrics) (n : Nat) (m' : Metrics) : Prop where
  enqueued : m'.enqueued = m.enqueued + n
  acked : m.acked ≤ m'.acked
  expired : m.outboxExpired ≤ m'.outboxExpired
  permanent : m.permanentErrors ≤ m'.permanentErrors

theorem Metrics.Grows.refl (m : Metrics) : m.Grows 0 m := ⟨rfl, le_rfl, le_rfl, le_rfl⟩

theorem Metrics.Grows.of_counts {m m' : Metrics} {u : Option Update} {admitted : Bool}
    (hnonneg : ∀ n, u = some (.expired n) → 0 ≤ n)
    (h : m'.books = ((m.count u).countAdmitted admitted).books) : m.Grows admitted.toNat m' := by
  simp only [Metrics.books, Metrics.countAdmitted, Prod.mk.injEq] at h
  rcases h with ⟨henqueued, hacked, hpermanent, hexpired⟩
  rcases u with - | u
  · exact ⟨henqueued, hacked.ge, hexpired.ge, hpermanent.ge⟩
  · cases u with
    | acked => exact ⟨henqueued, (Nat.le_succ _).trans hacked.ge, hexpired.ge, hpermanent.ge⟩
    | permanent => exact ⟨henqueued, hacked.ge, hexpired.ge, (Nat.le_succ _).trans hpermanent.ge⟩
    | expired n =>
      have hn := hnonneg n rfl
      refine ⟨henqueued, hacked.ge, ?_, hpermanent.ge⟩
      dsimp only [Metrics.count] at hexpired
      omega

/-- `enqueued` counts the admitted events, and no counter goes back. -/
theorem step_grows (kafka : Kafka) {act : Act} (h : s.ends act = false) :
    s.metrics.Grows (s.admitted act).toList.length (s.step kafka act).metrics := by
  have hadmitted : (s.admitted act).toList.length = (s.admitted act).isSome.toNat := by
    cases s.admitted act <;> rfl
  rw [hadmitted]
  exact .of_counts (fun _ hn => counts_nonneg hn) (step_counts kafka h)

end Step

/-! ## The life of an object -/

section Life

variable {kafka : Kafka} {s₀ : Pipeline} {acts : List Act}

/-- Over one life of the process the balances move by the rows that came back to life. -/
theorem balanced_life
    (hlife : ∀ x ∈ Machine.trace (Pipeline.step kafka) s₀ acts, x.1.ends x.2 = false) :
    (Machine.run (Pipeline.step kafka) s₀ acts).balance =
        s₀.balance + revived (Machine.trace (Pipeline.step kafka) s₀ acts) ∧
      (Machine.run (Pipeline.step kafka) s₀ acts).deadBalance +
          reclaimed (Machine.trace (Pipeline.step kafka) s₀ acts) =
        s₀.deadBalance - revived (Machine.trace (Pipeline.step kafka) s₀ acts) := by
  refine Machine.trace_invariant (J := fun tr s => s.balance = s₀.balance + revived tr ∧
      s.deadBalance + reclaimed tr = s₀.deadBalance - revived tr)
    (P := fun s act => s.ends act = false) ?_ ?_ acts hlife
  · simp [revived, reclaimed]
  · rintro tr s act hends ⟨hlive, hdead⟩
    rcases step_balanced kafka hends with ⟨hlive', hdead'⟩
    simp only [revived, reclaimed, List.map_append, List.map_cons, List.map_nil, List.sum_append,
      List.sum_cons, List.sum_nil] at hlive hdead ⊢
    omega

/-- Over one life `enqueued` counts the admissions and no counter falls. -/
theorem grows_life
    (hlife : ∀ x ∈ Machine.trace (Pipeline.step kafka) s₀ acts, x.1.ends x.2 = false) :
    s₀.metrics.Grows (admittedEvents (Machine.trace (Pipeline.step kafka) s₀ acts)).length
      (Machine.run (Pipeline.step kafka) s₀ acts).metrics := by
  refine Machine.trace_invariant
    (J := fun tr s => s₀.metrics.Grows (admittedEvents tr).length s.metrics)
    (P := fun s act => s.ends act = false) (.refl s₀.metrics) ?_ acts hlife
  intro tr s act hends ih
  have hstep := step_grows kafka hends
  refine ⟨?_, ih.acked.trans hstep.acked, ih.expired.trans hstep.expired,
    ih.permanent.trans hstep.permanent⟩
  rw [hstep.enqueued, ih.enqueued, admittedEvents_append, admittedEvents_singleton,
    List.length_append, Nat.add_assoc]

end Life

end EventKafka
