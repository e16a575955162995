import EventKafka.Pipeline.Barrier

/-! # Fail-stop

A durable transition of the worker or of `on_delivery` that is reported as failed
may or may not have been made, so the pipeline stops: it sends nothing and admits
nothing until the process has gone through `stop` and a new `start`, whose requeue
settles the doubt. The flags alone do not say so, because the worker reads `running_`
at three places of its loop only; what does is where it can be when they fall
(`Worker.unarmed`), and that from there it reaches the end of its loop.
-/

namespace EventKafka

open Sql

/-! ## Failed transitions -/

/-- A durable transition issued by this step is reported as failed. -/
inductive Pipeline.Fails (s : Pipeline) : Act → Prop where
  | worker {env : Env} (hcb : s.callback = none) (h : WorkerFails s env) : s.Fails (.work env)
  | callback {env : Env} (h : CallbackFails s env) : s.Fails (.callback env)

/-- The process ends: it is killed, or an exception leaves `on_delivery`. -/
inductive Pipeline.Terminates (s : Pipeline) : Act → Prop where
  | crash : s.Terminates .crash
  | escaped {env : Env} {e : String} (h : s.deliver env = .error e) : s.Terminates (.callback env)

/-- A `start` that succeeds. -/
def Pipeline.Restarts (kafka : Kafka) (s : Pipeline) (act : Act) : Prop :=
  (∃ env, act = .start env) ∧ s.running = false ∧ (s.step kafka act).running = true

/-- Between here and the next `produce` the worker looks at `running_`. -/
def Worker.unarmed : Worker → Bool
  | .idle => true
  | .loop => true
  | .rebuildFlush => true
  | .rebuildReset => true
  | .check => true
  | .poll => true
  | .drain => true
  | .finished => true
  | _ => false

theorem Worker.unarmed_of_polling {w : Worker} (h : w.polling = true) : w.unarmed = true := by
  cases w <;> simp [Worker.polling] at h <;> rfl

section Fails

variable {s : Pipeline} {kafka : Kafka} {env : Env}

variable (kafka) in
/-- A failure of the worker throws it out of its loop. -/
theorem work_of_fails (h : WorkerFails s env) :
    Halted (s.work kafka env) ∧ (s.work kafka env).worker = .drain := by
  cases h with
  | @call op e hop herr =>
    obtain ⟨b, hexec⟩ : ∃ b, s.outbox.exec op = (.error e, b) := ⟨_, Prod.ext herr rfl⟩
    cases workCalls_issues hop with
    | rebuild hw =>
      simp only [Pipeline.work, hw, hexec]
      exact ⟨⟨rfl, rfl⟩, rfl⟩
    | expire hw =>
      simp only [Pipeline.work, hw, hexec]
      exact ⟨⟨rfl, rfl⟩, rfl⟩
    | mark hw =>
      simp only [Pipeline.workCalls, hw] at hop
      split at hop
      · simp at hop
      · rename_i hgo
        simp only [Pipeline.work, hw, hexec, if_neg hgo]
        exact ⟨⟨rfl, rfl⟩, rfl⟩
    | settle hw =>
      simp only [Pipeline.work, hw, hexec]
      exact ⟨⟨rfl, rfl⟩, rfl⟩
    | close => simp [Outbox.reply, Outbox.exec] at herr
  | producer hw hno =>
    -- whether or not the requeue before it succeeded
    rcases hx : s.outbox.exec (.requeueInFlight (env.clock 0) (env.clock 1) env.fault) with ⟨r, b⟩
    cases r with
    | error e =>
      simp only [Pipeline.work, hw, hx]
      exact ⟨⟨rfl, rfl⟩, rfl⟩
    | ok n =>
      simp only [Pipeline.work, hw, hx, hno]
      exact ⟨⟨rfl, rfl⟩, rfl⟩
  | fetch hw herr =>
    simp only [Pipeline.work, hw, herr]
    exact ⟨⟨rfl, rfl⟩, rfl⟩
  | @judge id why permanent rest hw hno =>
    cases hj : s.outbox.judge s.cfg.maxAttemptsBeforeDead id permanent env.fault with
    | error e =>
      simp only [Pipeline.work, hw, hj]
      exact ⟨⟨rfl, rfl⟩, rfl⟩
    | ok found =>
      cases found with
      | none =>
        simp only [Pipeline.work, hw, hj]
        exact ⟨⟨rfl, rfl⟩, rfl⟩
      | some verdict => exact absurd hj (hno verdict)

variable (kafka) in
theorem callback_of_fails (h : CallbackFails s env) :
    s.callback ≠ none ∧ Halted (s.step kafka (.callback env)) := by
  cases h with
  | @call op e hop herr =>
    obtain ⟨b, hexec⟩ : ∃ b, s.outbox.exec op = (.error e, b) := ⟨_, Prod.ext herr rfl⟩
    cases deliverCalls_issues hop with
    | ack hcb =>
      refine ⟨by simp [hcb], ?_⟩
      simp only [Pipeline.step, Pipeline.deliver, hcb, hexec]
      exact ⟨rfl, rfl⟩
    | settled hcb =>
      refine ⟨by simp [hcb], ?_⟩
      simp only [Pipeline.step, Pipeline.deliver, hcb, hexec]
      exact ⟨rfl, rfl⟩
    | close =>
      -- the process ends, and `close` itself cannot fail
      simp [Outbox.reply, Outbox.exec] at herr
  | @judge i why permanent hcb hno =>
    refine ⟨by simp [hcb], ?_⟩
    cases hj : s.outbox.judge s.cfg.maxAttemptsBeforeDead (s.opaqueId i) permanent env.fault with
    | error e =>
      simp only [Pipeline.step, Pipeline.deliver, hcb, hj]
      exact ⟨rfl, rfl⟩
    | ok found =>
      cases found with
      | none =>
        simp only [Pipeline.step, Pipeline.deliver, hcb, hj]
        exact ⟨rfl, rfl⟩
      | some verdict => exact absurd hj (hno verdict)

end Fails

/-! ## Standing still -/

/-- Nothing is sent or admitted from here on. -/
structure Down (s : Pipeline) : Prop where
  halted : Halted s
  unarmed : s.worker.unarmed = true

section Down

variable {s : Pipeline} {kafka : Kafka}

theorem Down.work (h : Down s) (env : Env) : Down (s.work kafka env) := by
  have hflags : Halted (s.work kafka env) := by
    rcases work_flags kafka s env with hsame | ⟨-, hhalt⟩
    · exact ⟨hsame.running.trans h.halted.running, hsame.accept.trans h.halted.accept⟩
    · exact hhalt
  refine ⟨hflags, ?_⟩
  have hrun := h.halted.running
  have harm := h.unarmed
  cases hw : s.worker with
  | rebuildReset =>
    -- it looks at the flag again, or throws
    simp only [Pipeline.work, hw]
    repeat' split
    all_goals rfl
  | idle | finished | loop | rebuildFlush | check | poll | drain =>
    simp [Pipeline.work, hw, hrun, Worker.unarmed]
  | _ => simp [hw, Worker.unarmed] at harm

theorem enqueue_of_halted (h : Halted s) (args : EnqueueArgs) (env : Env) :
    s.step kafka (.enqueue args env) = s :=
  if_pos (Or.inr (Or.inl h.accept))

theorem Down.step {act : Act} (h : Down s) (hno : ¬ s.Restarts kafka act) :
    Down (s.step kafka act) := by
  cases act with
  | create cfg =>
    simp only [Pipeline.step, Pipeline.create]
    split
    · exact ⟨⟨rfl, rfl⟩, h.unarmed⟩
    · exact h
  | start env =>
    cases hstart : start_cases s env with
    | refused _ heq =>
      simp only [Pipeline.step, heq]
      exact h
    | failed _ _ _ heq =>
      simp only [Pipeline.step, heq]
      exact ⟨⟨h.halted.running, h.halted.accept⟩, h.unarmed⟩
    | started _ _ _ _ _ heq =>
      -- the one step that sets the flags
      exact absurd ⟨⟨env, rfl⟩, h.halted.running, by simp only [Pipeline.step, heq]⟩ hno
  | enqueue args env =>
    rw [enqueue_of_halted h.halted]
    exact h
  | requestRebuild => exact ⟨⟨h.halted.running, h.halted.accept⟩, h.unarmed⟩
  | stop =>
    simp only [Pipeline.step, Pipeline.stop]
    split
    · exact h
    · exact ⟨⟨rfl, rfl⟩, h.unarmed⟩
  | joined =>
    simp only [Pipeline.step, Pipeline.joined]
    split
    · exact ⟨⟨h.halted.running, h.halted.accept⟩, rfl⟩
    · exact h
  | work env =>
    simp only [Pipeline.step]
    split
    · exact h.work env
    · exact h
  | report i err =>
    simp only [Pipeline.step, Pipeline.report, Pipeline.enter]
    repeat' split
    · exact h
    · exact ⟨⟨h.halted.running, h.halted.accept⟩, h.unarmed⟩
    · exact ⟨⟨h.halted.running, h.halted.accept⟩, h.unarmed⟩
  | callback env =>
    have hflags : Halted (s.step kafka (.callback env)) := by
      rcases callback_flags kafka s env with hsame | ⟨-, hhalt⟩
      · exact ⟨hsame.running.trans h.halted.running, hsame.accept.trans h.halted.accept⟩
      · exact hhalt
    refine ⟨hflags, ?_⟩
    rcases (callback_cases kafka s env).worker_eq with ⟨hw, -⟩ | hcrash
    · rw [hw]
      exact h.unarmed
    · rw [hcrash]
      rfl
  | append i partition =>
    simp only [Pipeline.step, Pipeline.append]
    split
    · exact h
    · exact ⟨⟨h.halted.running, h.halted.accept⟩, h.unarmed⟩
  | crash => exact ⟨⟨rfl, rfl⟩, rfl⟩
  | retryDead id env =>
    simp only [Pipeline.step, Pipeline.retryDead]
    repeat' split
    · exact h
    · exact ⟨⟨h.halted.running, h.halted.accept⟩, h.unarmed⟩
    · exact ⟨⟨h.halted.running, h.halted.accept⟩, h.unarmed⟩

theorem Down.messages (h : Down s) (act : Act) :
    (s.step kafka act).messages.map Message.body = s.messages.map Message.body := by
  rcases step_messages kafka s act with hsame | ⟨rec, rest, g, hw, -⟩
  · exact hsame
  · have harm := h.unarmed
    simp [hw, Worker.unarmed] at harm

/-- No message is produced until a start succeeds. -/
theorem Down.run (h : Down s) {more : List Act}
    (hno : ∀ x ∈ Machine.trace (Pipeline.step kafka) s more, ¬ x.1.Restarts kafka x.2) :
    Down (Machine.run (Pipeline.step kafka) s more) ∧
      (Machine.run (Pipeline.step kafka) s more).messages.map Message.body =
        s.messages.map Message.body := by
  induction more generalizing s with
  | nil => exact ⟨h, rfl⟩
  | cons act more ih =>
    have hact := hno (s, act) (List.mem_cons_self ..)
    rcases ih (h.step hact) fun x hx => hno x (List.mem_cons_of_mem _ hx) with ⟨hdown, hmsgs⟩
    exact ⟨hdown, hmsgs.trans (h.messages act)⟩

end Down

/-! ## Starting again -/

section Start

variable {s : Pipeline} {kafka : Kafka}

theorem deliver_worker {s' : Pipeline} {env : Env} (h : s.deliver env = .ok s') :
    s'.worker = s.worker ∧ s'.stopping = s.stopping := by
  unfold Pipeline.deliver at h
  repeat' split at h
  all_goals cases h
  all_goals exact ⟨rfl, rfl⟩

variable (kafka) in
/-- Until `stop` has joined it or the process ends, the thread is there. -/
theorem worker_stays {act : Act} (hstop : s.stopping = false) (hw : s.worker ≠ .idle)
    (hact : act ≠ .stop) (hterm : ¬ s.Terminates act) :
    (s.step kafka act).stopping = false ∧ (s.step kafka act).worker ≠ .idle := by
  cases act with
  | stop => exact absurd rfl hact
  | crash => exact absurd .crash hterm
  | create cfg => simp [Pipeline.step, Pipeline.create, hw, hstop]
  | start env =>
    cases start_cases s env with
    | refused _ heq =>
      simp only [Pipeline.step, heq]
      exact ⟨hstop, hw⟩
    | failed _ hidle _ _ => exact absurd hidle hw
    | started _ hidle _ _ _ _ => exact absurd hidle hw
  | work env =>
    have hcases := work_cases kafka s env
    simp only [Pipeline.step]
    split
    · exact ⟨hcases.frame.2.1.trans hstop, fun hidle => hw (hcases.idle_iff.mp hidle)⟩
    · exact ⟨hstop, hw⟩
  | callback env =>
    rcases (callback_cases kafka s env).worker_eq with ⟨hworker, hstopping⟩ | hcrash
    · rw [hworker, hstopping]
      exact ⟨hstop, hw⟩
    · -- only an exception that leaves `on_delivery` ends the process here
      cases hdel : s.deliver env with
      | error e => exact absurd (.escaped hdel) hterm
      | ok s' =>
        have hframe := deliver_worker hdel
        simp only [Pipeline.step, hdel]
        rw [hframe.1, hframe.2]
        exact ⟨hstop, hw⟩
  | joined => simp [Pipeline.step, Pipeline.joined, hstop, hw]
  | _ =>
    simp only [Pipeline.step, Pipeline.enqueue, Pipeline.report, Pipeline.enter, Pipeline.append,
      Pipeline.retryDead]
    repeat' split
    all_goals exact ⟨hstop, hw⟩

theorem worker_stays_run {more : List Act} (hstop : s.stopping = false) (hw : s.worker ≠ .idle)
    (hno : ∀ x ∈ Machine.trace (Pipeline.step kafka) s more,
      x.2 ≠ .stop ∧ ¬ x.1.Terminates x.2) :
    (Machine.run (Pipeline.step kafka) s more).stopping = false ∧
      (Machine.run (Pipeline.step kafka) s more).worker ≠ .idle :=
  Machine.run_invariant_along (I := fun s : Pipeline => s.stopping = false ∧ s.worker ≠ .idle)
    (P := fun s act => act ≠ .stop ∧ ¬ s.Terminates act) ⟨hstop, hw⟩
    (fun _ _ hP h => worker_stays _ h.1 h.2 hP.1 hP.2) more hno

theorem start_refused (hw : s.worker ≠ .idle) (env : Env) : s.step kafka (.start env) = s :=
  if_pos (Or.inr (Or.inl hw))

/-- What a successful start does to a row. -/
structure RowRequeued (r r' : Row) : Prop where
  event : r'.toEvent = r.toEvent
  attempts : r'.attempts = r.attempts
  state : r'.state = if r.state = .inFlight then .pending else r.state

/-- Every row in flight is pending again, and no cursor, ordinal or attempt count moves. -/
structure Requeued (db db' : Db) : Prop where
  rows : Table.Stepwise RowRequeued db.outbox db'.outbox
  streams : db'.callStreams = db.callStreams
  fences : db'.retiredCalls = db.retiredCalls
  turn : db'.turn = db.turn

theorem requeued_of_start {env : Env} (h : s.Restarts kafka (.start env)) :
    Requeued s.outbox.db (s.step kafka (.start env)).outbox.db := by
  cases hstart : start_cases s env with
  | refused _ heq =>
    have hrun := h.2.2
    simp [Pipeline.step, heq, h.2.1] at hrun
  | failed _ _ _ heq =>
    have hrun := h.2.2
    simp [Pipeline.step, heq, h.2.1] at hrun
  | @started n m b b' _ _ _ hopen hreq heq =>
    -- `open` at most stamps rows
    have hfirst : Table.Stepwise (fun r r' => r'.toEvent = r.toEvent ∧ r'.attempts = r.attempts ∧
        r'.state = r.state) s.outbox.db.outbox b.db.outbox ∧
        b.db.callStreams = s.outbox.db.callStreams ∧
        b.db.retiredCalls = s.outbox.db.retiredCalls ∧ b.db.turn = s.outbox.db.turn := by
      have hb : s.outbox.step (.openDb env.fault) = b := congrArg Prod.snd hopen
      rw [← hb]
      cases s.outbox.effect (.openDb env.fault) with
      | same h =>
        rw [h]
        exact ⟨.refl (fun _ => ⟨rfl, rfl, rfl⟩) _, rfl, rfl, rfl⟩
      | rewritten hop _ h =>
        cases hop
        rw [h]
        refine ⟨.update rfl (fun _ _ _ => ⟨rfl, rfl, rfl⟩) fun _ _ => ⟨rfl, rfl, rfl⟩, rfl, rfl, rfl⟩
      | admitted hop | sent hop | acked hop => cases hop
    have hdb' : b'.db = b.db.updateOutbox (fun r => r.state = .inFlight) fun r =>
        { r.toProgress with
          state := .pending, nextAttemptAtMs := env.clock 0, updatedAtMs := env.clock 1 } := by
      rcases call_ok hreq with ⟨_, hrun, -⟩
      exact requeueInFlight_ok hrun
    have hsecond : Table.Stepwise RowRequeued b.db.outbox b'.db.outbox := by
      rw [hdb']
      refine .of_map rfl fun r _ => ?_
      by_cases hflight : r.state = .inFlight
      · simp only [hflight, decide_true, if_true]
        exact ⟨rfl, rfl, by simp [hflight]⟩
      · simp only [hflight, decide_false]
        exact ⟨rfl, rfl, by simp [hflight]⟩
    simp only [Pipeline.step, heq]
    refine ⟨hfirst.1.comp hsecond ?_, ?_, ?_, ?_⟩
    · intro r r' r'' h₁ h₂
      exact ⟨h₂.event.trans h₁.1, h₂.attempts.trans h₁.2.1, by rw [h₂.state, h₁.2.2]⟩
    · rw [hdb', Db.updateOutbox_callStreams]
      exact hfirst.2.1
    · rw [hdb', Db.updateOutbox_retiredCalls]
      exact hfirst.2.2.1
    · rw [hdb', Db.updateOutbox_turn]
      exact hfirst.2.2.2

end Start

/-! ## The fail-stop law -/

/-- After the failure the worker is thrown out of its loop, or in the poll that called
back. -/
theorem down_of_fails (kafka : Kafka) {s : Pipeline} {act : Act} (h : Guarded s)
    (hfail : s.Fails act) :
    Down (s.step kafka act) ∧ s.worker ≠ .idle ∧
      (s.step kafka act).messages.map Message.body = s.messages.map Message.body := by
  cases hfail with
  | @worker env hcb hw =>
    have hstep : s.step kafka (.work env) = s.work kafka env := if_pos hcb
    rcases work_of_fails kafka hw with ⟨hhalt, hdrain⟩
    rw [hstep]
    refine ⟨⟨hhalt, by rw [hdrain]; rfl⟩, ?_, ?_⟩
    · intro hidle
      have hidle' := (work_cases kafka s env).idle_iff.mpr hidle
      simp [hdrain] at hidle'
    · rcases step_messages kafka s (.work env) with hsame | ⟨rec, rest, g, hprod, -⟩
      · rw [← hstep]
        exact hsame
      · -- a worker about to produce makes no durable transition
        cases hw with
        | call hop _ => simp [Pipeline.workCalls, hprod] at hop
        | producer hw' _ => simp [hprod] at hw'
        | fetch hw' _ => simp [hprod] at hw'
        | judge hw' _ => simp [hprod] at hw'
  | @callback env hcbf =>
    rcases callback_of_fails kafka hcbf with ⟨hcb, hhalt⟩
    have hpoll := h.polling hcb
    refine ⟨⟨hhalt, ?_⟩, ?_, ?_⟩
    · rcases (callback_cases kafka s env).worker_eq with ⟨hw, -⟩ | hcrash
      · rw [hw]
        exact Worker.unarmed_of_polling hpoll
      · rw [hcrash]
        rfl
    · intro hidle
      simp [hidle, Worker.polling] at hpoll
    · rcases step_messages kafka s (.callback env) with hsame | ⟨rec, rest, g, hprod, -⟩
      · exact hsame
      · simp [hprod, Worker.polling] at hpoll

/-- Once a durable transition of the worker or of `on_delivery` is reported as failed,
no message is produced and no enqueue is admitted until a start succeeds; as long as
neither `stop` was called nor the process ended every start is refused, and the start
that succeeds requeues what was left in flight and moves no cursor, ordinal or attempt
count. -/
theorem fail_stop_until_restart (kafka : Kafka) (cfg : Config) (acts : List Act) (act : Act)
    (hpolled : ∀ x ∈ Machine.trace (Pipeline.step kafka) (Pipeline.init cfg) acts,
      x.1.polled x.2 = true)
    (hfail : (Machine.run (Pipeline.step kafka) (Pipeline.init cfg) acts).Fails act) :
    let s := Machine.run (Pipeline.step kafka) (Pipeline.init cfg) acts
    let failed := s.step kafka act
    ∀ more, (∀ x ∈ Machine.trace (Pipeline.step kafka) failed more, ¬ x.1.Restarts kafka x.2) →
      let s' := Machine.run (Pipeline.step kafka) failed more
      s'.messages.map Message.body = s.messages.map Message.body ∧
      (∀ args env, s'.step kafka (.enqueue args env) = s') ∧
      (s.stopping = false → ¬ s.Terminates act →
        (∀ x ∈ Machine.trace (Pipeline.step kafka) failed more,
          x.2 ≠ .stop ∧ ¬ x.1.Terminates x.2) →
        ∀ env, s'.step kafka (.start env) = s') ∧
      ∀ env, s'.Restarts kafka (.start env) →
        Requeued s'.outbox.db (s'.step kafka (.start env)).outbox.db := by
  intro s failed more hno s'
  have hguarded : Guarded s := guarded_run cfg acts hpolled
  rcases down_of_fails kafka hguarded hfail with ⟨hdown, hw, hmsgs⟩
  rcases hdown.run hno with ⟨hdown', hmsgs'⟩
  refine ⟨hmsgs'.trans hmsgs, fun args env => enqueue_of_halted hdown'.halted args env, ?_,
    fun env hre => requeued_of_start hre⟩
  intro hstop hterm hquiet env
  have hact : act ≠ .stop := by
    rintro rfl
    cases hfail
  rcases worker_stays kafka hstop hw hact hterm with ⟨hstop', hw'⟩
  exact start_refused (worker_stays_run hstop' hw' hquiet).2 env

/-- The disk fails under `mark_in_flight`. -/
def faultyEnv : Env :=
  { sampleEnv with fault := fun stmt => if stmt = .inFlight then some "disk I/O error" else none }

/-- The mark fails, nothing more is sent, and after `stop` the pipeline starts again. -/
theorem fail_stop_until_restart_faulty :
    let s := Machine.run (Pipeline.step sampleKafka) (Pipeline.init (sampleConfig "events"))
      (firstSend.take 6)
    let failed := s.step sampleKafka (.work faultyEnv)
    let s' := Machine.run (Pipeline.step sampleKafka) failed
      [.work sampleEnv, .start sampleEnv, .stop, .joined]
    s.Fails (.work faultyEnv) ∧ s'.Restarts sampleKafka (.start sampleEnv) ∧ s'.messages = [] ∧
      Requeued s'.outbox.db (s'.step sampleKafka (.start sampleEnv)).outbox.db := by
  intro s failed s'
  have hfail : s.Fails (.work faultyEnv) := by
    rcases work_flags sampleKafka s faultyEnv with hsame | ⟨hfails, -⟩
    · exact absurd hsame.running (by decide +kernel)
    · exact .worker (by decide +kernel) hfails
  have hno : ∀ x ∈ Machine.trace (Pipeline.step sampleKafka) failed
      [.work sampleEnv, .start sampleEnv, .stop, .joined], ¬ x.1.Restarts sampleKafka x.2 := by
    have hflags : ∀ x ∈ Machine.trace (Pipeline.step sampleKafka) failed
        [.work sampleEnv, .start sampleEnv, .stop, .joined],
        (x.1.step sampleKafka x.2).running = false := by
      decide +kernel
    intro x hx hre
    exact absurd hre.2.2 (by simp [hflags x hx])
  rcases fail_stop_until_restart sampleKafka (sampleConfig "events") (firstSend.take 6)
    (.work faultyEnv) (by decide +kernel) hfail _ hno with ⟨hsent, -, -, hrequeued⟩
  have hre : s'.Restarts sampleKafka (.start sampleEnv) :=
    ⟨⟨sampleEnv, rfl⟩, by decide +kernel⟩
  refine ⟨hfail, hre, ?_, by simpa only [s', failed, s] using hrequeued sampleEnv hre⟩
  have hempty : s.messages.map Message.body = [] := by decide +kernel
  exact List.map_eq_nil_iff.mp (hsent.trans hempty)

end EventKafka
