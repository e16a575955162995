import EventKafka.Pipeline.Records
import EventKafka.Verifier.Rows

/-! # The verifier accepts the module's expiries

Clocks are read at two kinds of places: under the outbox mutex, by the methods
themselves, and before it, by `enqueue` for `created_at_ms` and by the worker for the
time of its round. When the readings never decrease in real time, a reading under the
mutex is no earlier than any reading of a step that held the mutex before; a reading
taken before the mutex is only known to be no later. That is enough: no row is touched
before it was created.
-/

namespace EventKafka

open Sql

/-! ## Clock readings -/

/-- The clock readings of a step: those taken before it holds the outbox mutex, and
those taken under it. -/
structure Readings where
  free : List Int
  locked : List Int

def Readings.all (x : Readings) : List Int := x.free ++ x.locked

/-- A retry also reads the clock for its deadline and its jitter, before the lock. -/
def Verdict.readings (env : Env) : Verdict → Readings
  | .dead => ⟨[], [env.clock 0]⟩
  | .retry _ => ⟨[env.clock 0, env.clock 1], [env.clock 2]⟩

/-- Which reading of an action's clock is taken where. -/
def Pipeline.readings (s : Pipeline) : Act → Readings
  | .start env => ⟨[], [env.clock 0, env.clock 1]⟩
  | .enqueue _ env => ⟨[env.clock 0], [env.clock 1]⟩
  | .work env =>
    match s.worker with
    | .rebuildReset => ⟨[], [env.clock 0, env.clock 1]⟩
    | .expire => ⟨[env.clock 0], []⟩
    | .batch (_ :: _) => ⟨[], [env.clock 0]⟩
    | .settleMark _ _ verdict _ => verdict.readings env
    | _ => ⟨[], []⟩
  | .callback env =>
    match s.callback with
    | some (.ack _) => ⟨[], [env.clock 0]⟩
    | some (.settleMark _ _ verdict) => verdict.readings env
    | _ => ⟨[], []⟩
  | .retryDead _ env => ⟨[], [env.clock 0, env.clock 1]⟩
  | _ => ⟨[], []⟩

/-- The readings of a run never decrease, and are nonnegative. -/
structure Steady (tr : List (Pipeline × Act)) : Prop where
  ordered : tr.Pairwise fun x y =>
    ∀ t ∈ (x.1.readings x.2).all, ∀ u ∈ (y.1.readings y.2).locked, t ≤ u
  nonneg : ∀ x ∈ tr, ∀ t ∈ (x.1.readings x.2).all, 0 ≤ t

theorem Steady.init {tr : List (Pipeline × Act)} {x : Pipeline × Act} (h : Steady (tr ++ [x])) :
    Steady tr :=
  ⟨(List.pairwise_append.mp h.ordered).1, fun y hy => h.nonneg y (List.mem_append_left _ hy)⟩

/-- The readings under the lock of the last step are after all before it. -/
theorem Steady.last {tr : List (Pipeline × Act)} {x : Pipeline × Act} (h : Steady (tr ++ [x])) :
    ∀ y ∈ tr, ∀ t ∈ (y.1.readings y.2).all, ∀ u ∈ (x.1.readings x.2).locked, t ≤ u :=
  fun y hy => (List.pairwise_append.mp h.ordered).2.2 y hy x (List.mem_singleton_self x)

/-! ## The texts of errors -/

/-- Neither blank nor the text of an expiry. -/
def Telling (error : String) : Prop := blank error = false ∧ error ≠ "expired_ttl"

/-- The error the worker is about to store. -/
def Worker.why : Worker → Option String
  | .settle _ why _ _ => some why
  | .settleMark _ why _ _ => some why
  | _ => none

/-- The error a callback is about to store. -/
def Callback.why : Callback → Option String
  | .ack _ => none
  | .settle _ why _ => some why
  | .settleMark _ why _ => some why

/-- Every error the pipeline is about to store. -/
def Pipeline.Speaks (P : String → Prop) (s : Pipeline) : Prop :=
  (∀ why, s.worker.why = some why → P why) ∧
    ∀ cb why, s.callback = some cb → cb.why = some why → P why

/-- A text is telling by its beginning. -/
theorem telling_append {pre : String} (x : String) (hhead : pre.toList.all isSpace = false)
    (hne : ¬ pre.toList <+: "expired_ttl".toList) : Telling (pre ++ x) := by
  constructor
  · simp [blank, String.toList_append, hhead]
  · intro heq
    apply hne
    rw [← heq, String.toList_append]
    exact List.prefix_append ..

/-- Every refusal of a produce has a telling text. -/
theorem produceError_telling {kafka : Kafka} (htext : ∀ e, Telling (kafka.err2str e))
    {producer : Option Nat} {reply : Option ErrCode} {why : String}
    (h : produceError kafka producer reply = some why) : Telling why := by
  unfold produceError at h
  split at h
  · cases h
    exact ⟨by decide, by decide⟩
  · cases h
  · split at h
    · cases h
      exact telling_append _ (by decide) (by decide)
    · split at h
      · cases h
        exact telling_append _ (by decide) (by decide)
      · cases h
        exact htext _

/-- An error to be stored is the one already held, or the one `produce_record` gave. -/
theorem work_why {kafka : Kafka} {s : Pipeline} {env : Env} {why : String}
    (h : (s.work kafka env).worker.why = some why) :
    s.worker.why = some why ∨ produceError kafka s.producer env.produced = some why := by
  cases hw : s.worker with
  | produce rec rest =>
    right
    cases hprod : produceError kafka s.producer env.produced with
    | none => simp [Pipeline.work, hw, hprod, Worker.why] at h
    | some why' => simpa [Pipeline.work, hw, hprod, Worker.why] using h
  | settle id why' permanent rest =>
    left
    simp only [Pipeline.work, hw] at h
    repeat' split at h
    all_goals first
      | exact h
      | simp [Pipeline.throw, Worker.why] at h
  | batch due =>
    cases due with
    | nil => simp [Pipeline.work, hw, Worker.why] at h
    | cons rec rest =>
      simp only [Pipeline.work, hw] at h
      repeat' split at h
      all_goals simp [Pipeline.throw, Worker.why] at h
  | _ =>
    simp only [Pipeline.work, hw] at h
    repeat' split at h
    all_goals simp [Pipeline.throw, Worker.why] at h

/-- The texts that are stored come from a refusal or from a report. -/
theorem Pipeline.Speaks.step {P : String → Prop} {kafka : Kafka} {s : Pipeline} (h : s.Speaks P)
    (hreport : ∀ e, P (kafka.err2str e))
    (hproduce : ∀ producer reply why, produceError kafka producer reply = some why → P why)
    (act : Act) : (s.step kafka act).Speaks P := by
  -- the steps that leave both threads' reasons alone, or drop them
  have hkeep : ∀ s' : Pipeline, s'.worker = s.worker ∨ s'.worker.why = none →
      s'.callback = s.callback ∨ s'.callback = none → s'.Speaks P := by
    intro s' hw hcb
    constructor
    · intro why hwhy
      rcases hw with hw | hw
      · exact h.1 why (hw ▸ hwhy)
      · simp [hw] at hwhy
    · intro cb why hsome hwhy
      rcases hcb with hcb | hcb
      · exact h.2 cb why (hcb ▸ hsome) hwhy
      · simp [hcb] at hsome
  cases act with
  | work env =>
    simp only [Pipeline.step]
    split
    · constructor
      · intro why hwhy
        rcases work_why hwhy with hold | hnew
        · exact h.1 why hold
        · exact hproduce _ _ why hnew
      · rw [(work_cases kafka s env).frame.2.2.1]
        exact h.2
    · exact h
  | callback env =>
    cases callback_cases kafka s env with
    | stays heq =>
      rw [heq]
      exact h
    | acked _ _ hsame => exact hkeep _ (Or.inl hsame.worker) (Or.inr hsame.callback)
    | failed _ hsame => exact hkeep _ (Or.inl hsame.worker) (Or.inr hsame.callback)
    | settled _ _ hsame => exact hkeep _ (Or.inl hsame.worker) (Or.inr hsame.callback)
    | escaped heq =>
      rw [heq]
      exact hkeep _ (Or.inr rfl) (Or.inr rfl)
    -- the reason goes on with the callback, from the verdict's read to its mark
    | judged hcb hsame =>
      constructor
      · rw [hsame.worker]
        exact h.1
      · intro cb why hsome hwhy
        rw [hsame.callback] at hsome
        cases hsome
        exact h.2 _ why hcb hwhy
  | report i err =>
    simp only [Pipeline.step, Pipeline.report]
    split
    · exact h
    · cases err with
      | none =>
        refine ⟨h.1, ?_⟩
        intro cb why hsome hwhy
        cases hsome
        cases hwhy
      -- a fresh reason: the text librdkafka gives for the reported error
      | some e =>
        refine ⟨h.1, ?_⟩
        intro cb why hsome hwhy
        cases hsome
        cases hwhy
        exact hreport e
  | start env =>
    simp only [Pipeline.step]
    cases start_cases s env with
    | refused _ heq =>
      rw [heq]
      exact h
    | failed _ _ _ heq =>
      rw [heq]
      exact hkeep _ (Or.inl rfl) (Or.inl rfl)
    | started _ _ _ _ _ heq =>
      rw [heq]
      exact hkeep _ (Or.inr rfl) (Or.inl rfl)
  | joined =>
    simp only [Pipeline.step, Pipeline.joined]
    split
    · exact hkeep _ (Or.inr rfl) (Or.inl rfl)
    · exact h
  | crash => exact hkeep _ (Or.inr rfl) (Or.inr rfl)
  | _ =>
    simp only [Pipeline.step, Pipeline.create, Pipeline.enqueue, Pipeline.stop, Pipeline.append,
      Pipeline.retryDead]
    repeat' split
    all_goals exact hkeep _ (Or.inl rfl) (Or.inl rfl)

/-! ## The calls of a step -/

section Calls

variable {s : Pipeline} {act : Act} {op : Op}

/-- The time a verdict stamps was read under the lock. -/
theorem Verdict.op_stamp {verdict : Verdict} {id why : String} {env : Env} {t : Int}
    (h : (verdict.op id why env).stamp = some t) : t ∈ (verdict.readings env).locked := by
  cases verdict with
  | dead =>
    cases h
    exact List.mem_singleton_self _
  | retry n =>
    cases h
    exact List.mem_singleton_self _

/-- A call stamps rows with a reading taken under the mutex. -/
theorem Issues.stamp (h : Issues s act op) {t : Int} (ht : op.stamp = some t) :
    t ∈ (s.readings act).locked := by
  cases h with
  | requeue | rebuild | revive | mark | ack =>
    cases ht
    simp_all [Pipeline.readings]
  | settle hw =>
    simp only [Pipeline.readings, hw]
    exact Verdict.op_stamp ht
  | settled hcb =>
    simp only [Pipeline.readings, hcb]
    exact Verdict.op_stamp ht
  | _ => cases ht

/-- The error of a death is one the pipeline was about to store. -/
theorem Issues.error {P : String → Prop} (h : Issues s act op) (hspeaks : s.Speaks P)
    {id error : String} {now : Int} {fault : FaultPlan} (hop : op = .markDead id error now fault) :
    P error := by
  cases h with
  | @settle env id' why verdict rest hw =>
    have hwhy := hspeaks.1 why (by rw [hw]; rfl)
    cases verdict <;> cases hop
    exact hwhy
  | @settled env i why verdict hcb =>
    have hwhy := hspeaks.2 _ why hcb rfl
    cases verdict <;> cases hop
    exact hwhy
  | _ => cases hop

/-- An event is created at a time its action read. -/
theorem Issues.created (h : Issues s act op) {lim : Limits} {rec : OutboxRecord} {now : Int}
    {fault : FaultPlan} (hop : op = .insertPending lim rec now fault) :
    createdAt rec now ∈ (s.readings act).all := by
  cases h with
  | @insert args env =>
    cases hop
    unfold createdAt
    split <;> simp [Pipeline.readings, Readings.all, EnqueueArgs.toRecord]
  | @settle env id' why verdict | @settled env i why verdict => cases verdict <;> cases hop
  | _ => cases hop

/-- Rows expire at the age of the configuration. -/
theorem Issues.limit (h : Issues s act op) {now t : Int} {fault : FaultPlan}
    (hop : op = .expireTtl now t fault) : t = s.cfg.outboxTtlMs := by
  cases h with
  | expire =>
    cases hop
    rfl
  | @settle env id' why verdict | @settled env i why verdict => cases verdict <;> cases hop
  | _ => cases hop

/-- Only an admission or an ACK can stand between rows and readings, and a step makes
one such call at most. -/
theorem calls_shape (s : Pipeline) (act : Act) :
    (∀ op ∈ s.calls act, op.quiet = true) ∨ ∃ op, s.calls act = [op] := by
  cases act with
  | enqueue args env =>
    simp only [Pipeline.calls]
    split
    · exact Or.inl (by simp)
    · exact Or.inr ⟨_, rfl⟩
  | callback env =>
    by_cases hack : ∃ i, s.callback = some (.ack i)
    · rcases hack with ⟨i, hcb⟩
      exact Or.inr ⟨.markAcked (s.opaqueId i) (env.clock 0) env.fault, by
        simp [Pipeline.calls, Pipeline.deliverCalls, hcb]⟩
    · refine Or.inl (calls_quiet s _ (by simp) ?_)
      intro env' i _ hcb
      exact hack ⟨i, hcb⟩
  | _ => exact Or.inl (calls_quiet s _ (by simp) (by simp))

end Calls

/-! ## The rows of a run -/

/-- A quiet run of calls with fitting arguments keeps every row in order. -/
theorem rowOk_run {ttl : Int} {ops : List Op} (httl : 0 < ttl) {b : Outbox}
    (hquiet : ∀ op ∈ ops, op.quiet = true)
    (hfits : ∀ op ∈ ops, ∀ db : Db, (∀ r ∈ db.outbox, ∃ q ∈ b.db.outbox, q.toEvent = r.toEvent) →
      op.Fits ttl db)
    (h : ∀ r ∈ b.db.outbox, RowOk ttl r) :
    ∀ r ∈ (Machine.run Outbox.step b ops).db.outbox, RowOk ttl r := by
  induction ops generalizing b with
  | nil => exact h
  | cons op ops ih =>
    have hown : ∀ r ∈ b.db.outbox, ∃ q ∈ b.db.outbox, q.toEvent = r.toEvent :=
      fun r hr => ⟨r, hr, rfl⟩
    have hrows : ∀ r ∈ (b.step op).db.outbox, ∃ q ∈ b.db.outbox, q.toEvent = r.toEvent := by
      intro r hr
      rcases (b.quiet_of_op (hquiet op (List.mem_cons_self ..))).rows.backward hr with ⟨q, hq, hst⟩
      exact ⟨q, hq, hst.event.symm⟩
    apply ih
    · exact fun op' hop' => hquiet op' (List.mem_cons_of_mem _ hop')
    · intro op' hop' db hdb
      refine hfits op' (List.mem_cons_of_mem _ hop') db ?_
      intro r hr
      rcases hdb r hr with ⟨q, hq, hqr⟩
      rcases hrows q hq with ⟨p, hp, hpq⟩
      exact ⟨p, hp, hpq.trans hqr⟩
    · exact rowOk_step httl (hfits op (List.mem_cons_self ..) b.db hown) h

/-- What a run keeps: rows in order, born at a past reading, and errors that tell. -/
structure Checked (ttl : Int) (tr : List (Pipeline × Act)) (s : Pipeline) : Prop where
  rows : ∀ r ∈ s.outbox.db.outbox, RowOk ttl r
  born : ∀ r ∈ s.outbox.db.outbox, ∃ x ∈ tr, r.createdAtMs ∈ (x.1.readings x.2).all
  limit : s.cfg.outboxTtlMs = ttl
  speaks : s.Speaks Telling

section Checked

variable {ttl : Int} {kafka : Kafka} {tr : List (Pipeline × Act)} {s : Pipeline} {act : Act}

/-- The calls of the next step meet what the row checks ask for. -/
theorem Checked.fits (h : Checked ttl tr s) (hsteady : Steady (tr ++ [(s, act)])) {op : Op}
    (hop : op ∈ s.calls act) {db : Db}
    (hdb : ∀ r ∈ db.outbox, ∃ q ∈ s.outbox.db.outbox, q.toEvent = r.toEvent) :
    op.Fits ttl db where
  stamp := by
    intro t ht r hr
    rcases hdb r hr with ⟨q, hq, hqr⟩
    rcases h.born q hq with ⟨x, hx, hborn⟩
    rw [← congrArg Event.createdAtMs hqr]
    exact hsteady.last x hx _ hborn t ((calls_issues hop).stamp ht)
  created := by
    intro lim rec now fault heq
    exact hsteady.nonneg (s, act) (by simp) _ ((calls_issues hop).created heq)
  limit := by
    intro now t fault heq
    rw [(calls_issues hop).limit heq]
    exact h.limit
  error := by
    intro id error now fault heq
    exact (calls_issues hop).error h.speaks heq

/-- Every step keeps the rows in shape for the verifier. -/
theorem Checked.step (httl : 0 < ttl) (htext : ∀ e, Telling (kafka.err2str e))
    (hcfg : ∀ cfg, act = .create cfg → cfg.outboxTtlMs = ttl) (h : Checked ttl tr s)
    (hsteady : Steady (tr ++ [(s, act)])) :
    Checked ttl (tr ++ [(s, act)]) (s.step kafka act) where
  rows := by
    rw [step_outbox]
    rcases calls_shape s act with hquiet | ⟨op, hcalls⟩
    · exact rowOk_run httl hquiet (fun op hop db hdb => h.fits hsteady hop hdb) h.rows
    · rw [hcalls]
      have hop : op ∈ s.calls act := by simp [hcalls]
      exact rowOk_step httl (h.fits hsteady hop fun r hr => ⟨r, hr, rfl⟩) h.rows
  born := by
    intro r hr
    rcases row_of_step hr with ⟨q, hq, hqr⟩ | hadm
    · rcases h.born q hq with ⟨x, hx, hborn⟩
      exact ⟨x, List.mem_append_left _ hx, congrArg Event.createdAtMs hqr ▸ hborn⟩
    · refine ⟨(s, act), by simp, ?_⟩
      cases act with
      | enqueue args env =>
        simp only [Pipeline.admitted] at hadm
        split at hadm
        · cases hadm
        · rcases Option.map_eq_some_iff.mp hadm with ⟨⟨rec, assigned⟩, hx, hevent⟩
          rcases Outbox.admission_eq_some.mp hx with ⟨lim, now, fault, heq, -⟩
          cases heq
          rw [← congrArg Event.createdAtMs hevent]
          exact Issues.created (.insert (s := s)) rfl
      | _ => cases hadm
  limit := by
    rcases step_cfg kafka s act with hsame | ⟨cfg, hact, hnew, -⟩
    · rw [hsame]
      exact h.limit
    · rw [hnew]
      exact hcfg cfg hact
  speaks := h.speaks.step htext (fun _ _ _ hprod => produceError_telling htext hprod) act

end Checked

/-- Every row of the final outbox passes the verifier's checks under `--ttl-ms T`, when
the sessions run with `outbox_ttl_ms = T` and the clock never goes back. -/
theorem final_rows_pass (kafka : Kafka) (cfg : Config) (acts : List Act) (ttl : Int)
    (httl : 0 < ttl) (hinit : cfg.outboxTtlMs = ttl)
    (hcreate : ∀ cfg', Act.create cfg' ∈ acts → cfg'.outboxTtlMs = ttl)
    (htext : ∀ e, blank (kafka.err2str e) = false ∧ kafka.err2str e ≠ "expired_ttl")
    (hsteady : Steady (Machine.trace (Pipeline.step kafka) (Pipeline.init cfg) acts)) :
    ∀ r ∈ (Machine.run (Pipeline.step kafka) (Pipeline.init cfg) acts).outbox.db.outbox,
      ∃ c, checkRow ttl r.final = .ok (c, none) := by
  have hempty : Checked ttl [] (Pipeline.init cfg) :=
    ⟨fun r hr => absurd hr (Table.notMem_empty r), fun r hr => absurd hr (Table.notMem_empty r),
      hinit, by simp [Pipeline.Speaks, Pipeline.init, Worker.why]⟩
  have hacts : ∀ x ∈ Machine.trace (Pipeline.step kafka) (Pipeline.init cfg) acts,
      ∀ cfg', x.2 = .create cfg' → cfg'.outboxTtlMs = ttl := by
    intro x hx cfg' heq
    rcases Machine.exists_prefix_of_mem_trace hx with ⟨pre, post, hsplit, -⟩
    exact hcreate cfg' (by simp [hsplit, heq])
  have hchecked := Machine.trace_invariant (J := fun tr s => Steady tr → Checked ttl tr s)
    (P := fun _ act => ∀ cfg', act = .create cfg' → cfg'.outboxTtlMs = ttl)
    (fun _ => hempty)
    (fun _ _ _ hP ih hst => (ih hst.init).step httl htext hP hst) acts hacts hsteady
  intro r hr
  exact (hchecked.rows r hr).passes httl

/-- Everything is read at one time. -/
def envAt (t : Int) : Env := { sampleEnv with clock := fun _ => t }

/-- An event that waits too long for its first round. -/
def lateRound : List Act :=
  [.start (envAt 1000), .enqueue ⟨"a", [], "key", "c", -1⟩ (envAt 2000), .work (envAt 2500),
    .work (envAt 2500), .work (envAt 200000)]

/-- An event that expires late, and is what the verifier asks for. -/
theorem final_rows_pass_late :
    let s := Machine.run (Pipeline.step sampleKafka) (Pipeline.init (sampleConfig "events"))
      lateRound
    (∃ r ∈ s.outbox.db.outbox, r.state = .dead ∧ r.lastError = some "expired_ttl") ∧
      ∀ r ∈ s.outbox.db.outbox, ∃ c, checkRow 120000 r.final = .ok (c, none) := by
  intro s
  have hdead : ∃ r ∈ s.outbox.db.outbox.rows, r.state = .dead ∧
      r.lastError = some "expired_ttl" := by
    decide +kernel
  have htext : blank "error" = false ∧ "error" ≠ "expired_ttl" := by decide
  refine ⟨hdead, ?_⟩
  exact final_rows_pass sampleKafka (sampleConfig "events") lateRound 120000 (by decide) rfl
    (by simp [lateRound]) (fun _ => htext) ⟨by decide +kernel, by decide +kernel⟩

end EventKafka
