import EventKafka.Outbox.Attempts
import EventKafka.Pipeline.FailStop
import EventKafka.Pipeline.Policy

/-! # The sends of an event

How often an event is sent. `tally` counts the calls of the outbox that touch an event;
here a send is charged to the `mark_in_flight` before it, and the verdicts of
`settle_send_failure` keep the retries below the limit.

`attempts` is an `INTEGER` of the row and an `int` of the record. The limit is compared
with the record, so the policy holds as long as the counts fit an `int`, and
`wornOut` is a run where one no longer does.
-/

namespace EventKafka

open Sql

/-! ## Counting sends -/

/-- The calls of the outbox behind a history of the pipeline. -/
def outboxHistory (tr : List (Pipeline × Act)) : List (Outbox × Op) :=
  tr.flatMap fun x => Machine.trace Outbox.step x.1.outbox (x.1.calls x.2)

/-- The event this step hands to `produce_record`. -/
def Pipeline.produces (s : Pipeline) : Act → Option String
  | .work _ =>
    match s.callback, s.worker with
    | none, .produce rec _ => some rec.eventId
    | _, _ => none
  | _ => none

/-- How often an event was sent since its admission. -/
def sends (id : String) (tr : List (Pipeline × Act)) : Nat :=
  tr.foldl (fun n x =>
    if (x.1.admitted x.2).any fun e => e.eventId = id then 0
    else if x.1.produces x.2 = some id then n + 1 else n) 0

/-- The event is marked and not yet handed over. -/
def Pipeline.inHand (s : Pipeline) (id : String) : Nat :=
  match s.worker with
  | .produce rec _ => if rec.eventId = id then 1 else 0
  | _ => 0

/-- The history of the outbox grows by the calls of the step. -/
theorem outboxHistory_snoc (tr : List (Pipeline × Act)) (s : Pipeline) (act : Act) :
    outboxHistory (tr ++ [(s, act)]) =
      outboxHistory tr ++ Machine.trace Outbox.step s.outbox (s.calls act) := by
  simp [outboxHistory]

/-- The sends of an event are counted from its last admission. -/
theorem sends_snoc (id : String) (tr : List (Pipeline × Act)) (s : Pipeline) (act : Act) :
    sends id (tr ++ [(s, act)]) =
      if (s.admitted act).any fun e => e.eventId = id then 0
      else if s.produces act = some id then sends id tr + 1 else sends id tr := by
  simp [sends, List.foldl_append]

section Counting

variable {maxAttempts : Int} {kafka : Kafka} {tr : List (Pipeline × Act)} {s : Pipeline}
  {act : Act}

/-- Calls that put nothing back, one after the other. -/
theorem tallied_run {H : List (Outbox × Op)} {b : Outbox} {ops : List Op}
    (h : Tallied maxAttempts H b.db)
    (hretry : ∀ op ∈ ops, ∀ id next error now fault, op ≠ .markRetry id next error now fault) :
    Tallied maxAttempts (H ++ Machine.trace Outbox.step b ops)
      (Machine.run Outbox.step b ops).db := by
  induction ops generalizing H b with
  | nil => simpa using h
  | cons op ops ih =>
    have hop := hretry op (List.mem_cons_self ..)
    have hstep : Tallied maxAttempts (H ++ [(b, op)]) (b.step op).db :=
      h.step fun id next error now fault heq => absurd heq (hop id next error now fault)
    have hrest := ih hstep fun op' hop' => hretry op' (List.mem_cons_of_mem _ hop')
    simpa using hrest

/-- A retry is for a row below the limit. -/
theorem Judged.retry_below (h : Judged maxAttempts tr s)
    (hcount : ∀ r ∈ s.outbox.db.outbox, 0 ≤ r.attempts ∧ r.attempts < 2 ^ 31)
    {id error : String} {next now : Int} {fault : FaultPlan}
    (hissue : Issues s act (.markRetry id next error now fault)) {r : Row}
    (hr : r ∈ s.outbox.db.outbox) (hid : r.eventId = id) (hflight : r.state = .inFlight) :
    r.attempts < maxAttempts := by
  have hbelow : ∀ permanent attempts,
      Decided maxAttempts permanent s.outbox.db id (.retry attempts) → r.attempts < maxAttempts := by
    intro permanent attempts hdec
    have hverdict := hdec r hr hid hflight
    rw [toInt32_eq (hcount r hr).1 (hcount r hr).2] at hverdict
    by_contra hle
    simp [not_lt.mp hle] at hverdict
  generalize hop : Op.markRetry id next error now fault = op at hissue
  cases hissue with
  | @settle env id' why verdict rest hw =>
    rcases h.settleMark id' why verdict rest hw with ⟨code, -, hdec⟩
    cases verdict with
    | dead => cases hop
    | retry attempts =>
      cases hop
      exact hbelow _ _ hdec
  | @settled env i why verdict hcb =>
    rcases h.reportMark i why verdict hcb with ⟨code, -, hdec⟩
    cases verdict with
    | dead => cases hop
    | retry attempts =>
      cases hop
      exact hbelow _ _ hdec
  | _ => cases hop

/-- A step puts back only what it judged, below the limit. -/
theorem Tallied.pipeline (h : Tallied maxAttempts (outboxHistory tr) s.outbox.db)
    (hjudged : Judged maxAttempts tr s)
    (hcount : ∀ r ∈ s.outbox.db.outbox, r.attempts < 2 ^ 31) :
    Tallied maxAttempts (outboxHistory (tr ++ [(s, act)])) (s.step kafka act).outbox.db := by
  have hcount' : ∀ r ∈ s.outbox.db.outbox, 0 ≤ r.attempts ∧ r.attempts < 2 ^ 31 := by
    intro r hr
    refine ⟨?_, hcount r hr⟩
    rw [h.attempts r hr]
    exact Int.natCast_nonneg _
  rw [outboxHistory_snoc, step_outbox]
  by_cases hretry : ∃ id next error now fault, Op.markRetry id next error now fault ∈ s.calls act
  · rcases hretry with ⟨id, next, error, now, fault, hop⟩
    rw [calls_settles hop rfl]
    refine h.step ?_
    intro id' next' error' now' fault' heq r hr hid hflight
    cases heq
    exact hjudged.retry_below hcount' (calls_issues hop) hr hid hflight
  · refine tallied_run h ?_
    rintro op hop id next error now fault rfl
    exact hretry ⟨id, next, error, now, fault, hop⟩

/-- Only an admission of the event resets its count. -/
theorem Tally.marks_le {id : String} {t : Tally} {b : Outbox} {op : Op}
    (hadm : ∀ rec n, b.admission op = some (rec, n) → rec.eventId ≠ id) :
    t.marks ≤ (t.step id (b, op)).marks := by
  cases op with
  | insertPending lim rec now fault =>
    cases hreply : b.reply (.insertPending lim rec now fault) with
    | error e => simp [Tally.step, hreply]
    | ok n =>
      have hne := hadm rec n (Outbox.admission_eq_some.mpr ⟨lim, now, fault, rfl, hreply⟩)
      simp [Tally.step, hreply, hne]
  | markInFlight id' now fault =>
    cases hreply : b.reply (.markInFlight id' now fault) with
    | error e => simp [Tally.step, hreply]
    | ok n =>
      simp only [Tally.step, hreply]
      split <;> simp
  | _ => exact (Tally.step_grows 0 _ _ _ (by simp) (by simp)).1.symm.le

/-- The marks of an event do not fall while it is not admitted anew. -/
theorem marks_le_run {id : String} {H : List (Outbox × Op)} {b : Outbox} {ops : List Op}
    (hadm : ∀ x ∈ Machine.trace Outbox.step b ops, ∀ rec n,
      x.1.admission x.2 = some (rec, n) → rec.eventId ≠ id) :
    (tally id H).marks ≤ (tally id (H ++ Machine.trace Outbox.step b ops)).marks := by
  induction ops generalizing H b with
  | nil => simp
  | cons op ops ih =>
    have hfirst : (tally id H).marks ≤ (tally id (H ++ [(b, op)])).marks := by
      rw [tally_snoc]
      exact Tally.marks_le (hadm (b, op) (List.mem_cons_self ..))
    have hrest := ih (H := H ++ [(b, op)]) fun x hx => hadm x (List.mem_cons_of_mem _ hx)
    refine hfirst.trans ?_
    simpa using hrest

variable (tr) in
/-- The same for a step of the pipeline. -/
theorem marks_le_step {id : String}
    (hadm : ((s.admitted act).any fun e => e.eventId = id) = false) :
    (tally id (outboxHistory tr)).marks ≤ (tally id (outboxHistory (tr ++ [(s, act)]))).marks := by
  rw [outboxHistory_snoc]
  apply marks_le_run
  intro x hx rec n hsome hid
  rcases Machine.exists_prefix_of_mem_trace hx with ⟨pre, post, hops, hstate⟩
  rcases Outbox.admission_eq_some.mp hsome with ⟨lim, now, fault, hop, hok⟩
  have hmem : x.2 ∈ s.calls act := by simp [hops]
  have hissue := calls_issues hmem
  rw [hop] at hissue
  generalize hins : Op.insertPending lim rec now fault = op at hissue
  cases hissue with
  | @insert args env =>
    -- the insert is the first and only call of the enqueue
    simp only [Pipeline.calls] at hops
    split at hops
    · simp at hops
    · rename_i hgo
      have hpre : pre = [] := by
        cases pre with
        | nil => rfl
        | cons p ps => simp at hops
      subst hpre
      have hsame : x = (s.outbox, s.insertion args env) := by
        refine Prod.ext hstate ?_
        rw [hop, hins]
        rfl
      rw [hsame] at hsome
      simp only [Pipeline.admitted, if_neg hgo, hsome, Option.map_some, Option.any_some,
        decide_eq_false_iff_not] at hadm
      exact hadm hid
  | @settle env id' why verdict | @settled env i why verdict => cases verdict <;> cases hins
  | _ => cases hins

variable (kafka s act) in
/-- An event comes in hand when it is marked. -/
theorem inHand_step (id : String) :
    (s.step kafka act).inHand id ≤ s.inHand id ∨
      ∃ env rec rest n b, act = .work env ∧ s.callback = none ∧
        s.worker = .batch (rec :: rest) ∧ rec.eventId = id ∧
        s.outbox.exec (.markInFlight id (env.clock 0) env.fault) = (.ok n, b) ∧
        s.calls act = [.markInFlight id (env.clock 0) env.fault] := by
  have hsame : (s.step kafka act).worker = s.worker →
      (s.step kafka act).inHand id ≤ s.inHand id := by
    intro hw
    rw [Pipeline.inHand, hw]
    exact le_rfl
  have hfree : (∀ rec rest, (s.step kafka act).worker ≠ .produce rec rest) →
      (s.step kafka act).inHand id ≤ s.inHand id := by
    intro hno
    have hzero : (s.step kafka act).inHand id = 0 := by
      unfold Pipeline.inHand
      split
      · rename_i rec rest hw
        exact absurd hw (hno rec rest)
      · rfl
    omega
  cases act with
  | work env =>
    by_cases hcb : s.callback = none
    · have hstep : s.step kafka (.work env) = s.work kafka env := if_pos hcb
      rw [hstep] at hsame hfree ⊢
      cases work_cases kafka s env with
      | stays heq => exact Or.inl (hsame (by rw [heq]))
      | moved _ hnone _ _ _ h =>
        -- a free worker has no record
        refine Or.inl (hfree fun rec rest hw => ?_)
        have hw' := h.worker.symm.trans hw
        simp only at hw'
        rw [hw'] at hnone
        simp [Worker.Free, Worker.holding] at hnone
      | @claimed rec rest n b hw hexec h =>
        -- the record is taken in hand by its mark
        by_cases hgo : s.running = false ∨ s.rebuildRequested = true
        · exact Or.inl (hfree (by simp [Pipeline.work, hw, hgo]))
        · by_cases hid : rec.eventId = id
          · subst hid
            exact Or.inr ⟨env, rec, rest, n, b, rfl, hcb, hw, rfl, hexec, by
              simp [Pipeline.calls, hcb, Pipeline.workCalls, hw, hgo]⟩
          · left
            rw [Pipeline.inHand, h.worker]
            simp [hid]
      | rebuilt _ _ h | stranded _ _ h | expired _ _ h | fetched _ _ h | produced _ _ h
      | settled _ _ h =>
        exact Or.inl (hfree (by simp [h.worker]))
      | refused _ h | judged _ h => exact Or.inl (hfree (by simp [h.worker]))
    · exact Or.inl (hsame (by simp [Pipeline.step, hcb]))
  | callback env =>
    left
    rcases (callback_cases kafka s env).worker_eq with ⟨hw, -⟩ | hcrash
    · exact hsame hw
    · exact hfree (by simp [hcrash, Pipeline.crash])
  | start env =>
    left
    cases start_cases s env with
    | refused _ heq => exact hsame (by simp [Pipeline.step, heq])
    | failed _ _ _ heq => exact hsame (by simp [Pipeline.step, heq])
    | started _ _ _ _ _ heq => exact hfree (by simp [Pipeline.step, heq])
  | joined =>
    left
    by_cases hjoin : s.stopping = true ∧ (s.worker = .idle ∨ s.worker = .finished)
    · exact hfree (by simp [Pipeline.step, Pipeline.joined, hjoin])
    · exact hsame (by simp only [Pipeline.step, Pipeline.joined, if_neg hjoin])
  | crash => exact Or.inl (hfree (by simp [Pipeline.step, Pipeline.crash]))
  | _ =>
    refine Or.inl (hsame ?_)
    simp only [Pipeline.step, Pipeline.create, Pipeline.enqueue, Pipeline.stop, Pipeline.report,
      Pipeline.enter, Pipeline.append, Pipeline.retryDead]
    repeat' split
    all_goals rfl

variable (kafka) in
/-- Sending takes the event out of the worker's hand. -/
theorem inHand_of_produces {id : String} (h : s.produces act = some id) :
    s.inHand id = 1 ∧ (s.step kafka act).inHand id = 0 := by
  cases act with
  | work env =>
    cases hcb : s.callback with
    | some cb => simp [Pipeline.produces, hcb] at h
    | none =>
      cases hw : s.worker with
      | produce rec rest =>
        have hid : rec.eventId = id := by simpa [Pipeline.produces, hcb, hw] using h
        refine ⟨by simp [Pipeline.inHand, hw, hid], ?_⟩
        simp only [Pipeline.inHand, Pipeline.step, hcb, if_true, Pipeline.work, hw]
        cases produceError kafka s.producer env.produced <;> rfl
      | _ => simp [Pipeline.produces, hcb, hw] at h
  | _ => simp [Pipeline.produces] at h

/-- Every send was marked. -/
def SendsMarked (tr : List (Pipeline × Act)) (s : Pipeline) : Prop :=
  ∀ id, sends id tr + s.inHand id ≤ (tally id (outboxHistory tr)).marks

/-- The worker sends one row at a time. -/
theorem inHand_le_one (s : Pipeline) (id : String) : s.inHand id ≤ 1 := by
  unfold Pipeline.inHand
  repeat' split
  all_goals omega

/-- An event in hand is in flight, so it is not the one being admitted. -/
theorem inHand_of_admitted {id : String} (hguard : Guarded s)
    (hadm : ((s.admitted act).any fun e => e.eventId = id) = true) :
    (s.step kafka act).inHand id = 0 := by
  by_contra hhand
  cases db_cases kafka s act with
  | quiet hnone _ => simp [hnone] at hadm
  | acked hact =>
    subst hact
    simp [Pipeline.admitted] at hadm
  | @admitted args env seq dn base hact hsome hadmission =>
    have hid : args.eventId = id := by
      simpa [hsome, newRow, EnqueueArgs.toRecord] using hadm
    have hworker : (s.step kafka act).worker = s.worker := by
      rw [hact]
      simp only [Pipeline.step, Pipeline.enqueue]
      repeat' split
      all_goals rfl
    rw [Pipeline.inHand, hworker] at hhand
    cases hw : s.worker with
    | produce rec rest =>
      have hrec : rec.eventId = id := by
        by_contra hne
        simp [hw, hne] at hhand
      rcases hguard.holding id (by rw [hw, ← hrec]; rfl) with ⟨r, hr, hrid, hflight⟩
      have hbase : r ∈ base := by
        rcases hadmission.room with ⟨rfl, -⟩ | ⟨rfl, -, -⟩
        · exact hr
        · exact Table.mem_delete.mpr ⟨hr, by simp [reclaimable, hflight]⟩
      exact Table.key_ne_of_insert hadmission.row hbase (hrid.trans hid.symm)
    | _ => simp [hw] at hhand

/-- Every send was marked before it. -/
theorem SendsMarked.step (hguard : Guarded s) (h : SendsMarked tr s) :
    SendsMarked (tr ++ [(s, act)]) (s.step kafka act) := by
  intro id
  rw [sends_snoc]
  cases hadm : (s.admitted act).any fun e => e.eventId = id with
  | true =>
    rw [if_pos rfl, inHand_of_admitted hguard hadm]
    exact Nat.zero_le _
  | false =>
    have hmarks := marks_le_step tr hadm
    have hold := h id
    simp only [Bool.false_eq_true, if_false]
    by_cases hprod : s.produces act = some id
    · rcases inHand_of_produces kafka hprod with ⟨hbefore, hafter⟩
      simp only [hprod, if_true]
      omega
    · simp only [hprod, if_false]
      rcases inHand_step kafka s act id with hle | hmark
      · omega
      · rcases hmark with ⟨env, rec, rest, n, b, -, -, hw, -, hexec, hcalls⟩
        have hreply : s.outbox.reply (.markInFlight id (env.clock 0) env.fault) = .ok n :=
          congrArg Prod.fst hexec
        have hcount : (tally id (outboxHistory (tr ++ [(s, act)]))).marks =
            (tally id (outboxHistory tr)).marks + 1 := by
          rw [outboxHistory_snoc, hcalls]
          simp only [Machine.trace_cons, Machine.trace_nil]
          rw [tally_snoc]
          simp [Tally.step, hreply]
        have hbefore : s.inHand id = 0 := by simp [Pipeline.inHand, hw]
        have hafter := inHand_le_one (s.step kafka act) id
        omega

end Counting

/-! ## Sends and failures of a run -/

/-- What a run keeps about the sends of its events. -/
structure Policed (maxAttempts : Int) (tr : List (Pipeline × Act)) (s : Pipeline) : Prop where
  guarded : Guarded s
  judged : Judged maxAttempts tr s
  tallied : Tallied maxAttempts (outboxHistory tr) s.outbox.db
  sends : SendsMarked tr s

/-- What the steps of the run have to meet: reports come while somebody polls, every
object has the same limit, and the clock is not negative. -/
structure Regular (maxAttempts : Int) (s : Pipeline) (act : Act) : Prop where
  polled : s.polled act = true
  limit : ∀ cfg, act = .create cfg → cfg.maxAttemptsBeforeDead = maxAttempts
  clock : ∀ env, act = .work env ∨ act = .callback env → ∀ k, 0 ≤ env.clock k

/-- The count of every row fits the `int` it is read into. -/
def Pipeline.narrow (s : Pipeline) : Prop := ∀ r ∈ s.outbox.db.outbox, r.attempts < 2 ^ 31

/-- The failed send settled by a step takes the row where the code says, whichever way
the failure came. -/
structure FollowsPolicy (maxAttempts : Int) (kafka : Kafka) (tr : List (Pipeline × Act))
    (s : Pipeline) (act : Act) : Prop where
  worker : ∀ env id why verdict rest n, act = .work env → s.callback = none →
    s.worker = .settleMark id why verdict rest → s.outbox.reply (verdict.op id why env) = .ok n →
    ∃ code, lastRefusal tr = some (id, code) ∧
      SettledAs maxAttempts (code.any isPermanentError) (env.clock 0) id s.outbox.db
        (s.step kafka act).outbox.db
  callback : ∀ env i why verdict n, act = .callback env →
    s.callback = some (.settleMark i why verdict) →
    s.outbox.reply (verdict.op (s.opaqueId i) why env) = .ok n →
    ∃ code, lastReport tr = some (i, code) ∧
      SettledAs maxAttempts (isPermanentError code) (env.clock 0) (s.opaqueId i) s.outbox.db
        (s.step kafka act).outbox.db

/-- The worker is in `settle_send_failure`. -/
def Worker.settling : Worker → Bool
  | .settle .. => true
  | .settleMark .. => true
  | _ => false

/-- A failed send goes on to its settlement. It is handed to `settle_send_failure`, there
waits for nothing but the next step of its thread, which only the end of the process takes
away, and this step succeeds unless a statement of it fails. A report may come for an event
that is not in flight; it is not judged. -/
structure Settles (kafka : Kafka) (s : Pipeline) (act : Act) : Prop where
  refused : ∀ id code, s.refused act = some (id, code) →
    ∃ why permanent rest, (s.step kafka act).worker = .settle id why permanent rest
  reported : ∀ i code, s.reportedError act = some (i, code) →
    ∃ why permanent, (s.step kafka act).callback = some (.settle i why permanent)
  workerWaits : s.worker.settling = true → (∀ env, act ≠ .work env) → act ≠ .crash →
    (s.step kafka act).worker = s.worker
  callbackWaits : s.callback ≠ none → (∀ env, act ≠ .callback env) → act ≠ .crash →
    (s.step kafka act).callback = s.callback
  workerJudges : ∀ env id why permanent rest, act = .work env →
    s.worker = .settle id why permanent rest → env.fault = noFault →
    ∃ verdict, (s.step kafka act).worker = .settleMark id why verdict rest
  workerSettles : ∀ env id why verdict rest, act = .work env →
    s.worker = .settleMark id why verdict rest → env.fault = noFault →
    s.callback = none ∧ ∃ n, s.outbox.reply (verdict.op id why env) = .ok n
  callbackJudges : ∀ env i why permanent, act = .callback env →
    s.callback = some (.settle i why permanent) → env.fault = noFault →
    Flying s.outbox.db (fun e => e.eventId = s.opaqueId i) →
    ∃ verdict, (s.step kafka act).callback = some (.settleMark i why verdict)
  callbackSettles : ∀ env i why verdict, act = .callback env →
    s.callback = some (.settleMark i why verdict) → env.fault = noFault →
    ∃ n, s.outbox.reply (verdict.op (s.opaqueId i) why env) = .ok n

section Policed

variable {maxAttempts : Int} {kafka : Kafka} {tr : List (Pipeline × Act)} {s : Pipeline}
  {act : Act}

/-- A pipeline that has just been created. -/
theorem Policed.init (cfg : Config) : Policed cfg.maxAttemptsBeforeDead [] (Pipeline.init cfg) where
  guarded := @guarded_run sampleKafka cfg [] (by simp)
  judged := .unheld rfl rfl rfl
  tallied := Tallied.empty _
  sends := by
    intro id
    simp [EventKafka.sends, Pipeline.inHand, Pipeline.init]

/-- Every step within the width of the counter keeps the invariant. -/
theorem Policed.step (hplain : Plain kafka) (h : Policed maxAttempts tr s)
    (hact : Regular maxAttempts s act) (hnarrow : s.narrow) :
    Policed maxAttempts (tr ++ [(s, act)]) (s.step kafka act) where
  guarded := h.guarded.step hact.polled
  judged := h.judged.step hplain h.guarded hact.limit
  tallied := h.tallied.pipeline h.judged hnarrow
  sends := h.sends.step h.guarded

/-- Every step from a policed state is one the policy asks for. -/
theorem Policed.follows (h : Policed maxAttempts tr s) (hact : Regular maxAttempts s act)
    (hnarrow : s.narrow) : FollowsPolicy maxAttempts kafka tr s act := by
  have hcount : ∀ r ∈ s.outbox.db.outbox, 0 ≤ r.attempts ∧ r.attempts < 2 ^ 31 := by
    intro r hr
    refine ⟨?_, hnarrow r hr⟩
    rw [h.tallied.attempts r hr]
    exact Int.natCast_nonneg _
  constructor
  · rintro env id why verdict rest n rfl hcb hw hok
    rcases h.judged.settleMark id why verdict rest hw with ⟨code, hcode, hdec⟩
    have hfly := h.guarded.holding id (by rw [hw]; rfl)
    have hexec : s.outbox.exec (verdict.op id why env) =
      (.ok n, s.outbox.step (verdict.op id why env)) := Prod.ext hok rfl
    have hdb : (s.step kafka (.work env)).outbox = s.outbox.step (verdict.op id why env) := by
      rw [step_outbox]
      simp [Pipeline.calls, hcb, Pipeline.workCalls, hw]
    rw [hdb]
    exact ⟨code, hcode, settledAs_of_exec hfly hdec hcount (hact.clock env (Or.inl rfl)) hexec⟩
  · rintro env i why verdict n rfl hcb hok
    rcases h.judged.reportMark i why verdict hcb with ⟨code, hcode, hdec⟩
    have hfly := h.guarded.settling i why verdict hcb
    have hexec : s.outbox.exec (verdict.op (s.opaqueId i) why env) =
      (.ok n, s.outbox.step (verdict.op (s.opaqueId i) why env)) := Prod.ext hok rfl
    have hdb : (s.step kafka (.callback env)).outbox =
        s.outbox.step (verdict.op (s.opaqueId i) why env) := by
      rw [step_outbox]
      simp [Pipeline.calls, Pipeline.deliverCalls, hcb]
    rw [hdb]
    exact ⟨code, hcode, settledAs_of_exec hfly hdec hcount (hact.clock env (Or.inr rfl)) hexec⟩

/-- After a refusal of the producer the worker is at the settlement. -/
theorem work_of_refused {id : String} {code : Option ErrCode}
    (h : s.refused act = some (id, code)) :
    ∃ why permanent rest, (s.step kafka act).worker = .settle id why permanent rest := by
  cases act with
  | work env =>
    cases hcb : s.callback with
    | some cb => simp [Pipeline.refused, hcb] at h
    | none =>
      cases hw : s.worker with
      | produce rec rest =>
        have herror : ∃ why, produceError kafka s.producer env.produced = some why := by
          cases hp : s.producer with
          | none => exact ⟨_, rfl⟩
          | some g =>
            cases he : env.produced with
            | none => simp [Pipeline.refused, hcb, hw, hp, he] at h
            | some e =>
              simp only [produceError]
              repeat' split
              all_goals exact ⟨_, rfl⟩
        have hid : rec.eventId = id := by
          cases hp : s.producer <;> cases he : env.produced <;>
            simp [Pipeline.refused, hcb, hw, hp, he] at h <;> exact h.1
        rcases herror with ⟨why, hwhy⟩
        exact ⟨why, startsWith why "PERMANENT:", rest, by
          simp [Pipeline.step, hcb, Pipeline.work, hw, hwhy, hid]⟩
      | _ => simp [Pipeline.refused, hcb, hw] at h
  | _ => simp [Pipeline.refused] at h

/-- After a report of an error the callback is at the settlement. -/
theorem callback_of_reported {i : Nat} {code : ErrCode}
    (h : s.reportedError act = some (i, code)) :
    ∃ why permanent, (s.step kafka act).callback = some (.settle i why permanent) := by
  cases act with
  | report j err =>
    cases err with
    | none => simp [Pipeline.reportedError] at h
    | some e =>
      simp only [Pipeline.reportedError] at h
      split at h
      · cases h
      · next hguard =>
        cases h
        refine ⟨kafka.err2str code, isPermanentError code, ?_⟩
        have hserved : ¬ (s.callback ≠ none ∨ s.messages.length ≤ i ∨
            (some code = none ∧ s.appended i = false)) := by
          simpa [or_assoc] using hguard
        simp only [Pipeline.step, Pipeline.report, if_neg hserved, Pipeline.enter]
  | _ => simp [Pipeline.reportedError] at h

/-- While a send is being settled nobody else moves the worker. -/
theorem worker_of_settling (h : s.worker.settling = true) (hcb : s.callback = none)
    (hwork : ∀ env, act ≠ .work env) (hcrash : act ≠ .crash) :
    (s.step kafka act).worker = s.worker := by
  have hidle : s.worker ≠ .idle := fun hw => by simp [hw, Worker.settling] at h
  have hfinished : s.worker ≠ .finished := fun hw => by simp [hw, Worker.settling] at h
  cases act with
  | work env => exact absurd rfl (hwork env)
  | crash => exact absurd rfl hcrash
  | callback env => simp [Pipeline.step, Pipeline.deliver, hcb]
  | start env => simp [Pipeline.step, Pipeline.start, hidle]
  | joined => simp [Pipeline.step, Pipeline.joined, hidle, hfinished]
  | _ =>
    simp only [Pipeline.step, Pipeline.create, Pipeline.enqueue, Pipeline.stop, Pipeline.report,
      Pipeline.enter, Pipeline.append, Pipeline.retryDead]
    repeat' split
    all_goals rfl

/-- A callback keeps its thread until it returns. -/
theorem callback_of_step (hcb : s.callback ≠ none) (hdeliver : ∀ env, act ≠ .callback env)
    (hcrash : act ≠ .crash) : (s.step kafka act).callback = s.callback := by
  cases act with
  | work env => simp [Pipeline.step, hcb]
  | crash => exact absurd rfl hcrash
  | callback env => exact absurd rfl (hdeliver env)
  | report i err => simp [Pipeline.step, Pipeline.report, hcb]
  | _ =>
    simp only [Pipeline.step, Pipeline.create, Pipeline.start, Pipeline.enqueue, Pipeline.stop,
      Pipeline.joined, Pipeline.append, Pipeline.retryDead]
    repeat' split
    all_goals rfl

/-- In a guarded state nothing that failed is dropped. -/
theorem settles_of_guarded (h : Guarded s) : Settles kafka s act := by
  have hfree : s.worker.settling = true → s.worker.polling = false ∧ s.worker ≠ .idle := by
    cases s.worker <;> simp [Worker.settling, Worker.polling]
  have hopen : s.callback ≠ none → s.outbox.isOpen = true := by
    intro hcb
    refine h.opened fun hidle => ?_
    have hpoll := h.polling hcb
    rw [hidle] at hpoll
    cases hpoll
  constructor
  case refused => exact fun _ _ href => work_of_refused href
  case reported => exact fun _ _ hrep => callback_of_reported hrep
  case workerWaits =>
    exact fun hs hwork hcrash =>
      worker_of_settling hs (h.callback_none (hfree hs).1) hwork hcrash
  case callbackWaits => exact fun hcb hdeliver hcrash => callback_of_step hcb hdeliver hcrash
  case workerJudges =>
    rintro env id why permanent rest rfl hw hcalm
    have hs : s.worker.settling = true := by rw [hw]; rfl
    have hfly := h.holding id (by rw [hw]; rfl)
    rcases Outbox.judge_of_flying s.cfg.maxAttemptsBeforeDead permanent hfly
      (h.opened (hfree hs).2) with ⟨verdict, hverdict⟩
    refine ⟨verdict, ?_⟩
    simp only [Pipeline.step, h.callback_none (hfree hs).1, if_true, Pipeline.work, hw, hcalm,
      hverdict]
  case workerSettles =>
    rintro env id why verdict rest rfl hw hcalm
    have hs : s.worker.settling = true := by rw [hw]; rfl
    exact ⟨h.callback_none (hfree hs).1, verdict_enabled verdict (h.holding id (by rw [hw]; rfl))
      (h.opened (hfree hs).2) hcalm⟩
  case callbackJudges =>
    rintro env i why permanent rfl hcb hcalm hfly
    rcases Outbox.judge_of_flying s.cfg.maxAttemptsBeforeDead permanent hfly
      (hopen (by simp [hcb])) with ⟨verdict, hverdict⟩
    refine ⟨verdict, ?_⟩
    simp only [Pipeline.step, Pipeline.deliver, hcb, hcalm, hverdict]
  case callbackSettles =>
    rintro env i why verdict rfl hcb hcalm
    exact verdict_enabled verdict (h.settling i why verdict hcb) (hopen (by simp [hcb])) hcalm

end Policed

/-- The sample librdkafka tells permanent errors as documented. -/
theorem plain_sampleKafka : Plain sampleKafka := by
  have h : startsWith "error" "FATAL:" = false ∧ startsWith "error" "PERMANENT:" = false := by
    decide
  exact fun _ => h

/-- A step that meets one of two environments with a clock that is not negative. -/
theorem Regular.of_env {maxAttempts : Int} {s : Pipeline} {act : Act} {e e' : Env}
    (hpolled : s.polled act = true) (hcreate : ∀ cfg, act ≠ .create cfg)
    (henv : act.env = none ∨ act.env = some e ∨ act.env = some e') (he : ∀ k, 0 ≤ e.clock k)
    (he' : ∀ k, 0 ≤ e'.clock k) : Regular maxAttempts s act := by
  have hclock : ∀ env, act.env = some env → ∀ k, 0 ≤ env.clock k := by
    intro env hsome
    rcases henv with hno | hfirst | hsecond
    · simp [hno] at hsome
    · rw [hfirst, Option.some.injEq] at hsome
      rwa [← hsome]
    · rw [hsecond, Option.some.injEq] at hsome
      rwa [← hsome]
  refine ⟨hpolled, fun cfg hact => absurd hact (hcreate cfg), ?_⟩
  rintro env (rfl | rfl)
  · exact hclock env rfl
  · exact hclock env rfl

/-- In a run whose attempt counts fit an `int`: `attempts` is the number of times the row
was marked since its admission; a failed send is settled, unless a statement fails or the
process ends, and goes to the same state whichever way its code arrived; and the sends of an
event are at most `max(M,1)`, plus its requeues, plus its revivals. -/
theorem sends_are_bounded (kafka : Kafka) (cfg : Config) (acts : List Act) (maxAttempts : Int)
    (hinit : cfg.maxAttemptsBeforeDead = maxAttempts) (hplain : Plain kafka)
    (hacts : ∀ x ∈ Machine.trace (Pipeline.step kafka) (Pipeline.init cfg) acts,
      Regular maxAttempts x.1 x.2)
    (hnarrow : ∀ x ∈ Machine.trace (Pipeline.step kafka) (Pipeline.init cfg) acts,
      x.1.narrow) :
    let tr := Machine.trace (Pipeline.step kafka) (Pipeline.init cfg) acts
    let s := Machine.run (Pipeline.step kafka) (Pipeline.init cfg) acts
    (∀ r ∈ s.outbox.db.outbox, r.attempts = (tally r.eventId (outboxHistory tr)).marks) ∧
    (∀ pre x post, tr = pre ++ x :: post →
      FollowsPolicy maxAttempts kafka pre x.1 x.2 ∧ Settles kafka x.1 x.2) ∧
    ∀ id,
      let t := tally id (outboxHistory tr)
      sends id tr ≤ t.marks ∧ (t.marks : Int) ≤ max maxAttempts 1 + t.requeues + t.revivals := by
  intro tr s
  -- for every prefix, as the policy is about the trace before each step
  have hpoliced : ∀ as bs, acts = as ++ bs →
      Policed maxAttempts (Machine.trace (Pipeline.step kafka) (Pipeline.init cfg) as)
        (Machine.run (Pipeline.step kafka) (Pipeline.init cfg) as) := by
    intro as bs happ
    apply Machine.trace_invariant (J := fun tr s => Policed maxAttempts tr s)
      (P := fun s act => Regular maxAttempts s act ∧ s.narrow)
    · rw [← hinit]
      exact Policed.init cfg
    · intro tr s act hP h
      exact h.step hplain hP.1 hP.2
    · intro x hx
      have hmem : x ∈ Machine.trace (Pipeline.step kafka) (Pipeline.init cfg) acts := by
        rw [happ, Machine.trace_append]
        exact List.mem_append_left _ hx
      exact ⟨hacts x hmem, hnarrow x hmem⟩
  have h := hpoliced acts [] (List.append_nil acts).symm
  refine ⟨h.tallied.attempts, ?_, ?_⟩
  · intro pre x post hsplit
    have hmem : x ∈ tr := by
      rw [hsplit]
      exact List.mem_append_right _ List.mem_cons_self
    rcases Machine.trace_eq_append_cons hsplit with ⟨as, bs, happ, hpre, hx⟩
    have hat := hpoliced as (x.2 :: bs) happ
    rw [← hpre, ← hx] at hat
    exact ⟨hat.follows (hacts x hmem) (hnarrow x hmem), settles_of_guarded hat.guarded⟩
  · intro id t
    exact ⟨le_trans (Nat.le_add_right _ _) (h.sends id), h.tallied.bound id⟩

/-- The failed event of `retriedSend` is sent a second time. -/
theorem sends_are_bounded_retried :
    let tr := Machine.trace (Pipeline.step sampleKafka) (Pipeline.init (sampleConfig "events"))
      retriedSend
    (∀ x ∈ tr, x.1.polled x.2 = true ∧ x.1.narrow) ∧ sends "a" tr = 2 ∧
      (tally "a" (outboxHistory tr)).marks = 2 ∧
      ∀ id, ((tally id (outboxHistory tr)).marks : Int) ≤
        50 + (tally id (outboxHistory tr)).requeues + (tally id (outboxHistory tr)).revivals := by
  intro tr
  have hmet : ∀ x ∈ tr, x.1.polled x.2 = true ∧ x.1.narrow := by
    unfold Pipeline.narrow
    decide +kernel
  have hact : ∀ act ∈ retriedSend, (∀ cfg, act ≠ .create cfg) ∧
      (act.env = none ∨ act.env = some sampleEnv ∨ act.env = some laterEnv) := by
    simp [retriedSend, firstSend, Act.env, or_imp, forall_and]
  refine ⟨hmet, by decide +kernel, by decide +kernel, fun id => ?_⟩
  refine ((sends_are_bounded sampleKafka (sampleConfig "events") retriedSend 50 rfl
    plain_sampleKafka (fun x hx => ?_) fun x hx => (hmet x hx).2).2.2 id).2
  rcases hact x.2 (Machine.mem_of_mem_trace hx) with ⟨hcreate, henv⟩
  exact .of_env (hmet x hx).1 hcreate henv (by simp [sampleEnv]) (by simp [laterEnv])

/-! ## A count that no longer fits -/

/-- An ungrouped event that has been marked `n` times. -/
def wornRow (n : Nat) : Row where
  eventId := "a"
  topic := "events"
  msgKey := some "key"
  payload := []
  createdAtMs := 1000
  callUuid := some ""
  callSeq := none
  state := .pending
  attempts := n
  nextAttemptAtMs := 1000
  lastError := some ""
  updatedAtMs := 1000
  eligibleAtMs := some 1000

/-- A running pipeline with that event, at the head of `worker_loop`. -/
def worn (n : Nat) : Pipeline where
  cfg := sampleConfig "events"
  outbox := ⟨⟨⟨[wornRow n], List.nodup_singleton _, List.nodup_nil⟩, .empty, .empty, n⟩, true⟩
  metrics := Metrics.zero
  running := true
  accept := true
  rebuildRequested := false
  stopping := false
  worker := .loop
  callback := none
  producer := some (n + 1)
  producers := n + 2
  messages := []
  log := []

/-- The producer has no room for the message. -/
def busyEnv : Env := { sampleEnv with produced := some (.other 1) }

/-- Admit the event, and start once more. -/
def admitOne : List Act :=
  [.start sampleEnv, .enqueue ⟨"a", [], "key", "", -1⟩ sampleEnv, .crash, .start sampleEnv]

/-- One round of `worker_loop` up to the `mark_in_flight` of the event. -/
def markOne : List Act := List.replicate 5 (.work sampleEnv)

/-- The event is marked in flight, and the process dies before it is sent. -/
def wear : List Act := markOne ++ [.crash, .start sampleEnv]

/-- Wear the event out `n` times, then mark it once more and fail to send it. -/
def wornOut (n : Nat) : List Act :=
  admitOne ++ (List.replicate n wear).flatten ++ markOne ++ List.replicate 2 (.work busyEnv)

/-- One event is admitted, and has not been sent yet. -/
theorem run_admitOne :
    Machine.run (Pipeline.step sampleKafka) (Pipeline.init (sampleConfig "events")) admitOne =
      worn 0 := by
  decide

/-- The event with its count raised, in flight and in the worker's hand. -/
def wornMarked (n : Nat) : Pipeline :=
  { worn n with
    outbox := ⟨(worn n).outbox.db.sent (wornRow n) 1000, true⟩
    worker := .produce (record (wornRow n)) [] }

/-- Without faults a sendable row is marked. -/
theorem exec_markInFlight {b : Outbox} {r : Row} (now : Int) (hopen : b.isOpen = true)
    (hr : r ∈ b.db.outbox) (hstate : r.state = .pending)
    (hdel : b.db.deliverable r.toEvent = true) (hturn : b.db.turn < int64Max) :
    b.exec (.markInFlight r.eventId now noFault) = (.ok 0, ⟨b.db.sent r now, true⟩) := by
  rcases hexec : b.exec (.markInFlight r.eventId now noFault) with ⟨reply, b'⟩
  have hok : reply = .ok 0 :=
    (congrArg Prod.fst hexec).symm.trans (markInFlight_enabled now hopen hr hstate hdel hturn)
  subst hok
  rcases call_ok hexec with ⟨_, hrun, -⟩
  rcases markInFlight_ok hrun with ⟨q, hq, hsend, -, hdb⟩
  have hqr : q = r := Table.eq_of_key hq hr (sendable_iff.mp hsend).1
  have hopen' : b'.isOpen = true := by
    rw [show b' = b.step (.markInFlight r.eventId now noFault) from (congrArg Prod.snd hexec).symm,
      b.step_isOpen rfl, hopen]
  cases b'
  simp_all

/-- The worker has fetched the event. -/
def wornFetched (n : Nat) : Pipeline := { worn n with worker := .batch [record (wornRow n)] }

/-- The worker fetches the event. -/
theorem run_fetchOne (n : Nat) :
    Machine.run (Pipeline.step sampleKafka) (worn n) (List.replicate 4 (.work sampleEnv)) =
      wornFetched n := rfl

theorem step_of_marked {kafka : Kafka} {s : Pipeline} {env : Env} {rec : OutboxRecord}
    {rest : List OutboxRecord} {n : Int} {b : Outbox} (hcb : s.callback = none)
    (hw : s.worker = .batch (rec :: rest)) (hrun : s.running = true)
    (hreb : s.rebuildRequested = false)
    (hexec : s.outbox.exec (.markInFlight rec.eventId (env.clock 0) env.fault) = (.ok n, b)) :
    s.step kafka (.work env) = { s with outbox := b, worker := .produce rec rest } := by
  simp [Pipeline.step, hcb, Pipeline.work, hw, hrun, hreb, hexec]

/-- The fetched event is marked in flight. -/
theorem run_markOne {n : Nat} (hn : (n : Int) < int64Max) :
    Machine.run (Pipeline.step sampleKafka) (worn n) markOne = wornMarked n := by
  have hexec : (wornFetched n).outbox.exec (.markInFlight "a" 1000 noFault) =
      (.ok 0, (wornMarked n).outbox) :=
    exec_markInFlight (b := (worn n).outbox) (r := wornRow n) 1000 rfl
      (List.mem_singleton_self _) rfl rfl hn
  rw [show markOne = List.replicate 4 (.work sampleEnv) ++ [.work sampleEnv] from rfl,
    Machine.run_snoc, run_fetchOne]
  exact step_of_marked rfl rfl rfl rfl hexec

/-- One round: the event is marked, refused and put back with one more attempt. -/
theorem run_wear {n : Nat} (hn : (n : Int) < int64Max) :
    Machine.run (Pipeline.step sampleKafka) (worn n) wear = worn (n + 1) := by
  rw [wear, Machine.run_append, run_markOne hn]
  rfl

/-- Any number of such rounds. -/
theorem run_wears {n : Nat} (hn : (n : Int) < int64Max) :
    Machine.run (Pipeline.step sampleKafka) (worn 0) (List.replicate n wear).flatten = worn n := by
  induction n with
  | zero => rfl
  | succ n ih =>
    have hlt : (n : Int) < int64Max := by omega
    rw [List.replicate_succ', List.flatten_append, Machine.run_append, ih hlt]
    simpa using run_wear hlt

/-- The send of the worn event has failed. -/
def wornFailed (n : Nat) : Pipeline :=
  { wornMarked n with
    metrics := { Metrics.zero with produceFail := 1 }
    worker := .settle "a" "error" false [] }

/-- The verdict on the worn event is to try again. -/
def wornSettling (n : Nat) : Pipeline :=
  { wornFailed n with worker := .settleMark "a" "error" (.retry (-2 ^ 31)) [] }

theorem step_of_judged {kafka : Kafka} {s : Pipeline} {env : Env} {id why : String}
    {permanent : Bool} {rest : List OutboxRecord} {verdict : Verdict} (hcb : s.callback = none)
    (hw : s.worker = .settle id why permanent rest)
    (hjudge : s.outbox.judge s.cfg.maxAttemptsBeforeDead id permanent env.fault =
      .ok (some verdict)) :
    s.step kafka (.work env) = { s with worker := .settleMark id why verdict rest } := by
  simp [Pipeline.step, hcb, Pipeline.work, hw, hjudge]

/-- At last the count does not fit an `int`, with the refusal still to be settled. -/
theorem run_wornOut {n : Nat} (hn : n + 1 = 2 ^ 31) :
    Machine.run (Pipeline.step sampleKafka) (Pipeline.init (sampleConfig "events")) (wornOut n) =
      wornSettling n := by
  have hlt : (n : Int) < int64Max := by
    unfold int64Max
    omega
  have hcount : toInt32 ((n : Int) + 1) = -2 ^ 31 := by
    rw [show (n : Int) + 1 = 2 ^ 31 by omega]
    decide
  rw [wornOut, Machine.run_append, Machine.run_append, Machine.run_append, run_admitOne,
    run_wears hlt, run_markOne hlt]
  -- `get` reads the count into an `int`
  have hget : (wornFailed n).outbox.get "a" noFault =
      .ok (some (record { wornRow n with state := .inFlight, attempts := n + 1 })) := rfl
  have hjudge : (wornFailed n).outbox.judge 50 "a" false noFault =
      .ok (some (.retry (-2 ^ 31))) := by
    unfold Outbox.judge
    rw [hget]
    simp [record, hcount]
  have hsend : (wornMarked n).step sampleKafka (.work busyEnv) = wornFailed n := rfl
  rw [List.replicate_succ, List.replicate_one, Machine.run_cons, hsend, Machine.run_cons,
    Machine.run_nil]
  exact step_of_judged rfl rfl hjudge

/-- None of these steps is out of the ordinary. -/
theorem regular_of_wornOut {maxAttempts : Int} {s : Pipeline} {act : Act} {n : Nat}
    (h : act ∈ wornOut n) : Regular maxAttempts s act := by
  have hact : act ∈ admitOne ∨ act ∈ wear ∨ act ∈ markOne ∨ act = .work busyEnv := by
    simp only [wornOut, List.mem_append, List.mem_flatten, List.mem_replicate] at h
    grind
  simp only [admitOne, wear, markOne, List.mem_append, List.mem_replicate, List.mem_cons,
    List.not_mem_nil, or_false] at hact
  have hpolled : s.polled act = true := by
    cases act with
    | report i err => simp at hact
    | _ => rfl
  have hcreate : ∀ cfg, act ≠ .create cfg := by
    rintro cfg rfl
    simp at hact
  have henv : act.env = none ∨ act.env = some sampleEnv ∨ act.env = some busyEnv := by
    rcases hact with (rfl | rfl | rfl | rfl) | (⟨-, rfl⟩ | rfl | rfl) | ⟨-, rfl⟩ | rfl <;>
      simp [Act.env]
  exact .of_env hpolled hcreate henv (by simp [sampleEnv]) (by simp [busyEnv, sampleEnv])

/-- Marked 2^31 times, the event reads as never tried: a failed send puts it back to
`pending`, though its count has long reached the limit. -/
theorem worn_event_retried :
    ¬ ∀ (kafka : Kafka) (cfg : Config) (acts : List Act) (maxAttempts : Int),
      cfg.maxAttemptsBeforeDead = maxAttempts → Plain kafka →
      (∀ x ∈ Machine.trace (Pipeline.step kafka) (Pipeline.init cfg) acts,
        Regular maxAttempts x.1 x.2) →
      ∀ pre x post, Machine.trace (Pipeline.step kafka) (Pipeline.init cfg) acts =
        pre ++ x :: post → FollowsPolicy maxAttempts kafka pre x.1 x.2 := by
  intro h
  obtain ⟨n, hn⟩ : ∃ n, n + 1 = 2 ^ 31 := ⟨2 ^ 31 - 1, by decide⟩
  have hpolicy := h sampleKafka (sampleConfig "events") (wornOut n ++ [.work sampleEnv]) 50 rfl
    plain_sampleKafka (fun x hx => by
      rcases List.mem_append.mp (Machine.mem_of_mem_trace hx) with hworn | hlast
      · exact regular_of_wornOut hworn
      · refine regular_of_wornOut (n := 0) ?_
        rw [List.mem_singleton.mp hlast]
        simp [wornOut, markOne]) _ _ [] (Machine.trace_snoc _ _)
  rw [run_wornOut hn] at hpolicy
  rcases hpolicy.worker sampleEnv "a" "error" (.retry (-2 ^ 31)) [] 0 rfl rfl rfl rfl with
    ⟨code, -, r, hr, -, -, r', hr', -, -, hstate⟩
  have hcount : r.attempts = n + 1 := by
    rw [List.mem_singleton.mp hr]
    rfl
  have hpending : r'.state = .pending := by
    rw [List.mem_singleton.mp hr']
    rfl
  rw [if_pos (Or.inr (by omega)), hpending] at hstate
  cases hstate

end EventKafka
