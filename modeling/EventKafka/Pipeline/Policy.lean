import EventKafka.Pipeline.Barrier
import Mathlib.Tactic.Linarith
import Mathlib.Tactic.Positivity
import Mathlib.Tactic.Ring

/-! # The failure policy

A send fails in two ways: `rd_kafka_producev` refuses the message, and `produce_record`
encodes the error code as a prefix of its text; or a delivery report carries the code.
Both end in `settle_send_failure`, which takes the row to `dead` or back to `pending`.
Between the failure and the transition the pipeline takes other steps, so the code is
looked up in the history: `lastRefusal` for the worker, `lastReport` for `on_delivery`.

`settle_send_failure` compares the limit with `attempts` as the record returns it, an
`int`. The results here are for counts that an `int` holds.
-/

namespace EventKafka

open Sql

/-! ## The policy -/

/-- What becomes of the row `id` in flight after a failed send. -/
def SettledAs (maxAttempts : Int) (permanent : Bool) (now : Int) (id : String) (db db' : Db) :
    Prop :=
  ∃ r ∈ db.outbox, r.eventId = id ∧ r.state = .inFlight ∧
    ∃ r' ∈ db'.outbox, r'.toEvent = r.toEvent ∧ r'.attempts = r.attempts ∧
      if permanent = true ∨ maxAttempts ≤ r.attempts then r'.state = .dead
      else r'.state = .pending ∧ now + 200 ≤ r'.nextAttemptAtMs ∧
        r'.nextAttemptAtMs ≤ now + 25696

/-- The verdict of `settle_send_failure` on the row `id`, if it is still in flight. -/
def Decided (maxAttempts : Int) (permanent : Bool) (db : Db) (id : String) (verdict : Verdict) :
    Prop :=
  ∀ r ∈ db.outbox, r.eventId = id → r.state = .inFlight →
    verdict = if permanent || decide (maxAttempts ≤ toInt32 r.attempts) then .dead
      else .retry (toInt32 r.attempts)

theorem toInt32_eq {x : Int} (hlo : 0 ≤ x) (hhi : x < 2 ^ 31) : toInt32 x = x := by
  unfold toInt32 UInt32.size
  rw [Int.bmod_eq_of_le] <;> omega

/-- Each round of the loop of `attempt_backoff_ms` doubles the base or keeps it. -/
theorem foldl_double (attempts : Int) (l : List Int) (base : Int) (h : 0 ≤ base) :
    base ≤ l.foldl (fun base i => if i < attempts then base * 2 else base) base ∧
      l.foldl (fun base i => if i < attempts then base * 2 else base) base ≤
        base * 2 ^ l.length := by
  induction l generalizing base with
  | nil => simp
  | cons i l ih =>
    rw [List.foldl_cons, List.length_cons, pow_succ]
    have hpow : (0 : Int) < 2 ^ l.length := by positivity
    split
    · have := ih (base * 2) (by omega)
      constructor
      · omega
      · calc _ ≤ base * 2 * 2 ^ l.length := this.2
          _ = base * (2 ^ l.length * 2) := by ring
    · have := ih base h
      constructor
      · exact this.1
      · calc _ ≤ base * 2 ^ l.length := this.2
          _ ≤ base * (2 ^ l.length * 2) := by nlinarith

theorem attemptBackoffMs_bounds (attempts : Int) {now : Int} (hnow : 0 ≤ now) :
    200 ≤ attemptBackoffMs attempts now ∧ attemptBackoffMs attempts now ≤ 25696 := by
  have hlo : 0 ≤ now.tmod 97 := Int.tmod_nonneg 97 hnow
  have hhi : now.tmod 97 < 97 := Int.tmod_lt_of_pos now (by decide)
  have hbase := foldl_double attempts [1, 2, 3, 4, 5, 6, 7] 200 (by decide)
  rw [show (200 : Int) * 2 ^ [(1 : Int), 2, 3, 4, 5, 6, 7].length = 25600 from rfl] at hbase
  unfold attemptBackoffMs
  dsimp only
  split <;> omega

theorem Outbox.decided_of_judge {b : Outbox} {maxAttempts : Int} {id : String} {permanent : Bool}
    {fault : FaultPlan} {verdict : Verdict}
    (h : b.judge maxAttempts id permanent fault = .ok (some verdict)) :
    Decided maxAttempts permanent b.db id verdict := by
  intro r hr hid hflight
  have hfind : b.db.outbox.find? id = some r := Table.find?_eq_some.mpr ⟨hr, hid⟩
  unfold Outbox.judge at h
  rw [Outbox.get_eq, hfind] at h
  cases hopen : b.isOpen with
  | false => simp [hopen] at h
  | true =>
    cases hfault : fault .getRow with
    | some e => simp [hopen, hfault] at h
    | none =>
      simp only [hopen, hfault, if_true, Option.map_some, record, hflight, ne_eq,
        not_true_eq_false, if_false] at h
      split at h
      · rename_i hdead
        cases h
        simp [hdead]
      · rename_i hdead
        cases h
        simp [hdead]

/-- The transition of a verdict that was decided for the row, on a count an `int` holds. -/
theorem settledAs_of_exec {b b' : Outbox} {maxAttempts : Int} {permanent : Bool} {id why : String}
    {verdict : Verdict} {env : Env} {n : Int} (hfly : Flying b.db fun e => e.eventId = id)
    (hdec : Decided maxAttempts permanent b.db id verdict)
    (hcount : ∀ r ∈ b.db.outbox, 0 ≤ r.attempts ∧ r.attempts < 2 ^ 31)
    (hclock : ∀ k, 0 ≤ env.clock k)
    (hexec : b.exec (verdict.op id why env) = (.ok n, b')) :
    SettledAs maxAttempts permanent (env.clock 0) id b.db b'.db := by
  rcases hfly with ⟨r, hr, hid, hflight⟩
  have hverdict := hdec r hr hid hflight
  rw [toInt32_eq (hcount r hr).1 (hcount r hr).2] at hverdict
  refine ⟨r, hr, hid, hflight, ?_⟩
  cases verdict with
  | dead =>
    have hdead : permanent = true ∨ maxAttempts ≤ r.attempts := by
      by_contra hno
      push Not at hno
      simp [hno.1, not_le.mpr hno.2] at hverdict
    rcases call_ok hexec with ⟨_, hrun, -⟩
    rw [(updateOne_ok hrun).2]
    refine ⟨_, Db.mem_updateOutbox.mpr ⟨r, hr, rfl⟩, ?_⟩
    simp [hid, hflight, hdead]
  | retry attempts =>
    have hlive : ¬ (permanent = true ∨ maxAttempts ≤ r.attempts) := by
      rintro (hp | hle)
      · simp [hp] at hverdict
      · simp [hle] at hverdict
    rcases call_ok hexec with ⟨_, hrun, -⟩
    rw [(updateOne_ok hrun).2]
    refine ⟨_, Db.mem_updateOutbox.mpr ⟨r, hr, rfl⟩, ?_⟩
    have hback := attemptBackoffMs_bounds attempts (hclock 1)
    simp only [hid, hflight, decide_true, Bool.and_self, if_true, hlive, if_false, true_and]
    omega

/-! ## Error codes -/

/-- The synchronous failure of this step: the event, and the error code if
`rd_kafka_producev` was called. -/
def Pipeline.refused (s : Pipeline) : Act → Option (String × Option ErrCode)
  | .work env =>
    match s.callback, s.worker, s.producer, env.produced with
    | none, .produce rec _, none, _ => some (rec.eventId, none)
    | none, .produce rec _, some _, some e => some (rec.eventId, some e)
    | _, _, _, _ => none
  | _ => none

/-- The failed delivery this step reports: the message, and the error code. -/
def Pipeline.reportedError (s : Pipeline) : Act → Option (Nat × ErrCode)
  | .report i (some e) => if s.callback ≠ none ∨ s.messages.length ≤ i then none else some (i, e)
  | _ => none

/-- The last synchronous failure of a history. -/
def lastRefusal (tr : List (Pipeline × Act)) : Option (String × Option ErrCode) :=
  tr.foldl (fun g x => (x.1.refused x.2).or g) none

/-- The last failed delivery of a history. -/
def lastReport (tr : List (Pipeline × Act)) : Option (Nat × ErrCode) :=
  tr.foldl (fun g x => (x.1.reportedError x.2).or g) none

theorem lastRefusal_snoc (tr : List (Pipeline × Act)) (s : Pipeline) (act : Act) :
    lastRefusal (tr ++ [(s, act)]) = (s.refused act).or (lastRefusal tr) := by
  simp [lastRefusal, List.foldl_append]

theorem lastReport_snoc (tr : List (Pipeline × Act)) (s : Pipeline) (act : Act) :
    lastReport (tr ++ [(s, act)]) = (s.reportedError act).or (lastReport tr) := by
  simp [lastReport, List.foldl_append]

/-- The text of a code does not read as one of the prefixes of `produce_record`. -/
def Plain (kafka : Kafka) : Prop :=
  ∀ e, startsWith (kafka.err2str e) "FATAL:" = false ∧
    startsWith (kafka.err2str e) "PERMANENT:" = false

/-- The prefix says what the code says. -/
theorem startsWith_permanent {kafka : Kafka} (hplain : Plain kafka) {e : ErrCode} {g : Nat}
    {why : String} (h : produceError kafka (some g) (some e) = some why) :
    startsWith why "PERMANENT:" = isPermanentError e := by
  unfold produceError at h
  simp only at h
  split at h
  · rename_i hfatal
    cases h
    rw [hfatal, startsWith, String.toList_append]
    rfl
  · split at h
    · rename_i hperm
      cases h
      simp [startsWith, String.toList_append, hperm]
    · rename_i hperm
      cases h
      simp [(hplain e).2, hperm]

/-! ## What is being settled -/

/-- A settlement in progress is of the last failure, and its verdict fits the row. -/
structure Judged (maxAttempts : Int) (tr : List (Pipeline × Act)) (s : Pipeline) : Prop where
  limit : s.cfg.maxAttemptsBeforeDead = maxAttempts
  settle : ∀ id why permanent rest, s.worker = .settle id why permanent rest →
    ∃ code, lastRefusal tr = some (id, code) ∧ permanent = code.any isPermanentError
  settleMark : ∀ id why verdict rest, s.worker = .settleMark id why verdict rest →
    ∃ code, lastRefusal tr = some (id, code) ∧
      Decided maxAttempts (code.any isPermanentError) s.outbox.db id verdict
  report : ∀ i why permanent, s.callback = some (.settle i why permanent) →
    ∃ code, lastReport tr = some (i, code) ∧ permanent = isPermanentError code
  reportMark : ∀ i why verdict, s.callback = some (.settleMark i why verdict) →
    ∃ code, lastReport tr = some (i, code) ∧
      Decided maxAttempts (isPermanentError code) s.outbox.db (s.opaqueId i) verdict

section Judged

variable {maxAttempts : Int} {kafka : Kafka} {tr tr' : List (Pipeline × Act)} {s s' : Pipeline}

/-- Nothing is being settled. -/
theorem Judged.unheld (hlimit : s.cfg.maxAttemptsBeforeDead = maxAttempts)
    (hhold : s.worker.holding = none) (hcb : s.callback = none) : Judged maxAttempts tr s := by
  refine ⟨hlimit, ?_, ?_, by simp [hcb], by simp [hcb]⟩
  · intro id why permanent rest hw
    simp [hw, Worker.holding] at hhold
  · intro id why verdict rest hw
    simp [hw, Worker.holding] at hhold

/-- A step that lets the worker and the callback be, and puts no row in flight. -/
theorem Judged.keep (h : Judged maxAttempts tr s)
    (hlimit : s'.cfg.maxAttemptsBeforeDead = s.cfg.maxAttemptsBeforeDead)
    (hw : s'.worker = s.worker) (hcb : s'.callback = s.callback)
    (hmsgs : s'.messages = s.messages) (href : lastRefusal tr' = lastRefusal tr)
    (hrep : lastReport tr' = lastReport tr)
    (hrows : ∀ r' ∈ s'.outbox.db.outbox, r'.state = .inFlight → r' ∈ s.outbox.db.outbox) :
    Judged maxAttempts tr' s' := by
  have hdec : ∀ {permanent id verdict}, Decided maxAttempts permanent s.outbox.db id verdict →
      Decided maxAttempts permanent s'.outbox.db id verdict :=
    fun hd r hr hid hflight => hd r (hrows r hr hflight) hid hflight
  refine ⟨hlimit.trans h.limit, ?_, ?_, ?_, ?_⟩
  · rw [hw, href]
    exact h.settle
  · rw [hw, href]
    intro id why verdict rest hmark
    rcases h.settleMark id why verdict rest hmark with ⟨code, hcode, hd⟩
    exact ⟨code, hcode, hdec hd⟩
  · rw [hcb, hrep]
    exact h.report
  · rw [hcb, hrep]
    intro i why verdict hmark
    rcases h.reportMark i why verdict hmark with ⟨code, hcode, hd⟩
    rw [Pipeline.opaqueId, hmsgs]
    exact ⟨code, hcode, hdec hd⟩

theorem Judged.work {env : Env} (hplain : Plain kafka) (h : Judged maxAttempts tr s)
    (hcb : s.callback = none) :
    Judged maxAttempts (tr ++ [(s, Act.work env)]) (s.work kafka env) := by
  have hframe := (work_cases kafka s env).frame
  have hlimit : (s.work kafka env).cfg.maxAttemptsBeforeDead = maxAttempts := by
    rw [hframe.1]
    exact h.limit
  have hcb' : (s.work kafka env).callback = none := hframe.2.2.1.trans hcb
  have hnone : ∀ cb, (s.work kafka env).callback ≠ some cb := by simp [hcb']
  refine ⟨hlimit, ?_, ?_, fun i why permanent hc => absurd hc (hnone _),
    fun i why verdict hc => absurd hc (hnone _)⟩
  · intro id why permanent rest hsettle
    rw [lastRefusal_snoc]
    -- a settlement begins when `produce_record` returns false
    cases hw : s.worker with
    | produce rec rest' =>
      cases hg : s.producer with
      | none =>
        simp only [Pipeline.work, hw, hg, produceError] at hsettle
        cases hsettle
        exact ⟨none, by simp [Pipeline.refused, hcb, hw, hg], by decide⟩
      | some g =>
        cases hp : env.produced with
        | none => simp [Pipeline.work, hw, hg, hp, produceError] at hsettle
        | some e =>
          rcases hwhy : produceError kafka (some g) (some e) with - | why'
          · simp [Pipeline.work, hw, hg, hp, hwhy] at hsettle
          · simp only [Pipeline.work, hw, hg, hp, hwhy] at hsettle
            cases hsettle
            exact ⟨some e, by simp [Pipeline.refused, hcb, hw, hg, hp],
              startsWith_permanent hplain hwhy⟩
    | batch due =>
      cases due with
      | nil => simp [Pipeline.work, hw] at hsettle
      | cons rec rest' =>
        simp only [Pipeline.work, hw] at hsettle
        repeat' split at hsettle
        all_goals simp [Pipeline.throw] at hsettle
    | _ =>
      simp only [Pipeline.work, hw] at hsettle
      repeat' split at hsettle
      all_goals simp_all [Pipeline.throw]
  · intro id why verdict rest hmark
    rw [lastRefusal_snoc]
    cases hw : s.worker with
    | settle id' why' permanent rest' =>
      rcases h.settle id' why' permanent rest' hw with ⟨code, hcode, hperm⟩
      cases hj : s.outbox.judge s.cfg.maxAttemptsBeforeDead id' permanent env.fault with
      | error e => simp [Pipeline.work, hw, hj, Pipeline.throw] at hmark
      | ok found =>
        cases found with
        | none => simp [Pipeline.work, hw, hj, Pipeline.throw] at hmark
        | some v =>
          have hdec := Outbox.decided_of_judge hj
          rw [h.limit, hperm] at hdec
          simp only [Pipeline.work, hw, hj] at hmark ⊢
          cases hmark
          exact ⟨code, by simp [Pipeline.refused, hcb, hw, hcode], hdec⟩
    | batch due =>
      cases due with
      | nil => simp [Pipeline.work, hw] at hmark
      | cons rec rest' =>
        simp only [Pipeline.work, hw] at hmark
        repeat' split at hmark
        all_goals simp [Pipeline.throw] at hmark
    | _ =>
      simp only [Pipeline.work, hw] at hmark
      repeat' split at hmark
      all_goals simp_all [Pipeline.throw]

theorem Judged.callback {env : Env} (hguard : Guarded s) (h : Judged maxAttempts tr s) :
    Judged maxAttempts (tr ++ [(s, Act.callback env)]) (s.step kafka (.callback env)) := by
  have hrep : lastReport (tr ++ [(s, Act.callback env)]) = lastReport tr := by
    rw [lastReport_snoc]
    rfl
  have href : lastRefusal (tr ++ [(s, Act.callback env)]) = lastRefusal tr := by
    rw [lastRefusal_snoc]
    rfl
  have hlimit : (s.step kafka (.callback env)).cfg.maxAttemptsBeforeDead = maxAttempts := by
    rw [(callback_cases kafka s env).frame.1]
    exact h.limit
  -- whoever runs `on_delivery` is polling and settles nothing of its own
  have hhold : s.callback ≠ none → s.worker.holding = none := fun hcb =>
    (Worker.free_of_polling (hguard.polling hcb)).2
  cases callback_cases kafka s env with
  | stays heq =>
    rw [heq]
    exact h.keep rfl rfl rfl rfl href hrep fun _ hr _ => hr
  | acked hcb _ hsame =>
    exact .unheld hlimit (hsame.worker ▸ hhold (by simp [hcb])) hsame.callback
  | failed hcb hsame =>
    exact .unheld hlimit (hsame.worker ▸ hhold (by simp [hcb])) hsame.callback
  | settled hcb _ hsame =>
    exact .unheld hlimit (hsame.worker ▸ hhold (by simp [hcb])) hsame.callback
  | escaped heq =>
    rw [heq] at hlimit ⊢
    exact .unheld hlimit rfl rfl
  | @judged i why permanent verdict hcb hsame =>
    have hhold' : (s.step kafka (.callback env)).worker.holding = none :=
      hsame.worker ▸ hhold (by simp [hcb])
    refine ⟨hlimit, ?_, ?_, ?_, ?_⟩
    · intro id why' permanent' rest hw
      simp [hw, Worker.holding] at hhold'
    · intro id why' verdict' rest hw
      simp [hw, Worker.holding] at hhold'
    · rw [hsame.callback]
      simp
    · intro j why' verdict' hmark
      rcases h.report i why permanent hcb with ⟨code, hcode, hperm⟩
      have hdec : Decided maxAttempts permanent s.outbox.db (s.opaqueId i) verdict := by
        have hstep := hsame.callback
        simp only [Pipeline.step, Pipeline.deliver, hcb] at hstep
        cases hj : s.outbox.judge s.cfg.maxAttemptsBeforeDead (s.opaqueId i) permanent
            env.fault with
        | error e => simp [hj, Pipeline.crash] at hstep
        | ok found =>
          cases found with
          | none => simp [hj, Pipeline.returned] at hstep
          | some v =>
            simp only [hj, Option.some.injEq, Callback.settleMark.injEq, true_and] at hstep
            rw [← h.limit, ← hstep]
            exact Outbox.decided_of_judge hj
      rw [hsame.callback] at hmark
      cases hmark
      rw [hsame.outbox, Pipeline.opaqueId, hsame.messages, hrep]
      exact ⟨code, hcode, hperm ▸ hdec⟩

theorem Judged.reported {i : Nat} {err : Option ErrCode} (h : Judged maxAttempts tr s) :
    Judged maxAttempts (tr ++ [(s, Act.report i err)]) (s.step kafka (.report i err)) := by
  have href : lastRefusal (tr ++ [(s, Act.report i err)]) = lastRefusal tr := by
    rw [lastRefusal_snoc]
    rfl
  have hrep := lastReport_snoc tr s (.report i err)
  simp only [Pipeline.step, Pipeline.report]
  split
  · rename_i hguard
    -- the report was not served, so it is none of this history
    refine h.keep rfl rfl rfl rfl href ?_ fun _ hr _ => hr
    rw [hrep]
    cases err with
    | none => rfl
    | some e =>
      have hno : s.callback ≠ none ∨ s.messages.length ≤ i := by simpa using hguard
      simp [Pipeline.reportedError, hno]
  · rename_i hguard
    push Not at hguard
    cases err with
    | none =>
      exact ⟨h.limit, href ▸ h.settle, href ▸ h.settleMark, by simp [Pipeline.enter],
        by simp [Pipeline.enter]⟩
    | some e =>
      have hcode : lastReport (tr ++ [(s, Act.report i (some e))]) = some (i, e) := by
        rw [hrep]
        simp [Pipeline.reportedError, hguard.1, hguard.2.1]
      refine ⟨h.limit, href ▸ h.settle, href ▸ h.settleMark, ?_, by simp [Pipeline.enter]⟩
      intro j why permanent hsettle
      cases hsettle
      exact ⟨e, hcode, rfl⟩

/-- An admission puts no row in flight. -/
theorem inFlight_of_enqueue {args : EnqueueArgs} {env : Env} {r : Row}
    (hr : r ∈ (s.step kafka (.enqueue args env)).outbox.db.outbox) (hstate : r.state = .inFlight) :
    r ∈ s.outbox.db.outbox := by
  rw [step_outbox] at hr
  simp only [Pipeline.calls] at hr
  split at hr
  · exact hr
  · simp only [Machine.run_cons, Machine.run_nil] at hr
    rcases s.outbox.effect (.insertPending s.cfg.limits (args.toRecord s.cfg (env.clock 0))
      (env.clock 1) env.fault) with ⟨heq, -⟩ | ⟨hop, -, hadm⟩ | ⟨hop⟩ | ⟨hop⟩ | ⟨hop⟩
    · rw [heq] at hr
      exact hr
    · cases hop
      rcases hadm.mem_outbox.mp hr with hbase | rfl
      · exact hadm.room.mem_of_mem hbase
      · simp [newRow] at hstate
    · cases hop
    · cases hop
    · cases hop

theorem Judged.step {act : Act} (hplain : Plain kafka) (hguard : Guarded s)
    (hcfg : ∀ cfg, act = .create cfg → cfg.maxAttemptsBeforeDead = maxAttempts)
    (h : Judged maxAttempts tr s) :
    Judged maxAttempts (tr ++ [(s, act)]) (s.step kafka act) := by
  -- a step with no refusal and no failed report leaves what the trace last said
  have hkeep : s.refused act = none → s.reportedError act = none →
      lastRefusal (tr ++ [(s, act)]) = lastRefusal tr ∧
        lastReport (tr ++ [(s, act)]) = lastReport tr := by
    intro hno hno'
    rw [lastRefusal_snoc, lastReport_snoc, hno, hno']
    exact ⟨rfl, rfl⟩
  cases act with
  | work env =>
    simp only [Pipeline.step]
    split
    · rename_i hcb
      exact h.work hplain hcb
    · rename_i hcb
      have hno : s.refused (.work env) = none := by
        cases hc : s.callback with
        | none => exact absurd hc hcb
        | some cb => simp [Pipeline.refused, hc]
      have hsame := hkeep hno rfl
      exact h.keep rfl rfl rfl rfl hsame.1 hsame.2 fun _ hr _ => hr
  | callback env => exact h.callback hguard
  | report i err => exact h.reported
  | create cfg =>
    have hsame := hkeep rfl rfl
    simp only [Pipeline.step, Pipeline.create]
    split
    -- a new configuration: no thread holds a verdict yet
    · rename_i hidle
      exact .unheld (hcfg cfg rfl) (by rw [hidle.1]; rfl)
        (hguard.callback_none (by rw [hidle.1]; rfl))
    · exact h.keep rfl rfl rfl rfl hsame.1 hsame.2 fun _ hr _ => hr
  | start env =>
    have hsame := hkeep rfl rfl
    simp only [Pipeline.step]
    cases start_cases s env with
    | refused _ heq =>
      rw [heq]
      exact h.keep rfl rfl rfl rfl hsame.1 hsame.2 fun _ hr _ => hr
    | failed _ hidle _ heq =>
      rw [heq]
      exact .unheld h.limit (by rw [hidle]; rfl) (hguard.callback_none (by rw [hidle]; rfl))
    | started _ hidle _ _ _ heq =>
      rw [heq]
      exact .unheld h.limit rfl (hguard.callback_none (by rw [hidle]; rfl))
  | enqueue args env =>
    have hsame := hkeep rfl rfl
    refine h.keep ?_ ?_ ?_ ?_ hsame.1 hsame.2 fun _ => inFlight_of_enqueue
    all_goals simp only [Pipeline.step, Pipeline.enqueue]
    all_goals repeat' split
    all_goals rfl
  | joined =>
    have hsame := hkeep rfl rfl
    simp only [Pipeline.step, Pipeline.joined]
    split
    -- a thread is joined only once it holds nothing
    · rename_i hjoin
      refine .unheld h.limit rfl (hguard.callback_none ?_)
      rcases hjoin.2 with hw | hw <;> rw [hw] <;> rfl
    · exact h.keep rfl rfl rfl rfl hsame.1 hsame.2 fun _ hr _ => hr
  | retryDead id env =>
    have hsame := hkeep rfl rfl
    simp only [Pipeline.step, Pipeline.retryDead]
    split
    · exact h.keep rfl rfl rfl rfl hsame.1 hsame.2 fun _ hr _ => hr
    -- a closed store has no worker over it
    · rename_i hclosed
      have hidle := hguard.idle_of_closed hclosed
      have hcb := hguard.callback_none (by rw [hidle]; rfl)
      split
      · exact .unheld h.limit (by rw [hidle]; rfl) hcb
      · exact .unheld h.limit (by rw [hidle]; rfl) hcb
  | crash => exact .unheld h.limit rfl rfl
  | _ =>
    have hsame := hkeep rfl rfl
    simp only [Pipeline.step, Pipeline.stop, Pipeline.append]
    repeat' split
    all_goals exact h.keep rfl rfl rfl rfl hsame.1 hsame.2 fun _ hr _ => hr

end Judged

end EventKafka
