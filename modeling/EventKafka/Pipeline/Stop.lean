import EventKafka.Lib.Ranking
import EventKafka.Pipeline.Steps

/-! # Stopping

`stop` clears `running_` and then waits for the worker, as does a pipeline that stopped
itself. The worker looks at the flag before each event of a batch and before each round,
so it has only the rest of its current round to go: `Worker.toEnd` counts it. Nothing
the other threads, the broker or the clock do makes this longer.
-/

namespace EventKafka

/-- How many steps the worker takes to its end once `running_` is false. -/
def Worker.toEnd : Worker → ℕ
  | .idle => 0
  | .finished => 0
  | .drain => 1
  | .loop => 2
  | .check => 2
  | .rebuildReset => 3
  | .rebuildFlush => 4
  | .poll => 3
  | .batch _ => 4
  | .fetch _ => 5
  | .expire => 6
  | .settleMark .. => 5
  | .settle .. => 6
  | .produce .. => 7

/-- The message the worker may still hand over then. -/
def Worker.toSend : Worker → ℕ
  | .produce _ _ => 1
  | _ => 0

/-- The worker has nothing left to do, so the join of `stop` returns. -/
def Worker.Ended (w : Worker) : Prop := w = .idle ∨ w = .finished

/-- A step the worker really takes: no callback keeps it inside a poll. -/
def workerStep (x : Pipeline × Act) : Bool :=
  match x.2 with
  | .work _ => x.1.callback.isNone
  | _ => false

/-- The longest way out is that of a worker about to hand a message over: produce, the two
steps of `settle_send_failure`, the head of the batch, the poll, the loop and the drain. -/
theorem Worker.toEnd_le (w : Worker) : w.toEnd ≤ 7 := by
  cases w <;> simp [Worker.toEnd]

/-- A worker with no step left has returned. -/
theorem Worker.ended_of_toEnd {w : Worker} (h : w.toEnd = 0) : w.Ended := by
  cases w with
  | idle => exact Or.inl rfl
  | finished => exact Or.inr rfl
  | _ => simp [Worker.toEnd] at h

/-- It hands over one message at most. -/
theorem Worker.toSend_le (w : Worker) : w.toSend ≤ 1 := by
  cases w <;> simp [Worker.toSend]

section Step

variable {kafka : Kafka} {s : Pipeline}

/-- One step of the worker with `running_` false. -/
structure Ending (s s' : Pipeline) : Prop where
  running : s'.running = false
  nearer : s'.worker.toEnd < s.worker.toEnd
  messages : s'.messages.length + s'.worker.toSend ≤ s.messages.length + s.worker.toSend

/-- No branch of `worker_loop` goes back: each step is nearer to the end, and the message
in the worker's hand is the only one it may still send. -/
theorem work_ending (env : Env) (hrun : s.running = false) (hend : ¬ s.worker.Ended) :
    Ending s (s.work kafka env) := by
  unfold Pipeline.work
  cases hw : s.worker with
  | idle => exact absurd (Or.inl hw) hend
  | finished => exact absurd (Or.inr hw) hend
  | loop =>
    simp only [if_pos hrun]
    exact ⟨hrun, by simp [hw, Worker.toEnd], by simp [Worker.toSend]⟩
  | rebuildFlush => exact ⟨hrun, by simp [hw, Worker.toEnd], by simp [Worker.toSend]⟩
  | rebuildReset =>
    simp only
    repeat' split
    all_goals exact ⟨by first | exact hrun | rfl, by simp [hw, Worker.toEnd, Pipeline.throw],
      by simp [Worker.toSend, Pipeline.throw, Pipeline.failStop]⟩
  | check =>
    simp only [if_neg (show ¬ s.running = true by simp [hrun])]
    exact ⟨hrun, by simp [hw, Worker.toEnd], by simp [Worker.toSend]⟩
  | expire =>
    simp only
    split
    all_goals exact ⟨by first | exact hrun | rfl, by simp [hw, Worker.toEnd, Pipeline.throw],
      by simp [Worker.toSend, Pipeline.throw, Pipeline.failStop]⟩
  | fetch now =>
    simp only
    split
    all_goals exact ⟨by first | exact hrun | rfl, by simp [hw, Worker.toEnd, Pipeline.throw],
      by simp [Worker.toSend, Pipeline.throw, Pipeline.failStop]⟩
  | batch due =>
    cases due with
    | nil => exact ⟨hrun, by simp [hw, Worker.toEnd], by simp [Worker.toSend]⟩
    | cons rec rest =>
      -- the flag is read before the event is claimed
      simp only [if_pos (show s.running = false ∨ s.rebuildRequested = true from Or.inl hrun)]
      exact ⟨hrun, by simp [hw, Worker.toEnd], by simp [Worker.toSend]⟩
  | produce rec rest =>
    simp only
    split
    · exact ⟨hrun, by simp [hw, Worker.toEnd], by simp [hw, Worker.toSend]⟩
    · exact ⟨hrun, by simp [hw, Worker.toEnd], by simp [Worker.toSend]⟩
  | settle id why permanent rest =>
    simp only
    split
    all_goals exact ⟨by first | exact hrun | rfl, by simp [hw, Worker.toEnd, Pipeline.throw],
      by simp [Worker.toSend, Pipeline.throw, Pipeline.failStop]⟩
  | settleMark id why verdict rest =>
    simp only
    split
    all_goals exact ⟨by first | exact hrun | rfl, by simp [hw, Worker.toEnd, Pipeline.throw],
      by simp [Worker.toSend, Pipeline.throw, Pipeline.failStop]⟩
  | poll => exact ⟨hrun, by simp [hw, Worker.toEnd], by simp [Worker.toSend]⟩
  | drain => exact ⟨hrun, by simp [hw, Worker.toEnd], by simp [Worker.toSend]⟩

/-- Nobody else starts the worker again, moves it, or makes it send. -/
structure Undisturbed (s s' : Pipeline) : Prop where
  running : s'.running = false
  nearer : s'.worker.toEnd ≤ s.worker.toEnd
  messages : s'.messages.length + s'.worker.toSend ≤ s.messages.length + s.worker.toSend

/-- Whatever step is taken: the worker's own go forward, a callback runs inside its poll, and
a crash ends it at once. -/
theorem step_undisturbed {act : Act} (hrun : s.running = false) (hend : ¬ s.worker.Ended) :
    Undisturbed s (s.step kafka act) := by
  have hsame : ∀ s' : Pipeline, s'.running = false → s'.worker = s.worker →
      s'.messages.length = s.messages.length → Undisturbed s s' := by
    intro s' hrun' hw hlen
    exact ⟨hrun', by rw [hw], by rw [hw, hlen]⟩
  have hgone : ∀ s' : Pipeline, s'.running = false → s'.worker = .idle →
      s'.messages.length = s.messages.length → Undisturbed s s' := by
    intro s' hrun' hw hlen
    exact ⟨hrun', by simp [hw, Worker.toEnd], by simp [hw, hlen, Worker.toSend]⟩
  cases act with
  | work env =>
    simp only [Pipeline.step]
    split
    · have h : Ending s (s.work kafka env) := work_ending env hrun hend
      exact ⟨h.running, h.nearer.le, h.messages⟩
    · exact hsame s hrun rfl rfl
  | callback env =>
    have hrun' : (s.step kafka (.callback env)).running = false := by
      rcases callback_flags kafka s env with hflags | ⟨-, hhalt⟩
      · rw [hflags.running]
        exact hrun
      · exact hhalt.running
    have hlen : (s.step kafka (.callback env)).messages.length = s.messages.length := by
      cases callback_cases kafka s env with
      | stays h => rw [h]
      | acked _ _ h => simp [h.messages, Pipeline.returned]
      | failed _ h => simp [h.messages, Pipeline.returned]
      | judged _ h => simp [h.messages]
      | settled _ _ h => simp [h.messages, Pipeline.returned]
      | escaped h => simp [h, Pipeline.crash]
    rcases (callback_cases kafka s env).worker_eq with ⟨hw, -⟩ | hcrash
    · exact hsame _ hrun' hw hlen
    · exact hgone _ hrun' (by rw [hcrash]; rfl) hlen
  | start env =>
    have hrefused : s.step kafka (.start env) = s := by
      have hidle : s.worker ≠ .idle := fun h => hend (Or.inl h)
      simp [Pipeline.step, Pipeline.start, hidle]
    rw [hrefused]
    exact hsame s hrun rfl rfl
  | crash => exact hgone _ rfl rfl rfl
  | joined =>
    simp only [Pipeline.step, Pipeline.joined]
    split
    · exact hgone _ hrun rfl rfl
    · exact hsame s hrun rfl rfl
  | _ =>
    simp only [Pipeline.step, Pipeline.create, Pipeline.enqueue, Pipeline.stop, Pipeline.report,
      Pipeline.enter, Pipeline.append, Pipeline.retryDead]
    repeat' split
    all_goals first | exact hsame _ hrun rfl rfl | exact hsame _ rfl rfl rfl

end Step

/-- Once `running_` is false — `stop` was called, or the pipeline stopped itself — the
worker returns within seven of its steps, whatever is interleaved with them, and hands
over one message more at most. -/
theorem stop_terminates (kafka : Kafka) (s : Pipeline) (hrun : s.running = false) (acts : List Act)
    (hmany : 7 ≤ (Machine.trace (Pipeline.step kafka) s acts).countP workerStep) :
    ∃ pre post, acts = pre ++ post ∧
      (Machine.run (Pipeline.step kafka) s pre).worker.Ended ∧
      (Machine.run (Pipeline.step kafka) s pre).running = false ∧
      (Machine.run (Pipeline.step kafka) s pre).messages.length ≤ s.messages.length + 1 := by
  have hranked : Machine.Ranked (Pipeline.step kafka) (fun _ _ => True)
      (fun t => t.running = false ∧
        t.messages.length + t.worker.toSend ≤ s.messages.length + s.worker.toSend)
      (fun t => t.worker.Ended) workerStep (fun _ => 0) (fun t => t.worker.toEnd) := by
    constructor
    case keeps =>
      rintro t act - ⟨ht, hlen⟩ hend
      have h : Undisturbed t (t.step kafka act) := step_undisturbed ht hend
      exact ⟨h.running, h.messages.trans hlen⟩
    case lowers =>
      rintro t act - ⟨ht, -⟩ hend hfair
      cases act with
      | work env =>
        have hcb : t.callback = none := by simpa [workerStep] using hfair
        simp only [Pipeline.step, hcb, if_true, Nat.add_zero]
        exact (work_ending env ht hend).nearer
      | _ => simp [workerStep] at hfair
    case bounds =>
      rintro t act - ⟨ht, -⟩ hend
      exact (step_undisturbed ht hend).nearer
  have hfew : s.worker.toEnd +
      ((Machine.trace (Pipeline.step kafka) s acts).map fun _ => 0).sum ≤
        (Machine.trace (Pipeline.step kafka) s acts).countP workerStep := by
    simp only [List.map_const', List.sum_replicate, nsmul_zero, Nat.add_zero]
    exact s.worker.toEnd_le.trans hmany
  rcases Machine.exists_goal_of_rank_le hranked (fun t _ h => Worker.ended_of_toEnd h) ⟨hrun, le_rfl⟩
    (fun _ _ => trivial) hfew with ⟨pre, post, hacts, ⟨hstopped, hlen⟩, hend⟩
  refine ⟨pre, post, hacts, hend, hstopped, ?_⟩
  have hone := s.worker.toSend_le
  omega

/-- `stop` is called while the first message waits for its report; a rebuild is asked for
and an event offered in the meantime. -/
def stopWhilePolling : List Act :=
  [.work sampleEnv, .requestRebuild, .work sampleEnv,
    .enqueue ⟨"b", [], "key", "c", -1⟩ sampleEnv] ++ List.replicate 6 (.work sampleEnv)

/-- A pipeline asked to stop while its worker polls. -/
theorem stop_terminates_polling :
    let s := Machine.run (Pipeline.step sampleKafka) (Pipeline.init (sampleConfig "events"))
      (firstSend ++ [.stop])
    s.running = false ∧ s.worker = .poll ∧
      ∃ pre post, stopWhilePolling = pre ++ post ∧
        (Machine.run (Pipeline.step sampleKafka) s pre).worker.Ended ∧
        (Machine.run (Pipeline.step sampleKafka) s pre).running = false ∧
        (Machine.run (Pipeline.step sampleKafka) s pre).messages.length ≤ s.messages.length + 1 := by
  intro s
  have hrun : s.running = false := by decide +kernel
  exact ⟨hrun, by decide +kernel,
    stop_terminates sampleKafka s hrun stopWhilePolling (by decide +kernel)⟩

end EventKafka
