import EventKafka.Pipeline.Books
import Mathlib.Algebra.Group.Prod
import Mathlib.Algebra.Ring.Int.Defs

/-! # What other threads see of the counters

`enqueue` and the worker commit under the mutex of the outbox and raise their counter after
they have let go of it. Another thread may look in between: `outbox_stats` shows the row of
an event that `enqueued` does not tell of yet. `Observed` is a pipeline with the counters as
`metrics()` returns them and the updates that are still owed. There are two of these at
most, since the thread that owes one does nothing else before: `enqueue` holds the lifecycle
mutex, and the worker's thread is one.
-/

namespace EventKafka

/-- The caller holds the lifecycle mutex in this step. -/
def Act.byCaller : Act → Bool
  | .create _ => true
  | .start _ => true
  | .enqueue .. => true
  | .stop => true
  | .joined => true
  | _ => false

/-- The step is taken on the worker's thread, or waits for its end. -/
def Act.byWorker : Act → Bool
  | .work _ => true
  | .report .. => true
  | .callback _ => true
  | .joined => true
  | _ => false

/-- The pipeline, its counters and what is owed to them. `pipe.metrics` counts a commit at
once and is what the counters come to; nobody reads it. -/
structure Observed where
  pipe : Pipeline
  /-- What `metrics()` returns. -/
  visible : Metrics
  /-- `enqueue` has stored its event and not counted it. -/
  admitting : Bool
  /-- What the worker's thread has committed and not counted. -/
  owed : Option Update
deriving DecidableEq

/-- Nothing is owed. -/
def Observed.of (s : Pipeline) : Observed := ⟨s, s.metrics, false, none⟩

/-- A step of the pipeline up to its commit, or one of the `fetch_add`s that follow. -/
inductive Move where
  | act (act : Act)
  | countAdmitted
  | countOwed

/-- The thread of a step still owes an update. -/
def Observed.waits (o : Observed) (act : Act) : Bool :=
  (o.admitting && act.byCaller) || (o.owed.isSome && act.byWorker)

/-- The four counters of the books are left as they are. -/
def Metrics.withBooksOf (m seen : Metrics) : Metrics :=
  { m with
    enqueued := seen.enqueued
    acked := seen.acked
    permanentErrors := seen.permanentErrors
    outboxExpired := seen.outboxExpired }

def Observed.step (kafka : Kafka) (o : Observed) : Move → Observed
  | .act act =>
    if o.waits act = true then o
    else if o.pipe.ends act = true then Observed.of (o.pipe.step kafka act)
    else
      { pipe := o.pipe.step kafka act
        visible := (o.pipe.step kafka act).metrics.withBooksOf o.visible
        admitting := o.admitting || (o.pipe.admitted act).isSome
        owed := o.owed.or (o.pipe.counts act) }
  | .countAdmitted => { o with visible := o.visible.countAdmitted o.admitting, admitting := false }
  | .countOwed => { o with visible := o.visible.count o.owed, owed := none }

/-- What the counters come to. -/
def Observed.counted (o : Observed) : Metrics :=
  (o.visible.count o.owed).countAdmitted o.admitting

/-- The step of the pipeline a move takes. -/
def Observed.taken (o : Observed) : Move → List Act
  | .act act => if o.waits act = true then [] else [act]
  | _ => []

/-- The steps of the pipeline in a run. -/
def actsTaken (kafka : Kafka) (o : Observed) (moves : List Move) : List Act :=
  (Machine.trace (Observed.step kafka) o moves).flatMap fun x => x.1.taken x.2

/-! ## One step -/

section Step

variable {kafka : Kafka} {o : Observed}

/-- What an update adds to the books. -/
def booksOf : Option Update → Nat × Nat × Nat × Int
  | none => 0
  | some .acked => (0, 1, 0, 0)
  | some .permanent => (0, 0, 1, 0)
  | some (.expired n) => (0, 0, 0, n)

theorem Metrics.books_count (m : Metrics) (u : Option Update) :
    (m.count u).books = m.books + booksOf u := by
  rcases u with - | u
  · exact (add_zero m.books).symm
  · cases u <;> simp [Metrics.count, Metrics.books, booksOf]

theorem Metrics.books_countAdmitted (m : Metrics) (admitted : Bool) :
    (m.countAdmitted admitted).books = m.books + (admitted.toNat, 0, 0, 0) := by
  simp [Metrics.countAdmitted, Metrics.books]

theorem Metrics.count_countAdmitted (m : Metrics) (u : Option Update) (admitted : Bool) :
    (m.countAdmitted admitted).count u = (m.count u).countAdmitted admitted := by
  rcases u with - | u
  · rfl
  · cases u <;> rfl

/-- Once all is counted, nothing of the step is missing. -/
theorem Metrics.withBooksOf_counted {m seen : Metrics} {u : Option Update} {admitted : Bool}
    (h : m.books = ((seen.count u).countAdmitted admitted).books) :
    ((m.withBooksOf seen).count u).countAdmitted admitted = m := by
  simp only [Metrics.books, Prod.mk.injEq] at h
  rcases h with ⟨henqueued, hacked, hpermanent, hexpired⟩
  have hlater : ((m.withBooksOf seen).count u).countAdmitted admitted =
      m.withBooksOf ((seen.count u).countAdmitted admitted) := by
    rcases u with - | u
    · rfl
    · cases u <;> rfl
  rw [hlater, Metrics.withBooksOf, ← henqueued, ← hacked, ← hpermanent, ← hexpired]

theorem Observed.books_counted (o : Observed) :
    o.counted.books = o.visible.books + booksOf o.owed + (o.admitting.toNat, 0, 0, 0) := by
  rw [Observed.counted, Metrics.books_countAdmitted, Metrics.books_count]

/-- The counters come to what was committed. -/
structure Observed.Kept (o : Observed) : Prop where
  books : o.counted.books = o.pipe.metrics.books
  expired : ∀ n, o.owed = some (.expired n) → 0 ≤ n

theorem Observed.Kept.of (s : Pipeline) : (Observed.of s).Kept := by
  refine ⟨rfl, ?_⟩
  intro n hn
  cases hn

/-- Of the thread that owes and the thread that steps, one commits nothing. -/
theorem owed_or_counts {act : Act} (hwait : o.waits act = false) :
    o.owed = none ∨ o.pipe.counts act = none := by
  cases howed : o.owed with
  | none => exact Or.inl rfl
  | some u =>
    right
    simp only [Observed.waits, howed, Option.isSome_some, Bool.true_and,
      Bool.or_eq_false_iff] at hwait
    cases act with
    | work env => simp [Act.byWorker] at hwait
    | callback env => simp [Act.byWorker] at hwait
    | _ => rfl

theorem admitting_or_admitted {act : Act} (hwait : o.waits act = false) :
    o.admitting = false ∨ o.pipe.admitted act = none := by
  cases hadm : o.admitting with
  | false => exact Or.inl rfl
  | true =>
    right
    simp only [Observed.waits, hadm, Bool.true_and, Bool.or_eq_false_iff] at hwait
    cases act with
    | enqueue args env => simp [Act.byCaller] at hwait
    | _ => rfl

/-- A step of the pipeline leaves what it commits to be counted. -/
theorem Observed.Kept.act (h : o.Kept) {act : Act} (hwait : o.waits act = false)
    (hends : o.pipe.ends act = false) : (o.step kafka (.act act)).Kept := by
  have hbooks := h.books
  have hstep := step_counts kafka hends
  rw [Observed.books_counted] at hbooks
  rw [Metrics.books_countAdmitted, Metrics.books_count, ← hbooks] at hstep
  rw [Observed.step, if_neg (by simp [hwait]), if_neg (by simp [hends])]
  constructor
  · rw [Observed.books_counted, hstep]
    -- what was owed and what is new do not meet
    have howed : booksOf (o.owed.or (o.pipe.counts act)) =
        booksOf o.owed + booksOf (o.pipe.counts act) := by
      rcases owed_or_counts hwait with hnone | hnone
      · rw [hnone]
        exact (zero_add _).symm
      · rw [hnone, Option.or_none]
        exact (add_zero _).symm
    have hadmitting : ((o.admitting || (o.pipe.admitted act).isSome).toNat, 0, 0, 0) =
        ((o.admitting.toNat, 0, 0, 0) + ((o.pipe.admitted act).isSome.toNat, 0, 0, 0) :
          Nat × Nat × Nat × Int) := by
      rcases admitting_or_admitted hwait with hnone | hnone
      · simp [hnone]
      · simp [hnone]
    have hvisible : ((o.pipe.step kafka act).metrics.withBooksOf o.visible).books =
        o.visible.books := rfl
    rw [hvisible, howed, hadmitting, ← add_assoc, ← add_assoc,
      add_right_comm (o.visible.books + booksOf o.owed)]
  · intro n hn
    rcases owed_or_counts hwait with hnone | hnone
    · rw [hnone, Option.none_or] at hn
      exact counts_nonneg hn
    · rw [hnone, Option.or_none] at hn
      exact h.expired n hn

theorem Observed.Kept.step (h : o.Kept) (move : Move) : (o.step kafka move).Kept := by
  cases move with
  | act act =>
    cases hwait : o.waits act with
    | true => simpa [Observed.step, hwait] using h
    | false =>
      cases hends : o.pipe.ends act with
      | true => simpa [Observed.step, hwait, hends] using Observed.Kept.of (o.pipe.step kafka act)
      | false => exact h.act hwait hends
  | countAdmitted =>
    refine ⟨?_, h.expired⟩
    have hbooks := h.books
    rw [Observed.books_counted] at hbooks ⊢
    rw [Observed.step, Metrics.books_countAdmitted]
    rw [← hbooks]
    simp [add_right_comm]
  | countOwed =>
    refine ⟨?_, ?_⟩
    · have hbooks := h.books
      rw [Observed.books_counted] at hbooks ⊢
      rw [Observed.step, Metrics.books_count]
      rw [← hbooks]
      simp [booksOf]
    · intro n hn
      cases hn

/-- On the pipeline a move is the step it takes. -/
theorem Observed.step_pipe (o : Observed) (move : Move) :
    (o.step kafka move).pipe = Machine.run (Pipeline.step kafka) o.pipe (o.taken move) := by
  cases move with
  | act act =>
    rw [Observed.step, Observed.taken]
    split
    · rfl
    · split
      · rfl
      · rfl
  | countAdmitted => rfl
  | countOwed => rfl

end Step

/-! ## A run -/

section Run

variable (kafka : Kafka) (s₀ : Pipeline) (moves : List Move)

/-- Seen without its counters, an observed run is a run of the pipeline. -/
theorem observed_pipe :
    (Machine.run (Observed.step kafka) (Observed.of s₀) moves).pipe =
      Machine.run (Pipeline.step kafka) s₀ (actsTaken kafka (Observed.of s₀) moves) :=
  Machine.run_refines (I := fun _ => True) (P := fun _ _ => True) trivial
    (fun _ _ _ _ => trivial) (fun o move _ _ => o.step_pipe move) moves (fun _ _ => trivial)

theorem observed_kept : (Machine.run (Observed.step kafka) (Observed.of s₀) moves).Kept :=
  Machine.run_invariant (Observed.Kept.of s₀) (fun _ move h => h.step move) moves

/-- What the counters come to, one by one. -/
theorem counted_eq {o : Observed} (h : o.Kept) :
    o.counted.enqueued = o.pipe.metrics.enqueued ∧ o.counted.acked = o.pipe.metrics.acked ∧
      o.counted.permanentErrors = o.pipe.metrics.permanentErrors ∧
      o.counted.outboxExpired = o.pipe.metrics.outboxExpired := by
  have hbooks := h.books
  simpa only [Metrics.books, Prod.mk.injEq] using hbooks

theorem Observed.counted_enqueued (o : Observed) (hidle : o.admitting = false) :
    o.counted.enqueued = o.visible.enqueued := by
  rw [Observed.counted, hidle]
  rcases o.owed with - | u
  · rfl
  · cases u <;> rfl

/-- The worker owes nothing that would change a counter. -/
def Observed.Quiet (o : Observed) : Prop := o.owed = none ∨ o.owed = some (.expired 0)

/-- What the counters show as settled falls short of what is, by what is owed. -/
theorem visible_settled {o : Observed} (h : o.Kept) :
    (o.visible.acked : Int) + o.visible.outboxExpired + o.visible.permanentErrors ≤
        o.counted.acked + o.counted.outboxExpired + o.counted.permanentErrors ∧
      (o.Quiet ∨ (o.visible.acked : Int) + o.visible.outboxExpired + o.visible.permanentErrors <
        o.counted.acked + o.counted.outboxExpired + o.counted.permanentErrors) := by
  have hexpired := h.expired
  rw [Observed.counted, Observed.Quiet]
  rcases howed : o.owed with - | u
  · exact ⟨le_rfl, Or.inl (Or.inl rfl)⟩
  · cases u with
    | acked =>
      simp only [Metrics.count, Metrics.countAdmitted]
      omega
    | permanent =>
      simp only [Metrics.count, Metrics.countAdmitted]
      omega
    | expired n =>
      have hn := hexpired n howed
      simp only [Metrics.count, Metrics.countAdmitted, Option.some.injEq, Update.expired.injEq]
      omega

theorem Observed.Quiet.counted_eq {o : Observed} (h : o.Quiet) (hidle : o.admitting = false) :
    o.counted = o.visible := by
  rw [Observed.counted, hidle]
  rcases h with h | h
  · rw [h]
    rfl
  · rw [h]
    simp [Metrics.count, Metrics.countAdmitted]

/-- Each step counted at once. -/
def counting (acts : List Act) : List Move :=
  acts.flatMap fun act => [.act act, .countAdmitted, .countOwed]

theorem run_counting_one (act : Act) :
    Machine.run (Observed.step kafka) (Observed.of s₀) [.act act, .countAdmitted, .countOwed] =
      Observed.of (s₀.step kafka act) := by
  cases hends : s₀.ends act with
  | true => simp [Observed.step, Observed.of, Observed.waits, hends, Metrics.countAdmitted,
      Metrics.count]
  | false =>
    have hcounts := step_counts kafka hends
    simp only [Machine.run_cons, Machine.run_nil, Observed.step, Observed.of, Observed.waits,
      hends, Bool.false_and, Option.isSome_none, Bool.or_false, Bool.false_eq_true, if_false,
      Bool.false_or, Option.none_or]
    rw [Metrics.count_countAdmitted, Metrics.withBooksOf_counted hcounts]

/-- Every run of the pipeline can be observed: counted at once, nothing is owed after it. -/
theorem run_counting (acts : List Act) :
    Machine.run (Observed.step kafka) (Observed.of s₀) (counting acts) =
      Observed.of (Machine.run (Pipeline.step kafka) s₀ acts) := by
  induction acts generalizing s₀ with
  | nil => rfl
  | cons act acts ih =>
    rw [counting, List.flatMap_cons, Machine.run_append, run_counting_one]
    exact ih (s₀.step kafka act)

theorem actsTaken_counting (acts : List Act) :
    actsTaken kafka (Observed.of s₀) (counting acts) = acts := by
  induction acts generalizing s₀ with
  | nil => rfl
  | cons act acts ih =>
    have hone : (Machine.trace (Observed.step kafka) (Observed.of s₀)
        [.act act, .countAdmitted, .countOwed]).flatMap (fun x => x.1.taken x.2) = [act] := rfl
    rw [actsTaken, counting, List.flatMap_cons, Machine.trace_append, List.flatMap_append, hone,
      run_counting_one]
    exact congrArg (act :: ·) (ih (s₀.step kafka act))

end Run

/-- In the life of one object, whatever is interleaved and whatever fails, and however late
the counters are raised: while the outbox is open, `outbox_stats` reports as live what was
there or admitted or revived and neither acknowledged nor dead, and as dead what was there or
died, less what was revived or reclaimed; what is committed and not counted yet, one update
of `enqueue` and one of the worker at most, is owed to the counters. If nothing was live at
first, the operator revives nothing and no `enqueue` is under way, then the counters show
everything admitted as acknowledged or expired exactly when nothing is live, no event failed
for good and the worker owes nothing. -/
theorem stats_match_metrics (kafka : Kafka) (s₀ : Pipeline) (moves : List Move)
    (hnew : s₀.metrics = .zero)
    (hlife : ∀ x ∈ Machine.trace (Pipeline.step kafka) s₀
      (actsTaken kafka (Observed.of s₀) moves), x.1.ends x.2 = false)
    (hopen : (Machine.run (Observed.step kafka) (Observed.of s₀) moves).pipe.outbox.isOpen = true) :
    let o := Machine.run (Observed.step kafka) (Observed.of s₀) moves
    let tr := Machine.trace (Pipeline.step kafka) s₀ (actsTaken kafka (Observed.of s₀) moves)
    ∃ st, o.pipe.outboxStats none = .ok st ∧
      st.pending + st.inFlight = s₀.outbox.db.live + o.counted.enqueued + revived tr -
        o.counted.acked - o.counted.outboxExpired - o.counted.permanentErrors ∧
      st.dead = s₀.outbox.db.count .dead + o.counted.outboxExpired + o.counted.permanentErrors -
        revived tr - reclaimed tr ∧
      (o.admitting = false → s₀.outbox.db.live = 0 → revived tr = 0 →
        (o.visible.enqueued ≤ o.visible.acked + o.visible.outboxExpired ↔
          st.pending = 0 ∧ st.inFlight = 0 ∧ o.visible.permanentErrors = 0 ∧ o.Quiet)) := by
  intro o tr
  have hpipe : o.pipe = Machine.run (Pipeline.step kafka) s₀
      (actsTaken kafka (Observed.of s₀) moves) := observed_pipe kafka s₀ moves
  have hkept : o.Kept := observed_kept kafka s₀ moves
  have hlive : o.pipe.balance = s₀.balance + revived tr := hpipe ▸ (balanced_life hlife).1
  have hdead : o.pipe.deadBalance + reclaimed tr = s₀.deadBalance - revived tr :=
    hpipe ▸ (balanced_life hlife).2
  have hsplit : o.pipe.outbox.db.live =
      o.pipe.outbox.db.count .pending + o.pipe.outbox.db.count .inFlight := o.pipe.outbox.db.live_eq
  rcases counted_eq hkept with ⟨henqueued, hacked, hpermanent, hexpired⟩
  simp only [Pipeline.balance, Pipeline.deadBalance, hnew, Metrics.zero, ← henqueued, ← hacked,
    ← hpermanent, ← hexpired] at hlive hdead
  refine ⟨_, Outbox.stats_eq hopen, ?_, ?_, ?_⟩
  · dsimp only
    omega
  · dsimp only
    omega
  · intro hidle hempty hrevived
    have hadmitted : o.counted.enqueued = o.visible.enqueued := o.counted_enqueued hidle
    dsimp only
    constructor
    · intro htest
      rcases visible_settled hkept with ⟨hle, hquiet | hlt⟩
      · rw [hquiet.counted_eq hidle] at hlive
        refine ⟨?_, ?_, ?_, hquiet⟩
        all_goals omega
      · omega
    · rintro ⟨hpending, hflight, hnone, hquiet⟩
      rw [hquiet.counted_eq hidle] at hlive
      omega

/-- The event is acknowledged, and `acked` does not tell of it yet. -/
def lateAck : List Move :=
  counting (firstSend ++ [.append 0 0, .report 0 none]) ++ [.act (.callback sampleEnv)]

/-- The outbox is seen empty before the counters say so. -/
theorem stats_match_metrics_late :
    let o := Machine.run (Observed.step sampleKafka)
      (Observed.of (Pipeline.init (sampleConfig "events"))) lateAck
    o.visible.enqueued = 1 ∧ o.visible.acked = 0 ∧ o.owed = some .acked ∧
      ∃ st, o.pipe.outboxStats none = .ok st ∧ st.pending + st.inFlight = 0 ∧ st.dead = 0 ∧
        ¬ (o.visible.enqueued ≤ o.visible.acked + o.visible.outboxExpired) := by
  intro o
  have howed : o.owed = some .acked := by decide +kernel
  have hbooks := stats_match_metrics sampleKafka (Pipeline.init (sampleConfig "events")) lateAck
    rfl (by decide +kernel) (by decide +kernel)
  rcases hbooks with ⟨st, hst, hlive, hdead, htest⟩
  refine ⟨by decide +kernel, by decide +kernel, howed, st, hst, ?_, ?_, ?_⟩
  · exact hlive.trans (by decide +kernel)
  · exact hdead.trans (by decide +kernel)
  · intro hle
    have hquiet : o.Quiet := ((htest (by decide +kernel) rfl rfl).mp hle).2.2.2
    rw [Observed.Quiet, howed] at hquiet
    simp at hquiet

end EventKafka
