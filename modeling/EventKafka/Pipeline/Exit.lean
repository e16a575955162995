import EventKafka.Pipeline.Counters
import EventKafka.Pipeline.Drill

/-! # When the drill stops waiting

`test_pipeline_drill.cpp` leaves its loop when as many events are acknowledged or expired as
were admitted, and as many different ones were consumed as were acknowledged. It looks at
four numbers only, and at counters that lag behind. Where every event belongs to a call this
is enough: the outbox is drained, nothing that was delivered is missing, and the verdict hangs
on events that expired after a copy of them was delivered, on what was rejected, on the list
of expected deaths and on the fault.
-/

namespace EventKafka

open Sql

/-! ## Rooms that need not be made -/

section Room

variable {kafka : Kafka} {cfg : Config} {acts : List Act}

theorem Outbox.reclaimedRows_eq_zero {b : Outbox} (op : Op)
    (h : ∀ r ∈ b.db.outbox, reclaimable r = false) : b.reclaimedRows op = 0 := by
  cases op with
  | insertPending lim rec now fault =>
    rw [Outbox.reclaimedRows, Table.changes_eq_zero]
    intro r hr
    rw [decide_eq_false_iff_not, not_not]
    cases b.outcome (.insertPending lim rec now fault) with
    | quiet hadm hack hquiet =>
      cases hreply : b.reply (.insertPending lim rec now fault) with
      | error e =>
        have hdb := Outbox.exec_error (show b.exec (.insertPending lim rec now fault) =
          (.error e, b.step (.insertPending lim rec now fault)) from Prod.ext hreply rfl)
        rw [hdb]
        exact hr
      | ok n => simp [Outbox.admission, hreply] at hadm
    | acked hop => cases hop
    | admitted hop hadm hack hadmission =>
      rw [← Table.mem_def, hadmission.mem_outbox]
      left
      rcases hadmission.room with ⟨rfl, -⟩ | ⟨rfl, -, -⟩
      · exact hr
      · exact Table.mem_delete.mpr ⟨hr, h r hr⟩
  | _ => rfl

/-- Every row of a run carries an event admitted in it. -/
theorem row_admitted {x : Pipeline × Act}
    (hx : x ∈ Machine.trace (Pipeline.step kafka) (Pipeline.init cfg) acts) {r : Row}
    (hr : r ∈ x.1.outbox.db.outbox) :
    r.toEvent ∈ admittedEvents (Machine.trace (Pipeline.step kafka) (Pipeline.init cfg) acts) := by
  rcases Machine.exists_prefix_of_mem_trace hx with ⟨pre, post, rfl, hstate⟩
  rw [hstate] at hr
  rw [Machine.trace_append, admittedEvents_append]
  exact List.mem_append_left _ ((origin_run kafka cfg pre).rows r hr)

/-- Rows of calls are never reclaimed. -/
theorem reclaimed_eq_zero
    (hcalls : ∀ e ∈ admittedEvents (Machine.trace (Pipeline.step kafka) (Pipeline.init cfg) acts),
      e.grouped = true) :
    reclaimed (Machine.trace (Pipeline.step kafka) (Pipeline.init cfg) acts) = 0 := by
  rw [reclaimed, List.sum_eq_zero_iff_forall_eq_nat]
  intro n hn
  rcases List.mem_map.mp hn with ⟨x, hx, rfl⟩
  cases hact : x.2 with
  | enqueue args env =>
    rw [Pipeline.reclaims]
    split
    · rfl
    · refine Outbox.reclaimedRows_eq_zero _ fun r hr => ?_
      have hgrouped := hcalls _ (row_admitted hx hr)
      simp [reclaimable, hgrouped]
  | _ => rfl

/-- The operator stays away. -/
theorem revived_eq_zero {s : Pipeline} (h : ∀ id env, Act.retryDead id env ∉ acts) :
    revived (Machine.trace (Pipeline.step kafka) s acts) = 0 := by
  rw [revived, List.sum_eq_zero_iff_forall_eq_nat]
  intro n hn
  rcases List.mem_map.mp hn with ⟨x, hx, rfl⟩
  have hmem := Machine.mem_of_mem_trace hx
  cases hact : x.2 with
  | retryDead id env => exact absurd (hact ▸ hmem) (h id env)
  | _ => rfl

/-- The books of a new pipeline, which no operator helps. -/
theorem balanced_init
    (hlife : ∀ x ∈ Machine.trace (Pipeline.step kafka) (Pipeline.init cfg) acts,
      x.1.ends x.2 = false)
    (hrevive : ∀ id env, Act.retryDead id env ∉ acts) :
    (Machine.run (Pipeline.step kafka) (Pipeline.init cfg) acts).balance = 0 ∧
      (Machine.run (Pipeline.step kafka) (Pipeline.init cfg) acts).deadBalance +
        reclaimed (Machine.trace (Pipeline.step kafka) (Pipeline.init cfg) acts) = 0 := by
  have hinit : (Pipeline.init cfg).balance = 0 ∧ (Pipeline.init cfg).deadBalance = 0 := ⟨rfl, rfl⟩
  have hbooks := balanced_life hlife
  rwa [revived_eq_zero hrevive, hinit.1, hinit.2, Int.natCast_zero, Int.add_zero,
    Int.sub_zero] at hbooks

end Room

/-! ## The test of the loop -/

/-- The numbers the loop of the drill compares. The counters are loaded one after the other;
none of them goes back and the loop itself is what enqueues, so what it finds still holds at
its last load. -/
structure Drill.Leaves (d : Drill) (m : Metrics) : Prop where
  settled : (m.enqueued : Int) ≤ m.acked + m.outboxExpired
  seen : m.acked ≤ (d.consumed.map Consumption.eventId).toFinset.card

section Exit

variable {kafka : Kafka} {cfg : Config} {acts tail : List Act} {args : VerifyArgs} {d : Drill}
  {fault : Recovery}

/-- The counters the loop reads lag behind, but not when they pass its test. -/
theorem Drill.Leaves.of_visible {o : Observed} (h : d.Leaves o.visible) (hkept : o.Kept)
    (hidle : o.admitting = false) (hbooks : o.pipe.balance = 0) : d.Leaves o.pipe.metrics := by
  have hsettled := h.settled
  have hseen := h.seen
  have hadmitted := o.counted_enqueued hidle
  rcases counted_eq hkept with ⟨henqueued, hacked, hpermanent, hexpired⟩
  rw [Pipeline.balance] at hbooks
  rcases visible_settled hkept with ⟨-, hquiet | hlt⟩
  · rw [hquiet.counted_eq hidle] at hacked hexpired henqueued
    exact ⟨by omega, by omega⟩
  · -- an event would be settled before it is admitted
    omega

/-- While nothing is admitted, what the loop saw stays true. -/
theorem Drill.Leaves.later {s : Pipeline} (h : d.Leaves s.metrics)
    (hlife : ∀ x ∈ Machine.trace (Pipeline.step kafka) s tail, x.1.ends x.2 = false)
    (hquiet : ∀ args env, Act.enqueue args env ∉ tail)
    (hbooks : (Machine.run (Pipeline.step kafka) s tail).balance = 0) :
    d.Leaves (Machine.run (Pipeline.step kafka) s tail).metrics := by
  have hgrows := grows_life hlife
  have hnone : admittedEvents (Machine.trace (Pipeline.step kafka) s tail) = [] := by
    rw [admittedEvents, List.filterMap_eq_nil_iff]
    intro x hx
    have hmem := Machine.mem_of_mem_trace hx
    cases hact : x.2 with
    | enqueue args env => exact absurd (hact ▸ hmem) (hquiet args env)
    | _ => rfl
  have henqueued := hgrows.enqueued
  have hacked := hgrows.acked
  have hexpired := hgrows.expired
  have hsettled := h.settled
  have hseen := h.seen
  rw [hnone, List.length_nil, Nat.add_zero] at henqueued
  rw [Pipeline.balance] at hbooks
  constructor
  · omega
  · omega

/-- What the counters say of the outbox when the loop is left. -/
theorem Drill.Leaves.drained {s : Pipeline} (h : d.Leaves s.metrics) (hlive : s.balance = 0)
    (hdead : s.deadBalance = 0) :
    (∀ r ∈ s.outbox.db.outbox, r.state = .dead) ∧
      s.metrics.acked + s.outbox.db.outbox.rows.length = s.metrics.enqueued := by
  have hsettled := h.settled
  have hrows : s.outbox.db.outbox.rows.length = s.outbox.db.live + s.outbox.db.count .dead := by
    rw [Db.live, Db.count, Table.changes, Table.changes, Nat.add_comm,
      List.length_eq_countP_add_countP (fun r : Row => decide (r.state = .dead))]
    congr 2
    funext r
    simp
  simp only [Pipeline.balance, Pipeline.deadBalance] at hlive hdead
  constructor
  · have hzero : s.outbox.db.live = 0 := by omega
    intro r hr
    have hnot := Table.changes_eq_zero.mp hzero r hr
    simpa using hnot
  · omega

/-- When the loop is left, an event is missing from the outbox only if it was consumed. -/
theorem Drill.Leaves.consumed {tr : List (Pipeline × Act)} {s : Pipeline} {ttl : Int}
    (h : d.Leaves s.metrics) (hwatch : d.Watches tr s) (hledger : Ledger ttl tr s)
    (hcount : s.metrics.acked + s.outbox.db.outbox.rows.length = (admittedEvents tr).length)
    (hcertain : ∀ r ∈ s.outbox.db.outbox, ∀ c ∈ d.consumed, c.eventId ≠ r.eventId) {e : Event}
    (he : e ∈ admittedEvents tr) :
    (∃ r ∈ s.outbox.db.outbox, r.toEvent = e) ∨ ∃ c ∈ d.consumed, c.eventId = e.eventId := by
  let seen := (d.consumed.map Consumption.eventId).toFinset
  let rows := (s.outbox.db.outbox.rows.map fun r => r.eventId).toFinset
  let ids := ((admittedEvents tr).map fun e => e.eventId).toFinset
  have hseen : ∀ id ∈ seen, ∃ c ∈ d.consumed, c.eventId = id :=
    fun id hid => List.mem_map.mp (List.mem_toFinset.mp hid)
  have hrow : ∀ id ∈ rows, ∃ r ∈ s.outbox.db.outbox, r.eventId = id :=
    fun id hid => List.mem_map.mp (List.mem_toFinset.mp hid)
  -- the two sets are disjoint, and together as many as the events
  have hdisjoint : Disjoint seen rows := by
    rw [Finset.disjoint_left]
    intro id hid hid'
    rcases hseen id hid with ⟨c, hc, rfl⟩
    rcases hrow _ hid' with ⟨r, hr, hcr⟩
    exact hcertain r hr c hc hcr.symm
  have hsub : seen ∪ rows ⊆ ids := by
    intro id hid
    rw [List.mem_toFinset, List.mem_map]
    rcases Finset.mem_union.mp hid with hid | hid
    · rcases hseen id hid with ⟨c, hc, rfl⟩
      rcases hwatch.logged hc with ⟨x, hx, hxc⟩
      rcases hledger.log x hx with ⟨e, he, hof⟩
      exact ⟨e, he, hof.eventId.symm.trans hxc⟩
    · rcases hrow id hid with ⟨r, hr, rfl⟩
      exact ⟨r.toEvent, hledger.rows r hr, rfl⟩
  have hunion : ids.card ≤ (seen ∪ rows).card := by
    have hids : ids.card = (admittedEvents tr).length := by
      rw [List.toFinset_card_of_nodup hledger.ids, List.length_map]
    have hrows : rows.card = s.outbox.db.outbox.rows.length := by
      rw [List.toFinset_card_of_nodup (Table.key_nodup _), List.length_map]
    have hleast : s.metrics.acked ≤ seen.card := h.seen
    rw [Finset.card_union_of_disjoint hdisjoint, hrows, hids]
    omega
  have hmem : e.eventId ∈ seen ∪ rows := by
    rw [Finset.eq_of_subset_of_card_le hsub hunion, List.mem_toFinset]
    exact List.mem_map_of_mem he
  rcases Finset.mem_union.mp hmem with hid | hid
  · exact Or.inr (hseen _ hid)
  · rcases hrow _ hid with ⟨r, hr, hre⟩
    exact Or.inl ⟨r, hr, List.inj_on_of_nodup_map hledger.ids (hledger.rows r hr) he hre⟩

/-- A drill that leaves its loop drained is judged by what its files say otherwise. -/
theorem Drilled.accepts_drained (h : Drilled kafka cfg (acts ++ tail) args d fault)
    (hlife : ∀ x ∈ Machine.trace (Pipeline.step kafka) (Pipeline.init cfg) (acts ++ tail),
      x.1.ends x.2 = false)
    (hrevive : ∀ id env, Act.retryDead id env ∉ acts ++ tail)
    (hquiet : ∀ args env, Act.enqueue args env ∉ tail)
    (hcalls : ∀ o ∈ d.offers, o.callUuid ≠ "")
    (hleaves : d.Leaves (Machine.run (Pipeline.step kafka) (Pipeline.init cfg) acts).metrics) :
    let s := Machine.run (Pipeline.step kafka) (Pipeline.init cfg) (acts ++ tail)
    verify args d.evidence = .ok 0 ↔
      (∀ r ∈ s.outbox.db.outbox, ∀ c ∈ d.consumed, c.eventId ≠ r.eventId) ∧
      (args.allowRejected = false → ∀ o ∈ d.offers, o.accepted = true) ∧
      (∀ id, id ∈ d.expectedDead ↔
        ∃ r ∈ s.outbox.db.outbox, r.eventId = id ∧ r.lastError ≠ some "expired_ttl") ∧
      (args.requireRecovery = true → (d.run fault).Recovered) := by
  intro s
  have hgrouped : ∀ e ∈ admittedEvents (Machine.trace (Pipeline.step kafka) (Pipeline.init cfg)
      (acts ++ tail)), e.grouped = true := by
    intro e he
    rcases h.watches.mem_accepted.mpr ⟨e, he, rfl, rfl⟩ with ⟨o, ho, -, -, hcall⟩
    have huuid : e.uuid ≠ "" := hcall ▸ hcalls o ho
    simpa [Event.grouped] using huuid
  rcases balanced_init hlife hrevive with ⟨hlive, hdead⟩
  rw [reclaimed_eq_zero hgrouped, Int.natCast_zero, Int.add_zero] at hdead
  have hfinal : d.Leaves
      (Machine.run (Pipeline.step kafka) (Pipeline.init cfg) (acts ++ tail)).metrics := by
    rw [Machine.run_append] at hlive ⊢
    rw [Machine.trace_append] at hlife
    exact hleaves.later (fun x hx => hlife x (List.mem_append_right _ hx)) hquiet hlive
  rcases hfinal.drained hlive hdead with ⟨hdrained, hcount⟩
  rw [(grows_life hlife).enqueued] at hcount
  rw [h.accepts_iff]
  constructor
  · rintro ⟨hset, hrecovered⟩
    exact ⟨hset.certain, hset.allowed, hset.expected, hrecovered⟩
  · rintro ⟨hcertain, hallowed, hexpected, hrecovered⟩
    refine ⟨⟨hdrained, hcertain, ?_, hallowed, hexpected⟩, hrecovered⟩
    exact fun e he => hfinal.consumed h.watches h.ledger
      (hcount.trans (Nat.zero_add _)) hcertain he

end Exit

/-- The drill leaves its loop after `moves`, stops the pipeline in `tail` and takes its
snapshot. One object ran without a crash and without an operator, and every event has a call.
Then the verifier accepts exactly when no event expired that was consumed, what was rejected
may be, the list of expected deaths is right, and the fault behaved. -/
theorem drill_exit (kafka : Kafka) (cfg : Config) (moves : List Move) (tail : List Act)
    (args : VerifyArgs) (d : Drill) (fault : Recovery)
    (h : Drilled kafka cfg (actsTaken kafka (Observed.of (Pipeline.init cfg)) moves ++ tail) args d
      fault)
    (hlife : ∀ x ∈ Machine.trace (Pipeline.step kafka) (Pipeline.init cfg)
      (actsTaken kafka (Observed.of (Pipeline.init cfg)) moves ++ tail), x.1.ends x.2 = false)
    (hrevive : ∀ id env, Act.retryDead id env ∉
      actsTaken kafka (Observed.of (Pipeline.init cfg)) moves ++ tail)
    (hquiet : ∀ args env, Act.enqueue args env ∉ tail)
    (hcalls : ∀ o ∈ d.offers, o.callUuid ≠ "")
    (hidle : (Machine.run (Observed.step kafka) (Observed.of (Pipeline.init cfg)) moves).admitting =
      false)
    (hleaves : d.Leaves
      (Machine.run (Observed.step kafka) (Observed.of (Pipeline.init cfg)) moves).visible) :
    let s := Machine.run (Pipeline.step kafka) (Pipeline.init cfg)
      (actsTaken kafka (Observed.of (Pipeline.init cfg)) moves ++ tail)
    verify args d.evidence = .ok 0 ↔
      (∀ r ∈ s.outbox.db.outbox, ∀ c ∈ d.consumed, c.eventId ≠ r.eventId) ∧
      (args.allowRejected = false → ∀ o ∈ d.offers, o.accepted = true) ∧
      (∀ id, id ∈ d.expectedDead ↔
        ∃ r ∈ s.outbox.db.outbox, r.eventId = id ∧ r.lastError ≠ some "expired_ttl") ∧
      (args.requireRecovery = true → (d.run fault).Recovered) := by
  have hpipe := observed_pipe kafka (Pipeline.init cfg) moves
  have hfirst : ∀ x ∈ Machine.trace (Pipeline.step kafka) (Pipeline.init cfg)
      (actsTaken kafka (Observed.of (Pipeline.init cfg)) moves), x.1.ends x.2 = false := by
    intro x hx
    apply hlife
    rw [Machine.trace_append]
    exact List.mem_append_left _ hx
  -- what the loop read is what was committed by then
  have hbooks := (balanced_init hfirst fun id env hmem =>
    hrevive id env (List.mem_append_left _ hmem)).1
  rw [← hpipe] at hbooks
  have hseen := hleaves.of_visible (observed_kept kafka (Pipeline.init cfg) moves) hidle hbooks
  rw [hpipe] at hseen
  exact h.accepts_drained hlife hrevive hquiet hcalls hseen

/-- One event is sent, consumed and acknowledged. -/
def sentOnce : List Act := firstSend ++ [.append 0 0, .report 0 none, .callback sampleEnv]

/-- `stop`, while the worker polls. -/
def stopPolling : List Act :=
  [.stop, .work sampleEnv, .work sampleEnv, .work sampleEnv, .joined]

def sentDrill : Drill where
  offers := [⟨"a", "c", true, "baseline"⟩]
  consumed := [⟨"a", 0, 0, 1001⟩]
  final := []
  expectedDead := []
  recovery := .missing

/-- The drill that leaves its loop then is accepted. -/
theorem drill_exit_once : verify drillArgs sentDrill.evidence = .ok 0 := by
  let tr := Machine.trace (Pipeline.step sampleKafka) (Pipeline.init (sampleConfig "events"))
    (sentOnce ++ stopPolling)
  let s := Machine.run (Pipeline.step sampleKafka) (Pipeline.init (sampleConfig "events"))
    (sentOnce ++ stopPolling)
  have hsource : ∀ args env, Act.enqueue args env ∈ sentOnce ++ stopPolling →
      args.sourceSequence = -1 := by
    intro args env h
    simp only [sentOnce, stopPolling, firstSend, List.mem_append, List.mem_cons,
      List.mem_replicate, List.not_mem_nil, reduceCtorEq, Act.enqueue.injEq, or_false, false_or,
      and_false] at h
    rw [h.1]
  have htext : blank "error" = false ∧ "error" ≠ "expired_ttl" := by decide
  have hwatch : sentDrill.Watches tr s :=
    ⟨by decide +kernel, ⟨s.log, fun _ => List.prefix_refl _, by decide +kernel⟩, by decide +kernel⟩
  have hkeeps : sentDrill.Keeps drillArgs ⟨.null, .null, 0, 0, 0, 0, []⟩ :=
    ⟨by decide, by decide, by decide, by decide, by decide, by decide, by decide, by decide,
      by simp [drillArgs]⟩
  have hdrilled : Drilled sampleKafka (sampleConfig "events") (sentOnce ++ stopPolling) drillArgs
      sentDrill ⟨.null, .null, 0, 0, 0, 0, []⟩ :=
    ⟨by decide, rfl, fun cfg' h => by simp [sentOnce, stopPolling, firstSend] at h,
      fun args env h => by rw [hsource args env h]; decide, fun _ => htext,
      ⟨by decide +kernel, by decide +kernel⟩, by decide +kernel, hwatch, hkeeps⟩
  have hempty : s.outbox.db.outbox.rows = [] := by decide +kernel
  have hnone : ∀ r, r ∉ s.outbox.db.outbox := by
    intro r hr
    rw [Table.mem_def, hempty] at hr
    cases hr
  have htaken : actsTaken sampleKafka (Observed.of (Pipeline.init (sampleConfig "events")))
      (counting sentOnce) = sentOnce := actsTaken_counting _ _ _
  have hseen : Machine.run (Observed.step sampleKafka)
      (Observed.of (Pipeline.init (sampleConfig "events"))) (counting sentOnce) =
        Observed.of (Machine.run (Pipeline.step sampleKafka) (Pipeline.init (sampleConfig "events"))
          sentOnce) := run_counting _ _ _
  refine (drill_exit sampleKafka (sampleConfig "events") (counting sentOnce) stopPolling drillArgs
    sentDrill ⟨.null, .null, 0, 0, 0, 0, []⟩ (htaken ▸ hdrilled) ?_ ?_ ?_ (by decide)
    (hseen ▸ rfl) ?_).mpr ?_
  · rw [htaken]
    decide +kernel
  · rw [htaken]
    exact fun id env h => by simp [sentOnce, stopPolling, firstSend] at h
  · exact fun args env h => by simp [stopPolling] at h
  · rw [hseen]
    exact ⟨by decide +kernel, by decide +kernel⟩
  · rw [htaken]
    refine ⟨fun r hr => absurd hr (hnone r), by decide, ?_, fun h => absurd h (by decide)⟩
    intro id
    refine iff_of_false List.not_mem_nil ?_
    rintro ⟨r, hr, -⟩
    exact hnone r hr

end EventKafka
