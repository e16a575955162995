import EventKafka.Pipeline.Barrier
import EventKafka.Pipeline.Order

/-! # Nothing admitted is lost

`enqueue` returns after the event is committed, and that is the promise: from then on
the event is a row of the outbox until a copy of it is in the broker's log. The row goes
only in the acknowledgement of a message that was read from it, and no success is
reported before the broker appended the message. The one exception is an expired event
without a call, whose row a full outbox may reclaim.
-/

namespace EventKafka

open Sql

/-- A later admission found the outbox full and took the room of the expired row of `e`. -/
def Reclaimed (tr : List (Pipeline × Act)) (e : Event) : Prop :=
  ∃ x ∈ tr, ∃ args env, x.2 = .enqueue args env ∧ (x.1.admitted x.2).isSome = true ∧
    full x.1.cfg.limits (args.toRecord x.1.cfg (env.clock 0)) x.1.outbox.db.outbox = true ∧
    ∃ r ∈ x.1.outbox.db.outbox, r.toEvent = e ∧ reclaimable r = true

/-- Every event of the history is stored, in the broker's log, or reclaimed. -/
structure Safe (tr : List (Pipeline × Act)) (s : Pipeline) : Prop where
  kept : ∀ e ∈ admittedEvents tr, (∃ r ∈ s.outbox.db.outbox, r.toEvent = e) ∨
    (∃ x ∈ s.log, x.record.Of e) ∨ Reclaimed tr e
  /-- No message is acknowledged before it was appended. -/
  acking : ∀ i, s.callback = some (.ack i) → s.appended i = true

/-! ## One step -/

section Step

variable {kafka : Kafka} {tr : List (Pipeline × Act)} {s : Pipeline} {act : Act}

/-- Quiet calls keep every row. -/
theorem QuietRun.row_kept {db db' : Db} (h : QuietRun db db') {r : Row} (hr : r ∈ db.outbox) :
    ∃ r' ∈ db'.outbox, r'.toEvent = r.toEvent := by
  induction h with
  | refl => exact ⟨r, hr, rfl⟩
  | tail _ hquiet ih =>
    rcases ih with ⟨r₁, hr₁, hevent⟩
    rcases hquiet.rows.forward hr₁ with ⟨r₂, hr₂, hst⟩
    exact ⟨r₂, hr₂, hst.event.trans hevent⟩

/-- What may remove a row. -/
theorem row_kept_step (kafka : Kafka) (act : Act) {r : Row} (hr : r ∈ s.outbox.db.outbox) :
    (∃ r' ∈ (s.step kafka act).outbox.db.outbox, r'.toEvent = r.toEvent) ∨
      (∃ i, s.callback = some (.ack i) ∧ r.eventId = s.opaqueId i) ∨
      Reclaimed [(s, act)] r.toEvent := by
  cases db_cases kafka s act with
  | quiet _ h => exact Or.inl (h.row_kept hr)
  | admitted hact hadm h =>
    rcases h.room with ⟨rfl, -⟩ | ⟨rfl, hfull, -⟩
    · exact Or.inl ⟨r, h.mem_outbox.mpr (Or.inl hr), rfl⟩
    · by_cases hrc : reclaimable r = true
      · right; right
        exact ⟨(s, act), List.mem_singleton_self _, _, _, hact, by simp [hadm], hfull, r, hr, rfl, hrc⟩
      · left
        refine ⟨r, h.mem_outbox.mpr (Or.inl (Table.mem_delete.mpr ⟨hr, ?_⟩)), rfl⟩
        simpa using hrc
  | @acked env i q _ hcb _ hid _ _ h =>
    by_cases hmine : r.eventId = q.eventId
    · exact Or.inr (Or.inl ⟨i, hcb, hmine.trans hid⟩)
    · left
      rw [h]
      exact ⟨q.afterAck (env.clock 0) r, Db.mem_acked_outbox.mpr ⟨r, hr, hmine, rfl⟩, by simp⟩

/-- The row whose message is acknowledged has a copy in the log. -/
theorem Safe.logged (h : Safe tr s) (hfaithful : Faithful s) (hlogged : Logged kafka s) {i : ℕ}
    {r : Row} (hcb : s.callback = some (.ack i)) (hr : r ∈ s.outbox.db.outbox)
    (hid : r.eventId = s.opaqueId i) : ∃ x ∈ s.log, x.record.Of r.toEvent := by
  rcases List.any_eq_true.mp (h.acking i hcb) with ⟨x, hx, hxi⟩
  have hxi' : x.message = i := of_decide_eq_true hxi
  rcases hlogged x hx with ⟨m, partition, hm, hentry⟩
  rw [hxi'] at hm hentry
  refine ⟨x, hx, ?_⟩
  have hrec : x.record = m.record := by rw [hentry]; rfl
  rw [hrec]
  apply hfaithful.ack i m hcb hm r hr
  rw [hid, Pipeline.opaqueId_of hm]

/-- The log only grows. -/
theorem mem_log_step {x : LogEntry} (hx : x ∈ s.log) : x ∈ (s.step kafka act).log := by
  rcases step_log kafka s act with hsame | ⟨_, _, _, -, -, happ⟩
  · rw [hsame]
    exact hx
  · rw [happ]
    exact List.mem_append_left _ hx

/-- A reclaim stays in the history. -/
theorem Reclaimed.mono {tr' : List (Pipeline × Act)} {e : Event} (h : Reclaimed tr e)
    (hsub : ∀ x ∈ tr, x ∈ tr') : Reclaimed tr' e := by
  rcases h with ⟨x, hx, hrest⟩
  exact ⟨x, hsub x hx, hrest⟩

/-- Only an event without a call is ever reclaimed, and only after it expired. -/
theorem Reclaimed.expired {e : Event} (h : Reclaimed tr e) :
    e.grouped = false ∧ ∃ x ∈ tr, ∃ r ∈ x.1.outbox.db.outbox, r.toEvent = e ∧ r.state = .dead ∧
      r.lastError = some "expired_ttl" := by
  rcases h with ⟨x, hx, _, _, -, -, -, r, hr, rfl, hrc⟩
  simp only [reclaimable, Bool.and_eq_true, decide_eq_true_eq, Bool.not_eq_true'] at hrc
  exact ⟨hrc.2, x, hx, r, hr, rfl, hrc.1.1, hrc.1.2⟩

/-- A row leaves the table by an ACK of its message, which is in the log, or by the reclaim. -/
theorem Safe.step (h : Safe tr s) (hfaithful : Faithful s) (hlogged : Logged kafka s) :
    Safe (tr ++ [(s, act)]) (s.step kafka act) where
  kept := by
    intro e he
    rw [admittedEvents_append, List.mem_append, admittedEvents_singleton] at he
    rcases he with hold | hnew
    · rcases h.kept e hold with ⟨r, hr, rfl⟩ | ⟨x, hx, hof⟩ | hrc
      · rcases row_kept_step kafka act hr with hrow | ⟨i, hcb, hid⟩ | hrc
        · exact Or.inl hrow
        · -- the acknowledgement takes the row, and the log has its copy
          rcases h.logged hfaithful hlogged hcb hr hid with ⟨x, hx, hof⟩
          exact Or.inr (Or.inl ⟨x, mem_log_step hx, hof⟩)
        · exact Or.inr (Or.inr (hrc.mono fun x hx => List.mem_append_right _ hx))
      · exact Or.inr (Or.inl ⟨x, mem_log_step hx, hof⟩)
      · exact Or.inr (Or.inr (hrc.mono fun x hx => List.mem_append_left _ hx))
    · have hadm : s.admitted act = some e := by simpa using hnew
      left
      cases db_cases kafka s act with
      | quiet hnone => simp [hnone] at hadm
      | admitted _ hsome hadmission =>
        rw [hsome, Option.some.injEq] at hadm
        exact ⟨_, hadmission.mem_outbox.mpr (Or.inr rfl), hadm⟩
      | acked hact =>
        rw [hact] at hadm
        simp [Pipeline.admitted] at hadm
  acking := by
    intro i hcb
    rcases ack_step hcb with hold | happended
    · exact appended_step (h.acking i hold)
    · exact appended_step happended

end Step

/-! ## Every run -/

/-- Every admitted event is stored, in the log or reclaimed. -/
theorem safe_run (kafka : Kafka) (cfg : Config) (acts : List Act)
    (hids : (∀ x ∈ Machine.trace (Pipeline.step kafka) (Pipeline.init cfg) acts,
        x.1.served x.2 = true) ∨
      ((admittedEvents (Machine.trace (Pipeline.step kafka) (Pipeline.init cfg) acts)).map
        fun e => e.eventId).Nodup) :
    Safe (Machine.trace (Pipeline.step kafka) (Pipeline.init cfg) acts)
      (Machine.run (Pipeline.step kafka) (Pipeline.init cfg) acts) := by
  refine Machine.trace_invariant (J := fun tr s => Safe tr s)
    (P := fun s _ => Faithful s ∧ Logged kafka s) ⟨?_, ?_⟩ (fun _ _ _ hP h => h.step hP.1 hP.2)
    acts ?_
  · exact fun e he => absurd he List.not_mem_nil
  · exact fun i hcb => by simp [Pipeline.init] at hcb
  · intro x hx
    have hfaithful := faithful_along kafka cfg acts hids x hx
    rcases Machine.exists_prefix_of_mem_trace hx with ⟨pre, post, -, hrun⟩
    refine ⟨hfaithful, ?_⟩
    rw [hrun]
    exact logged_run kafka cfg pre

/-! ## The positions of a call -/

/-- The events of call `c` in a history. -/
def admittedOf (c : Call) (tr : List (Pipeline × Act)) : List Event :=
  (admittedEvents tr).filter fun e => e.call = c

/-- The events a call admitted, step by step. -/
theorem admittedOf_snoc (c : Call) (tr : List (Pipeline × Act)) (s : Pipeline) (act : Act) :
    admittedOf c (tr ++ [(s, act)]) =
      admittedOf c tr ++ (s.admitted act).toList.filter fun e => e.call = c := by
  rw [admittedOf, admittedEvents_append, List.filter_append, admittedEvents_singleton]
  rfl

/-- The events of call `c` have different positions, each below the cursor or of a row. -/
structure Positioned (c : Call) (events : List Event) (db : Db) : Prop where
  distinct : (events.map fun e => e.callSeq).Nodup
  settled : ∀ e ∈ events, (∃ k : ℕ, e.callSeq = some (k : Int) ∧ k < db.cursor c) ∨
    ∃ r ∈ db.outbox, r.toEvent = e

section Positioned

variable {kafka : Kafka} {tr : List (Pipeline × Act)} {s : Pipeline} {act : Act} {c : Call}

/-- The row of a call goes only with the cursor that passes it. -/
theorem settled_step (hinv : StoreInv s.outbox.db) (hc : c.2 ≠ "") {e : Event} (hcall : e.call = c)
    (h : (∃ k : ℕ, e.callSeq = some (k : Int) ∧ k < s.outbox.db.cursor c) ∨
      ∃ r ∈ s.outbox.db.outbox, r.toEvent = e) :
    (∃ k : ℕ, e.callSeq = some (k : Int) ∧ k < (s.step kafka act).outbox.db.cursor c) ∨
      ∃ r ∈ (s.step kafka act).outbox.db.outbox, r.toEvent = e := by
  have hg : e.grouped = true := Event.grouped_of_call hcall hc
  rcases h with ⟨k, hseq, hk⟩ | ⟨r, hr, rfl⟩
  · refine Or.inl ⟨k, hseq, ?_⟩
    rcases cursor_step kafka act hinv c with hsame | ⟨_, _, -, -, -, -, -, -, hnext⟩
    · rw [hsame]
      exact hk
    · omega
  · cases db_cases kafka s act with
    | quiet _ h => exact Or.inr (h.row_kept hr)
    | admitted _ _ h => exact Or.inr ⟨r, h.mem_outbox.mpr (Or.inl (h.room.mem_of_grouped hr hg)), rfl⟩
    | @acked env i q _ _ hq _ _ hhead h =>
      by_cases hmine : r.eventId = q.eventId
      · have hrq : r = q := Table.eq_of_key hr hq hmine
        subst hrq
        left
        have hplaced : (∃ k : ℕ, r.callSeq = some (k : Int) ∧ s.outbox.db.cursor r.call = k) ∧
            (s.outbox.db.acked r (env.clock 0)).cursor r.call = s.outbox.db.cursor r.call + 1 :=
          acked_cursor_of_call hinv hr hhead hg
        rcases hplaced with ⟨⟨k, hseq, hk⟩, hnext⟩
        rw [hcall] at hk hnext
        exact ⟨k, hseq, by rw [h]; omega⟩
      · right
        rw [h]
        exact ⟨q.afterAck (env.clock 0) r, Db.mem_acked_outbox.mpr ⟨r, hr, hmine, rfl⟩, by simp⟩

/-- A new row stands at or above the cursor, at a position no other row has. -/
theorem Positioned.step (hinv : StoreInv s.outbox.db) (hc : c.2 ≠ "")
    (h : Positioned c (admittedOf c tr) s.outbox.db) :
    Positioned c (admittedOf c (tr ++ [(s, act)])) (s.step kafka act).outbox.db := by
  have hold : ∀ e ∈ admittedOf c tr, e.call = c := fun e he =>
    of_decide_eq_true (List.mem_filter.mp he).2
  rw [admittedOf_snoc]
  have hkept : ∀ e ∈ admittedOf c tr, (∃ k : ℕ, e.callSeq = some (k : Int) ∧
      k < (s.step kafka act).outbox.db.cursor c) ∨
        ∃ r ∈ (s.step kafka act).outbox.db.outbox, r.toEvent = e := fun e he =>
    settled_step hinv hc (hold e he) (h.settled e he)
  by_cases hnew : ∃ e, s.admitted act = some e ∧ e.call = c
  case neg =>
    have hnil : ((s.admitted act).toList.filter fun e => decide (e.call = c)) = [] := by
      apply List.filter_eq_nil_iff.mpr
      intro e he hec
      exact hnew ⟨e, by simpa using he, of_decide_eq_true hec⟩
    rw [hnil, List.append_nil]
    exact ⟨h.distinct, hkept⟩
  case pos =>
    rcases hnew with ⟨e, hadm, hec⟩
    have hone : ((s.admitted act).toList.filter fun e => decide (e.call = c)) = [e] := by
      simp [hadm, hec]
    rw [hone]
    cases db_cases kafka s act with
    | quiet hnone => simp [hnone] at hadm
    | acked hact =>
      rw [hact] at hadm
      simp [Pipeline.admitted] at hadm
    | @admitted args env seq dn base hact hsome hadmission =>
      rw [hsome, Option.some.injEq] at hadm
      have hinv' := hinv.admitted hadmission
      have hcursor := hadmission.cursor hinv c
      generalize hrow : newRow (args.toRecord s.cfg (env.clock 0)) (env.clock 1) seq dn = q at *
      have hq : q ∈ (s.step kafka act).outbox.db.outbox :=
        hadmission.mem_outbox.mpr (Or.inr hrow.symm)
      have hg : q.grouped = true := Event.grouped_of_call (hadm ▸ hec) hc
      rcases hinv'.placed q hq hg with ⟨t, ht, k, hk⟩
      constructor
      case settled =>
        intro e' he'
        rcases List.mem_append.mp he' with he' | he'
        · exact hkept e' he'
        · exact Or.inr ⟨q, hq, hadm.trans (List.mem_singleton.mp he').symm⟩
      case distinct =>
        rw [List.map_append, List.map_singleton]
        refine h.distinct.append (List.nodup_singleton _) ?_
        rw [List.disjoint_singleton, List.mem_map]
        rintro ⟨e', he', hseq⟩
        have hek : e'.callSeq = some k := by
          rw [hseq, ← hadm]
          exact hk.seq
        rcases h.settled e' he' with ⟨j, hj, hlt⟩ | ⟨r, hr, hre⟩
        · -- passed by the cursor, which the new position is not
          rw [← hcursor, Db.cursor_of_mem ht (hk.call.trans (hadm ▸ hec))] at hlt
          have hlo := hk.lo
          have hjk : (j : Int) = k := Option.some.inj (hj.symm.trans hek)
          omega
        · -- still a row, and its position is taken
          subst hre
          have hrg : r.grouped = true := Event.grouped_of_call (hold _ he') hc
          have hbase := hadmission.room.mem_of_grouped hr hrg
          have hcall : r.call = q.call := (hold _ he').trans (hadm ▸ hec).symm
          have hrq : r = q := eq_of_position (hadmission.mem_outbox.mpr (Or.inl hbase)) hq hrg hg
            hcall hek hk.seq
          rw [← hrow] at hrq
          exact Table.key_ne_of_insert hadmission.row hbase (congrArg (fun r => r.eventId) hrq)

end Positioned

/-- The events of a call have the positions of their admission. -/
theorem positioned_run (kafka : Kafka) (cfg : Config) (acts : List Act) {c : Call} (hc : c.2 ≠ "") :
    Positioned c (admittedOf c (Machine.trace (Pipeline.step kafka) (Pipeline.init cfg) acts))
      (Machine.run (Pipeline.step kafka) (Pipeline.init cfg) acts).outbox.db := by
  refine (Machine.trace_invariant
    (J := fun tr s => StoreInv s.outbox.db ∧ Positioned c (admittedOf c tr) s.outbox.db)
    (P := fun _ _ => True) ⟨StoreInv.empty, List.nodup_nil, ?_⟩ ?_ acts (fun _ _ => trivial)).2
  · exact fun e he => absurd he List.not_mem_nil
  · rintro tr s act - ⟨hinv, h⟩
    exact ⟨hinv.pipeline kafka act, h.step hinv hc⟩

/-! ## What the broker has -/

/-- What is in the log was admitted. -/
theorem log_admitted (kafka : Kafka) (cfg : Config) (acts : List Act) {x : LogEntry}
    (hx : x ∈ (Machine.run (Pipeline.step kafka) (Pipeline.init cfg) acts).log) :
    ∃ e ∈ admittedEvents (Machine.trace (Pipeline.step kafka) (Pipeline.init cfg) acts),
      x.record.Of e := by
  rcases logged_run kafka cfg acts x hx with ⟨m, partition, hm, hentry⟩
  have hrec : x.record = m.record := by rw [hentry]; rfl
  rw [hrec]
  exact (origin_run kafka cfg acts).held _
    (Pipeline.mem_held.mpr (Or.inr ⟨m, List.mem_of_getElem? hm, rfl⟩))

/-- For every run: an event whose `enqueue` succeeded is a row, or the log has a copy of
it, or it belongs to no call, has expired, and its row was reclaimed by a later admission
to a full outbox. And the log has copies of such events only. -/
theorem no_event_lost (kafka : Kafka) (cfg : Config) (acts : List Act)
    (hids : (∀ x ∈ Machine.trace (Pipeline.step kafka) (Pipeline.init cfg) acts,
        x.1.served x.2 = true) ∨
      ((admittedEvents (Machine.trace (Pipeline.step kafka) (Pipeline.init cfg) acts)).map
        fun e => e.eventId).Nodup) :
    let tr := Machine.trace (Pipeline.step kafka) (Pipeline.init cfg) acts
    let s := Machine.run (Pipeline.step kafka) (Pipeline.init cfg) acts
    (∀ e ∈ admittedEvents tr, (∃ r ∈ s.outbox.db.outbox, r.toEvent = e) ∨
      (∃ x ∈ s.log, x.record.Of e) ∨ Reclaimed tr e ∧ e.grouped = false) ∧
    ∀ x ∈ s.log, ∃ e ∈ admittedEvents tr, x.record.Of e := by
  intro tr s
  constructor
  · intro e he
    rcases (safe_run kafka cfg acts hids).kept e he with hrow | hlog | hrc
    · exact Or.inl hrow
    · exact Or.inr (Or.inl hlog)
    · exact Or.inr (Or.inr ⟨hrc, hrc.expired.1⟩)
  · exact fun x hx => log_admitted kafka cfg acts hx

/-- For every run and every call without a row left: the log has a copy of each of its
events, and the first occurrences of its positions are `0, 1, ..., n - 1`, `n` the number
of its events. Repetitions apart the broker has each event once, in order. -/
theorem drained_call_delivered (kafka : Kafka) (cfg : Config) (acts : List Act)
    (hids : (∀ x ∈ Machine.trace (Pipeline.step kafka) (Pipeline.init cfg) acts,
        x.1.served x.2 = true) ∨
      ((admittedEvents (Machine.trace (Pipeline.step kafka) (Pipeline.init cfg) acts)).map
        fun e => e.eventId).Nodup)
    (c : Call) (hc : c.2 ≠ "")
    (hdrained : ∀ r ∈ (Machine.run (Pipeline.step kafka) (Pipeline.init cfg) acts).outbox.db.outbox,
      r.call ≠ c) :
    let tr := Machine.trace (Pipeline.step kafka) (Pipeline.init cfg) acts
    let s := Machine.run (Pipeline.step kafka) (Pipeline.init cfg) acts
    (∀ e ∈ admittedOf c tr, ∃ x ∈ s.entries c, x.record.Of e) ∧
      (s.positions c).eraseDups = List.range (admittedOf c tr).length := by
  intro tr s
  have hordered : (s.positions c).eraseDups = List.range (s.positions c).eraseDups.length :=
    (ordered_run kafka cfg acts hids hc).sound.ordered
  have hpos : Positioned c (admittedOf c tr) s.outbox.db := positioned_run kafka cfg acts hc
  have hcopies : ∀ e ∈ admittedOf c tr, ∃ x ∈ s.entries c, x.record.Of e := by
    intro e he
    rcases List.mem_filter.mp he with ⟨hadm, hcall⟩
    have hcall' : e.call = c := of_decide_eq_true hcall
    rcases (safe_run kafka cfg acts hids).kept e hadm with ⟨r, hr, rfl⟩ | ⟨x, hx, hof⟩ | hrc
    · exact absurd hcall' (hdrained r hr)
    · refine ⟨x, List.mem_filter.mpr ⟨hx, ?_⟩, hof⟩
      rw [decide_eq_true_iff, hof.call]
      exact hcall'
    · have hg := Event.grouped_of_call hcall' hc
      rw [hrc.expired.1] at hg
      cases hg
  refine ⟨hcopies, ?_⟩
  -- the positions of the events are those of the log, and each is one event's
  have hperm : ((admittedOf c tr).map fun e => e.callSeq).Perm
      ((s.positions c).eraseDups.map fun k : ℕ => some (k : Int)) := by
    refine (List.perm_ext_iff_of_nodup hpos.distinct ?_).mpr fun seq => ?_
    · rw [hordered]
      refine List.Nodup.map (fun j k hjk => ?_) List.nodup_range
      exact Int.ofNat.inj (Option.some.inj hjk)
    · rw [List.mem_map, List.mem_map]
      constructor
      · rintro ⟨e, he, rfl⟩
        rcases hpos.settled e he with ⟨k, hseq, hk⟩ | ⟨r, hr, rfl⟩
        · have hlogged := (ordered_run kafka cfg acts hids hc).sound.logged k hk
          exact ⟨k, List.mem_eraseDups.mpr hlogged, hseq.symm⟩
        · exact absurd (of_decide_eq_true (List.mem_filter.mp he).2) (hdrained r hr)
      · rintro ⟨k, hk, rfl⟩
        rcases List.mem_map.mp (List.mem_eraseDups.mp hk) with ⟨x, hx, rfl⟩
        rcases List.mem_filter.mp hx with ⟨hlog, hcall⟩
        rcases log_admitted kafka cfg acts hlog with ⟨e, he, hof⟩
        have hcall' : e.call = c := hof.call.symm.trans (of_decide_eq_true hcall)
        rcases anchored_run kafka cfg acts e he (Event.grouped_of_call hcall' hc) with
          ⟨-, -, -, -, -, j, hseq, hmax⟩
        refine ⟨e, List.mem_filter.mpr ⟨he, decide_eq_true hcall'⟩, ?_⟩
        rw [hseq, OutboxRecord.ordinal, hof.callSeq_toInt hseq hmax, Int.toNat_natCast]
  have hlen := hperm.length_eq
  rw [List.length_map, List.length_map] at hlen
  rw [hlen]
  exact hordered

/-- A crash after the first append, a second send, and both events acknowledged. -/
def resentCall : List Act :=
  firstSend ++ [.append 0 0, .crash, .start sampleEnv] ++ List.replicate 7 (.work sampleEnv) ++
    [.append 1 0, .report 1 none, .callback sampleEnv,
      .enqueue ⟨"b", [], "key", "c", -1⟩ sampleEnv] ++
    List.replicate 8 (.work sampleEnv) ++ [.append 2 0, .report 2 none, .callback sampleEnv]

/-- Every poll of that run returns with its reports served. -/
theorem served_resentCall :
    ∀ x ∈ Machine.trace (Pipeline.step sampleKafka) (Pipeline.init (sampleConfig "events"))
      resentCall, x.1.served x.2 = true := by
  decide +kernel

/-- Nothing is left in the outbox, so both events are in the log. -/
theorem no_event_lost_resent :
    let tr := Machine.trace (Pipeline.step sampleKafka) (Pipeline.init (sampleConfig "events"))
      resentCall
    let s := Machine.run (Pipeline.step sampleKafka) (Pipeline.init (sampleConfig "events"))
      resentCall
    (admittedEvents tr).map (fun e => e.eventId) = ["a", "b"] ∧ s.outbox.db.outbox.rows = [] ∧
      ∀ e ∈ admittedEvents tr, (∃ r ∈ s.outbox.db.outbox, r.toEvent = e) ∨
        (∃ x ∈ s.log, x.record.Of e) ∨ Reclaimed tr e ∧ e.grouped = false :=
  ⟨by decide +kernel, by decide +kernel,
    (no_event_lost sampleKafka _ resentCall (Or.inl served_resentCall)).1⟩

/-- The first event was appended twice, and the positions of the call have no gap. -/
theorem drained_call_delivered_resent :
    let s := Machine.run (Pipeline.step sampleKafka) (Pipeline.init (sampleConfig "events"))
      resentCall
    s.positions ("events", "c") = [0, 0, 1] ∧
      (s.positions ("events", "c")).eraseDups =
        List.range (admittedOf ("events", "c") (Machine.trace (Pipeline.step sampleKafka)
          (Pipeline.init (sampleConfig "events")) resentCall)).length := by
  have hempty : ∀ r ∈ (Machine.run (Pipeline.step sampleKafka)
      (Pipeline.init (sampleConfig "events")) resentCall).outbox.db.outbox.rows,
      r.call ≠ ("events", "c") := by
    decide +kernel
  exact ⟨by decide +kernel, (drained_call_delivered sampleKafka _ resentCall
    (Or.inl served_resentCall) ("events", "c") (by decide) hempty).2⟩

end EventKafka
