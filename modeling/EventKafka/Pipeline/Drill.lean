import EventKafka.Outbox.EventId
import EventKafka.Pipeline.Loss
import EventKafka.Pipeline.Verified
import EventKafka.Verifier.Verdict
import EventKafka.Verifier.Written

/-! # The verdict on a drill

A drill offers events to the pipeline in admission mode, reads the partitions of the
broker for as long as it likes, and writes down what it saw. The acceptance verifier then
judges the files. Here the two meet: whatever was interleaved, whatever failed and however
often the process died, the verifier finds the evidence well formed and no call out of
order. It accepts exactly when the outbox is drained to the deaths that were expected, no
event both died and was consumed, and every other event was consumed.
-/

namespace EventKafka

open Sql

/-! ## What a drill sees -/

/-- `enqueue` gives the event an id: it got past the checks made before. -/
def Pipeline.assigns (s : Pipeline) (args : EnqueueArgs) : Bool :=
  !(s.stopping || !s.accept || args.refused s.cfg)

/-- The offer a step made: id, call, and what `enqueue` returned. -/
def Pipeline.offer (s : Pipeline) : Act → Option (String × String × Bool)
  | .enqueue args env =>
    if s.assigns args then
      some (args.eventId, args.callUuid, (s.admitted (.enqueue args env)).isSome)
    else none
  | _ => none

/-- The offers of a history. -/
def offered (tr : List (Pipeline × Act)) : List (String × String × Bool) :=
  tr.filterMap fun x => x.1.offer x.2

/-- A consumer reads each partition from its start and in order, and stops anywhere.
Partitions are interleaved in any way. -/
structure Consumes (log entries : List LogEntry) (consumed : List Consumption) : Prop where
  partitions : ∀ p, (entries.filter fun x => x.partition = p) <+:
    log.filter fun x => x.partition = p
  seen : (consumed.map fun c => (c.eventId, c.partition)) =
    entries.map fun x => (x.record.eventId, (x.partition : Int))

/-- The ids `enqueue` draws are spelled as the files need them. -/
theorem unspaced_makeEventId (a b : UInt64) : Unspaced (makeEventId a b) := by
  have htext : (makeEventId a b).toList = eventIdText a b := String.toList_ofList
  have hdigits : ∀ n, n < 16 → isSpace n.digitChar = false := by decide
  constructor
  · intro hempty
    rw [hempty] at htext
    have hlength := length_eventIdText a b
    rw [← htext] at hlength
    simp at hlength
  · intro c hc
    rw [htext] at hc
    rcases mem_eventIdText hc with rfl | ⟨n, hn, rfl⟩
    · decide
    · exact hdigits n hn

/-- The drill wrote down the offers, the log and the final outbox. -/
structure Drill.Watches (d : Drill) (tr : List (Pipeline × Act)) (s : Pipeline) : Prop where
  offers : (d.offers.map fun o => (o.eventId, o.callUuid, o.accepted)) = offered tr
  consumed : ∃ entries, Consumes s.log entries d.consumed
  final : d.final = s.outbox.db.outbox.rows.map Row.final

/-- The outcome the verifier accepts. -/
structure Settled (args : VerifyArgs) (tr : List (Pipeline × Act)) (s : Pipeline) (d : Drill) :
    Prop where
  drained : ∀ r ∈ s.outbox.db.outbox, r.state = .dead
  /-- No event both died and was consumed. -/
  certain : ∀ r ∈ s.outbox.db.outbox, ∀ c ∈ d.consumed, c.eventId ≠ r.eventId
  /-- No event is missing. -/
  kept : ∀ e ∈ admittedEvents tr, (∃ r ∈ s.outbox.db.outbox, r.toEvent = e) ∨
    ∃ c ∈ d.consumed, c.eventId = e.eventId
  allowed : args.allowRejected = false → ∀ o ∈ d.offers, o.accepted = true
  expected : ∀ id, id ∈ d.expectedDead ↔
    ∃ r ∈ s.outbox.db.outbox, r.eventId = id ∧ r.lastError ≠ some "expired_ttl"

/-! ## Admission in the order of the offers -/

/-- Of two events of one call the first has the lower sequence. -/
def Rises (e e' : Event) : Prop :=
  e.call = e'.call → e.grouped = true → e.callSeq.getD 0 < e'.callSeq.getD 0

section Rising

variable {kafka : Kafka} {tr : List (Pipeline × Act)} {s : Pipeline} {act : Act}

/-- A new event stands above every event of its call. -/
theorem rises_admitted {lim : Limits} {rec : OutboxRecord} {now seq : Int} {dn : Bool}
    {base : OutboxTable} {db db' : Db} (h : Admission lim rec now db db' seq dn base)
    (hinv : StoreInv db) (hneg : rec.callSeq.toInt < 0) {e : Event}
    (hcall : e.call = (newRow rec now seq dn).call) (hg : e.grouped = true)
    (hsettled : (∃ k : ℕ, e.callSeq = some (k : Int) ∧ k < db.cursor e.call) ∨
      ∃ r ∈ db.outbox, r.toEvent = e) :
    e.callSeq.getD 0 < (newRow rec now seq dn).callSeq.getD 0 := by
  have hrec : (newRow rec now seq dn).call = rec.call := rfl
  have huuid : rec.callUuid ≠ "" := by
    have hne : e.call.2 ≠ "" := of_decide_eq_true hg
    rw [hcall, hrec] at hne
    exact hne
  have hseq : (newRow rec now seq dn).callSeq.getD 0 = seq := by simp [newRow, huuid]
  rw [hseq]
  rcases h.streams.inv with ⟨hempty, -, -⟩ | ⟨tbl, q, -, -, -, hclaim, -⟩
  · exact absurd hempty huuid
  rw [hclaim.admission hneg]
  rcases hclaim.found with ⟨hq, -⟩ | ⟨hnone, -, -, -⟩
  · have hqc : q.call = e.call := hclaim.call_eq.trans (hrec.symm.trans hcall.symm)
    rcases hsettled with ⟨k, hk, hlt⟩ | ⟨r, hr, rfl⟩
    · have hbounded := hinv.bounded q hq
      have hnonneg := hbounded.nonneg
      have hordered := hbounded.ordered
      rw [Db.cursor_of_mem hq hqc] at hlt
      simp only [hk, Option.getD_some]
      omega
    · rcases hinv.placed r hr hg with ⟨t, ht, k, hk⟩
      have htq : t = q := Table.eq_of_key ht hq (hk.call.trans hqc.symm)
      subst htq
      simpa [hk.seq] using hk.hi
  · -- the call has no stream, so it has no events either
    have hother : ∀ t ∈ db.callStreams, t.call ≠ e.call := by
      intro t ht
      rw [hcall, hrec]
      exact hnone t ht
    rcases hsettled with ⟨k, -, hlt⟩ | ⟨r, hr, rfl⟩
    · rw [Db.cursor_of_none hother] at hlt
      exact absurd hlt (Nat.not_lt_zero k)
    · rcases hinv.placed r hr hg with ⟨t, ht, k, hk⟩
      exact absurd hk.call (hother t ht)

/-- In admission mode the events of a call are admitted in the order of their sequence. -/
theorem rising_run (kafka : Kafka) (cfg : Config) (acts : List Act)
    (hsource : ∀ args env, Act.enqueue args env ∈ acts → args.sourceSequence.toInt < 0) :
    (admittedEvents (Machine.trace (Pipeline.step kafka) (Pipeline.init cfg) acts)).Pairwise
      Rises := by
  have hacts : ∀ x ∈ Machine.trace (Pipeline.step kafka) (Pipeline.init cfg) acts,
      ∀ args env, x.2 = .enqueue args env → args.sourceSequence.toInt < 0 := by
    intro x hx args env heq
    exact hsource args env (heq ▸ Machine.mem_of_mem_trace hx)
  refine (Machine.trace_invariant
    (J := fun tr s => StoreInv s.outbox.db ∧
      (∀ c : Call, c.2 ≠ "" → Positioned c (admittedOf c tr) s.outbox.db) ∧
      (admittedEvents tr).Pairwise Rises)
    (P := fun _ act => ∀ args env, act = .enqueue args env → args.sourceSequence.toInt < 0)
    ⟨StoreInv.empty, ?_, List.Pairwise.nil⟩ ?_ acts hacts).2.2
  · exact fun c _ => ⟨List.nodup_nil, fun e he => absurd he List.not_mem_nil⟩
  · rintro tr s act hneg ⟨hinv, hpos, hrises⟩
    refine ⟨hinv.pipeline kafka act, fun c hc => (hpos c hc).step hinv hc, ?_⟩
    rw [admittedEvents_append, admittedEvents_singleton, List.pairwise_append]
    refine ⟨hrises, by cases s.admitted act <;> simp, ?_⟩
    intro e he e' he' hcall hg
    have hadm : s.admitted act = some e' := by simpa using he'
    cases db_cases kafka s act with
    | quiet hnone => simp [hnone] at hadm
    | acked hact =>
      rw [hact] at hadm
      simp [Pipeline.admitted] at hadm
    | @admitted args env seq dn base hact hsome hadmission =>
      rw [hsome, Option.some.injEq] at hadm
      subst hadm
      have hc : e.call.2 ≠ "" := of_decide_eq_true hg
      have hmine : e ∈ admittedOf e.call tr :=
        List.mem_filter.mpr ⟨he, decide_eq_true rfl⟩
      exact rises_admitted hadmission hinv (hneg args env hact) hcall hg
        ((hpos e.call hc).settled e hmine)

end Rising

/-! ## Offers and admissions -/

/-- An offer is accepted when its event is admitted. -/
theorem offer_admitted (s : Pipeline) (act : Act) :
    ((s.offer act).filter fun o => o.2.2).map (fun o => (o.1, o.2.1)) =
      (s.admitted act).map fun e => (e.eventId, e.uuid) := by
  cases act with
  | enqueue args env =>
    by_cases hguard : s.stopping = true ∨ s.accept = false ∨ args.refused s.cfg = true
    · have hassigns : s.assigns args = false := by
        simp only [Pipeline.assigns, Bool.not_eq_false', Bool.or_eq_true, Bool.not_eq_true']
        tauto
      simp [Pipeline.offer, hassigns, Pipeline.admitted, if_pos hguard]
    · have hassigns : s.assigns args = true := by
        simp only [Pipeline.assigns, Bool.not_eq_true', Bool.or_eq_false_iff, Bool.not_eq_false']
        simp only [not_or, Bool.not_eq_true, Bool.not_eq_false] at hguard
        exact ⟨⟨hguard.1, hguard.2.1⟩, hguard.2.2⟩
      rw [Pipeline.offer, if_pos hassigns]
      cases hadm : s.admitted (.enqueue args env) with
      | none => simp [Option.filter]
      | some e =>
        have hadm' := hadm
        simp only [Pipeline.admitted, if_neg hguard] at hadm'
        rcases Option.map_eq_some_iff.mp hadm' with ⟨⟨rec, assigned⟩, hx, rfl⟩
        rcases Outbox.admission_eq_some.mp hx with ⟨lim, now, fault, hop, -⟩
        cases hop
        simp [Option.filter, admittedEvent, EnqueueArgs.toRecord, Event.uuid]
  | _ => rfl

/-- The offers that were accepted are the admissions, in order. -/
theorem accepted_eq (tr : List (Pipeline × Act)) :
    ((offered tr).filter fun o => o.2.2).map (fun o => (o.1, o.2.1)) =
      (admittedEvents tr).map fun e => (e.eventId, e.uuid) := by
  induction tr with
  | nil => rfl
  | cons x tr ih =>
    have hhead := offer_admitted x.1 x.2
    have hoffered : offered (x :: tr) = (x.1.offer x.2).toList ++ offered tr := by
      cases hoffer : x.1.offer x.2 <;> simp [offered, hoffer]
    have hadmitted : admittedEvents (x :: tr) = (x.1.admitted x.2).toList ++ admittedEvents tr := by
      cases hadm : x.1.admitted x.2 <;> simp [admittedEvents, hadm]
    rw [hoffered, hadmitted, List.filter_append, List.map_append, List.map_append, ih]
    congr 1
    rw [← Option.toList_map, ← hhead, Option.toList_map, Option.toList_filter]

/-! ## Consumption in the order of the sequence -/

/-- What was consumed is in the log. -/
theorem Consumes.mem_log {log entries : List LogEntry} {consumed : List Consumption}
    (h : Consumes log entries consumed) {x : LogEntry} (hx : x ∈ entries) : x ∈ log := by
  have hread : x ∈ entries.filter fun y => y.partition = x.partition :=
    List.mem_filter.mpr ⟨hx, decide_eq_true rfl⟩
  exact (List.mem_filter.mp ((h.partitions _).subset hread)).1

/-- Entries of one partition are consumed in the order of the log. -/
theorem Consumes.filter_prefix {log entries : List LogEntry} {consumed : List Consumption}
    (h : Consumes log entries consumed) {q : LogEntry → Bool} {p : ℕ}
    (hone : ∀ x ∈ log, q x = true → x.partition = p) : entries.filter q <+: log.filter q := by
  have hpart : ∀ l : List LogEntry, (∀ x ∈ l, x ∈ log) →
      l.filter q = (l.filter fun x => x.partition = p).filter q := by
    intro l hl
    rw [List.filter_filter]
    apply List.filter_congr
    intro x hx
    by_cases hq : q x = true
    · simp [hq, hone x (hl x hx) hq]
    · simp [Bool.eq_false_iff.mpr hq]
  rw [hpart entries fun x hx => h.mem_log hx, hpart log fun x hx => hx]
  exact (h.partitions p).filter q

/-- It was consumed under the ids it has in the log. -/
theorem Consumes.ids {log entries : List LogEntry} {consumed : List Consumption}
    (h : Consumes log entries consumed) :
    consumed.map Consumption.eventId = entries.map fun x => x.record.eventId := by
  have hfst := congrArg (List.map Prod.fst) h.seen
  rw [List.map_map, List.map_map] at hfst
  exact hfst

section Run

variable {kafka : Kafka} {cfg : Config} {acts : List Act}

/-- The event of an entry of a call, and its position. -/
theorem entry_event {c : Call} (hc : c.2 ≠ "") {x : LogEntry}
    (hx : x ∈ (Machine.run (Pipeline.step kafka) (Pipeline.init cfg) acts).log)
    (hcall : x.record.call = c) :
    ∃ e ∈ admittedOf c (Machine.trace (Pipeline.step kafka) (Pipeline.init cfg) acts),
      x.record.Of e ∧ e.callSeq = some (x.record.ordinal : Int) := by
  rcases log_admitted kafka cfg acts hx with ⟨e, he, hof⟩
  have hec : e.call = c := hof.call.symm.trans hcall
  rcases anchored_run kafka cfg acts e he (Event.grouped_of_call hec hc) with
    ⟨-, -, -, -, -, k, hseq, hmax⟩
  refine ⟨e, List.mem_filter.mpr ⟨he, decide_eq_true hec⟩, hof, ?_⟩
  rw [hseq, OutboxRecord.ordinal, hof.callSeq_toInt hseq hmax, Int.toNat_natCast]

/-- All entries of a call are in one partition. -/
theorem entries_partition (htopic : ∀ cfg', Act.create cfg' ∈ acts → cfg'.topic = cfg.topic)
    {c : Call} (hc : c.2 ≠ "") :
    ∃ p, ∀ x ∈ (Machine.run (Pipeline.step kafka) (Pipeline.init cfg) acts).log,
      x.record.call = c → x.partition = p := by
  let s := Machine.run (Pipeline.step kafka) (Pipeline.init cfg) acts
  have hkey : ∀ x ∈ s.log, x.record.call = c → ∃ q ∈ s.outbox.db.callStreams, q.call = c ∧
      x.partition = kafka.partitionOf cfg.topic q.msgKey := by
    intro x hx hcall
    have hentry : x ∈ s.entries c := List.mem_filter.mpr ⟨hx, decide_eq_true hcall⟩
    rcases entry_anchored hc hentry with ⟨q, hq, hqc, hmsg, hne, -⟩
    rcases logged_run kafka cfg acts x hx with ⟨m, partition, hm, heq⟩
    have hrec : x.record = m.record := by rw [heq]; rfl
    have hmkey : m.key = some q.msgKey := by simp [Message.key, ← hrec, hmsg, hne]
    have hmtopic := (fixedTopic_run kafka cfg acts htopic).messages m (List.mem_of_getElem? hm)
    refine ⟨q, hq, hqc, ?_⟩
    rw [heq]
    simp [Message.entry, hmkey, hmtopic]
  by_cases hsome : ∃ q ∈ s.outbox.db.callStreams, q.call = c
  · rcases hsome with ⟨q, hq, hqc⟩
    refine ⟨kafka.partitionOf cfg.topic q.msgKey, fun x hx hcall => ?_⟩
    rcases hkey x hx hcall with ⟨q', hq', hqc', hp⟩
    rw [hp, Table.eq_of_key hq' hq (hqc'.trans hqc.symm)]
  · refine ⟨0, fun x hx hcall => ?_⟩
    rcases hkey x hx hcall with ⟨q, hq, hqc, -⟩
    exact absurd ⟨q, hq, hqc⟩ hsome

/-- Of two consumed events of a call, the one with the lower sequence was consumed first. -/
theorem consumed_before (htopic : ∀ cfg', Act.create cfg' ∈ acts → cfg'.topic = cfg.topic)
    (hids : ((admittedEvents (Machine.trace (Pipeline.step kafka) (Pipeline.init cfg) acts)).map
      fun e => e.eventId).Nodup)
    {entries : List LogEntry} {consumed : List Consumption}
    (hconsumed : Consumes (Machine.run (Pipeline.step kafka) (Pipeline.init cfg) acts).log entries
      consumed)
    {x y : LogEntry} (hx : x ∈ entries) (hy : y ∈ entries) (hcall : x.record.call = y.record.call)
    (hc : y.record.call.2 ≠ "") (hlt : x.record.ordinal < y.record.ordinal) :
    (consumed.map Consumption.eventId).idxOf x.record.eventId <
      (consumed.map Consumption.eventId).idxOf y.record.eventId := by
  let tr := Machine.trace (Pipeline.step kafka) (Pipeline.init cfg) acts
  let s := Machine.run (Pipeline.step kafka) (Pipeline.init cfg) acts
  generalize hcy : y.record.call = c at hcall hc
  -- an id and a position of the call tell the same event
  have hsame : ∀ z ∈ entries, z.record.call = c → ∀ w ∈ entries, w.record.call = c →
      (z.record.ordinal = w.record.ordinal ↔ z.record.eventId = w.record.eventId) := by
    intro z hz hzc w hw hwc
    rcases entry_event hc (hconsumed.mem_log hz) hzc with ⟨e, he, hof, hseq⟩
    rcases entry_event hc (hconsumed.mem_log hw) hwc with ⟨e', he', hof', hseq'⟩
    have hdistinct := (positioned_run kafka cfg acts hc).distinct
    rw [hof.eventId, hof'.eventId]
    constructor
    · intro heq
      have hee : e = e' := List.inj_on_of_nodup_map hdistinct he he' (by rw [hseq, hseq', heq])
      rw [hee]
    · intro heq
      have hee : e = e' := List.inj_on_of_nodup_map hids (List.mem_filter.mp he).1
        (List.mem_filter.mp he').1 heq
      rw [hee, hseq'] at hseq
      exact (Int.ofNat.inj (Option.some.inj hseq)).symm
  rw [hconsumed.ids]
  have hmem : y.record.eventId ∈ entries.map fun z => z.record.eventId :=
    List.mem_map.mpr ⟨y, hy, rfl⟩
  rcases List.eq_append_cons_of_mem hmem with ⟨as, bs, hsplit, hnot⟩
  rcases List.map_eq_append_iff.mp hsplit with ⟨pre, rest, hentries, hpre, hrest⟩
  rcases List.map_eq_cons_iff.mp hrest with ⟨y', post, rfl, hid, -⟩
  subst hentries
  have hy' : y' ∈ pre ++ y' :: post := List.mem_append_right _ List.mem_cons_self
  have hyc : y'.record.call = c := by
    rcases log_admitted kafka cfg acts (hconsumed.mem_log hy) with ⟨e, he, hof⟩
    rcases log_admitted kafka cfg acts (hconsumed.mem_log hy') with ⟨e', he', hof'⟩
    have hee : e' = e := List.inj_on_of_nodup_map hids he' he
      (hof'.eventId.symm.trans (hid.trans hof.eventId))
    rw [hof'.call, hee, ← hof.call, hcy]
  rcases @entries_partition kafka cfg acts htopic c hc with ⟨p, hp⟩
  obtain ⟨more, hpositions⟩ : ∃ more, s.positions c =
      (pre.filter fun z => z.record.call = c).map (fun z => z.record.ordinal) ++
        y'.record.ordinal :: more := by
    rcases hconsumed.filter_prefix (q := fun z => z.record.call = c) (p := p)
      fun z hz hzc => hp z hz (of_decide_eq_true hzc) with ⟨unread, hfilter⟩
    refine ⟨((post.filter fun z => z.record.call = c) ++ unread).map
      fun z => z.record.ordinal, ?_⟩
    rw [Pipeline.positions, Pipeline.entries, ← hfilter, List.filter_append,
      List.filter_cons_of_pos (by simp [hyc]), List.append_assoc, List.map_append,
      List.cons_append, List.map_cons]
  have hordered : (s.positions c).eraseDups = List.range (s.positions c).eraseDups.length :=
    (ordered_run kafka cfg acts (Or.inr hids) hc).sound.ordered
  rw [hpositions] at hordered
  -- before the first copy of `y` there is a copy of `x`
  have hfirst : x.record.ordinal ∈
      (pre.filter fun z => z.record.call = c).map fun z => z.record.ordinal := by
    refine CursorLog.mem_of_first hordered ?_ ?_
    · intro hin
      rcases List.mem_map.mp hin with ⟨z, hz, hzy⟩
      rcases List.mem_filter.mp hz with ⟨hz, hzc⟩
      have hzid := (hsame z (List.mem_append_left _ hz) (of_decide_eq_true hzc) y' hy' hyc).mp hzy
      exact hnot (hpre ▸ List.mem_map.mpr ⟨z, hz, hzid.trans hid⟩)
    · rwa [(hsame y' hy' hyc y hy hcy).mpr hid]
  rcases List.mem_map.mp hfirst with ⟨z, hz, hzx⟩
  rcases List.mem_filter.mp hz with ⟨hz, hzc⟩
  have hzid := (hsame z (List.mem_append_left _ hz) (of_decide_eq_true hzc) x hx hcall).mp hzx
  have hin : x.record.eventId ∈ as := hpre ▸ List.mem_map.mpr ⟨z, hz, hzid⟩
  rw [hsplit, List.idxOf_append_of_mem hin, List.idxOf_append_of_notMem hnot, List.idxOf_cons_self,
    Nat.add_zero]
  exact List.idxOf_lt_length_of_mem hin

end Run

/-! ## The sets of the evidence -/

/-- What a history and the state after it have to do with each other. -/
structure Ledger (ttl : Int) (tr : List (Pipeline × Act)) (s : Pipeline) : Prop where
  ids : ((admittedEvents tr).map fun e => e.eventId).Nodup
  rows : ∀ r ∈ s.outbox.db.outbox, r.toEvent ∈ admittedEvents tr
  log : ∀ x ∈ s.log, ∃ e ∈ admittedEvents tr, x.record.Of e
  sound : ∀ r ∈ s.outbox.db.outbox, RowOk ttl r

section Sets

variable {args : VerifyArgs} {tr : List (Pipeline × Act)} {s : Pipeline} {d : Drill}
  {fault : Recovery}

/-- The accepted offers are the admitted events. -/
theorem Drill.Watches.accepted (h : d.Watches tr s) :
    (d.offers.filter fun o => o.accepted).map (fun o => (o.eventId, o.callUuid)) =
      (admittedEvents tr).map fun e => (e.eventId, e.uuid) := by
  rw [← accepted_eq, ← h.offers, List.filter_map, List.map_map]
  rfl

/-- The accepted offers, as events. -/
theorem Drill.Watches.mem_accepted (h : d.Watches tr s) {id call : String} :
    (∃ o ∈ d.offers, o.accepted = true ∧ o.eventId = id ∧ o.callUuid = call) ↔
      ∃ e ∈ admittedEvents tr, e.eventId = id ∧ e.uuid = call := by
  have hmem : (id, call) ∈ (d.offers.filter fun o => o.accepted).map
      (fun o => (o.eventId, o.callUuid)) ↔
        (id, call) ∈ (admittedEvents tr).map fun e => (e.eventId, e.uuid) := by
    rw [h.accepted]
  simpa only [List.mem_map, List.mem_filter, Prod.mk.injEq, and_assoc] using hmem

/-- No two admitted events share an id if no two offers do. -/
theorem Drill.Watches.nodup (h : d.Watches tr s) (hids : (d.offers.map Offer.eventId).Nodup) :
    ((admittedEvents tr).map fun e => e.eventId).Nodup := by
  have hfst := congrArg (List.map Prod.fst) h.accepted
  rw [List.map_map, List.map_map] at hfst
  change ((admittedEvents tr).map (Prod.fst ∘ fun e => (e.eventId, e.uuid))).Nodup
  rw [← hfst]
  exact hids.sublist (List.filter_sublist.map _)

/-- The offer of an event. -/
theorem Drill.Watches.offer_of (h : d.Watches tr s) (hids : (d.offers.map Offer.eventId).Nodup)
    {o : Offer} (ho : o ∈ d.offers) {e : Event} (he : e ∈ admittedEvents tr)
    (heq : e.eventId = o.eventId) : o.accepted = true ∧ e.uuid = o.callUuid := by
  rcases h.mem_accepted.mpr ⟨e, he, rfl, rfl⟩ with ⟨o', ho', haccepted, hid, hcall⟩
  have hoo : o' = o := List.inj_on_of_nodup_map hids ho' ho (hid.trans heq)
  rw [← hoo]
  exact ⟨haccepted, hcall.symm⟩

/-- The events of two offers rise as the offers follow each other. -/
theorem Drill.Watches.rising (h : d.Watches tr s) (hids : (d.offers.map Offer.eventId).Nodup)
    (hrises : (admittedEvents tr).Pairwise Rises) :
    d.offers.Pairwise fun o o' => o.accepted = true → o'.accepted = true →
      ∀ e ∈ admittedEvents tr, ∀ e' ∈ admittedEvents tr, e.eventId = o.eventId →
        e'.eventId = o'.eventId → Rises e e' := by
  have hadm := h.nodup hids
  let later : String → String → Prop := fun id id' => ∀ e ∈ admittedEvents tr,
    ∀ e' ∈ admittedEvents tr, e.eventId = id → e'.eventId = id' → Rises e e'
  have hevents : (admittedEvents tr).Pairwise fun a b => later a.eventId b.eventId := by
    refine hrises.imp_of_mem fun {a b} ha hb hab e he e' he' hea heb => ?_
    rw [List.inj_on_of_nodup_map hadm he ha hea, List.inj_on_of_nodup_map hadm he' hb heb]
    exact hab
  have hpairs : ((d.offers.filter fun o => o.accepted).map fun o => (o.eventId, o.callUuid)).Pairwise
      fun x y => later x.1 y.1 := by
    rw [h.accepted, List.pairwise_map]
    exact hevents
  rw [List.pairwise_map, List.pairwise_filter] at hpairs
  exact hpairs

/-- A set of the final snapshot is a set of rows. -/
theorem Drill.Watches.mem_rows (h : d.Watches tr s) {p : Row → Prop} {q : FinalRow → Prop}
    [DecidablePred q] (hpq : ∀ r, q r.final ↔ p r) {id : String} :
    id ∈ ((d.final.filter fun r => q r).map FinalRow.eventId).toFinset ↔
      ∃ r ∈ s.outbox.db.outbox, p r ∧ r.eventId = id := by
  simp only [h.final, List.mem_toFinset, List.mem_map, List.mem_filter, decide_eq_true_eq]
  constructor
  · rintro ⟨_, ⟨⟨r, hr, rfl⟩, hq⟩, rfl⟩
    exact ⟨r, hr, (hpq r).mp hq, rfl⟩
  · rintro ⟨r, hr, hp, rfl⟩
    exact ⟨r.final, ⟨⟨r, hr, rfl⟩, (hpq r).mpr hp⟩, rfl⟩

theorem Row.final_dead {r : Row} : r.final.state = "dead" ↔ r.state = .dead := by
  cases hstate : r.state <;> simp [Row.final, hstate, OutboxState.text]

theorem Row.final_expired {r : Row} :
    r.final.lastError = "expired_ttl" ↔ r.lastError = some "expired_ttl" := by
  cases herror : r.lastError <;> simp [Row.final, herror]

/-- The expired ids of the written files. -/
theorem Drill.Watches.mem_expired (h : d.Watches tr s) {id : String} :
    id ∈ (d.run fault).expired ↔ ∃ r ∈ s.outbox.db.outbox,
      (r.state = .dead ∧ r.lastError = some "expired_ttl") ∧ r.eventId = id :=
  h.mem_rows fun _ => and_congr Row.final_dead Row.final_expired

/-- The ids that are dead of another reason. -/
theorem Drill.Watches.mem_dead (h : d.Watches tr s) {id : String} :
    id ∈ (d.run fault).dead ↔ ∃ r ∈ s.outbox.db.outbox,
      (r.state = .dead ∧ r.lastError ≠ some "expired_ttl") ∧ r.eventId = id :=
  h.mem_rows fun _ => and_congr Row.final_dead (not_congr Row.final_expired)

/-- The consumed ids of the written files. -/
theorem mem_consumed {id : String} :
    id ∈ (d.run fault).consumed ↔ ∃ c ∈ d.consumed, c.eventId = id := by
  rw [Drill.run, List.mem_map]

/-- What was consumed is in the log. -/
theorem Drill.Watches.logged (h : d.Watches tr s) {c : Consumption} (hc : c ∈ d.consumed) :
    ∃ x ∈ s.log, x.record.eventId = c.eventId := by
  rcases h.consumed with ⟨entries, hconsumed⟩
  have hmem : c.eventId ∈ entries.map fun x => x.record.eventId :=
    hconsumed.ids ▸ List.mem_map_of_mem hc
  rcases List.mem_map.mp hmem with ⟨x, hx, hid⟩
  exact ⟨x, hconsumed.mem_log hx, hid⟩

/-- The rejected ids of the written files. -/
theorem mem_rejected {id : String} :
    id ∈ (d.run fault).rejected ↔ ∃ o ∈ d.offers, o.accepted = false ∧ o.eventId = id := by
  simp [Drill.run, and_assoc]

/-- The injected ids of the written files. -/
theorem mem_injected {id : String} :
    id ∈ (d.run fault).injected ↔ ∃ o ∈ d.offers, o.eventId = id := by
  simp [Drill.run]

/-- A rejected id is no event's. -/
theorem Drill.Watches.not_rejected (h : d.Watches tr s)
    (hids : (d.offers.map Offer.eventId).Nodup) {e : Event} (he : e ∈ admittedEvents tr) :
    e.eventId ∉ (d.run fault).rejected := by
  rw [mem_rejected]
  rintro ⟨o, ho, hrejected, hid⟩
  rcases h.mem_accepted.mpr ⟨e, he, rfl, rfl⟩ with ⟨o', ho', haccepted, hid', -⟩
  have hoo : o' = o := List.inj_on_of_nodup_map hids ho' ho (hid'.trans hid.symm)
  rw [hoo, hrejected] at haccepted
  cases haccepted

/-- A dead row is filed as expired or as dead. -/
theorem Drill.Watches.filed (h : d.Watches tr s) {r : Row} (hr : r ∈ s.outbox.db.outbox)
    (hdead : r.state = .dead) :
    r.eventId ∈ (d.run fault).expired ∨ r.eventId ∈ (d.run fault).dead := by
  by_cases hexpired : r.lastError = some "expired_ttl"
  · exact Or.inl (h.mem_expired.mpr ⟨r, hr, ⟨hdead, hexpired⟩, rfl⟩)
  · exact Or.inr (h.mem_dead.mpr ⟨r, hr, ⟨hdead, hexpired⟩, rfl⟩)

/-- Whatever is filed as one or the other is a row. -/
theorem Drill.Watches.filed_row (h : d.Watches tr s) {id : String}
    (hid : id ∈ (d.run fault).expired ∨ id ∈ (d.run fault).dead) :
    ∃ r ∈ s.outbox.db.outbox, r.eventId = id := by
  rcases hid with hid | hid
  · rcases h.mem_expired.mp hid with ⟨r, hr, -, heq⟩
    exact ⟨r, hr, heq⟩
  · rcases h.mem_dead.mp hid with ⟨r, hr, -, heq⟩
    exact ⟨r, hr, heq⟩

/-- What the verifier finds in the sets, it found in the drill. -/
theorem settled_of_accounted (h : d.Watches tr s) (hkeeps : d.Keeps args fault)
    (hledger : Ledger args.ttlMs tr s) (hacc : (d.run fault).Accounted args) :
    Settled args tr s d := by
  have hfinal : ∀ r ∈ s.outbox.db.outbox, r.final ∈ (d.run fault).final := by
    intro r hr
    change r.final ∈ d.final
    rw [h.final]
    exact List.mem_map_of_mem hr
  have hdisjoint := hacc.disjoint
  simp only [List.pairwise_cons, List.mem_cons, List.not_mem_nil, or_false, forall_eq_or_imp,
    forall_eq] at hdisjoint
  have hdrained : ∀ r ∈ s.outbox.db.outbox, r.state = .dead := by
    intro r hr
    have hlive := hacc.drained r.final (hfinal r hr)
    cases hstate : r.state with
    | dead => rfl
    | _ => simp [Row.final, hstate, OutboxState.text] at hlive
  refine ⟨hdrained, ?_, ?_, ?_, ?_⟩
  · intro r hr c hc heq
    have hconsumed : r.eventId ∈ (d.run fault).consumed.toFinset :=
      List.mem_toFinset.mpr (mem_consumed.mpr ⟨c, hc, heq⟩)
    rcases h.filed hr (hdrained r hr) with hexpired | hdead
    · exact Finset.disjoint_left.mp hdisjoint.1.2.1 hconsumed hexpired
    · exact Finset.disjoint_left.mp hdisjoint.1.2.2 hconsumed hdead
  · intro e he
    rcases h.mem_accepted.mpr ⟨e, he, rfl, rfl⟩ with ⟨o, ho, -, hid, -⟩
    have hinjected : e.eventId ∈ (d.run fault).injected := mem_injected.mpr ⟨o, ho, hid⟩
    rw [hacc.union, Finset.mem_union, Finset.mem_union, Finset.mem_union, List.mem_toFinset]
      at hinjected
    have hrow : ∀ r ∈ s.outbox.db.outbox, r.eventId = e.eventId →
        ∃ r ∈ s.outbox.db.outbox, r.toEvent = e := fun r hr heq =>
      ⟨r, hr, List.inj_on_of_nodup_map hledger.ids (hledger.rows r hr) he heq⟩
    rcases hinjected with ((hconsumed | hrejected) | hexpired) | hdead
    · exact Or.inr (mem_consumed.mp hconsumed)
    · exact absurd hrejected (h.not_rejected hkeeps.ids he)
    · rcases h.mem_expired.mp hexpired with ⟨r, hr, -, heq⟩
      exact Or.inl (hrow r hr heq)
    · rcases h.mem_dead.mp hdead with ⟨r, hr, -, heq⟩
      exact Or.inl (hrow r hr heq)
  · intro hallow o ho
    by_contra hno
    have hin : o.eventId ∈ (d.run fault).rejected :=
      mem_rejected.mpr ⟨o, ho, Bool.eq_false_iff.mpr hno, rfl⟩
    rw [hacc.allowed hallow] at hin
    exact Finset.notMem_empty _ hin
  · intro id
    have hset : id ∈ (d.run fault).dead ↔ id ∈ (d.run fault).expectedDead := by rw [hacc.expected]
    rw [h.mem_dead, Drill.run, List.mem_toFinset] at hset
    rw [← hset]
    constructor
    · rintro ⟨r, hr, ⟨-, herror⟩, hid⟩
      exact ⟨r, hr, hid, herror⟩
    · rintro ⟨r, hr, hid, herror⟩
      exact ⟨r, hr, ⟨hdrained r hr, herror⟩, hid⟩

/-- And the other way round: what the drill settled adds up. -/
theorem accounted_of_settled (h : d.Watches tr s) (hkeeps : d.Keeps args fault)
    (httl : 0 < args.ttlMs) (hledger : Ledger args.ttlMs tr s) (hset : Settled args tr s d) :
    (d.run fault).Accounted args := by
  have hrow_id : ∀ r ∈ s.outbox.db.outbox, r.eventId ∉ (d.run fault).rejected :=
    fun r hr => h.not_rejected hkeeps.ids (hledger.rows r hr)
  have hconsumed : ∀ id ∈ (d.run fault).consumed.toFinset,
      ∃ e ∈ admittedEvents tr, e.eventId = id ∧ ∃ c ∈ d.consumed, c.eventId = id := by
    intro id hid
    rcases mem_consumed.mp (List.mem_toFinset.mp hid) with ⟨c, hc, rfl⟩
    rcases h.logged hc with ⟨x, hx, hxid⟩
    rcases hledger.log x hx with ⟨e, he, hof⟩
    exact ⟨e, he, hof.eventId.symm.trans hxid, c, hc, rfl⟩
  have hoffer : ∀ e ∈ admittedEvents tr, e.eventId ∈ (d.run fault).injected := by
    intro e he
    rcases h.mem_accepted.mpr ⟨e, he, rfl, rfl⟩ with ⟨o, ho, -, hid, -⟩
    exact mem_injected.mpr ⟨o, ho, hid⟩
  refine ⟨?_, ?_, ?_, ?_, ?_, ?_, ?_⟩
  · rw [Drill.run, List.toFinset_nonempty_iff]
    exact fun hnil => hkeeps.offered (List.map_eq_nil_iff.mp hnil)
  · intro r hr
    change r ∈ d.final at hr
    rw [h.final] at hr
    rcases List.mem_map.mp hr with ⟨q, hq, rfl⟩
    rw [Row.final_dead.mpr (hset.drained q hq)]
    decide
  · ext id
    rw [Finset.mem_union, Finset.mem_union, Finset.mem_union, List.mem_toFinset, or_assoc]
    constructor
    · intro hin
      rcases mem_injected.mp hin with ⟨o, ho, rfl⟩
      cases haccepted : o.accepted with
      | false => exact Or.inl (Or.inr (mem_rejected.mpr ⟨o, ho, haccepted, rfl⟩))
      | true =>
        rcases h.mem_accepted.mp ⟨o, ho, haccepted, rfl, rfl⟩ with ⟨e, he, hid, -⟩
        rw [← hid]
        rcases hset.kept e he with ⟨r, hr, rfl⟩ | hseen
        · exact Or.inr (h.filed hr (hset.drained r hr))
        · exact Or.inl (Or.inl (mem_consumed.mpr hseen))
    · rintro ((hin | hin) | hin)
      · rcases hconsumed id (List.mem_toFinset.mpr hin) with ⟨e, he, rfl, -⟩
        exact hoffer e he
      · rcases mem_rejected.mp hin with ⟨o, ho, -, hid⟩
        exact mem_injected.mpr ⟨o, ho, hid⟩
      · rcases h.filed_row hin with ⟨r, hr, rfl⟩
        exact hoffer _ (hledger.rows r hr)
  · have hdelivered : ∀ id, id ∈ (d.run fault).consumed.toFinset →
        ¬(id ∈ (d.run fault).expired ∨ id ∈ (d.run fault).dead) := by
      intro id hid hin
      rcases hconsumed id hid with ⟨-, -, -, c, hc, hcid⟩
      rcases h.filed_row hin with ⟨r, hr, rfl⟩
      exact hset.certain r hr c hc hcid
    simp only [List.pairwise_cons, List.mem_cons, List.not_mem_nil, or_false, forall_eq_or_imp,
      forall_eq, Finset.disjoint_left, List.Pairwise.nil, and_true, IsEmpty.forall_iff,
      implies_true]
    refine ⟨⟨?_, ?_, ?_⟩, ⟨?_, ?_⟩, ?_⟩
    · intro id hid
      rcases hconsumed id hid with ⟨e, he, rfl, -⟩
      exact h.not_rejected hkeeps.ids he
    · exact fun id hid hin => hdelivered id hid (Or.inl hin)
    · exact fun id hid hin => hdelivered id hid (Or.inr hin)
    · intro id hid hin
      rcases h.filed_row (Or.inl hin) with ⟨r, hr, rfl⟩
      exact hrow_id r hr hid
    · intro id hid hin
      rcases h.filed_row (Or.inr hin) with ⟨r, hr, rfl⟩
      exact hrow_id r hr hid
    · intro id hid hin
      rcases h.mem_expired.mp hid with ⟨r, hr, ⟨-, herror⟩, rfl⟩
      rcases h.mem_dead.mp hin with ⟨q, hq, ⟨-, hother⟩, hqr⟩
      rw [Table.eq_of_key hq hr hqr] at hother
      exact hother herror
  · intro hallow
    refine Finset.eq_empty_of_forall_notMem fun id hid => ?_
    rcases mem_rejected.mp hid with ⟨o, ho, hno, -⟩
    rw [hset.allowed hallow o ho] at hno
    cases hno
  · intro r hr hdead hexpired
    change r ∈ d.final at hr
    rw [h.final] at hr
    rcases List.mem_map.mp hr with ⟨q, hq, rfl⟩
    exact ⟨httl, (hledger.sound q hq).aged (Row.final_dead.mp hdead)
      (Row.final_expired.mp hexpired)⟩
  · ext id
    rw [h.mem_dead, Drill.run, List.mem_toFinset, hset.expected id]
    constructor
    · rintro ⟨r, hr, ⟨-, herror⟩, hid⟩
      exact ⟨r, hr, hid, herror⟩
    · rintro ⟨r, hr, hid, herror⟩
      exact ⟨r, hr, ⟨hset.drained r hr, herror⟩, hid⟩

end Sets

/-! ## The verdict -/

section Verdict

variable {kafka : Kafka} {cfg : Config} {acts : List Act} {args : VerifyArgs} {d : Drill}
  {fault : Recovery}

/-- Under the conditions on the clock and the configuration the rows are in shape. -/
theorem checked_run (httl : 0 < args.ttlMs) (hinit : cfg.outboxTtlMs = args.ttlMs)
    (hcreate : ∀ cfg', Act.create cfg' ∈ acts → cfg'.outboxTtlMs = args.ttlMs)
    (htext : ∀ e, Telling (kafka.err2str e))
    (hsteady : Steady (Machine.trace (Pipeline.step kafka) (Pipeline.init cfg) acts)) :
    Checked args.ttlMs (Machine.trace (Pipeline.step kafka) (Pipeline.init cfg) acts)
      (Machine.run (Pipeline.step kafka) (Pipeline.init cfg) acts) := by
  refine Machine.trace_invariant (J := fun tr s => Steady tr → Checked args.ttlMs tr s)
    (P := fun _ act => ∀ cfg', act = .create cfg' → cfg'.outboxTtlMs = args.ttlMs) ?_
    (fun _ _ _ hP ih hst => (ih hst.init).step httl htext hP hst) acts ?_ hsteady
  · exact fun _ => ⟨fun r hr => absurd hr (Table.notMem_empty r),
      fun r hr => absurd hr (Table.notMem_empty r), hinit,
      by simp [Pipeline.Speaks, Pipeline.init, Worker.why]⟩
  · exact fun x hx cfg' heq => hcreate cfg' (heq ▸ Machine.mem_of_mem_trace hx)

/-- The rows of the outbox are in order for the verifier. -/
theorem Drill.Watches.clean (hwatch : d.Watches
      (Machine.trace (Pipeline.step kafka) (Pipeline.init cfg) acts)
      (Machine.run (Pipeline.step kafka) (Pipeline.init cfg) acts))
    (hkeeps : d.Keeps args fault)
    (hledger : Ledger args.ttlMs (Machine.trace (Pipeline.step kafka) (Pipeline.init cfg) acts)
      (Machine.run (Pipeline.step kafka) (Pipeline.init cfg) acts))
    (hsmall : ∀ r ∈ (Machine.run (Pipeline.step kafka) (Pipeline.init cfg) acts).outbox.db.outbox,
      r.updatedAtMs < 2 ^ 63) :
    d.Clean args fault := by
  have hspelled : ∀ e ∈ admittedEvents (Machine.trace (Pipeline.step kafka) (Pipeline.init cfg)
      acts), Unspaced e.eventId := by
    intro e he
    rcases hwatch.mem_accepted.mpr ⟨e, he, rfl, rfl⟩ with ⟨o, ho, -, hid, -⟩
    exact hid ▸ hkeeps.spelled o ho
  refine ⟨hkeeps, ?_, ?_, ?_⟩
  · intro c hc
    rcases hwatch.logged hc with ⟨x, hx, hid⟩
    rcases hledger.log x hx with ⟨e, he, hof⟩
    rw [← hid, hof.eventId]
    exact hspelled e he
  · have hids : d.final.map FinalRow.eventId =
        (Machine.run (Pipeline.step kafka) (Pipeline.init cfg) acts).outbox.db.outbox.rows.map
          fun r => r.eventId := by
      rw [hwatch.final, List.map_map]
      rfl
    rw [hids]
    exact Table.key_nodup _
  · intro r hr
    rw [hwatch.final] at hr
    rcases List.mem_map.mp hr with ⟨q, hq, rfl⟩
    have hok := hledger.sound q hq
    have hupdated := hok.updated
    have hnonneg := hok.nonneg
    have hlt := hsmall q hq
    refine ⟨hspelled _ (hledger.rows q hq), ⟨hupdated, ?_, ?_⟩, ⟨hnonneg, ?_⟩, ⟨?_, hlt⟩⟩
    · cases hstate : q.state <;> simp [Row.final, hstate, OutboxState.text]
    · intro hdead
      rcases hok.named (Row.final_dead.mp hdead) with ⟨error, herror, hblank⟩
      rw [Row.final, herror]
      exact hblank
    · exact hupdated.trans_lt hlt
    · exact hnonneg.trans hupdated

/-- No call is out of order. -/
theorem Drill.Watches.in_order (hwatch : d.Watches
      (Machine.trace (Pipeline.step kafka) (Pipeline.init cfg) acts)
      (Machine.run (Pipeline.step kafka) (Pipeline.init cfg) acts))
    (hids : (d.offers.map Offer.eventId).Nodup)
    (htopic : ∀ cfg', Act.create cfg' ∈ acts → cfg'.topic = cfg.topic)
    (hsource : ∀ args env, Act.enqueue args env ∈ acts → args.sourceSequence.toInt < 0)
    {call : String} (hcall : call ≠ "") : (d.run fault).InOrder call := by
  intro x hx y hy hxcall hycall hlt hxc hyc
  have hadm := hwatch.nodup hids
  rcases List.mem_map.mp hx with ⟨⟨o, i⟩, ho, rfl⟩
  rcases List.mem_map.mp hy with ⟨⟨o', j⟩, ho', rfl⟩
  rcases hwatch.consumed with ⟨entries, hconsumed⟩
  have hentry : ∀ {id : String}, id ∈ (d.run fault).consumed →
      ∃ z ∈ entries, z.record.eventId = id ∧ ∃ e ∈ admittedEvents (Machine.trace
        (Pipeline.step kafka) (Pipeline.init cfg) acts), z.record.Of e := by
    intro id hid
    have hmem : id ∈ entries.map fun z => z.record.eventId := hconsumed.ids ▸ hid
    rcases List.mem_map.mp hmem with ⟨z, hz, hzid⟩
    rcases log_admitted kafka cfg acts (hconsumed.mem_log hz) with ⟨e, he, hof⟩
    exact ⟨z, hz, hzid, e, he, hof⟩
  rcases hentry hxc with ⟨z, hz, hzid, e, he, hof⟩
  rcases hentry hyc with ⟨w, hw, hwid, e', he', hof'⟩
  have heo : e.eventId = o.eventId := hof.eventId.symm.trans hzid
  have heo' : e'.eventId = o'.eventId := hof'.eventId.symm.trans hwid
  rcases hwatch.offer_of hids (List.fst_mem_of_mem_zipIdx ho) he heo with ⟨haccepted, huuid⟩
  rcases hwatch.offer_of hids (List.fst_mem_of_mem_zipIdx ho') he' heo' with ⟨haccepted', huuid'⟩
  -- both are of the call, in the one topic of the run
  have htopic_of : ∀ {v : LogEntry}, v ∈ entries → v.record.topic = cfg.topic := by
    intro v hv
    rcases logged_run kafka cfg acts v (hconsumed.mem_log hv) with ⟨m, partition, hm, heq⟩
    have hrec : v.record = m.record := by rw [heq]; rfl
    rw [hrec]
    exact (fixedTopic_run kafka cfg acts htopic).held _
      (Pipeline.mem_held.mpr (Or.inr ⟨m, List.mem_of_getElem? hm, rfl⟩))
  have hzc : e.call = (cfg.topic, call) := by
    rw [Event.call, ← hof.topic, htopic_of hz, huuid]
    exact congrArg (Prod.mk cfg.topic) hxcall
  have hwc : e'.call = (cfg.topic, call) := by
    rw [Event.call, ← hof'.topic, htopic_of hw, huuid']
    exact congrArg (Prod.mk cfg.topic) hycall
  have hrises : Rises e e' := by
    have hpairs := hwatch.rising hids (rising_run kafka cfg acts hsource)
    have hi := List.mem_zipIdx_iff_getElem?.mp ho
    have hj := List.mem_zipIdx_iff_getElem?.mp ho'
    rcases List.getElem?_eq_some_iff.mp hi with ⟨hilt, hio⟩
    rcases List.getElem?_eq_some_iff.mp hj with ⟨hjlt, hjo⟩
    have hij : i < j := Int.ofNat_lt.mp hlt
    have hpair := List.pairwise_iff_getElem.mp hpairs i j hilt hjlt hij
    rw [hio, hjo] at hpair
    exact hpair haccepted haccepted' e he e' he' heo heo'
  have hseq := hrises (hzc.trans hwc.symm) (Event.grouped_of_call hzc hcall)
  have hzcall : z.record.call = (cfg.topic, call) := hof.call.trans hzc
  have hwcall : w.record.call = (cfg.topic, call) := hof'.call.trans hwc
  have hordinal : z.record.ordinal < w.record.ordinal := by
    rcases entry_event (c := (cfg.topic, call)) hcall (hconsumed.mem_log hz) hzcall with
      ⟨a, ha, haof, haseq⟩
    rcases entry_event (c := (cfg.topic, call)) hcall (hconsumed.mem_log hw) hwcall with
      ⟨b, hb, hbof, hbseq⟩
    have hae : a = e := List.inj_on_of_nodup_map hadm (List.mem_filter.mp ha).1 he
      (haof.eventId.symm.trans hof.eventId)
    have hbe : b = e' := List.inj_on_of_nodup_map hadm (List.mem_filter.mp hb).1 he'
      (hbof.eventId.symm.trans hof'.eventId)
    rw [hae] at haseq
    rw [hbe] at hbseq
    simpa [haseq, hbseq] using hseq
  have hbefore := consumed_before htopic hadm hconsumed hz hw (hzcall.trans hwcall.symm)
    (by rw [hwcall]; exact hcall) hordinal
  rw [hzid, hwid] at hbefore
  exact hbefore

/-- A run in admission mode with one topic, one limit of age and a clock that does not go
back, and a drill that watched it. -/
structure Drilled (kafka : Kafka) (cfg : Config) (acts : List Act) (args : VerifyArgs) (d : Drill)
    (fault : Recovery) : Prop where
  positive : 0 < args.ttlMs
  limit : cfg.outboxTtlMs = args.ttlMs
  objects : ∀ cfg', Act.create cfg' ∈ acts →
    cfg'.topic = cfg.topic ∧ cfg'.outboxTtlMs = args.ttlMs
  admission : ∀ args env, Act.enqueue args env ∈ acts → args.sourceSequence.toInt < 0
  /-- `rd_kafka_err2str` says something, and not what `expire_ttl` says. -/
  texts : ∀ e, blank (kafka.err2str e) = false ∧ kafka.err2str e ≠ "expired_ttl"
  clock : Steady (Machine.trace (Pipeline.step kafka) (Pipeline.init cfg) acts)
  stamps : ∀ r ∈ (Machine.run (Pipeline.step kafka) (Pipeline.init cfg) acts).outbox.db.outbox,
    r.updatedAtMs < 2 ^ 63
  watches : d.Watches (Machine.trace (Pipeline.step kafka) (Pipeline.init cfg) acts)
    (Machine.run (Pipeline.step kafka) (Pipeline.init cfg) acts)
  keeps : d.Keeps args fault

/-- The events of a drill are accounted for. -/
theorem Drilled.ledger (h : Drilled kafka cfg acts args d fault) :
    Ledger args.ttlMs (Machine.trace (Pipeline.step kafka) (Pipeline.init cfg) acts)
      (Machine.run (Pipeline.step kafka) (Pipeline.init cfg) acts) where
  ids := h.watches.nodup h.keeps.ids
  rows := (origin_run kafka cfg acts).rows
  log := fun _ hx => log_admitted kafka cfg acts hx
  sound := (checked_run h.positive h.limit (fun cfg' hc => (h.objects cfg' hc).2) h.texts
    h.clock).rows

/-- The written files show the run. -/
theorem Drilled.shows (h : Drilled kafka cfg acts args d fault) :
    d.evidence.Shows args (d.run fault) :=
  written_shows (h.watches.clean h.keeps h.ledger h.stamps)

/-- No call is out of order. -/
theorem Drilled.orderFailures (h : Drilled kafka cfg acts args d fault) :
    (d.run fault).orderFailures args = [] := by
  unfold Run.orderFailures
  by_cases hcheck : args.checkOrder = true
  · rw [if_pos hcheck]
    by_contra hne
    rcases (disorder_ne_nil (h.shows.nodup_ids (Or.inl hcheck)) (h.shows.calls hcheck)).mp hne with
      ⟨call, hcall, hout⟩
    exact hout (h.watches.in_order h.keeps.ids (fun cfg' hc => (h.objects cfg' hc).1) h.admission
      hcall)
  · exact if_neg hcheck

/-- The exit code is decided by the sets and the recovery alone. -/
theorem Drilled.verify_eq (h : Drilled kafka cfg acts args d fault) :
    verify args d.evidence = .ok (exitCode false
      ((d.run fault).setFailures args ++ (d.run fault).recoveryFailures args)) := by
  rw [h.shows.verify_eq, Run.code, h.orderFailures, List.append_nil]
  simp

/-- What is left of `verify` is the sets and the recovery. -/
theorem Drilled.accepts_iff (h : Drilled kafka cfg acts args d fault) :
    verify args d.evidence = .ok 0 ↔
      Settled args (Machine.trace (Pipeline.step kafka) (Pipeline.init cfg) acts)
          (Machine.run (Pipeline.step kafka) (Pipeline.init cfg) acts) d ∧
        (args.requireRecovery = true → (d.run fault).Recovered) := by
  rw [h.verify_eq, Except.ok.injEq, exitCode_eq_zero, List.append_eq_nil_iff,
    ← h.shows.reconciled_iff]
  constructor
  · exact fun hr => ⟨settled_of_accounted h.watches h.keeps h.ledger hr.accounted, hr.recovered⟩
  · exact fun hs => ⟨accounted_of_settled h.watches h.keeps h.positive h.ledger hs.1, hs.2⟩

/-- For every run in admission mode with one topic, one limit of age and a clock that does
not go back, whatever fails in it and whenever it is stopped: the verifier, given what a
drill wrote down about it, finds nothing malformed and no call out of order, and accepts
exactly when the drill is settled and the fault behaved. -/
theorem drill_verdict (kafka : Kafka) (cfg : Config) (acts : List Act) (args : VerifyArgs)
    (d : Drill) (fault : Recovery) (h : Drilled kafka cfg acts args d fault) :
    let tr := Machine.trace (Pipeline.step kafka) (Pipeline.init cfg) acts
    let s := Machine.run (Pipeline.step kafka) (Pipeline.init cfg) acts
    (verify args d.evidence = .ok 0 ↔
      Settled args tr s d ∧ (args.requireRecovery = true → (d.run fault).Recovered)) ∧
    (verify args d.evidence = .ok 0 ∨ verify args d.evidence = .ok 1) := by
  intro tr s
  refine ⟨h.accepts_iff, ?_⟩
  rw [h.verify_eq, Except.ok.injEq, Except.ok.injEq]
  by_cases hnil : (d.run fault).setFailures args ++ (d.run fault).recoveryFailures args = []
  · exact Or.inl (exitCode_eq_zero.mpr hnil)
  · exact Or.inr (exitCode_eq_one.mpr ⟨hnil, by simp⟩)

end Verdict

/-- The arguments of the drill script, without `--require-recovery`. -/
def drillArgs : VerifyArgs := ⟨false, 120000, true, false⟩

/-- What a drill writes down about the crash and the second send. -/
def resentDrill : Drill where
  offers := [⟨"a", "c", true, "baseline"⟩, ⟨"b", "c", true, "recovery"⟩]
  consumed := [⟨"a", 0, 0, 1001⟩, ⟨"a", 0, 1, 1002⟩, ⟨"b", 0, 2, 1003⟩]
  final := []
  expectedDead := []
  recovery := .missing

/-- The duplicate does not matter, and the drill is settled. -/
theorem drill_verdict_resent :
    let tr := Machine.trace (Pipeline.step sampleKafka) (Pipeline.init (sampleConfig "events"))
      resentCall
    let s := Machine.run (Pipeline.step sampleKafka) (Pipeline.init (sampleConfig "events"))
      resentCall
    verify drillArgs resentDrill.evidence = .ok 0 ∧ Settled drillArgs tr s resentDrill := by
  intro tr s
  have hcreate : ∀ cfg', Act.create cfg' ∉ resentCall := by
    intro cfg' h
    simp [resentCall, firstSend] at h
  have hsource : ∀ args env, Act.enqueue args env ∈ resentCall → args.sourceSequence = -1 := by
    intro args env h
    simp only [resentCall, firstSend, List.mem_append, List.mem_cons, List.mem_replicate,
      List.not_mem_nil, reduceCtorEq, Act.enqueue.injEq, or_false, false_or, and_false] at h
    rcases h with ⟨rfl, -⟩ | ⟨rfl, -⟩
    · rfl
    · rfl
  have htext : blank "error" = false ∧ "error" ≠ "expired_ttl" := by decide
  have hwatch : resentDrill.Watches tr s :=
    ⟨by decide +kernel, ⟨s.log, fun _ => List.prefix_refl _, by decide +kernel⟩, by decide +kernel⟩
  have hkeeps : resentDrill.Keeps drillArgs ⟨.null, .null, 0, 0, 0, 0, []⟩ :=
    ⟨by decide, by decide, by decide, by decide, by decide, by decide, by decide, by decide,
      by simp [drillArgs]⟩
  have hdrilled : Drilled sampleKafka (sampleConfig "events") resentCall drillArgs resentDrill
      ⟨.null, .null, 0, 0, 0, 0, []⟩ :=
    ⟨by decide, rfl, fun cfg' h => absurd h (hcreate cfg'),
      fun args env h => by rw [hsource args env h]; decide, fun _ => htext,
      ⟨by decide +kernel, by decide +kernel⟩, by decide +kernel, hwatch, hkeeps⟩
  have hverdict := drill_verdict sampleKafka (sampleConfig "events") resentCall drillArgs
    resentDrill ⟨.null, .null, 0, 0, 0, 0, []⟩ hdrilled
  have hok : verify drillArgs resentDrill.evidence = .ok 0 := by decide +kernel
  exact ⟨hok, (hverdict.1.mp hok).1⟩

end EventKafka
