import EventKafka.Outbox.Atomicity
import EventKafka.Outbox.Capacity
import EventKafka.Pipeline.Loss
import Mathlib.Data.List.Dedup

/-! # The publisher of the FreeSWITCH module

`KafkaEventPublisher` of `mod_event_kafka.cpp`: how the settings become the
configuration of the pipeline, and how an event becomes a call of `enqueue`. The
module passes no source sequence and the uuid of the call as key, so of the refusals
of `insert_pending` only those for room are left, and which of them an event gets, or
which ordinal, is decided by the events admitted so far and the rows.
-/

namespace EventKafka

open Sql

/-! ## Settings and events -/

/-- The settings of `event_kafka.conf` that decide anything here. -/
structure Globals where
  /-- A `char *`, null when the setting was not read. -/
  topic : Option String
  topicPrefix : String
  outboxMaxRows : Int
  outboxTtlMs : Int
deriving DecidableEq, Repr

/-- `cfg.topic`: an empty topic is made up from the prefix and the name of the switch. -/
def Globals.topicFor (g : Globals) (switchname : String) : String :=
  match g.topic with
  | none => "fs_events"
  | some topic => if topic = "" then g.topicPrefix ++ "_" ++ switchname else topic

/-- The configuration `KafkaEventPublisher` starts its pipeline with. -/
def Globals.config (g : Globals) (switchname : String) : Config where
  topic := g.topicFor switchname
  limits :=
    { maxRows := if 0 < g.outboxMaxRows then g.outboxMaxRows else 100000
      maxBytes := 512 * 1024 * 1024 }
  requireSourceSequence := false
  maxAttemptsBeforeDead := 50
  -- 0 switches the expiry off, a negative value is taken as not configured
  outboxTtlMs := if g.outboxTtlMs < 0 then 120000 else g.outboxTtlMs

/-- What `PublishEvent` reads off an event. -/
structure SwitchEvent where
  /-- The header `Channel-Call-UUID`. -/
  channelCallUuid : Option String
  /-- `switch_event_serialize_json`: nothing when it fails. -/
  json : Option (List UInt8)
deriving DecidableEq, Repr

/-- The arguments `PublishEvent` calls `enqueue` with, `id` the event id it draws. -/
def SwitchEvent.enqueueArgs (ev : SwitchEvent) (id : String) : Option EnqueueArgs :=
  ev.json.map fun payload =>
    let key := ev.channelCallUuid.getD ""
    { eventId := id
      payload := payload
      msgKey := key
      callUuid := key
      sourceSequence := -1 }

/-- What `enqueue` returns: its error text, or the sequence it assigned. -/
def Pipeline.enqueueReply (s : Pipeline) (args : EnqueueArgs) (env : Env) : Except String Int :=
  if s.accept = false then .error "pipeline not accepting"
  else if args.refused s.cfg = true then
    .error "contiguous per-call source sequence required (starts at zero)"
  else s.outbox.reply (s.insertion args env)

/-- `PublishEvent`: what it logs about the event, nothing if it could not be serialised. -/
def Pipeline.publishEvent (s : Pipeline) (ev : SwitchEvent) (id : String) (env : Env) :
    Option (Except String Int) :=
  (ev.enqueueArgs id).map fun args => s.enqueueReply args env

/-- The actions of the module: configurations come from the settings and admissions
from `PublishEvent`. -/
def Act.OfModule : Act → Prop
  | .create cfg => ∃ g switchname, cfg = Globals.config g switchname
  | .enqueue args _ => ∃ ev id, SwitchEvent.enqueueArgs ev id = some args
  | _ => True

/-! ## What decides the reply -/

/-- The calls that have an event. -/
def streamCalls (events : List Event) : List Call :=
  ((events.filter fun e => e.grouped).map fun e => e.call).dedup

/-- How many events call `c` has. -/
def countOf (c : Call) (events : List Event) : Nat := events.countP fun e => e.call = c

/-- The rows left when room was made for the record. -/
def roomFor (lim : Limits) (rec : OutboxRecord) (t : OutboxTable) : OutboxTable :=
  if full lim rec t then t.delete reclaimable else t

/-- The insert itself fails for an event id that is taken. -/
def insertReply (t : OutboxTable) (id : String) (n : Int) : Except String Int :=
  if t.rows.any fun r => r.eventId = id then .error "UNIQUE constraint failed: outbox.event_id"
  else .ok n

/-- A new call is refused when every stream is taken. -/
def streamsFull : String :=
  "stream capacity exceeded; inspect capacity; raise limit or explicitly retire proven closed calls"

/-- The reply once there is room for the row, `base` the rows it joins. -/
def storedReply (lim : Limits) (events : List Event) (base : OutboxTable) (rec : OutboxRecord) :
    Except String Int :=
  if rec.callUuid = "" then insertReply base rec.eventId (-1)
  else if countOf rec.call events = 0 ∧ lim.maxRows ≤ (streamCalls events).length then
    .error streamsFull
  else if (countOf rec.call events : Int) = int64Max then .error "source sequence out of range"
  else insertReply base rec.eventId (countOf rec.call events)

/-- The reply to a record of the module when `events` were admitted before and `t` are
the rows. -/
def moduleReply (lim : Limits) (events : List Event) (t : OutboxTable) (rec : OutboxRecord) :
    Except String Int :=
  if full lim rec (roomFor lim rec t) then .error "outbox capacity exceeded"
  else storedReply lim events (roomFor lim rec t) rec

theorem mem_streamCalls {c : Call} {events : List Event} :
    c ∈ streamCalls events ↔ ∃ e ∈ events, e.grouped = true ∧ e.call = c := by
  simp [streamCalls, and_assoc]

theorem countOf_append (c : Call) (events more : List Event) :
    countOf c (events ++ more) = countOf c events + countOf c more := List.countP_append

theorem countOf_eq_zero {c : Call} {events : List Event} (hc : c.2 ≠ "") :
    countOf c events = 0 ↔ c ∉ streamCalls events := by
  rw [countOf, List.countP_eq_zero, mem_streamCalls]
  constructor
  · rintro hno ⟨e, he, -, hcall⟩
    exact hno e he (decide_eq_true hcall)
  · intro hno e he hcall
    have hcall' : e.call = c := of_decide_eq_true hcall
    exact hno ⟨e, he, Event.grouped_of_call hcall' hc, hcall'⟩

/-! ## The streams of the module -/

/-- The record asks for nothing but its call. -/
structure FromModule (rec : OutboxRecord) : Prop where
  key : rec.msgKey = rec.callUuid
  sequence : rec.callSeq.toInt < 0

/-- The streams are the calls that have an event, each at the number of its events. -/
structure Adapted (events : List Event) (db : Db) : Prop where
  unfenced : ∀ f, f ∉ db.retiredCalls
  streams : ∀ s ∈ db.callStreams,
    s.msgKey = s.callUuid ∧ s.mode = .admission ∧ s.admitSeq = countOf s.call events
  calls : ∀ c, (∃ s ∈ db.callStreams, s.call = c) ↔ c ∈ streamCalls events

theorem Adapted.empty : Adapted [] .empty where
  unfenced := Table.notMem_empty
  streams := fun s hs => absurd hs (Table.notMem_empty s)
  calls := by
    intro c
    rw [mem_streamCalls]
    constructor
    · rintro ⟨s, hs, -⟩
      exact absurd hs (Table.notMem_empty s)
    · rintro ⟨e, he, -⟩
      exact absurd he List.not_mem_nil

section Adapted

variable {events : List Event} {db db' : Db} {lim : Limits} {rec : OutboxRecord} {now seq : Int}
  {dn : Bool} {base : OutboxTable}

theorem Adapted.uuid_ne (h : Adapted events db) {s : Stream} (hs : s ∈ db.callStreams) :
    s.callUuid ≠ "" := by
  obtain ⟨e, -, hg, hcall⟩ := mem_streamCalls.mp ((h.calls s.call).mp ⟨s, hs, rfl⟩)
  have huuid : e.uuid = s.callUuid := congrArg Prod.snd hcall
  rw [← huuid]
  simpa [Event.grouped] using hg

/-- A step that keeps owners and admission counts keeps what the module knows. -/
theorem Adapted.keep (h : Adapted events db) (hret : db'.retiredCalls = db.retiredCalls)
    (hback : ∀ s' ∈ db'.callStreams, ∃ s ∈ db.callStreams,
      s'.toOwnership = s.toOwnership ∧ s'.admitSeq = s.admitSeq)
    (hforth : ∀ s ∈ db.callStreams, ∃ s' ∈ db'.callStreams, s'.toOwnership = s.toOwnership) :
    Adapted events db' where
  unfenced := by
    rw [hret]
    exact h.unfenced
  streams := by
    intro s' hs'
    rcases hback s' hs' with ⟨s, hs, howner, hadmit⟩
    rw [howner, hadmit]
    exact h.streams s hs
  calls := by
    intro c
    rw [← h.calls]
    constructor
    · rintro ⟨s', hs', hcall⟩
      rcases hback s' hs' with ⟨s, hs, howner, -⟩
      exact ⟨s, hs, by rw [← howner]; exact hcall⟩
    · rintro ⟨s, hs, hcall⟩
      rcases hforth s hs with ⟨s', hs', howner⟩
      exact ⟨s', hs', by rw [howner]; exact hcall⟩

theorem Adapted.quiet (h : Adapted events db) (hquiet : Quiet db db') : Adapted events db' := by
  refine h.keep hquiet.retired ?_ ?_
  · intro s' hs'
    rcases hquiet.streams.backward hs' with ⟨s, hs, hst⟩
    exact ⟨s, hs, hst.owner, hst.admitSeq⟩
  · intro s hs
    rcases hquiet.streams.forward hs with ⟨s', hs', hst⟩
    exact ⟨s', hs', hst.owner⟩

theorem Adapted.quietRun (h : Adapted events db) (hquiet : QuietRun db db') :
    Adapted events db' := by
  induction hquiet with
  | refl => exact h
  | tail _ hstep ih => exact ih.quiet hstep

theorem Adapted.acked (h : Adapted events db) (r : Row) (now : Int) :
    Adapted events (db.acked r now) := by
  refine h.keep (by simp) ?_ ?_
  · intro s' hs'
    rcases Db.mem_acked_callStreams.mp hs' with ⟨s, hs, rfl⟩
    exact ⟨s, hs, by simp, by simp⟩
  · intro s hs
    exact ⟨_, Db.mem_acked_callStreams.mpr ⟨s, hs, rfl⟩, by simp⟩

theorem countOf_newRow (c : Call) :
    countOf c [(newRow rec now seq dn).toEvent] = if rec.call = c then 1 else 0 := by
  have hcall : (newRow rec now seq dn).call = rec.call := rfl
  by_cases hc : rec.call = c
  · simp [countOf, hcall, hc]
  · simp [countOf, hcall, hc]

theorem mem_streamCalls_newRow {c : Call} :
    c ∈ streamCalls (events ++ [(newRow rec now seq dn).toEvent]) ↔
      c ∈ streamCalls events ∨ rec.callUuid ≠ "" ∧ rec.call = c := by
  have hcall : (newRow rec now seq dn).call = rec.call := rfl
  simp only [mem_streamCalls, List.mem_append, List.mem_singleton]
  constructor
  · rintro ⟨e, he | rfl, hg, hec⟩
    · exact Or.inl ⟨e, he, hg, hec⟩
    · exact Or.inr ⟨newRow_grouped.mp hg, hcall ▸ hec⟩
  · rintro (⟨e, he, hg, hec⟩ | ⟨huuid, hec⟩)
    · exact ⟨e, Or.inl he, hg, hec⟩
    · exact ⟨_, Or.inr rfl, newRow_grouped.mpr huuid, hcall.trans hec⟩

/-- A call without a stream has no event. -/
theorem Adapted.countOf_of_none (h : Adapted events db) {c : Call} (hc : c.2 ≠ "")
    (hno : ∀ s ∈ db.callStreams, s.call ≠ c) : countOf c events = 0 := by
  rw [countOf_eq_zero hc, ← h.calls]
  rintro ⟨s, hs, hcall⟩
  exact hno s hs hcall

/-- The stream a record of the module claims stands at the number of its events. -/
theorem Adapted.claim (h : Adapted events db) {tbl : StreamTable} {s : Stream}
    (hclaim : Claim lim rec db.callStreams tbl s seq dn)
    (huuid : rec.callUuid ≠ "") : s.admitSeq = countOf rec.call events := by
  rcases hclaim.found with ⟨hs, -⟩ | ⟨hno, rfl, -, -⟩
  · rw [(h.streams s hs).2.2, hclaim.call_eq]
  · rw [h.countOf_of_none huuid hno]
    rfl

/-- An admission makes a stream for its own call at most. -/
theorem exists_stream_admitted (hadm : Admission lim rec now db db' seq dn base) (c : Call) :
    (∃ s ∈ db'.callStreams, s.call = c) ↔
      (∃ s ∈ db.callStreams, s.call = c) ∨ rec.callUuid ≠ "" ∧ rec.call = c := by
  rcases hadm.streams.inv with ⟨huuid, -, heq⟩ | ⟨tbl, s, huuid, -, -, hclaim, heq⟩
  · rw [heq]
    simp [huuid]
  · rw [heq]
    constructor
    · rintro ⟨s', hs', hcall⟩
      rcases hclaim.mem_claimSeq.mp hs' with rfl | ⟨hs, -⟩
      · exact Or.inr ⟨huuid, hclaim.call_eq.symm.trans hcall⟩
      · exact Or.inl ⟨s', hs, hcall⟩
    · rintro (⟨s', hs', hcall⟩ | ⟨-, hcall⟩)
      · by_cases hmine : s'.call = rec.call
        · exact ⟨s.claimed seq, hclaim.mem_claimSeq.mpr (Or.inl rfl),
            hclaim.call_eq.trans (hmine.symm.trans hcall)⟩
        · exact ⟨s', hclaim.mem_claimSeq.mpr (Or.inr ⟨hs', hmine⟩), hcall⟩
      · exact ⟨s.claimed seq, hclaim.mem_claimSeq.mpr (Or.inl rfl), hclaim.call_eq.trans hcall⟩

theorem Adapted.admitted (h : Adapted events db) (hinv : StoreInv db) (hrec : FromModule rec)
    (hadm : Admission lim rec now db db' seq dn base) :
    Adapted (events ++ [(newRow rec now seq dn).toEvent]) db' where
  unfenced := by
    rw [hadm.fences]
    exact h.unfenced
  streams := by
    intro s' hs'
    rw [countOf_append, countOf_newRow]
    rcases hadm.stream_backward hinv hs' with
      ⟨hs, hne⟩ | ⟨tbl, s, huuid, hpos, hmax, hb, hclaim, rfl⟩
    · -- a stream of another call
      have hother : rec.call ≠ s'.call := by
        intro hcall
        have hsame : rec.callUuid = s'.callUuid := congrArg Prod.snd hcall
        exact hne (hsame ▸ h.uuid_ne hs) hcall.symm
      rw [if_neg hother, Nat.add_zero]
      exact h.streams s' hs
    · -- the claimed one, one event further
      have hcall : (s.claimed seq).call = rec.call := hclaim.call_eq
      have hkey : s.msgKey = rec.msgKey := congrArg Ownership.msgKey hclaim.owner
      have hmode : s.mode = modeOf rec := congrArg Ownership.mode hclaim.owner
      have huuid' : s.callUuid = rec.callUuid := congrArg Ownership.callUuid hclaim.owner
      refine ⟨?_, ?_, ?_⟩
      · exact hkey.trans (hrec.key.trans huuid'.symm)
      · exact hmode.trans (if_pos hrec.sequence)
      · have hseq := hclaim.admission hrec.sequence
        have hcount := h.claim hclaim huuid
        have hinc := hclaim.inc64_eq hb hpos hmax
        rw [hcall, if_pos rfl]
        simp only [Stream.claimed, hinc]
        push_cast
        omega
  calls := by
    intro c
    rw [mem_streamCalls_newRow, ← h.calls]
    exact exists_stream_admitted hadm c

/-- A stream slot is taken by every call that ever had an event, and by nothing else. -/
theorem Adapted.length_streams (h : Adapted events db) :
    db.callStreams.rows.length = (streamCalls events).length := by
  have hperm : (db.callStreams.rows.map fun s => s.call).Perm (streamCalls events) := by
    refine (List.perm_ext_iff_of_nodup db.callStreams.key_nodup (List.nodup_dedup _)).mpr ?_
    intro c
    exact List.mem_map.trans (h.calls c)
  simpa using hperm.length_eq

end Adapted

/-! ## The reply -/

section Reply

variable {events : List Event} {db : Db} {lim : Limits} {rec : OutboxRecord} {now : Int}

/-- Where a record of the module stands: the events of its call are counted, and only a
call without any needs room for a stream. -/
theorem Adapted.run_position (h : Adapted events db) (lim : Limits) (hrec : FromModule rec)
    (huuid : rec.callUuid ≠ "") :
    if countOf rec.call events = 0 ∧ lim.maxRows ≤ (streamCalls events).length then
      (position lim rec noFault).run db = .error streamsFull db
    else ∃ dn t, (position lim rec noFault).run db =
      .ok ((countOf rec.call events : Int), dn) { db with callStreams := t } := by
  have hkey : (rec.topic, rec.callUuid) = rec.call := rfl
  have hneg := hrec.sequence
  have hmode : modeOf rec = .admission := if_pos hneg
  unfold position
  rw [hkey]
  cases hfind : db.callStreams.find? rec.call with
  | some s =>
    obtain ⟨hs, hsc⟩ := Table.find?_eq_some.mp hfind
    obtain ⟨hmsg, hadmission, hcount⟩ := h.streams s hs
    have hsame : s.msgKey = rec.msgKey := by
      rw [hmsg, hrec.key]
      exact congrArg Prod.snd hsc
    have hne : countOf rec.call events ≠ 0 := by
      rw [Ne, countOf_eq_zero (c := rec.call) huuid, not_not, ← h.calls]
      exact ⟨s, hs, hsc⟩
    rw [hsc] at hcount
    rw [if_neg fun hc => hne hc.1]
    refine ⟨decide (s.admitSeq = s.nextSeq), db.callStreams, ?_⟩
    simp [noFault, EStateM.run_bind, run_query, hfind, hsame, hadmission, hmode, hneg, require,
      ← hcount]
  | none =>
    have hnil : countOf rec.call events = 0 :=
      h.countOf_of_none huuid (Table.find?_eq_none.mp hfind)
    rw [hnil, ← h.length_streams]
    by_cases hroom : (db.callStreams.rows.length : Int) < lim.maxRows
    · obtain ⟨t, hins⟩ : ∃ t, db.callStreams.insert (newStream rec) = some t :=
        Table.exists_insert hfind rfl
      rw [if_neg fun hc => absurd hroom (by omega)]
      refine ⟨true, t, ?_⟩
      have hset : ∀ (x : Int × Bool) (d : Db),
          EStateM.run ((fun _ => x) <$> (set d : Prog PUnit)) db = .ok x d := fun _ _ => rfl
      simp [noFault, EStateM.run_bind, run_query, hfind, hneg, require, statement, hins, hroom,
        hset]
    · rw [if_pos ⟨rfl, by omega⟩]
      simp [noFault, EStateM.run_bind, run_query, hfind, require, hroom, streamsFull]

theorem run_claim (db : Db) (rec : OutboxRecord) (seq : Int) :
    ∃ n, (statement (noFault .admitSeq)
      (updateStreams (fun _ s => s.call = (rec.topic, rec.callUuid))
        (fun _ s => { s.toCursor with admitSeq := max s.admitSeq (inc64 seq) }))).run db =
        .ok n { db with callStreams := claimSeq db.callStreams rec seq } :=
  ⟨_, run_statement_ok.mpr ⟨rfl, updateStreams_ok.mpr ⟨rfl, rfl⟩⟩⟩

/-- What `place` refuses, and the ordinal it gives otherwise. -/
theorem Adapted.reply_place (h : Adapted events db) (hrec : FromModule rec)
    (huuid : rec.callUuid ≠ "") {f : Int × Bool → Prog Int} {reply : Except String Int}
    (hrest : ∀ dn t, Program.reply (f ((countOf rec.call events : Int), dn))
      { db with callStreams := t } = reply) :
    Program.reply (place lim rec noFault >>= f) db =
      if countOf rec.call events = 0 ∧ lim.maxRows ≤ (streamCalls events).length then
        .error streamsFull
      else if (countOf rec.call events : Int) = int64Max then .error "source sequence out of range"
      else reply := by
  have hmsg : rec.msgKey ≠ "" := by
    rw [hrec.key]
    exact huuid
  have hkey : (require (rec.msgKey ≠ "") "ordered call requires nonempty key" : Prog Unit).run db =
      .ok () db := by
    simp [run_require, hmsg]
  have hposition := h.run_position lim hrec huuid
  unfold place
  rw [if_pos huuid, bind_assoc, reply_bind_of_ok hkey, bind_assoc]
  split at hposition
  · rename_i hfull
    rw [if_pos hfull, reply_bind_of_error hposition]
  · rename_i hroom
    rw [if_neg hroom]
    obtain ⟨dn, t, hrun⟩ := hposition
    rw [reply_bind_of_ok hrun, bind_assoc, reply_require]
    by_cases hmax : (countOf rec.call events : Int) = int64Max
    · simp [hmax]
    · have hrange : (0 ≤ (countOf rec.call events : Int) &&
          (countOf rec.call events : Int) ≠ int64Max) = true := by
        simp [hmax]
      obtain ⟨n, hclaim⟩ := run_claim { db with callStreams := t } rec (countOf rec.call events)
      rw [if_neg hmax, if_pos hrange, bind_assoc, reply_bind_of_ok hclaim, pure_bind]
      exact hrest dn _

/-- The position of a new row is free where its call has no such sequence. -/
theorem seqIndex_newRow_free {t : OutboxTable} {seq : Int} {dn : Bool}
    (hfree : rec.callUuid ≠ "" → ∀ r ∈ t, r.grouped = true → r.call = rec.call →
      r.callSeq ≠ some seq) :
    ¬ ((newRow rec now seq dn).seqIndex.isSome ∧
      (newRow rec now seq dn).seqIndex ∈ t.rows.map fun r => r.seqIndex) := by
  rintro ⟨hsome, hindex⟩
  obtain ⟨r, hr, heq⟩ := List.mem_map.mp hindex
  have huuid : rec.callUuid ≠ "" := by
    rintro hempty
    simp [newRow, Event.seqIndex, hempty] at hsome
  have hseq : (newRow rec now seq dn).seqIndex = some (rec.topic, rec.callUuid, seq) := by
    simp [newRow, Event.seqIndex, huuid]
  have heq := heq.trans hseq
  rw [Event.seqIndex_eq] at heq
  have hg : r.grouped = true := Event.grouped_iff.mpr ⟨_, heq.2.1, huuid⟩
  refine absurd heq.2.2 (hfree huuid r hr hg ?_)
  exact Prod.ext heq.1 (by simp [Event.call, Event.uuid, heq.2.1, OutboxRecord.call])

/-- The insert fails for its event id only, when the position of the row is free. -/
theorem insert_newRow_eq_none {t : OutboxTable} {seq : Int} {dn : Bool}
    (hfree : rec.callUuid ≠ "" → ∀ r ∈ t, r.grouped = true → r.call = rec.call →
      r.callSeq ≠ some seq) :
    t.insert (newRow rec now seq dn) = none ↔
      (t.rows.any fun r => r.eventId = rec.eventId) = true := by
  rw [Table.insert_eq_none, List.any_eq_true]
  constructor
  · rintro (hid | hindex)
    · obtain ⟨r, hr, hkey⟩ := List.mem_map.mp hid
      exact ⟨r, hr, decide_eq_true hkey⟩
    · exact absurd hindex (seqIndex_newRow_free hfree)
  · rintro ⟨r, hr, hid⟩
    exact Or.inl (List.mem_map.mpr ⟨r, hr, of_decide_eq_true hid⟩)

theorem reply_insertRow {seq n : Int} {dn : Bool}
    (hfree : rec.callUuid ≠ "" → ∀ r ∈ db.outbox, r.grouped = true → r.call = rec.call →
      r.callSeq ≠ some seq) :
    Program.reply (statement (noFault .insertRow) (do
      let db ← get
      match db.outbox.insert (newRow rec now seq dn) with
      | some t => set { db with outbox := t }
      | none => throw (notUnique db.outbox (newRow rec now seq dn))) >>= fun _ => (pure n : Prog Int)) db =
        insertReply db.outbox rec.eventId n := by
  unfold insertReply
  cases hins : db.outbox.insert (newRow rec now seq dn) with
  | none =>
    have htext : notUnique db.outbox (newRow rec now seq dn) =
        "UNIQUE constraint failed: outbox.event_id" := if_neg (seqIndex_newRow_free hfree)
    rw [if_pos ((insert_newRow_eq_none hfree).mp hins)]
    simp only [Program.reply, noFault, statement, EStateM.run_bind, EStateM.run_get, hins, htext]
    rfl
  | some t =>
    have hno : ¬ (db.outbox.rows.any fun r => r.eventId = rec.eventId) = true := by
      intro htaken
      rw [(insert_newRow_eq_none hfree).mpr htaken] at hins
      cases hins
    rw [if_neg hno]
    simp only [Program.reply, noFault, statement, EStateM.run_bind, EStateM.run_get, hins]
    rfl

/-- What follows the capacity check, `base` the rows it left. -/
theorem Adapted.reply_storeRow (h : Adapted events db) (hinv : StoreInv db)
    (hrec : FromModule rec) {base : OutboxTable} (hbase : ∀ r ∈ base, r ∈ db.outbox) :
    Program.reply (storeRow lim rec now) { db with outbox := base } =
      storedReply lim events base rec := by
  have h' : Adapted events { db with outbox := base } := ⟨h.unfenced, h.streams, h.calls⟩
  unfold storeRow storedReply
  by_cases huuid : rec.callUuid = ""
  · have hplace : (place lim rec noFault).run { db with outbox := base } =
        .ok (rec.callSeq.toInt, true) { db with outbox := base } := by
      simp [place, huuid, hrec.sequence, require]
    rw [if_pos huuid, reply_bind_of_ok hplace]
    simp only [huuid, if_true]
    exact reply_insertRow fun hne => absurd huuid hne
  · rw [if_neg huuid]
    refine h'.reply_place hrec huuid fun dn t => ?_
    simp only [huuid, if_false]
    refine reply_insertRow fun _ r hr hg hcall hseq => ?_
    -- the rows of the call stand below its count
    obtain ⟨s, hs, k, hk⟩ := hinv.placed r (hbase r hr) hg
    have hcount := (h.streams s hs).2.2
    rw [hk.call, hcall] at hcount
    have hlast : k = countOf rec.call events := Option.some.inj (hk.seq.symm.trans hseq)
    have hlt := hk.hi
    omega

theorem Adapted.reply_insertPending (h : Adapted events db) (hinv : StoreInv db)
    (hrec : FromModule rec) :
    Program.reply (insertPending lim rec now noFault) db =
      moduleReply lim events db.outbox rec := by
  have hdef : insertPending lim rec now noFault = transaction none none
      (checkRetired rec noFault >>= fun _ => makeRoom lim rec noFault >>= fun _ =>
        storeRow lim rec now) := rfl
  have hfence : (checkRetired rec noFault).run db = .ok () db :=
    run_checkRetired fun _ f hf => absurd hf (h.unfenced f)
  have hroom : (makeRoom lim rec noFault).run db = _ := run_makeRoom db
  rw [hdef, reply_transaction, reply_bind_of_ok hfence]
  unfold moduleReply roomFor
  cases hfull : full lim rec db.outbox with
  | false =>
    rw [hfull] at hroom
    rw [reply_bind_of_ok hroom]
    simp only [Bool.false_eq_true, if_false, hfull]
    exact h.reply_storeRow hinv hrec fun _ hr => hr
  | true =>
    rw [hfull] at hroom
    cases hafter : full lim rec (db.outbox.delete reclaimable) with
    | true =>
      rw [hafter] at hroom
      rw [reply_bind_of_error hroom]
      simp only [if_true, hafter]
    | false =>
      rw [hafter] at hroom
      rw [reply_bind_of_ok hroom]
      simp only [if_true, Bool.false_eq_true, if_false, hafter]
      exact h.reply_storeRow hinv hrec fun _ hr => (Table.mem_delete.mp hr).1

theorem Outbox.reply_insertPending {b : Outbox} (hopen : b.isOpen = true) :
    b.reply (.insertPending lim rec now noFault) =
      Program.reply (insertPending lim rec now noFault) b.db := by
  show (b.call (insertPending lim rec now noFault) id).1 = _
  unfold Outbox.call Program.reply
  rw [if_pos hopen]
  cases (insertPending lim rec now noFault).run b.db with
  | ok n db => rfl
  | error e db => rfl

end Reply

/-! ## Every run -/

section Run

variable {kafka : Kafka} {s : Pipeline} {act : Act} {args : EnqueueArgs} {env : Env}

theorem SwitchEvent.fromModule {ev : SwitchEvent} {id : String} (h : ev.enqueueArgs id = some args)
    (cfg : Config) (now : Int) : FromModule (args.toRecord cfg now) := by
  rcases Option.map_eq_some_iff.mp h with ⟨payload, -, rfl⟩
  exact ⟨rfl, by simp [EnqueueArgs.toRecord]⟩

theorem Adapted.step {tr : List (Pipeline × Act)} (h : Adapted (admittedEvents tr) s.outbox.db)
    (hinv : StoreInv s.outbox.db) (hact : act.OfModule) :
    Adapted (admittedEvents (tr ++ [(s, act)])) (s.step kafka act).outbox.db := by
  rw [admittedEvents_append, admittedEvents_singleton]
  cases db_cases kafka s act with
  | quiet hnone hquiet =>
    rw [hnone, Option.toList_none, List.append_nil]
    exact h.quietRun hquiet
  | admitted heq hsome hadm =>
    subst heq
    obtain ⟨ev, id, hargs⟩ := hact
    rw [hsome, Option.toList_some]
    exact h.admitted hinv (ev.fromModule hargs ..) hadm
  | acked heq _ _ _ _ _ hdb =>
    subst heq
    rw [hdb]
    simpa [Pipeline.admitted] using h.acked _ _

theorem isOpen_of_accept (kafka : Kafka) (cfg : Config) (acts : List Act) :
    let s := Machine.run (Pipeline.step kafka) (Pipeline.init cfg) acts
    s.accept = true → s.outbox.isOpen = true := by
  intro s haccept
  have hsession : Session s := session_run kafka cfg acts
  have hopen : s.worker ≠ .idle → s.outbox.isOpen = true :=
    Machine.run_invariant (I := fun s : Pipeline => s.worker ≠ .idle → s.outbox.isOpen = true)
      (fun hw => absurd rfl hw) (fun _ act h => isOpen_step kafka act h) acts
  exact hopen (hsession.worker (hsession.accept ▸ haccept))

/-- What a run of the module keeps. -/
structure ModuleInv (tr : List (Pipeline × Act)) (s : Pipeline) : Prop where
  store : StoreInv s.outbox.db
  sequence : s.cfg.requireSourceSequence = false
  adapted : Adapted (admittedEvents tr) s.outbox.db

theorem ModuleInv.step {tr : List (Pipeline × Act)} (h : ModuleInv tr s) (hact : act.OfModule) :
    ModuleInv (tr ++ [(s, act)]) (s.step kafka act) where
  store := h.store.pipeline kafka act
  sequence := by
    rcases step_cfg kafka s act with hsame | ⟨cfg, rfl, hcfg, -⟩
    · rw [hsame]
      exact h.sequence
    · obtain ⟨g, switchname, rfl⟩ := hact
      rw [hcfg]
      rfl
  adapted := h.adapted.step h.store hact

theorem moduleInv_run (kafka : Kafka) (g : Globals) (switchname : String) (acts : List Act)
    (hacts : ∀ act ∈ acts, act.OfModule) :
    ModuleInv (Machine.trace (Pipeline.step kafka) (Pipeline.init (g.config switchname)) acts)
      (Machine.run (Pipeline.step kafka) (Pipeline.init (g.config switchname)) acts) := by
  have hinit : ModuleInv [] (Pipeline.init (g.config switchname)) :=
    ⟨StoreInv.empty, rfl, Adapted.empty⟩
  refine Machine.trace_invariant (J := fun tr s => ModuleInv tr s) (P := fun _ act => act.OfModule)
    hinit (fun _ _ _ hact h => h.step hact) acts ?_
  intro x hx
  rcases Machine.exists_prefix_of_mem_trace hx with ⟨pre, post, hsplit, -⟩
  apply hacts
  simp [hsplit]

theorem ModuleInv.not_refused {tr : List (Pipeline × Act)} (h : ModuleInv tr s) {ev : SwitchEvent}
    {id : String} (hargs : ev.enqueueArgs id = some args) : args.refused s.cfg = false := by
  rcases Option.map_eq_some_iff.mp hargs with ⟨payload, -, rfl⟩
  simp [EnqueueArgs.refused, h.sequence]

/-- An event enters the history exactly when `enqueue` returns a sequence. -/
theorem admitted_iff_reply (h : Session s) :
    (s.admitted (.enqueue args env)).isSome = true ↔ ∃ n, s.enqueueReply args env = .ok n := by
  by_cases haccept : s.accept = false
  · simp [Pipeline.admitted, Pipeline.enqueueReply, haccept]
  · have hstop : s.stopping = false := h.stopping (by simpa [h.accept] using haccept)
    by_cases hrefused : args.refused s.cfg = true
    · simp [Pipeline.admitted, Pipeline.enqueueReply, haccept, hrefused]
    · have hguard : ¬ (s.stopping = true ∨ s.accept = false ∨ args.refused s.cfg = true) := by
        simp [hstop, haccept, hrefused]
      simp only [Pipeline.admitted, if_neg hguard, Option.isSome_map, Pipeline.enqueueReply,
        if_neg haccept, if_neg hrefused]
      unfold Outbox.admission Pipeline.insertion
      cases s.outbox.reply (.insertPending s.cfg.limits (args.toRecord s.cfg (env.clock 0))
        (env.clock 1) env.fault) with
      | ok n => simp
      | error e => simp

/-- A sequence returned under faults is the one returned without. -/
theorem enqueueReply_withoutFaults {n : Int} (h : s.enqueueReply args env = .ok n) :
    s.enqueueReply args { env with fault := noFault } = .ok n := by
  unfold Pipeline.enqueueReply at h ⊢
  split at h
  · cases h
  · rename_i haccept
    rw [if_neg haccept]
    split at h
    · cases h
    · rename_i hrefused
      rw [if_neg hrefused]
      have hsame : s.outbox.exec (s.insertion args { env with fault := noFault }) =
          s.outbox.exec (s.insertion args env) := Outbox.exec_withoutFaults h
      exact (congrArg Prod.fst hsame).trans h

end Run

/-- For every run of the module: what `PublishEvent` gets for an event that can be
serialised is decided by whether the pipeline accepts, the events admitted before and
the rows; with storage faults it can only get an exception instead. An event of a call
gets the number of the call's events as its ordinal. -/
theorem publish_event (kafka : Kafka) (g : Globals) (switchname : String) (acts : List Act)
    (hacts : ∀ act ∈ acts, act.OfModule) :
    let tr := Machine.trace (Pipeline.step kafka) (Pipeline.init (g.config switchname)) acts
    let s := Machine.run (Pipeline.step kafka) (Pipeline.init (g.config switchname)) acts
    ∀ ev id args env, SwitchEvent.enqueueArgs ev id = some args →
      let reply := if s.accept = false then .error "pipeline not accepting" else
        moduleReply s.cfg.limits (admittedEvents tr) s.outbox.db.outbox
          (args.toRecord s.cfg (env.clock 0))
      (env.fault = noFault → s.publishEvent ev id env = some reply) ∧
      (∀ n, s.publishEvent ev id env = some (.ok n) → reply = .ok n) ∧
      ((s.admitted (.enqueue args env)).isSome = true ↔
        ∃ n, s.publishEvent ev id env = some (.ok n)) := by
  intro tr s ev id args env hargs reply
  have hinv : ModuleInv tr s := moduleInv_run kafka g switchname acts hacts
  have hpublish : s.publishEvent ev id env = some (s.enqueueReply args env) := by
    rw [Pipeline.publishEvent, hargs, Option.map_some]
  have hclean : ∀ env', env'.fault = noFault → env'.clock = env.clock →
      s.enqueueReply args env' = reply := by
    intro env' hfault hclock
    unfold Pipeline.enqueueReply
    show _ = if s.accept = false then _ else _
    cases haccept : s.accept with
    | false => rfl
    | true =>
      have hopen := isOpen_of_accept kafka (g.config switchname) acts haccept
      have hrec : FromModule (args.toRecord s.cfg (env.clock 0)) := ev.fromModule hargs ..
      simp only [Bool.true_eq_false, if_false, hinv.not_refused hargs, Bool.false_eq_true,
        Pipeline.insertion, hfault, hclock]
      rw [Outbox.reply_insertPending hopen]
      exact hinv.adapted.reply_insertPending hinv.store hrec
  have hsession : Session s := session_run kafka _ acts
  rw [hpublish]
  refine ⟨fun hfault => congrArg some (hclean env hfault rfl), ?_, ?_⟩
  · intro n hok
    have hok' := enqueueReply_withoutFaults (Option.some.inj hok)
    exact (hclean { env with fault := noFault } rfl rfl).symm.trans hok'
  · rw [admitted_iff_reply hsession]
    simp

/-- Room for one row and one call. -/
def smallGlobals : Globals := ⟨some "", "fs", 1, 0⟩

def callEvent (uuid : String) : SwitchEvent := ⟨some uuid, some []⟩

/-- The only event of call `c` is delivered, so the outbox is empty again. -/
def oneCall : List Act :=
  [.start sampleEnv, .enqueue ⟨"a", [], "c", "c", -1⟩ sampleEnv] ++
    List.replicate 7 (.work sampleEnv) ++ [.append 0 0, .report 0 none, .callback sampleEnv]

/-- Its stream stays: call `c` goes on at 1, and there is no room for a call `d`. -/
theorem publish_event_full :
    let s := Machine.run (Pipeline.step sampleKafka) (Pipeline.init (smallGlobals.config "pbx"))
      oneCall
    s.outbox.db.outbox.rows = [] ∧
      s.publishEvent (callEvent "c") "b" sampleEnv = some (.ok 1) ∧
      s.publishEvent (callEvent "d") "b" sampleEnv = some (.error streamsFull) := by
  intro s
  have hacts : ∀ act ∈ oneCall, act.OfModule := by
    simp only [oneCall, List.replicate, Act.OfModule, List.cons_append, List.nil_append,
      List.forall_mem_cons, true_and, List.not_mem_nil, false_implies, implies_true, and_true]
    exact ⟨callEvent "c", "a", rfl⟩
  have h := publish_event sampleKafka smallGlobals "pbx" oneCall hacts
  refine ⟨by decide +kernel, ?_, ?_⟩
  · rw [(h (callEvent "c") "b" ⟨"b", [], "c", "c", -1⟩ sampleEnv rfl).1 rfl]
    decide +kernel
  · rw [(h (callEvent "d") "b" ⟨"b", [], "d", "d", -1⟩ sampleEnv rfl).1 rfl]
    decide +kernel

end EventKafka
