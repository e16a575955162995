import EventKafka.File.Open
import EventKafka.Outbox.Transitions
import EventKafka.Pipeline.Records

/-! # Turns

`mark_in_flight` gives the call it serves a fresh turn of `order_scheduler`, and
`fetch_due` reads the calls by the turn they were served last. `Sched` is what matters of
the worker: it takes one batch at a time, marks it from the front, and loses the rest
when a mark fails or the process restarts; everything else of the outbox goes on in
between.

While the head of a call waits and is due, no other call is served twice: a call that has
been served is behind the waiting one in every later batch.
-/

namespace EventKafka

open Sql

/-! ## When a call was served last -/

/-- `COALESCE(last_served_ms,0)` of a call. -/
def Db.lastServed (db : Db) (c : Call) : Int :=
  ((db.callStreams.find? c).map fun s => s.lastServedMs).getD 0

/-- The stream `insert_pending` creates has not been served. -/
theorem Admission.lastServed {lim : Limits} {rec : OutboxRecord} {now seq : Int} {dn : Bool}
    {db db' : Db} {base : OutboxTable} (h : Admission lim rec now db db' seq dn base) (c : Call) :
    db'.lastServed c = db.lastServed c := by
  unfold Db.lastServed
  rcases h.streams.inv with ⟨-, -, heq⟩ | ⟨tbl, s, -, -, -, hclaim, heq⟩
  · rw [heq]
  · have hkeep : ((claimSeq tbl rec seq).find? c).map (fun s => s.lastServedMs) =
        (tbl.find? c).map fun s => s.lastServedMs := by
      have hfind : (claimSeq tbl rec seq).find? c = (tbl.find? c).map fun s =>
          if decide (s.call = rec.call) = true then s.claimed seq else s :=
        Table.find?_update
      rw [hfind, Option.map_map]
      congr 1
      funext q
      simp only [Function.comp]
      split <;> rfl
    rw [heq, hkeep]
    rcases hclaim.found with ⟨-, rfl⟩ | ⟨hnew, rfl, -, hins⟩
    · rfl
    · cases hf : tbl.find? c with
      | none =>
        have hnone : db.callStreams.find? c = none := by
          rw [Table.find?_eq_none] at hf ⊢
          exact fun q hq => hf q ((Table.mem_insert hins).mpr (Or.inl hq))
        rw [hnone]
      | some q =>
        rcases Table.find?_eq_some.mp hf with ⟨hq, hcall⟩
        rcases (Table.mem_insert hins).mp hq with hold | rfl
        · rw [Table.find?_eq_some.mpr ⟨hold, hcall⟩]
        · have hnone : db.callStreams.find? c = none := by
            rw [Table.find?_eq_none, ← hcall]
            exact hnew
          rw [hnone]
          rfl

theorem lastServed_acked (db : Db) (r : Row) (now : Int) (c : Call) :
    (db.acked r now).lastServed c = db.lastServed c := by
  cases hg : r.grouped with
  | false => simp [Db.acked, Db.lastServed, hg]
  | true =>
    have hstreams : (db.acked r now).callStreams =
        (db.updateStreams (fun s => s.call = r.call)
          fun s => { s.toCursor with nextSeq := s.nextSeq + 1 }).callStreams := by
      simp [Db.acked, hg]
    unfold Db.lastServed
    rw [hstreams, find?_updateStreams, Option.map_map]
    congr 2
    funext s
    simp only [Function.comp]
    split <;> rfl

/-- A send gives the call of the row the new turn. -/
theorem lastServed_sent (db : Db) (r : Row) (now : Int) (c : Call) :
    (db.sent r now).lastServed c =
      if (db.callStreams.find? c).isSome = true ∧ r.topic = c.1 ∧ r.callUuid = some c.2 then
        db.turn + 1
      else db.lastServed c := by
  have hstreams : (db.sent r now).callStreams =
      (db.updateStreams (fun s => r.topic = s.topic && r.callUuid = some s.callUuid)
        fun s => { s.toCursor with lastServedMs := db.turn + 1 }).callStreams := rfl
  unfold Db.lastServed
  rw [hstreams, find?_updateStreams]
  cases hf : db.callStreams.find? c with
  | none => simp
  | some s =>
    have hcall : s.call = c := (Table.find?_eq_some.mp hf).2
    subst hcall
    by_cases hmine : r.topic = s.topic ∧ r.callUuid = some s.callUuid
    · simp [Ownership.call, hmine]
    · simp [Ownership.call, hmine]

/-- The turn is not behind any call. -/
structure Dominated (db : Db) : Prop where
  nonneg : 0 ≤ db.turn
  last : ∀ c, db.lastServed c ≤ db.turn

theorem Dominated.step {b : Outbox} (h : Dominated b.db) (op : Op) :
    Dominated (b.step op).db := by
  cases b.effect op with
  | same heq _ =>
    rw [heq]
    exact h
  | admitted _ _ hadm =>
    refine ⟨hadm.turn ▸ h.nonneg, fun c => ?_⟩
    rw [hadm.lastServed, hadm.turn]
    exact h.last c
  | @sent id now fault r _ _ _ _ _ hdb =>
    have hnonneg := h.nonneg
    rw [hdb]
    refine ⟨?_, fun c => ?_⟩
    · show 0 ≤ b.db.turn + 1
      omega
    · have hlast := h.last c
      show _ ≤ b.db.turn + 1
      rw [lastServed_sent]
      split <;> omega
  | @acked id now fault r _ _ _ _ _ _ hdb =>
    have hturn : (b.db.acked r now).turn = b.db.turn := by
      cases hg : r.grouped <;> simp [Db.acked, hg]
    rw [hdb]
    refine ⟨hturn ▸ h.nonneg, fun c => ?_⟩
    rw [lastServed_acked, hturn]
    exact h.last c
  | rewritten _ _ hdb =>
    rw [hdb]
    exact ⟨h.nonneg, h.last⟩

/-! ## The worker -/

/-- The outbox, and the records of its batch the worker has not marked yet. -/
structure Sched where
  outbox : Outbox
  batch : List OutboxRecord
deriving DecidableEq

/-- What happens to it. -/
inductive SchedAct where
  | fetch (now limit : Int) (fault : FaultPlan)
  /-- `mark_in_flight` of the next record of the batch. -/
  | mark (now : Int) (fault : FaultPlan)
  /-- Any other call of the outbox, by whichever thread. -/
  | call (op : Op)
  /-- The batch is given up: the worker stops, rebuilds or restarts. -/
  | drop

/-- One step. Only the worker marks. -/
def Sched.step (s : Sched) : SchedAct → Sched
  | .fetch now limit fault =>
    match s.outbox.fetchDue now limit fault with
    | .ok due => { s with batch := due }
    | .error _ => { s with batch := [] }
  | .mark now fault =>
    match s.batch with
    | [] => s
    | rec :: rest =>
      match s.outbox.exec (.markInFlight rec.eventId now fault) with
      | (.ok _, b) => ⟨b, rest⟩
      | (.error _, b) => ⟨b, []⟩
  | .call (.markInFlight _ _ _) => s
  | .call op => { s with outbox := s.outbox.step op }
  | .drop => { s with batch := [] }

/-- The row a step marks in flight. -/
def Sched.marked (s : Sched) : SchedAct → Option Row
  | .mark now fault =>
    match s.batch with
    | [] => none
    | rec :: _ =>
      match s.outbox.reply (.markInFlight rec.eventId now fault) with
      | .ok _ => s.outbox.db.outbox.find? rec.eventId
      | .error _ => none
  | _ => none

/-- What a step can do. -/
inductive SchedStep (s : Sched) (act : SchedAct) : Prop where
  | fetched {now limit : Int} {fault : FaultPlan} {recs : List OutboxRecord}
      (hact : act = .fetch now limit fault)
      (hfetch : s.outbox.fetchDue now limit fault = .ok recs)
      (hmarked : s.marked act = none) (h : s.step act = ⟨s.outbox, recs⟩)
  | dropped (hmarked : s.marked act = none) (h : s.step act = ⟨s.outbox, []⟩)
  | idle (hmarked : s.marked act = none) (h : s.step act = s)
  | sent {now : Int} {fault : FaultPlan} {rec : OutboxRecord} {rest : List OutboxRecord} {r : Row}
      (hbatch : s.batch = rec :: rest) (hr : r ∈ s.outbox.db.outbox) (hid : r.eventId = rec.eventId)
      (hdel : s.outbox.db.deliverable r.toEvent = true)
      (hdb : (s.outbox.step (.markInFlight rec.eventId now fault)).db = s.outbox.db.sent r now)
      (hmarked : s.marked act = some r)
      (h : s.step act = ⟨s.outbox.step (.markInFlight rec.eventId now fault), rest⟩)
  | failed {b : Outbox} (hdb : b.db = s.outbox.db) (hmarked : s.marked act = none)
      (h : s.step act = ⟨b, []⟩)
  | called {op : Op} (hact : act = .call op)
      (hop : ∀ id now fault, op ≠ .markInFlight id now fault) (hmarked : s.marked act = none)
      (h : s.step act = ⟨s.outbox.step op, s.batch⟩)

theorem schedStep (s : Sched) (act : SchedAct) : SchedStep s act := by
  cases act with
  | fetch now limit fault =>
    cases hfetch : s.outbox.fetchDue now limit fault with
    | ok recs => exact .fetched rfl hfetch rfl (by simp [Sched.step, hfetch])
    | error e => exact .dropped rfl (by simp [Sched.step, hfetch])
  | mark now fault =>
    cases hbatch : s.batch with
    | nil => exact .idle (by simp [Sched.marked, hbatch]) (by simp [Sched.step, hbatch])
    | cons rec rest =>
      rcases hexec : s.outbox.exec (.markInFlight rec.eventId now fault) with ⟨reply, b⟩
      have hreply : s.outbox.reply (.markInFlight rec.eventId now fault) = reply :=
        congrArg Prod.fst hexec
      have hb : s.outbox.step (.markInFlight rec.eventId now fault) = b :=
        congrArg Prod.snd hexec
      cases reply with
      | error e =>
        exact .failed (Outbox.exec_error hexec) (by simp [Sched.marked, hbatch, hreply])
          (by simp [Sched.step, hbatch, hexec])
      | ok n =>
        rcases call_ok hexec with ⟨_, hrun, -⟩
        rcases markInFlight_ok hrun with ⟨r, hr, hsend, -, hdb⟩
        rcases sendable_iff.mp hsend with ⟨hid, -, hdel⟩
        have hfind : s.outbox.db.outbox.find? rec.eventId = some r :=
          Table.find?_eq_some.mpr ⟨hr, hid⟩
        exact .sent hbatch hr hid hdel (hb ▸ hdb) (by simp [Sched.marked, hbatch, hreply, hfind])
          (by simp [Sched.step, hbatch, hexec, hb])
  | call op =>
    cases op with
    | markInFlight id now fault => exact .idle rfl rfl
    | _ => exact .called rfl (by simp) rfl rfl
  | drop => exact .dropped rfl rfl

/-- How often call `c` was marked in flight. -/
def served (c : Call) (tr : List (Sched × SchedAct)) : Nat :=
  tr.countP fun x => (x.1.marked x.2).any (Row.ofCall c)

/-- The step admits an event under an id that is still in the batch. -/
def Sched.readmits (s : Sched) : SchedAct → Bool
  | .call (.insertPending lim rec now fault) =>
    (s.outbox.admission (.insertPending lim rec now fault)).isSome &&
      s.batch.any fun q => q.eventId = rec.eventId
  | _ => false

def SchedAct.isFetch : SchedAct → Bool
  | .fetch .. => true
  | _ => false

/-- When this step fetches, the head of call `c` is pending and due. -/
def Sched.headDue (c : Call) (s : Sched) : SchedAct → Bool
  | .fetch now _ _ =>
    s.outbox.db.outbox.rows.any fun r => r.ofCall c && EventKafka.due now s.outbox.db r
  | _ => true

/-- The head of call `c` waits: it is pending and due when a batch is fetched, and it is
not marked. -/
structure Waits (c : Call) (s : Sched) (act : SchedAct) : Prop where
  due : s.headDue c act = true
  unmarked : (s.marked act).any (Row.ofCall c) = false

instance (c : Call) (s : Sched) (act : SchedAct) : Decidable (Waits c s act) :=
  decidable_of_iff (s.headDue c act = true ∧ (s.marked act).any (Row.ofCall c) = false)
    ⟨fun h => ⟨h.1, h.2⟩, fun h => ⟨h.due, h.unmarked⟩⟩

theorem Waits.ofCall {c : Call} {s : Sched} {act : SchedAct} {r : Row} (h : Waits c s act)
    (hmarked : s.marked act = some r) : r.ofCall c = false := by
  simpa [hmarked] using h.unmarked

/-- What a run keeps of the batch: its records are of the calls their rows are of, one of
each call. -/
structure Sched.Sound (s : Sched) : Prop where
  turn : Dominated s.outbox.db
  calls : ∀ rec ∈ s.batch, ∀ r ∈ s.outbox.db.outbox, r.eventId = rec.eventId → r.call = rec.call
  once : s.batch.Pairwise fun x y => x.callUuid ≠ "" → x.call ≠ y.call

/-! ## What a batch holds -/

instance (db : Db) : Std.Total (dueLe db) where
  total := by
    intro r q
    unfold dueLe
    omega

instance (db : Db) : IsTrans Row (dueLe db) where
  trans := by
    intro r q p
    unfold dueLe
    omega

/-- A batch is a front part of the due rows in their order. -/
theorem Outbox.fetchDue_rows {b : Outbox} {now limit : Int} {fault : FaultPlan}
    {recs : List OutboxRecord} (h : b.fetchDue now limit fault = .ok recs) :
    recs = [] ∨ ∃ front back : List Row, recs = front.map record ∧
      (front ++ back).Perm (b.db.outbox.rows.filter (due now b.db)) ∧
      (front ++ back).Pairwise (dueLe b.db) := by
  unfold Outbox.fetchDue at h
  cases hopen : b.isOpen with
  | false =>
    simp only [hopen, Bool.false_eq_true, if_false, Except.ok.injEq] at h
    exact Or.inl h.symm
  | true =>
    right
    rw [if_pos hopen] at h
    cases hrun : (EventKafka.fetchDue now limit fault).run b.db with
    | error e db => simp [hrun] at h
    | ok recs' db =>
      simp only [hrun, Except.ok.injEq] at h
      subst h
      simp only [EventKafka.fetchDue, run_statement_ok, run_bind_ok, run_get_ok,
        run_pure_ok] at hrun
      rcases hrun with ⟨-, _, _, ⟨rfl, rfl⟩, rfl, -⟩
      have hperm := List.perm_insertionSort (dueLe b.db) (b.db.outbox.rows.filter (due now b.db))
      have hsorted := List.pairwise_insertionSort (dueLe b.db)
        (b.db.outbox.rows.filter (due now b.db))
      generalize (b.db.outbox.rows.filter (due now b.db)).insertionSort (dueLe b.db) = sorted at *
      by_cases hneg : limit < 0
      · refine ⟨_, [], by rw [if_pos hneg], ?_, ?_⟩
        · rw [List.append_nil]
          exact hperm
        · rw [List.append_nil]
          exact hsorted
      · refine ⟨_, sorted.drop limit.toNat, by rw [if_neg hneg], ?_, ?_⟩
        · rw [List.take_append_drop]
          exact hperm
        · rw [List.take_append_drop]
          exact hsorted

section Sound

variable {s : Sched} {act : SchedAct}

/-- Nothing in hand is sound. -/
theorem Sched.Sound.nil {b : Outbox} (h : Dominated b.db) : (⟨b, []⟩ : Sched).Sound :=
  ⟨h, by simp, .nil⟩

/-- A batch is sound when it is fetched, whatever was in hand before. -/
theorem Sched.Sound.fetched {now limit : Int} {fault : FaultPlan} {recs : List OutboxRecord}
    (h : Dominated s.outbox.db) (hfetch : s.outbox.fetchDue now limit fault = .ok recs) :
    (⟨s.outbox, recs⟩ : Sched).Sound where
  turn := h
  calls := by
    intro rec hrec r hr hid
    rcases (Outbox.fetchDue_ok hfetch).1 rec hrec with ⟨q, hq, -, rfl⟩
    rw [Table.eq_of_key hr hq hid]
    rfl
  once := by
    rcases Outbox.fetchDue_rows hfetch with rfl | ⟨front, back, rfl, hperm, -⟩
    · exact List.Pairwise.nil
    · have hmem : ∀ r ∈ front, r ∈ s.outbox.db.outbox ∧ due now s.outbox.db r = true := fun r hr =>
        List.mem_filter.mp (hperm.mem_iff.mp (List.mem_append_left _ hr))
      have hnodup : front.Nodup := by
        have hrows : s.outbox.db.outbox.rows.Nodup := List.Nodup.of_map _ s.outbox.db.outbox.key_nodup
        exact (List.nodup_append.mp (hperm.nodup_iff.mpr (hrows.filter _))).1
      rw [List.pairwise_map]
      refine hnodup.imp_of_mem fun {r q} hr hq hne huuid hcall => hne ?_
      -- two due rows of one call are both its head
      have hrg : r.grouped = true := by simpa [Event.grouped, record] using huuid
      have hqg : q.grouped = true := (Event.grouped_congr hcall).symm.trans hrg
      have hhead : ∀ p ∈ front, p.grouped = true → s.outbox.db.isHead p.toEvent = true := by
        intro p hp hg
        have hdue := (hmem p hp).2
        simp only [EventKafka.due, Bool.and_eq_true] at hdue
        rw [← Db.deliverable_of_grouped hg]
        exact hdue.2
      exact eq_of_isHead (hmem r hr).1 (hmem q hq).1 hrg hqg hcall (hhead r hr hrg) (hhead q hq hqg)

theorem Sched.Sound.shorter {batch : List OutboxRecord} (h : s.Sound)
    (hsub : batch.Sublist s.batch) : (⟨s.outbox, batch⟩ : Sched).Sound where
  turn := h.turn
  calls := fun rec hrec => h.calls rec (hsub.subset hrec)
  once := h.once.sublist hsub

/-- A call keeps the batch sound, unless it admits one of its ids anew. -/
theorem Sched.Sound.call {op : Op} (h : s.Sound)
    (hfresh : ∀ rec n, s.outbox.admission op = some (rec, n) → ∀ q ∈ s.batch,
      q.eventId ≠ rec.eventId) : (⟨s.outbox.step op, s.batch⟩ : Sched).Sound where
  turn := h.turn.step op
  calls := by
    intro rec hrec r hr hid
    rcases Outbox.row_origin hr with ⟨q, hq, hevent⟩ | ⟨lim, new, now, fault, n, -, hadm, hevent⟩
    · have hcall := h.calls rec hrec q hq (by rw [hevent]; exact hid)
      rw [← hcall, hevent]
    · have hne := hfresh new n hadm rec hrec
      rw [hevent] at hid
      exact absurd hid.symm hne
  once := h.once

theorem Sched.Sound.step (h : s.Sound) (hfresh : s.readmits act = false) :
    (s.step act).Sound := by
  cases schedStep s act with
  | fetched _ hfetch _ heq =>
    rw [heq]
    exact .fetched h.turn hfetch
  | dropped _ heq =>
    rw [heq]
    exact h.shorter (List.nil_sublist _)
  | idle _ heq =>
    rw [heq]
    exact h
  | sent hbatch _ _ _ _ _ heq =>
    rw [heq]
    refine (h.call ?_).shorter ?_
    · intro rec n hadm
      simp [Outbox.admission] at hadm
    · rw [hbatch]
      exact List.sublist_cons_self _ _
  | failed hdb _ heq =>
    rw [heq]
    exact .nil (hdb ▸ h.turn)
  | @called op hact _ _ heq =>
    rw [heq]
    refine h.call fun rec n hadm q hq hid => ?_
    rcases Outbox.admission_eq_some.mp hadm with ⟨lim, now, fault, hop, -⟩
    rw [hact, hop] at hfresh
    rw [hop] at hadm
    simp only [Sched.readmits, hadm, Option.isSome_some, Bool.true_and, List.any_eq_false,
      decide_eq_true_eq] at hfresh
    exact hfresh q hq hid

/-- The turns need nothing of the batch. -/
theorem Sched.dominated_step (h : Dominated s.outbox.db) (act : SchedAct) :
    Dominated (s.step act).outbox.db := by
  cases schedStep s act with
  | fetched _ _ _ heq | dropped _ heq | idle _ heq =>
    rw [heq]
    exact h
  | sent _ _ _ _ _ _ heq | called _ _ _ heq =>
    rw [heq]
    exact h.step _
  | failed hdb _ heq =>
    rw [heq]
    exact hdb ▸ h

/-- A fetch starts anew. -/
theorem Sched.Sound.of_fetch (h : Dominated s.outbox.db) (hfetch : act.isFetch = true) :
    (s.step act).Sound := by
  cases act with
  | fetch now limit fault =>
    rw [Sched.step]
    cases hrecs : s.outbox.fetchDue now limit fault with
    | ok recs => exact .fetched h hrecs
    | error e => exact .nil h
  | _ => cases hfetch

/-- A run keeps the batch sound from a fetch on, or from where nothing is in hand. -/
theorem Sched.sound_late {late : List SchedAct} (h : Dominated s.outbox.db)
    (hlate : s.batch = [] ∨ late.head?.any SchedAct.isFetch = true)
    (hfresh : ∀ x ∈ Machine.trace Sched.step s late, x.1.readmits x.2 = false) :
    (Machine.run Sched.step s late).Sound := by
  have hrun : ∀ (t : Sched) (acts : List SchedAct), t.Sound →
      (∀ x ∈ Machine.trace Sched.step t acts, x.1.readmits x.2 = false) →
      (Machine.run Sched.step t acts).Sound := fun t acts ht hacts =>
    Machine.run_invariant_along (I := Sched.Sound) (P := fun s act => s.readmits act = false) ht
      (fun _ _ hP h => h.step hP) acts hacts
  rcases hlate with hnil | hfetch
  · have hsound : (⟨s.outbox, s.batch⟩ : Sched).Sound := hnil ▸ .nil h
    exact hrun s late hsound hfresh
  · cases late with
    | nil => cases hfetch
    | cons act late =>
      exact hrun _ late (.of_fetch h (by simpa using hfetch))
        fun x hx => hfresh x (List.mem_cons_of_mem _ hx)

end Sound

/-! ## The waiting call comes first -/

/-- The record is of call `c`. -/
def OutboxRecord.ofCall (c : Call) (rec : OutboxRecord) : Prop :=
  rec.callUuid ≠ "" ∧ rec.call = c

/-- Every record of call `b` comes after one of call `a`. -/
def Shielded (a b : Call) (batch : List OutboxRecord) : Prop :=
  ∀ front rec back, batch = front ++ rec :: back → rec.ofCall b → ∃ q ∈ front, q.ofCall a

theorem ofCall_record {c : Call} {r : Row} : (record r).ofCall c ↔ r.ofCall c = true := by
  rw [Row.ofCall_iff]
  simp [OutboxRecord.ofCall, record, Event.grouped, OutboxRecord.call, Event.call]

theorem Row.ofCall_named {c : Call} {r : Row} (h : r.ofCall c = true) : c.2 ≠ "" := by
  rcases Row.ofCall_iff.mp h with ⟨hg, rfl⟩
  simpa [Event.grouped, Event.call] using hg

/-- A record in the batch is of the call its row is of. -/
theorem Sched.Sound.ofCall_iff {s : Sched} {c : Call} {rec : OutboxRecord} {r : Row} (h : s.Sound)
    (hrec : rec ∈ s.batch) (hr : r ∈ s.outbox.db.outbox) (hid : r.eventId = rec.eventId) :
    rec.ofCall c ↔ r.ofCall c = true := by
  have hcall := h.calls rec hrec r hr hid
  have huuid : r.uuid = rec.callUuid := congrArg Prod.snd hcall
  rw [Row.ofCall_iff, OutboxRecord.ofCall, hcall, Event.grouped, huuid]
  simp

theorem lastServed_of_ofCall {db : Db} {c : Call} {r : Row} (h : r.ofCall c = true) :
    ((db.streamOf r.toEvent).map fun s => s.lastServedMs).getD 0 = db.lastServed c := by
  rcases Row.ofCall_iff.mp h with ⟨hg, rfl⟩
  rw [Db.streamOf_of_grouped hg]
  rfl

/-- What is before another row in the order of turns is before it in the batch. -/
theorem shielded_of_fetchDue {o : Outbox} {now limit : Int} {fault : FaultPlan}
    {recs : List OutboxRecord} {a b : Call} {r : Row}
    (hfetch : o.fetchDue now limit fault = .ok recs) (hr : r ∈ o.db.outbox)
    (hcall : r.ofCall a = true) (hdue : due now o.db r = true)
    (hlast : o.db.lastServed a < o.db.lastServed b) : Shielded a b recs := by
  intro front rec back hsplit hrec
  rcases Outbox.fetchDue_rows hfetch with rfl | ⟨taken, left, rfl, hperm, hsorted⟩
  · simp at hsplit
  · rcases List.map_eq_append_iff.mp hsplit with ⟨l₁, l₂, rfl, rfl, hl₂⟩
    rcases List.map_eq_cons_iff.mp hl₂ with ⟨q, l₃, rfl, rfl, rfl⟩
    rw [ofCall_record] at hrec
    have hmem : r ∈ (l₁ ++ q :: l₃) ++ left :=
      hperm.mem_iff.mpr (List.mem_filter.mpr ⟨hr, hdue⟩)
    rw [List.append_assoc, List.cons_append] at hmem hsorted
    rcases List.mem_append.mp hmem with hfront | hback
    · exact ⟨record r, List.mem_map_of_mem hfront, ofCall_record.mpr hcall⟩
    · exfalso
      rcases List.mem_cons.mp hback with rfl | hafter
      · rcases Row.ofCall_iff.mp hcall with ⟨-, rfl⟩
        rcases Row.ofCall_iff.mp hrec with ⟨-, rfl⟩
        omega
      · have hle := (List.pairwise_cons.mp (List.pairwise_append.mp hsorted).2.1).1 r hafter
        unfold dueLe at hle
        rw [lastServed_of_ofCall hrec, lastServed_of_ofCall hcall] at hle
        omega

/-! ## Overtaking -/

/-- Call `b` has been served while call `a` waits, and is behind it now. -/
structure Behind (a b : Call) (s : Sched) : Prop where
  call : b.2 ≠ ""
  served : 0 < s.outbox.db.lastServed b
  last : a.2 ≠ "" → s.outbox.db.lastServed a < s.outbox.db.lastServed b
  batch : Shielded a b s.batch

section Overtaking

variable {a b : Call} {s : Sched} {act : SchedAct}

theorem lastServed_call {o : Outbox} {op : Op} (hop : ∀ id now fault, op ≠ .markInFlight id now fault)
    (c : Call) : (o.step op).db.lastServed c = o.db.lastServed c := by
  cases o.effect op with
  | same heq _ => rw [heq]
  | admitted _ _ hadm => exact hadm.lastServed c
  | sent heq => exact absurd heq (hop _ _ _)
  | acked _ _ _ _ _ _ hdb =>
    rw [hdb]
    exact lastServed_acked _ _ _ c
  | rewritten _ _ hdb =>
    rw [hdb]
    rfl

/-- A send of another call leaves the turn of `c`. -/
theorem lastServed_sent_of_ne (db : Db) {r : Row} (now : Int) {c : Call} (hc : c.2 ≠ "")
    (h : r.ofCall c = false) : (db.sent r now).lastServed c = db.lastServed c := by
  rw [lastServed_sent, if_neg]
  rintro ⟨-, htopic, huuid⟩
  have hof : r.ofCall c = true := by
    rw [Row.ofCall_iff]
    constructor
    · simp [Event.grouped, Event.uuid, huuid, hc]
    · simp [Event.call, Event.uuid, huuid, htopic]
  rw [h] at hof
  cases hof

/-- A send of `c` gives it the new turn. -/
theorem lastServed_sent_of_call (db : Db) {r : Row} (now : Int) {c : Call} (h : r.ofCall c = true)
    (hdel : db.deliverable r.toEvent = true) : (db.sent r now).lastServed c = db.turn + 1 := by
  rcases Row.ofCall_iff.mp h with ⟨hg, rfl⟩
  rw [Db.deliverable_of_grouped hg, Db.isHead_of_grouped hg] at hdel
  rcases hdel with ⟨q, hq, hcall, -⟩
  rcases Event.grouped_iff.mp hg with ⟨u, hu, -⟩
  rw [lastServed_sent, if_pos]
  refine ⟨?_, rfl, ?_⟩
  · rw [Table.find?_eq_some.mpr ⟨hq, hcall⟩]
    rfl
  · simp [Event.call, Event.uuid, hu]

/-- A step that does not serve `b` leaves it behind. -/
theorem Behind.step (h : Behind a b s) (hsound : s.Sound) (hwaits : Waits a s act)
    (hother : ∀ r, s.marked act = some r → r.ofCall b = false) : Behind a b (s.step act) := by
  cases schedStep s act with
  | fetched hact hfetch _ heq =>
    rw [heq]
    have hwait := hwaits.due
    rw [hact, Sched.headDue, List.any_eq_true] at hwait
    rcases hwait with ⟨r, hr, hboth⟩
    rcases Bool.and_eq_true_iff.mp hboth with ⟨hcall, hdue⟩
    have hlast := h.last (Row.ofCall_named hcall)
    exact ⟨h.call, h.served, h.last, shielded_of_fetchDue hfetch hr hcall hdue hlast⟩
  | dropped _ heq =>
    rw [heq]
    exact ⟨h.call, h.served, h.last, by simp [Shielded]⟩
  | idle _ heq =>
    rw [heq]
    exact h
  | @sent now fault rec rest r hbatch hr hid _ hdb hmarked heq =>
    rw [heq]
    have hb := lastServed_sent_of_ne s.outbox.db now h.call (hother r hmarked)
    refine ⟨h.call, ?_, ?_, ?_⟩
    · rw [hdb, hb]
      exact h.served
    · intro ha
      rw [hdb, hb, lastServed_sent_of_ne _ now ha (hwaits.ofCall hmarked)]
      exact h.last ha
    · intro front q back hsplit hq
      have hwhole : s.batch = (rec :: front) ++ q :: back := by
        rw [hbatch]
        exact congrArg (rec :: ·) hsplit
      rcases h.batch (rec :: front) q back hwhole hq with ⟨p, hp, hpa⟩
      rcases List.mem_cons.mp hp with rfl | hp
      · -- the record just marked is not the waiting call's
        have hmine := (hsound.ofCall_iff (by simp [hbatch]) hr hid).mp hpa
        rw [hwaits.ofCall hmarked] at hmine
        cases hmine
      · exact ⟨p, hp, hpa⟩
  | failed hdb _ heq =>
    rw [heq]
    exact ⟨h.call, hdb ▸ h.served, hdb ▸ h.last, by simp [Shielded]⟩
  | called _ hop _ heq =>
    rw [heq]
    refine ⟨h.call, ?_, ?_, h.batch⟩
    · rw [lastServed_call hop]
      exact h.served
    · intro ha
      rw [lastServed_call hop, lastServed_call hop]
      exact h.last ha

/-- The first service of `b` puts it behind. -/
theorem behind_of_served {r : Row} (hab : a ≠ b) (hsound : s.Sound) (hmarked : s.marked act = some r)
    (hb : r.ofCall b = true) : Behind a b (s.step act) := by
  cases schedStep s act with
  | fetched _ _ hnone => simp [hnone] at hmarked
  | dropped hnone => simp [hnone] at hmarked
  | idle hnone => simp [hnone] at hmarked
  | failed _ hnone => simp [hnone] at hmarked
  | called _ _ hnone => simp [hnone] at hmarked
  | @sent now fault rec rest q hbatch hq hid hdel hdb hsome heq =>
    rw [hsome, Option.some.injEq] at hmarked
    subst hmarked
    have hnonneg := hsound.turn.nonneg
    have hlast := hsound.turn.last a
    have hserved := lastServed_sent_of_call s.outbox.db now hb hdel
    have hna : q.ofCall a = false := by
      rw [Bool.eq_false_iff]
      intro ha
      exact hab ((Row.ofCall_iff.mp ha).2.symm.trans (Row.ofCall_iff.mp hb).2)
    rw [heq]
    refine ⟨Row.ofCall_named hb, ?_, ?_, ?_⟩
    · rw [hdb, hserved]
      omega
    · intro ha
      rw [hdb, hserved, lastServed_sent_of_ne _ now ha hna]
      omega
    · -- the batch held one record of `b`
      intro front p back hsplit hp
      exfalso
      have honce := hsound.once
      rw [hbatch, List.pairwise_cons] at honce
      have hrec := (hsound.ofCall_iff (by simp [hbatch]) hq hid).mpr hb
      have hmem : p ∈ rest := by
        have : rest = front ++ p :: back := hsplit
        simp [this]
      exact honce.1 p hmem hrec.1 (hrec.2.trans hp.2.symm)

/-- What is behind is not served. -/
theorem Behind.not_served {r : Row} (h : Behind a b s) (hsound : s.Sound)
    (hmarked : s.marked act = some r) : r.ofCall b = false := by
  cases schedStep s act with
  | fetched _ _ hnone => simp [hnone] at hmarked
  | dropped hnone => simp [hnone] at hmarked
  | idle hnone => simp [hnone] at hmarked
  | failed _ hnone => simp [hnone] at hmarked
  | called _ _ hnone => simp [hnone] at hmarked
  | @sent now fault rec rest q hbatch hq hid _ _ hsome _ =>
    rw [hsome, Option.some.injEq] at hmarked
    subst hmarked
    rw [Bool.eq_false_iff]
    intro hb
    have hrec := (hsound.ofCall_iff (by simp [hbatch]) hq hid).mpr hb
    rcases h.batch [] rec rest hbatch hrec with ⟨p, hp, -⟩
    simp at hp

theorem served_snoc (c : Call) (tr : List (Sched × SchedAct)) (s : Sched) (act : SchedAct) :
    served c (tr ++ [(s, act)]) =
      served c tr + if (s.marked act).any (Row.ofCall c) then 1 else 0 := by
  simp [served, List.countP_append, List.countP_cons]

/-- What a stretch keeps: `b` was not served, or once and is behind. -/
structure Overtaken (a b : Call) (tr : List (Sched × SchedAct)) (s : Sched) : Prop where
  sound : s.Sound
  once : served b tr = 0 ∨ served b tr = 1 ∧ Behind a b s

theorem Overtaken.step {tr : List (Sched × SchedAct)} (hab : a ≠ b) (h : Overtaken a b tr s)
    (hwaits : Waits a s act) (hfresh : s.readmits act = false) :
    Overtaken a b (tr ++ [(s, act)]) (s.step act) := by
  refine ⟨h.sound.step hfresh, ?_⟩
  rw [served_snoc]
  cases hmine : (s.marked act).any (Row.ofCall b) with
  | true =>
    rcases hmarked : s.marked act with _ | r
    · simp [hmarked] at hmine
    have hb : r.ofCall b = true := by simpa [hmarked] using hmine
    rcases h.once with hzero | ⟨hone, hbehind⟩
    · right
      exact ⟨by simp [hzero], behind_of_served hab h.sound hmarked hb⟩
    · rw [hbehind.not_served h.sound hmarked] at hb
      cases hb
  | false =>
    have hother : ∀ r, s.marked act = some r → r.ofCall b = false := by
      intro r hr
      simpa [hr] using hmine
    rcases h.once with hzero | ⟨hone, hbehind⟩
    · exact Or.inl (by simp [hzero])
    · exact Or.inr ⟨by simp [hone], hbehind.step h.sound hwaits hother⟩

end Overtaking

/-- What a run starts from: an empty database, or that of an older file that `open` has
just given its scheduler. -/
inductive Start : Db → Prop where
  | empty : Start .empty
  | upgraded {f : DbFile} {db : Db} (hnew : ∀ t, f.scheduler ≠ some (some t))
      (h : (openFile noFilePlan).run f = .ok () (.ofDb db)) : Start db

theorem Start.dominated {db : Db} (h : Start db)
    (hserved : db.callStreams.rows = [] ∨ ∃ s ∈ db.callStreams, 0 ≤ s.lastServedMs) :
    Dominated db := by
  cases h with
  | empty =>
    refine ⟨le_refl (0 : Int), fun c => ?_⟩
    exact le_refl (0 : Int)
  | @upgraded f _ hnew h =>
    have hacc := accepted_of_openFile h
    rw [openFile_accepts hacc, EStateM.Result.ok.injEq] at h
    have hopened := opened_of_accepted hacc.unique
    have hturn : f.maxServed = db.turn := by
      have hsched := congrArg DbFile.scheduler h.2
      have hseed : (f.scheduler.getD none).getD f.maxServed = f.maxServed := by
        rcases hs : f.scheduler with _ | _ | t
        · rfl
        · rfl
        · exact absurd hs (hnew t)
      rw [← hseed]
      exact Option.some.inj (Option.some.inj hsched)
    rw [h.2] at hopened
    have hstreams : f.streams = db.callStreams.rows.map Stream.toFile := hopened.streams.symm
    have hmax : ∀ s ∈ db.callStreams, s.lastServedMs ≤ db.turn := by
      intro s hs
      have hmem : s.toFile ∈ f.streams := by
        rw [hstreams]
        exact List.mem_map_of_mem hs
      rw [← hturn]
      exact f.le_maxServed hmem
    have hnonneg : 0 ≤ db.turn := by
      rcases hserved with hnil | ⟨s, hs, hpos⟩
      · have hzero : f.maxServed = 0 := by
          rw [DbFile.maxServed, hstreams, hnil]
          rfl
        omega
      · exact hpos.trans (hmax s hs)
    refine ⟨hnonneg, fun c => ?_⟩
    unfold Db.lastServed
    cases hf : db.callStreams.find? c with
    | none => exact hnonneg
    | some s => exact hmax s (Table.find?_eq_some.mp hf).1

/-- While the head of call `a` waits and is due at every fetch, every other call is marked
in flight at most once. The run starts where some call was served at a turn that is not
negative, if there are calls at all. From `late` on, which begins with a fetch if a batch is
in hand there, no event is admitted under an id of the batch in hand. -/
theorem bounded_overtaking (db : Db) (isOpen : Bool) (hstart : Start db)
    (hserved : db.callStreams.rows = [] ∨ ∃ s ∈ db.callStreams, 0 ≤ s.lastServedMs)
    (before late stretch : List SchedAct) (a b : Call) (hab : a ≠ b)
    (hlate : (Machine.run Sched.step ⟨⟨db, isOpen⟩, []⟩ before).batch = [] ∨
      late.head?.any SchedAct.isFetch = true)
    (hfresh : ∀ x ∈ Machine.trace Sched.step
      (Machine.run Sched.step ⟨⟨db, isOpen⟩, []⟩ before) (late ++ stretch),
      x.1.readmits x.2 = false)
    (hwaits : ∀ x ∈ Machine.trace Sched.step
      (Machine.run Sched.step ⟨⟨db, isOpen⟩, []⟩ (before ++ late)) stretch, Waits a x.1 x.2) :
    served b (Machine.trace Sched.step
      (Machine.run Sched.step ⟨⟨db, isOpen⟩, []⟩ (before ++ late)) stretch) ≤ 1 := by
  have hturn : Dominated (Machine.run Sched.step ⟨⟨db, isOpen⟩, []⟩ before).outbox.db :=
    Machine.run_invariant (I := fun s : Sched => Dominated s.outbox.db) (hstart.dominated hserved)
      (fun _ act h => Sched.dominated_step h act) before
  rw [Machine.run_append] at hwaits ⊢
  rw [Machine.trace_append] at hfresh
  have hsound := Sched.sound_late hturn hlate fun x hx => hfresh x (List.mem_append_left _ hx)
  have hover := Machine.trace_invariant (J := fun tr s => Overtaken a b tr s)
    (P := fun s act => Waits a s act ∧ s.readmits act = false) ⟨hsound, Or.inl rfl⟩
    (fun _ _ _ hP h => h.step hab hP.1 hP.2) stretch
    fun x hx => ⟨hwaits x hx, hfresh x (List.mem_append_right _ hx)⟩
  rcases hover.once with hzero | ⟨hone, -⟩
  · omega
  · omega

/-- Serve what is due first, acknowledge `b0`, and serve what is due first then. -/
def twoRounds : List SchedAct :=
  [.fetch 1000 1 noFault, .mark 1000 noFault, .call (.markAcked "b0" 1000 noFault),
    .fetch 1000 1 noFault, .mark 1000 noFault]

/-- The record of an event created at `created`. -/
def recordAt (id uuid : String) (created : Int) : OutboxRecord :=
  { sampleRecord id uuid with createdAtMs := created }

/-- Two events of call `b` and one of call `a`. -/
def twoCalls : List SchedAct :=
  [.call (.openDb noFault),
    .call (.insertPending ⟨10, 100⟩ (recordAt "b0" "b" 1) 1 noFault),
    .call (.insertPending ⟨10, 100⟩ (recordAt "b1" "b" 2) 2 noFault),
    .call (.insertPending ⟨10, 100⟩ (recordAt "a0" "a" 3) 3 noFault)]

/-- Call `b` is older and is served first, while `a` waits. The next mark is that of `a`,
with which the stretch ends. -/
theorem bounded_overtaking_once :
    served ("events", "b") (Machine.trace Sched.step
      (Machine.run Sched.step ⟨⟨.empty, false⟩, []⟩ twoCalls) (twoRounds.take 4)) = 1 ∧
    served ("events", "b") (Machine.trace Sched.step
      (Machine.run Sched.step ⟨⟨.empty, false⟩, []⟩ twoCalls) (twoRounds.take 4)) ≤ 1 :=
  ⟨by decide +kernel,
    bounded_overtaking .empty false .empty (Or.inl rfl) twoCalls [] (twoRounds.take 4)
      ("events", "a") ("events", "b") (by decide) (Or.inl (by decide +kernel)) (by decide +kernel)
      (by decide +kernel)⟩

/-- A row of call `b` in a file of an older version. -/
def oldRow (id : String) (seq : Int) : Row where
  eventId := id
  topic := "events"
  msgKey := some "key"
  payload := []
  createdAtMs := 1000
  callUuid := some "b"
  callSeq := some seq
  state := .pending
  attempts := 0
  nextAttemptAtMs := 1000
  lastError := some ""
  updatedAtMs := 1000
  eligibleAtMs := if seq = 0 then some 1000 else none

/-- A database of an older version: call `b` was last served at a negative time. -/
def oldDb : Db where
  outbox := ⟨[oldRow "b0" 0, oldRow "b1" 1], by decide, by decide⟩
  callStreams := ⟨[⟨⟨"events", "b", "key", .admission⟩, ⟨0, 2, -10⟩⟩], by decide, by decide⟩
  retiredCalls := .empty
  turn := -10

theorem start_oldDb : Start oldDb :=
  .upgraded (f := { DbFile.ofDb oldDb with scheduler := none }) (by simp) rfl

/-- One event of call `a`. -/
def admitA : List SchedAct :=
  [.call (.insertPending ⟨10, 100⟩ (sampleRecord "a0" "a") 1000 noFault)]

/-- Events of call `b`, of no call and of call `a`, admitted in that order. -/
def threeEvents : List SchedAct :=
  [.call (.openDb noFault),
    .call (.insertPending ⟨3, 100⟩ (recordAt "b0" "b" 1) 1 noFault),
    .call (.insertPending ⟨3, 100⟩ (recordAt "x" "" 2) 2 noFault),
    .call (.insertPending ⟨3, 100⟩ (recordAt "a0" "a" 500) 500 noFault)]

/-- The batch holds all three. Before `x` is marked it expires, an event takes the place of
`b0`, `x` is reclaimed for an event of call `b`, and that event takes its id. -/
def staleRound : List SchedAct :=
  [.fetch 550 3 noFault, .mark 550 noFault, .call (.markAcked "b0" 550 noFault),
    .call (.expireTtl 600 200 noFault),
    .call (.insertPending ⟨3, 100⟩ (recordAt "y" "" 600) 600 noFault),
    .call (.insertPending ⟨3, 100⟩ (recordAt "x" "b" 600) 600 noFault), .mark 600 noFault]

/-- A call can be marked twice: where an older file only has negative turns, as a new call
starts at turn 0, above the counter; and where an admission takes the id of an event of the
batch in hand, as the mark is by id. -/
theorem overtaken_twice :
    (¬ ∀ (db : Db) (isOpen : Bool), Start db →
      ∀ (before stretch : List SchedAct) (a b : Call), a ≠ b →
      (∀ x ∈ Machine.trace Sched.step ⟨⟨db, isOpen⟩, []⟩ (before ++ stretch),
        x.1.readmits x.2 = false) →
      (∀ x ∈ Machine.trace Sched.step
        (Machine.run Sched.step ⟨⟨db, isOpen⟩, []⟩ before) stretch, Waits a x.1 x.2) →
      served b (Machine.trace Sched.step
        (Machine.run Sched.step ⟨⟨db, isOpen⟩, []⟩ before) stretch) ≤ 1) ∧
    (¬ ∀ (db : Db) (isOpen : Bool), Start db →
      (db.callStreams.rows = [] ∨ ∃ s ∈ db.callStreams, 0 ≤ s.lastServedMs) →
      ∀ (before stretch : List SchedAct) (a b : Call), a ≠ b →
      (∀ x ∈ Machine.trace Sched.step
        (Machine.run Sched.step ⟨⟨db, isOpen⟩, []⟩ before) stretch, Waits a x.1 x.2) →
      served b (Machine.trace Sched.step
        (Machine.run Sched.step ⟨⟨db, isOpen⟩, []⟩ before) stretch) ≤ 1) := by
  constructor
  · intro h
    have hle := h oldDb true start_oldDb admitA twoRounds ("events", "a") ("events", "b")
      (by decide) (by decide +kernel) (by decide +kernel)
    have htwo : served ("events", "b") (Machine.trace Sched.step
        (Machine.run Sched.step ⟨⟨oldDb, true⟩, []⟩ admitA) twoRounds) = 2 := by
      decide +kernel
    omega
  · intro h
    have hle := h .empty false .empty (Or.inl rfl) threeEvents staleRound
      ("events", "a") ("events", "b") (by decide) (by decide +kernel)
    have htwo : served ("events", "b") (Machine.trace Sched.step
        (Machine.run Sched.step ⟨⟨.empty, false⟩, []⟩ threeEvents) staleRound) = 2 := by
      decide +kernel
    omega

/-! ## The worker of the pipeline -/

/-- What is `Sched` of a pipeline. -/
def Pipeline.sched (s : Pipeline) : Sched := ⟨s.outbox, s.worker.rest⟩

/-- Calls other than `mark_in_flight` leave the batch alone. -/
theorem Sched.run_calls (s : Sched) (ops : List Op)
    (hops : ∀ op ∈ ops, ∀ id now fault, op ≠ .markInFlight id now fault) :
    Machine.run Sched.step s (ops.map .call) = ⟨Machine.run Outbox.step s.outbox ops, s.batch⟩ := by
  induction ops generalizing s with
  | nil => rfl
  | cons op ops ih =>
    have hhead : s.step (.call op) = ⟨s.outbox.step op, s.batch⟩ := by
      cases op with
      | markInFlight id now fault => exact absurd rfl (hops _ (by simp) id now fault)
      | _ => rfl
    rw [List.map_cons, Machine.run_cons, hhead, ih _ fun op' h => hops op' (by simp [h])]
    rfl

/-- A step that does not mark and keeps the batch, or gives it up. -/
theorem sched_of_calls {kafka : Kafka} {s : Pipeline} {act : Act}
    (hops : ∀ op ∈ s.calls act, ∀ id now fault, op ≠ .markInFlight id now fault)
    (hrest : (s.step kafka act).worker.rest = s.worker.rest ∨
      (s.step kafka act).worker.rest = []) :
    ∃ acts, (s.step kafka act).sched = Machine.run Sched.step s.sched acts := by
  have hrun := s.sched.run_calls (s.calls act) hops
  have hbox := step_outbox kafka s act
  rcases hrest with hkeep | hnil
  · refine ⟨(s.calls act).map SchedAct.call, ?_⟩
    rw [hrun, Pipeline.sched, hbox, hkeep]
    rfl
  · refine ⟨(s.calls act).map SchedAct.call ++ [SchedAct.drop], ?_⟩
    rw [Machine.run_snoc, hrun, Pipeline.sched, hbox, hnil]
    rfl

/-- What the worker does in one step. -/
theorem work_sched (kafka : Kafka) (s : Pipeline) (env : Env) :
    ∃ acts, (s.work kafka env).sched = Machine.run Sched.step s.sched acts := by
  -- each case is at most one action of the scheduler
  have hone : ∀ act, (s.work kafka env).sched = s.sched.step act →
      ∃ acts, (s.work kafka env).sched = Machine.run Sched.step s.sched acts :=
    fun act h => ⟨[act], h⟩
  have hsched : ∀ {t : Pipeline}, Same t (s.work kafka env) → (s.work kafka env).sched = t.sched :=
    by
    intro t h
    rw [Pipeline.sched, Pipeline.sched, h.outbox, h.worker]
  cases work_cases kafka s env with
  | stays h => exact ⟨[], by rw [h]; rfl⟩
  -- a move between batches forgets the batch read before
  | moved _ hfree _ _ _ h =>
    refine hone .drop ?_
    rw [hsched h, Pipeline.sched, hfree.1]
    rfl
  | rebuilt hw hexec h =>
    refine hone (.call (.requeueInFlight (env.clock 0) (env.clock 1) env.fault)) ?_
    rw [hsched h]
    simp [Pipeline.sched, hw, Worker.rest, Sched.step, Outbox.step, hexec]
  | stranded hw hexec h =>
    refine hone (.call (.requeueInFlight (env.clock 0) (env.clock 1) env.fault)) ?_
    rw [hsched h]
    simp [Pipeline.sched, hw, Worker.rest, Sched.step, Outbox.step, hexec]
  | expired hw hexec h =>
    refine hone (.call (.expireTtl (env.clock 0) s.cfg.outboxTtlMs env.fault)) ?_
    rw [hsched h]
    simp [Pipeline.sched, hw, Worker.rest, Sched.step, Outbox.step, hexec]
  | @fetched now due hw hfetch h =>
    refine hone (.fetch now 32 env.fault) ?_
    rw [hsched h]
    simp [Pipeline.sched, hw, Worker.rest, Sched.step, hfetch]
  | claimed hw hexec h =>
    refine hone (.mark (env.clock 0) env.fault) ?_
    rw [hsched h]
    simp [Pipeline.sched, hw, Worker.rest, Sched.step, hexec]
  -- handing a record over changes neither the table nor what is left of the batch
  | produced hw _ h =>
    exact ⟨[], by rw [hsched h]; simp [Pipeline.sched, hw, Worker.rest]⟩
  | refused hw h =>
    exact ⟨[], by rw [hsched h]; simp [Pipeline.sched, hw, Worker.rest]⟩
  | judged hw h =>
    exact ⟨[], by rw [hsched h]; simp [Pipeline.sched, hw, Worker.rest]⟩
  | @settled id why verdict rest n b hw hexec h =>
    refine hone (.call (verdict.op id why env)) ?_
    rw [hsched h]
    have hcall : ∀ t : Sched, t.step (.call (verdict.op id why env)) =
        ⟨t.outbox.step (verdict.op id why env), t.batch⟩ := by
      intro t
      cases verdict <;> rfl
    rw [hcall]
    simp [Pipeline.sched, hw, Worker.rest, Outbox.step, hexec]

/-- Every step of the pipeline is a run of `Sched`. -/
theorem step_sched (kafka : Kafka) (s : Pipeline) (act : Act) :
    ∃ acts, (s.step kafka act).sched = Machine.run Sched.step s.sched acts := by
  -- only the worker marks
  have hops : (∀ env, act ≠ .work env) →
      ∀ op ∈ s.calls act, ∀ id now fault, op ≠ .markInFlight id now fault := by
    intro hact op hop id now fault hmark
    have hissue := calls_issues hop
    generalize hissued : op = issued at hissue
    rw [hmark] at hissued
    cases hissue with
    | mark _ => exact hact _ rfl
    | settle _ => exact hact _ rfl
    | @settled _ _ _ verdict _ => cases verdict <;> cases hissued
    | _ => cases hissued
  cases act with
  | work env =>
    simp only [Pipeline.step]
    split
    · exact work_sched kafka s env
    · exact ⟨[], rfl⟩
  | start env =>
    refine sched_of_calls (hops (by simp)) ?_
    simp only [Pipeline.step]
    cases start_cases s env with
    | refused _ h => exact Or.inl (by rw [h])
    | failed _ _ _ h => exact Or.inl (by rw [h])
    | started _ _ _ _ _ h => exact Or.inr (by rw [h]; rfl)
  | callback env =>
    refine sched_of_calls (hops (by simp)) ?_
    rcases (callback_cases kafka s env).worker_eq with ⟨hw, -⟩ | hcrash
    · exact Or.inl (by rw [hw])
    · exact Or.inr (by rw [hcrash]; rfl)
  | requestRebuild => exact ⟨[], rfl⟩
  | _ =>
    refine sched_of_calls (hops (by simp)) ?_
    simp only [Pipeline.step, Pipeline.create, Pipeline.enqueue, Pipeline.stop, Pipeline.joined,
      Pipeline.crash, Pipeline.report, Pipeline.enter, Pipeline.append, Pipeline.retryDead]
    repeat' split
    all_goals first | exact Or.inl rfl | exact Or.inr rfl

/-- The runs of the pipeline are runs of `Sched`, so what holds of every run of `Sched` from
the empty outbox holds of what the pipeline does with its batches. -/
theorem run_sched (kafka : Kafka) (cfg : Config) (acts : List Act) :
    ∃ sacts, (Machine.run (Pipeline.step kafka) (Pipeline.init cfg) acts).sched =
      Machine.run Sched.step ⟨Outbox.init, []⟩ sacts := by
  refine Machine.run_invariant
    (I := fun s : Pipeline => ∃ sacts, s.sched = Machine.run Sched.step ⟨Outbox.init, []⟩ sacts)
    ⟨[], rfl⟩ ?_ acts
  rintro s act ⟨sacts, hs⟩
  rcases step_sched kafka s act with ⟨more, hmore⟩
  exact ⟨sacts ++ more, by rw [hmore, hs, Machine.run_append]⟩

end EventKafka
