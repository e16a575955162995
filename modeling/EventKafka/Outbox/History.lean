import EventKafka.Outbox.Atomicity
import EventKafka.Outbox.Invariant

/-! # The history of a call

Rows are deleted when they are acknowledged, so what a call went through is not in
the tables: it is in the history of the life. This module reads off a history the
sequences a call was given, the ordinals it was assigned and the sequences it had
acknowledged, and ties them to the cursors and the fence of the call. A stream's
`next_seq` counts its acknowledgements and the `admit_seq` of an admission stream
its admissions, also through retirement and while the call has no row at all.
-/

namespace EventKafka

open Sql

/-- The history of a life: the outbox each step met, and the step. -/
abbrev History := List (Outbox × LifeOp)

/-- The record a step admitted, with the sequence it was assigned. -/
def admittedBy (x : Outbox × LifeOp) : Option (OutboxRecord × Int) :=
  match x.2 with
  | .call op => x.1.admission op
  | .retire _ _ _ => none

/-- The row a step acknowledged. -/
def ackedBy (x : Outbox × LifeOp) : Option Row :=
  match x.2 with
  | .call op => x.1.ack op
  | .retire _ _ _ => none

/-- The sequences of the successful `insert_pending` calls for `c`, in order. -/
def admissionsOf (c : Call) (tr : History) : List Int :=
  tr.filterMap fun x => (admittedBy x).bind fun a => if a.1.call = c then some a.2 else none

/-- Those of the calls that left the sequence to the outbox. -/
def ordinalsOf (c : Call) (tr : History) : List Int :=
  tr.filterMap fun x => (admittedBy x).bind fun a =>
    if a.1.call = c ∧ a.1.callSeq.toInt < 0 then some a.2 else none

/-- The sequences of the successful `mark_acked` calls for rows of `c`, in order. -/
def acksOf (c : Call) (tr : History) : List Int :=
  tr.filterMap fun x => (ackedBy x).bind fun r =>
    if r.call = c then some (r.callSeq.getD 0) else none

theorem admissionsOf_snoc (c : Call) (tr : History) (x : Outbox × LifeOp) :
    admissionsOf c (tr ++ [x]) = admissionsOf c tr ++ admissionsOf c [x] := List.filterMap_append

theorem ordinalsOf_snoc (c : Call) (tr : History) (x : Outbox × LifeOp) :
    ordinalsOf c (tr ++ [x]) = ordinalsOf c tr ++ ordinalsOf c [x] := List.filterMap_append

theorem acksOf_snoc (c : Call) (tr : History) (x : Outbox × LifeOp) :
    acksOf c (tr ++ [x]) = acksOf c tr ++ acksOf c [x] := List.filterMap_append

/-- The list is `0, 1, 2, ...`. -/
def Counts (l : List Int) : Prop := l = (List.range l.length).map Int.ofNat

theorem Counts.snoc {l : List Int} (h : Counts l) : Counts (l ++ [(l.length : Int)]) := by
  unfold Counts at h ⊢
  rw [List.length_append, List.length_singleton, List.range_succ, List.map_append, ← h]
  rfl

/-- What ties the history of call `c` to the tables. -/
structure Tracks (c : Call) (tr : History) (db : Db) : Prop where
  inv : StoreInv db
  nodup : (admissionsOf c tr).Nodup
  settled : ∀ k ∈ admissionsOf c tr, k < (acksOf c tr).length ∨
    ∃ r ∈ db.outbox, r.grouped = true ∧ r.call = c ∧ r.callSeq = some k
  acks : Counts (acksOf c tr)
  next : ∀ s ∈ db.callStreams, s.call = c → s.nextSeq = (acksOf c tr).length
  fence : ∀ f ∈ db.retiredCalls, f.call = c → f.nextSeq = (acksOf c tr).length
  ordinals : Counts (ordinalsOf c tr)
  admitCount : ∀ s ∈ db.callStreams, s.call = c → s.mode = .admission →
    s.admitSeq = (ordinalsOf c tr).length
  fresh : (∀ s ∈ db.callStreams, s.call ≠ c) → (∀ f ∈ db.retiredCalls, f.call ≠ c) →
    admissionsOf c tr = [] ∧ ordinalsOf c tr = [] ∧ acksOf c tr = []

theorem Tracks.nil (c : Call) : Tracks c [] .empty where
  inv := StoreInv.empty
  nodup := List.nodup_nil
  settled := fun _ hk => absurd hk List.not_mem_nil
  acks := rfl
  next := fun s hs => absurd hs (Table.notMem_empty s)
  fence := fun f hf => absurd hf (Table.notMem_empty f)
  ordinals := rfl
  admitCount := fun s hs => absurd hs (Table.notMem_empty s)
  fresh := fun _ _ => ⟨rfl, rfl, rfl⟩

/-! ## Steps of other calls -/

/-- What a step that neither admits nor acknowledges for `c` may do to the
tables: rows of `c` stay, its cursor stays, or becomes the fence. -/
structure Spares (c : Call) (db db' : Db) : Prop where
  rows : ∀ r ∈ db.outbox, r.grouped = true → r.call = c →
    ∃ r' ∈ db'.outbox, r'.toEvent = r.toEvent
  streams : ∀ s' ∈ db'.callStreams, s'.call = c → ∃ s ∈ db.callStreams, StreamStep s s'
  fences : ∀ f' ∈ db'.retiredCalls, f'.call = c → f' ∈ db.retiredCalls ∨
    ∃ s ∈ db.callStreams, s.call = c ∧ f'.nextSeq = s.nextSeq
  taken : ∀ s ∈ db.callStreams, s.call = c →
    (∃ s' ∈ db'.callStreams, s'.call = c) ∨ ∃ f ∈ db'.retiredCalls, f.call = c
  fenced : ∀ f ∈ db.retiredCalls, f ∈ db'.retiredCalls

theorem Tracks.spare {c : Call} {tr : History} {db db' : Db} {x : Outbox × LifeOp}
    (h : Tracks c tr db) (hinv : StoreInv db') (hspare : Spares c db db')
    (hadm : admissionsOf c [x] = []) (hord : ordinalsOf c [x] = []) (hack : acksOf c [x] = []) :
    Tracks c (tr ++ [x]) db' := by
  have hadm' : admissionsOf c (tr ++ [x]) = admissionsOf c tr := by
    rw [admissionsOf_snoc, hadm, List.append_nil]
  have hord' : ordinalsOf c (tr ++ [x]) = ordinalsOf c tr := by
    rw [ordinalsOf_snoc, hord, List.append_nil]
  have hack' : acksOf c (tr ++ [x]) = acksOf c tr := by
    rw [acksOf_snoc, hack, List.append_nil]
  constructor
  case inv => exact hinv
  case nodup => rw [hadm']; exact h.nodup
  case settled =>
    intro k hk
    rw [hadm'] at hk
    rw [hack']
    rcases h.settled k hk with hlt | ⟨r, hr, hg, hcall, hseq⟩
    · exact Or.inl hlt
    · rcases hspare.rows r hr hg hcall with ⟨r', hr', hevent⟩
      exact Or.inr ⟨r', hr', by rw [hevent]; exact hg, by rw [hevent]; exact hcall,
        by rw [hevent]; exact hseq⟩
  case acks => rw [hack']; exact h.acks
  case next =>
    intro s' hs' hcall
    rcases hspare.streams s' hs' hcall with ⟨s, hs, hst⟩
    rw [hack', hst.next]
    exact h.next s hs (by rw [← hst.owner]; exact hcall)
  case fence =>
    intro f hf hcall
    rw [hack']
    rcases hspare.fences f hf hcall with hold | ⟨s, hs, hs_call, hnext⟩
    · exact h.fence f hold hcall
    · rw [hnext]
      exact h.next s hs hs_call
  case ordinals => rw [hord']; exact h.ordinals
  case admitCount =>
    intro s' hs' hcall hmode
    rcases hspare.streams s' hs' hcall with ⟨s, hs, hst⟩
    rw [hord', hst.admitSeq]
    exact h.admitCount s hs (by rw [← hst.owner]; exact hcall) (by rw [← hst.owner]; exact hmode)
  case fresh =>
    -- a call that is free afterwards was free before
    intro hno hnof
    rw [hadm', hord', hack']
    apply h.fresh
    · intro s hs hcall
      rcases hspare.taken s hs hcall with ⟨s', hs', hcall'⟩ | ⟨f, hf, hcall'⟩
      · exact hno s' hs' hcall'
      · exact hnof f hf hcall'
    · intro f hf
      exact hnof f (hspare.fenced f hf)

theorem Spares.refl (c : Call) (db : Db) : Spares c db db where
  rows := fun r hr _ _ => ⟨r, hr, rfl⟩
  streams := fun s hs _ => ⟨s, hs, StreamStep.refl s⟩
  fences := fun _ hf _ => Or.inl hf
  taken := fun s hs hcall => Or.inl ⟨s, hs, hcall⟩
  fenced := fun _ hf => hf

theorem Quiet.spares {db db' : Db} (h : Quiet db db') (c : Call) : Spares c db db' where
  rows := by
    intro r hr _ _
    rcases h.rows.forward hr with ⟨r', hr', hst⟩
    exact ⟨r', hr', hst.event⟩
  streams := fun _ hs' _ => h.streams.backward hs'
  fences := fun _ hf _ => Or.inl (h.retired ▸ hf)
  taken := by
    intro s hs hcall
    rcases h.streams.forward hs with ⟨s', hs', hst⟩
    exact Or.inl ⟨s', hs', by rw [hst.owner]; exact hcall⟩
  fenced := fun _ hf => h.retired ▸ hf

theorem Retirement.spares {args : RetireArgs} {atMs : Int} {db db' : Db} {s₀ : Stream}
    (h : Retirement args atMs db db' s₀) (c : Call) : Spares c db db' where
  rows := fun r hr _ _ => ⟨r, h.outbox ▸ hr, rfl⟩
  streams := by
    intro s' hs' _
    rw [h.streams, Table.mem_delete] at hs'
    exact ⟨s', hs'.1, StreamStep.refl s'⟩
  fences := by
    intro f hf hcall
    rcases (Table.mem_insert h.fences).mp hf with hold | rfl
    · exact Or.inl hold
    · exact Or.inr ⟨s₀, h.stream, h.call.trans hcall, rfl⟩
  taken := by
    intro s hs hcall
    by_cases hmine : s.call = args.call
    · exact Or.inr ⟨_, (Table.mem_insert h.fences).mpr (Or.inr rfl), hmine.symm.trans hcall⟩
    · refine Or.inl ⟨s, ?_, hcall⟩
      rw [h.streams, Table.mem_delete, decide_eq_false_iff_not]
      exact ⟨hs, hmine⟩
  fenced := fun _ hf => (Table.mem_insert h.fences).mpr (Or.inl hf)

theorem Admission.spares {lim : Limits} {rec : OutboxRecord} {now seq : Int} {dn : Bool}
    {db db' : Db} {base : OutboxTable} (h : Admission lim rec now db db' seq dn base)
    (hinv : StoreInv db) {c : Call} (hc : rec.call ≠ c) : Spares c db db' where
  rows := by
    intro r hr hg _
    exact ⟨r, h.mem_outbox.mpr (Or.inl (h.room.mem_of_grouped hr hg)), rfl⟩
  streams := by
    intro s' hs' hcall
    rcases h.stream_backward hinv hs' with ⟨hs, -⟩ | ⟨tbl, s, -, -, -, -, hclaim, rfl⟩
    · exact ⟨s', hs, StreamStep.refl s'⟩
    · exact absurd (hclaim.call_eq.symm.trans hcall) hc
  fences := fun _ hf _ => Or.inl (h.fences ▸ hf)
  taken := by
    intro s hs hcall
    rcases h.stream_forward hs with ⟨s', hs', howner, -, -⟩
    exact Or.inl ⟨s', hs', by rw [howner]; exact hcall⟩
  fenced := fun _ hf => h.fences ▸ hf

theorem acked_spares {db : Db} {r : Row} {now : Int} (hr : r ∈ db.outbox) {c : Call}
    (hc : r.call ≠ c) : Spares c db (db.acked r now) where
  rows := by
    intro q hq _ hcall
    refine ⟨r.afterAck now q, Db.mem_acked_outbox.mpr ⟨q, hq, ?_, rfl⟩, by simp⟩
    intro hid
    rw [Table.eq_of_key hq hr hid] at hcall
    exact hc hcall
  streams := by
    intro s' hs' hcall
    rcases Db.mem_acked_callStreams.mp hs' with ⟨s, hs, rfl⟩
    rw [Stream.afterAck_toOwnership] at hcall
    have hother : ¬ (r.grouped = true ∧ s.call = r.call) :=
      fun h => hc (h.2.symm.trans hcall)
    rw [Stream.afterAck_of_ne hother]
    exact ⟨s, hs, StreamStep.refl s⟩
  fences := fun _ hf _ => Or.inl (by simpa using hf)
  taken := by
    intro s hs hcall
    exact Or.inl ⟨_, Db.mem_acked_callStreams.mpr ⟨s, hs, rfl⟩, by simpa using hcall⟩
  fenced := fun _ hf => by simpa using hf

/-! ## Steps of the call -/

section Own

variable {lim : Limits} {rec : OutboxRecord} {now seq : Int} {dn : Bool} {db db' : Db}
  {base : OutboxTable} {c : Call} {tr : History}

/-- The stream an admission claims carries the counts of the history, also when it
is new: a call without stream and fence has no history. -/
theorem Tracks.claim (h : Tracks c tr db) {tbl : StreamTable} {s : Stream}
    (hclaim : Claim lim rec db.callStreams tbl s seq dn) (hcall : rec.call = c)
    (hunf : ∀ f ∈ db.retiredCalls, f.call ≠ rec.call) :
    s.nextSeq = (acksOf c tr).length ∧
      (s.mode = .admission → s.admitSeq = (ordinalsOf c tr).length) := by
  rcases hclaim.found with ⟨hs, -⟩ | ⟨hno, rfl, -, -⟩
  · have hsc : s.call = c := hclaim.call_eq.trans hcall
    exact ⟨h.next s hs hsc, h.admitCount s hs hsc⟩
  · subst hcall
    rcases h.fresh hno hunf with ⟨-, hord, hack⟩
    rw [hord, hack]
    exact ⟨rfl, fun _ => rfl⟩

/-- The claimed sequence is new: it is not acknowledged and its position is free. -/
theorem Tracks.claim_notMem (h : Tracks c tr db)
    (hadm : Admission lim rec now db db' seq dn base) (hcall : rec.call = c)
    (huuid : rec.callUuid ≠ "") {tbl : StreamTable} {s : Stream}
    (hclaim : Claim lim rec db.callStreams tbl s seq dn) : seq ∉ admissionsOf c tr := by
  intro hmem
  have hnext := (h.claim hclaim hcall (hadm.unfenced huuid)).1
  have hle := hclaim.next_le (hclaim.bounded h.inv.bounded)
  rcases h.settled seq hmem with hlt | ⟨r, hr, hg, hrc, hseq⟩
  · -- acknowledged: the cursor test refuses it
    omega
  · -- still stored: the unique index refuses it
    have hnew : (newRow rec now seq dn).seqIndex = some (rec.topic, rec.callUuid, seq) :=
      Event.seqIndex_eq.mpr ⟨rfl, rfl, by simp [newRow, huuid]⟩
    refine Table.index_ne_of_insert hadm.row (hadm.room.mem_of_grouped hr hg) hnew ?_
    rcases Event.grouped_iff.mp hg with ⟨d, hd, -⟩
    have hpair : (r.topic, d) = (rec.topic, rec.callUuid) := by
      have := hrc.trans hcall.symm
      simpa [Event.call, Event.uuid, hd, OutboxRecord.call] using this
    rw [Prod.mk.injEq] at hpair
    exact Event.seqIndex_eq.mpr ⟨hpair.1, hpair.2 ▸ hd, hseq⟩

theorem Tracks.admitted (h : Tracks c tr db) (hadm : Admission lim rec now db db' seq dn base)
    (hcall : rec.call = c) (huuid : rec.callUuid ≠ "") {x : Outbox × LifeOp}
    (hx : admittedBy x = some (rec, seq)) (hxa : ackedBy x = none) :
    Tracks c (tr ++ [x]) db' := by
  have hadm' : admissionsOf c (tr ++ [x]) = admissionsOf c tr ++ [seq] := by
    rw [admissionsOf_snoc]
    simp [admissionsOf, hx, hcall]
  have hack' : acksOf c (tr ++ [x]) = acksOf c tr := by
    rw [acksOf_snoc]
    simp [acksOf, hxa]
  obtain ⟨tbl, s, -, hpos, hmax, hclaim, heq⟩ :
      ∃ tbl s, rec.callUuid ≠ "" ∧ 0 ≤ seq ∧ seq ≠ int64Max ∧
        Claim lim rec db.callStreams tbl s seq dn ∧ db'.callStreams = claimSeq tbl rec seq := by
    rcases hadm.streams.inv with ⟨hempty, -, -⟩ | hordered
    · exact absurd hempty huuid
    · exact hordered
  have hs := hclaim.bounded h.inv.bounded
  rcases h.claim hclaim hcall (hadm.unfenced huuid) with ⟨hnext, hadmit⟩
  -- the only stream of the call afterwards is the claimed one
  have honly : ∀ s' ∈ db'.callStreams, s'.call = c → s' = s.claimed seq := by
    intro s' hs' hs'c
    rw [heq] at hs'
    rcases hclaim.mem_claimSeq.mp hs' with hclaimed | ⟨-, hne⟩
    · exact hclaimed
    · exact absurd (hs'c.trans hcall.symm) hne
  have hmode : s.mode = modeOf rec := congrArg Ownership.mode hclaim.owner
  constructor
  case inv => exact h.inv.admitted hadm
  case nodup =>
    rw [hadm']
    refine h.nodup.append (List.nodup_singleton _) ?_
    simpa using h.claim_notMem hadm hcall huuid hclaim
  case settled =>
    intro k hk
    rw [hadm', List.mem_append, List.mem_singleton] at hk
    rw [hack']
    rcases hk with hk | rfl
    · rcases h.settled k hk with hlt | ⟨r, hr, hg, hrest⟩
      · exact Or.inl hlt
      · exact Or.inr ⟨r, hadm.mem_outbox.mpr (Or.inl (hadm.room.mem_of_grouped hr hg)), hg, hrest⟩
    · refine Or.inr ⟨newRow rec now k dn, hadm.mem_outbox.mpr (Or.inr rfl),
        newRow_grouped.mpr huuid, hcall, ?_⟩
      simp [newRow, huuid]
  case acks => rw [hack']; exact h.acks
  case next =>
    intro s' hs' hs'c
    rw [hack', honly s' hs' hs'c]
    exact hnext
  case fence =>
    -- a fenced call admits nothing
    intro f hf hfc
    rw [hadm.fences] at hf
    exact absurd (hfc.trans hcall.symm) (hadm.unfenced huuid f hf)
  case ordinals =>
    rw [ordinalsOf_snoc]
    by_cases hneg : rec.callSeq.toInt < 0
    · -- the ordinal assigned is `admit_seq`, which counts the ordinals before it
      have hseq : seq = (ordinalsOf c tr).length := by
        rw [hclaim.admission hneg]
        apply hadmit
        rw [hmode]
        simp [modeOf, hneg]
      have hone : ordinalsOf c [x] = [((ordinalsOf c tr).length : Int)] := by
        rw [← hseq]
        simp [ordinalsOf, hx, hcall, hneg]
      rw [hone]
      exact h.ordinals.snoc
    · have hnil : ordinalsOf c [x] = [] := by simp [ordinalsOf, hx, hneg]
      rw [hnil, List.append_nil]
      exact h.ordinals
  case admitCount =>
    intro s' hs' hs'c hs'm
    have hs'eq := honly s' hs' hs'c
    subst hs'eq
    have hmode' : modeOf rec = .admission := hmode.symm.trans hs'm
    have hneg : rec.callSeq.toInt < 0 := by
      by_contra hge
      simp [modeOf, hge] at hmode'
    have hseq := hclaim.admission hneg
    have hlen := hadmit (hmode.trans hmode')
    have hone : ordinalsOf c [x] = [seq] := by simp [ordinalsOf, hx, hcall, hneg]
    rw [ordinalsOf_snoc, hone, List.length_append, List.length_singleton]
    simp only [Stream.claimed, hclaim.inc64_eq hs hpos hmax]
    push_cast
    omega
  case fresh =>
    intro hno _
    refine absurd ?_ (hno (s.claimed seq) (heq ▸ hclaim.mem_claimSeq.mpr (Or.inl rfl)))
    exact hclaim.call_eq.trans hcall

theorem Tracks.acked {r : Row} (h : Tracks c tr db) (hr : r ∈ db.outbox)
    (hstate : r.state = .inFlight) (hhead : r.grouped = true →
      ∃ s ∈ db.callStreams, s.call = r.call ∧ s.nextSeq = r.callSeq.getD 0)
    (hg : r.grouped = true) (hcall : r.call = c) {x : Outbox × LifeOp}
    (hx : ackedBy x = some r) (hxa : admittedBy x = none) :
    Tracks c (tr ++ [x]) (db.acked r now) := by
  rcases hhead hg with ⟨s, hs, hsc, -⟩
  have hplace := h.inv.seq_of_acked hr hhead hs ⟨hg, hsc⟩
  have hnext := h.next s hs (hsc.trans hcall)
  have hseq : r.callSeq = some ((acksOf c tr).length : Int) := by
    rw [hplace.seq, hnext]
  have hadm' : admissionsOf c (tr ++ [x]) = admissionsOf c tr := by
    rw [admissionsOf_snoc]
    simp [admissionsOf, hxa]
  have hord' : ordinalsOf c (tr ++ [x]) = ordinalsOf c tr := by
    rw [ordinalsOf_snoc]
    simp [ordinalsOf, hxa]
  have hack' : acksOf c (tr ++ [x]) = acksOf c tr ++ [((acksOf c tr).length : Int)] := by
    rw [acksOf_snoc]
    simp [acksOf, hx, hcall, hseq]
  have hlen : ((acksOf c (tr ++ [x])).length : Int) = (acksOf c tr).length + 1 := by
    rw [hack']
    simp
  -- a stream of the call afterwards is `s`, one further
  have honly : ∀ s' ∈ (db.acked r now).callStreams, s'.call = c → s' = s.afterAck r := by
    intro s' hs' hs'c
    rcases Db.mem_acked_callStreams.mp hs' with ⟨s₀, hs₀, rfl⟩
    rw [Stream.afterAck_toOwnership] at hs'c
    have heq : s₀ = s := Table.eq_of_key hs₀ hs (hs'c.trans (hsc.trans hcall).symm)
    rw [heq]
  constructor
  case inv => exact h.inv.acked hr hstate hhead
  case nodup => rw [hadm']; exact h.nodup
  case settled =>
    intro k hk
    rw [hadm'] at hk
    rw [hlen]
    rcases h.settled k hk with hlt | ⟨q, hq, hqg, hqc, hqk⟩
    · exact Or.inl (by omega)
    · by_cases hid : q.eventId = r.eventId
      · -- the row goes, and its position is acknowledged from now on
        have hqr : q = r := Table.eq_of_key hq hr hid
        rw [hqr, hseq, Option.some.injEq] at hqk
        exact Or.inl (by omega)
      · refine Or.inr ⟨r.afterAck now q, Db.mem_acked_outbox.mpr ⟨q, hq, hid, rfl⟩, ?_⟩
        simpa using ⟨hqg, hqc, hqk⟩
  case acks => rw [hack']; exact h.acks.snoc
  case next =>
    intro s' hs' hs'c
    rw [honly s' hs' hs'c, Stream.afterAck_of_call hg hsc, hlen, hnext]
  case fence =>
    intro f hf hfc
    rw [Db.acked_retiredCalls] at hf
    exact absurd (hfc.trans (hsc.trans hcall).symm) (h.inv.fenced s hs f hf)
  case ordinals => rw [hord']; exact h.ordinals
  case admitCount =>
    intro s' hs' hs'c hmode
    have hs'eq := honly s' hs' hs'c
    subst hs'eq
    rw [hord', Stream.afterAck_admitSeq]
    rw [Stream.afterAck_toOwnership] at hmode
    exact h.admitCount s hs (hsc.trans hcall) hmode
  case fresh =>
    intro hno _
    refine absurd ?_ (hno (s.afterAck r) (Db.mem_acked_callStreams.mpr ⟨s, hs, rfl⟩))
    rw [Stream.afterAck_toOwnership]
    exact hsc.trans hcall

end Own

/-! ## Every step of a life -/

theorem Tracks.live {c : Call} (hc : c.2 ≠ "") {tr : History} {b : Outbox} (act : LifeOp)
    (h : Tracks c tr b.db) : Tracks c (tr ++ [(b, act)]) (b.live act).db := by
  have hinv := h.inv.live (b := b) act
  -- a step that admits or acknowledges is about one call, and spares the others
  cases b.lifeOutcome act with
  | refused heq =>
    rw [heq] at hinv ⊢
    exact h.spare hinv (Spares.refl c b.db) rfl rfl rfl
  | retired hret => exact h.spare hinv (hret.spares c) rfl rfl rfl
  | @call op hout =>
    cases hout with
    | quiet hadm hack hquiet =>
      refine h.spare hinv (hquiet.spares c) ?_ ?_ ?_
      · simp [admissionsOf, admittedBy, hadm]
      · simp [ordinalsOf, admittedBy, hadm]
      · simp [acksOf, ackedBy, hack]
    | @admitted lim rec now fault seq dn base hop hadm hack hadmission =>
      by_cases hmine : rec.call = c
      · have huuid := OutboxRecord.uuid_ne_of_call hmine hc
        rw [if_neg huuid] at hadm
        exact h.admitted hadmission hmine huuid hadm hack
      · refine h.spare hinv (hadmission.spares h.inv hmine) ?_ ?_ ?_
        · simp [admissionsOf, admittedBy, hadm, hmine]
        · simp [ordinalsOf, admittedBy, hadm, hmine]
        · simp [acksOf, ackedBy, hack]
    | @acked id now fault r hop hadm hack hr hid hstate hhead heq =>
      have hdb : (b.live (.call op)).db = b.db.acked r now := heq
      rw [hdb] at hinv ⊢
      by_cases hmine : r.call = c
      · exact h.acked hr hstate hhead (Event.grouped_of_call hmine hc) hmine hack hadm
      · refine h.spare hinv (acked_spares hr hmine) ?_ ?_ ?_
        · simp [admissionsOf, admittedBy, hadm]
        · simp [ordinalsOf, admittedBy, hadm]
        · simp [acksOf, ackedBy, hack, hmine]

theorem tracks_life {c : Call} (hc : c.2 ≠ "") (acts : List LifeOp) :
    Tracks c (Machine.trace Outbox.live Outbox.init acts)
      (Machine.run Outbox.live Outbox.init acts).db :=
  Machine.trace_invariant (J := fun tr b => Tracks c tr b.db) (P := fun _ _ => True)
    (Tracks.nil c) (fun _ _ act _ h => h.live hc act) acts (fun _ _ => trivial)

/-! ## Ordinals and positions -/

/-- The k-th insert for a call that left its sequence to the outbox, counted from
zero over the whole life of the database, is assigned and stores `k`; a rejected
one reports -1 and changes nothing. -/
theorem admission_ordinals (acts : List LifeOp) (lim : Limits) (rec : OutboxRecord) (now : Int)
    (fault : FaultPlan) (huuid : rec.callUuid ≠ "") (hneg : rec.callSeq.toInt < 0) :
    let b := Machine.run Outbox.live Outbox.init acts
    let op := Op.insertPending lim rec now fault
    let k : Int := (ordinalsOf rec.call (Machine.trace Outbox.live Outbox.init acts)).length
    (∀ assigned, b.reply op = .ok assigned → b.assignedSequence op = k ∧
      ∃ r ∈ (b.step op).db.outbox, r.eventId = rec.eventId ∧ r.topic = rec.topic ∧
        r.callUuid = some rec.callUuid ∧ r.callSeq = some k) ∧
    (∀ e, b.reply op = .error e → b.assignedSequence op = -1 ∧ (b.step op).db = b.db) := by
  intro b op k
  have htracks := tracks_life (c := rec.call) huuid acts
  constructor
  · intro assigned hreply
    have hsome : b.admission op = some (rec, assigned) := by
      simp [Outbox.admission, op, hreply]
    cases b.outcome op with
    | quiet hadm _ _ => simp [hadm] at hsome
    | acked hop hadm => simp [hadm] at hsome
    | @admitted lim' rec' now' fault' seq dn base hop hadm _ h =>
      obtain ⟨rfl, rfl, rfl, rfl⟩ : lim = lim' ∧ rec = rec' ∧ now = now' ∧ fault = fault' := by
        simpa [op] using hop
      rw [hadm, if_neg huuid, Option.some.injEq, Prod.mk.injEq] at hsome
      rcases h.streams.inv with ⟨hempty, -, -⟩ | ⟨tbl, s, -, -, -, hclaim, -⟩
      · exact absurd hempty huuid
      have hmode : s.mode = .admission := by
        have howner := congrArg Ownership.mode hclaim.owner
        simpa [modeOf, hneg] using howner
      have hseq : seq = k := by
        rw [hclaim.admission hneg]
        exact (htracks.claim hclaim rfl (h.unfenced huuid)).2 hmode
      constructor
      · simp only [Outbox.assignedSequence, op, hreply]
        rw [← hsome.2, hseq]
      · refine ⟨_, h.mem_outbox.mpr (Or.inr rfl), rfl, rfl, rfl, ?_⟩
        simp [newRow, huuid, hseq]
  · intro e hreply
    have hexec : b.exec op = (.error e, b.step op) := Prod.ext hreply rfl
    refine ⟨?_, Outbox.exec_error hexec⟩
    simp [Outbox.assignedSequence, op, hreply]

/-- A call of two events from its first admission to its retirement. -/
def closedCall : List LifeOp :=
  [.call (.openDb noFault),
   .call (.insertPending ⟨10, 100⟩ (sampleRecord "a" "c") 0 noFault),
   .call (.insertPending ⟨10, 100⟩ (sampleRecord "b" "c") 0 noFault),
   .call (.markInFlight "a" 1 noFault), .call (.markAcked "a" 2 noFault),
   .call (.markInFlight "b" 3 noFault), .call (.markAcked "b" 4 noFault),
   .call .close, .retire ⟨"events", "c", "closed", 10, true, true⟩ 5 noFault]

/-- The call is idle after two events, and the third is still number two. -/
theorem admission_ordinals_third :
    let b := Machine.run Outbox.live Outbox.init (closedCall.take 7)
    let op := Op.insertPending ⟨10, 100⟩ (sampleRecord "d" "c") 0 noFault
    b.db.outbox.rows = [] ∧ b.assignedSequence op = 2 := by
  intro b op
  have h := admission_ordinals (closedCall.take 7) ⟨10, 100⟩ (sampleRecord "d" "c") 0 noFault
    (by decide) (by decide)
  exact ⟨by decide, (h.1 2 (by decide)).1.trans (by decide)⟩

/-- Every position of a call is admitted at most once and acknowledged at most
once in the life of a database, the acknowledgements come in the order of the
sequence without gap, and the cursor, or the fence after it, counts them. -/
theorem positions_once (acts : List LifeOp) (c : Call) (hc : c.2 ≠ "") :
    let tr := Machine.trace Outbox.live Outbox.init acts
    let db := (Machine.run Outbox.live Outbox.init acts).db
    (∀ k, (admissionsOf c tr).count k ≤ 1) ∧
    (∀ k, (acksOf c tr).count k ≤ 1) ∧
    acksOf c tr = (List.range (acksOf c tr).length).map Int.ofNat ∧
    (∀ s ∈ db.callStreams, s.call = c → s.nextSeq = (acksOf c tr).length) ∧
    (∀ f ∈ db.retiredCalls, f.call = c → f.nextSeq = (acksOf c tr).length) := by
  intro tr db
  have h := tracks_life hc acts
  refine ⟨fun k => List.nodup_iff_count_le_one.mp h.nodup k, fun k => ?_, h.acks, h.next, h.fence⟩
  apply List.nodup_iff_count_le_one.mp
  rw [h.acks]
  exact List.nodup_range.map fun _ _ h => Int.ofNat.inj h

/-- After retirement the fence counts the two acknowledged events. -/
theorem positions_once_retired :
    let db := (Machine.run Outbox.live Outbox.init closedCall).db
    ∃ f ∈ db.retiredCalls, f.call = ("events", "c") ∧ f.nextSeq = 2 := by
  intro db
  have h := positions_once closedCall ("events", "c") (by decide)
  have hmem : (⟨"events", "c", "key", 2, 5, "closed"⟩ : RetiredCall) ∈ db.retiredCalls := by
    have hrows : db.retiredCalls.rows = [⟨"events", "c", "key", 2, 5, "closed"⟩] := by decide
    rw [Table.mem_def, hrows]
    exact List.mem_singleton_self _
  exact ⟨_, hmem, rfl, (h.2.2.2.2 _ hmem rfl).trans (by decide)⟩

end EventKafka
