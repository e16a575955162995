import EventKafka.Outbox.History

/-! # Serving a backlog

A database need not start empty. `Queued c backlog tr db` is the state of call `c` after
the history `tr`, when the events `backlog` stood in line at its start: the line is the
backlog and behind it what was admitted since, a row at position `k` is event `k` of the
line, and what has been acknowledged is the front of the line.
-/

namespace EventKafka

open Sql

/-- The events admitted for call `c`, in order. -/
def admittedIds (c : Call) (tr : History) : List String :=
  tr.filterMap fun x => (admittedBy x).bind fun a => if a.1.call = c then some a.1.eventId else none

/-- The events of call `c` acknowledged, in order. -/
def ackedIds (c : Call) (tr : History) : List String :=
  tr.filterMap fun x => (ackedBy x).bind fun r => if r.call = c then some r.eventId else none

theorem admittedIds_snoc (c : Call) (tr : History) (x : Outbox × LifeOp) :
    admittedIds c (tr ++ [x]) = admittedIds c tr ++ admittedIds c [x] := List.filterMap_append

theorem ackedIds_snoc (c : Call) (tr : History) (x : Outbox × LifeOp) :
    ackedIds c (tr ++ [x]) = ackedIds c tr ++ ackedIds c [x] := List.filterMap_append

/-- A step that admits nothing for `c`. -/
theorem admitted_skip {c : Call} (tr : History) {x : Outbox × LifeOp}
    (h : (admittedBy x).all fun a => a.1.call ≠ c) :
    admittedIds c (tr ++ [x]) = admittedIds c tr ∧
      admissionsOf c (tr ++ [x]) = admissionsOf c tr := by
  rw [admittedIds_snoc, admissionsOf_snoc]
  cases ha : admittedBy x with
  | none => simp [admittedIds, admissionsOf, ha]
  | some a =>
    have hne : a.1.call ≠ c := by simpa [ha] using h
    simp [admittedIds, admissionsOf, ha, hne]

/-- A step that acknowledges nothing of `c`. -/
theorem acked_skip {c : Call} (tr : History) {x : Outbox × LifeOp}
    (h : (ackedBy x).all fun r => r.call ≠ c) : ackedIds c (tr ++ [x]) = ackedIds c tr := by
  rw [ackedIds_snoc]
  cases ha : ackedBy x with
  | none => simp [ackedIds, ha]
  | some r =>
    have hne : r.call ≠ c := by simpa [ha] using h
    simp [ackedIds, ha, hne]

/-- The events of call `c` in line, from the first one on. -/
def lineOf (c : Call) (backlog : List String) (tr : History) : List String :=
  backlog ++ admittedIds c tr

/-- What is known of call `c`, an admission call with a backlog. -/
structure Queued (c : Call) (backlog : List String) (tr : History) (db : Db) : Prop where
  inv : StoreInv db
  taken : (∃ s ∈ db.callStreams, s.call = c) ∨ ∃ f ∈ db.retiredCalls, f.call = c
  mode : ∀ s ∈ db.callStreams, s.call = c → s.mode = .admission
  next : ∀ s ∈ db.callStreams, s.call = c → s.nextSeq = (ackedIds c tr).length
  last : ∀ s ∈ db.callStreams, s.call = c → s.admitSeq = (lineOf c backlog tr).length
  rows : ∀ r ∈ db.outbox, r.grouped = true → r.call = c → ∀ k : Nat,
    r.callSeq = some (k : Int) → (lineOf c backlog tr)[k]? = some r.eventId
  acked : ackedIds c tr = (lineOf c backlog tr).take (ackedIds c tr).length
  ordinals : admissionsOf c tr =
    (List.range (admittedIds c tr).length).map fun i : Nat => ((backlog.length + i : Nat) : Int)

section Queued

variable {c : Call} {backlog : List String} {tr : History} {db db' : Db} {x : Outbox × LifeOp}

/-- A step that is not about the call. -/
theorem Queued.spare (h : Queued c backlog tr db) (hinv : StoreInv db') (hspare : Spares c db db')
    (hrows : ∀ r' ∈ db'.outbox, r'.grouped = true → r'.call = c →
      ∃ r ∈ db.outbox, r.toEvent = r'.toEvent)
    (hadm : (admittedBy x).all fun a => a.1.call ≠ c) (hack : (ackedBy x).all fun r => r.call ≠ c) :
    Queued c backlog (tr ++ [x]) db' := by
  rcases admitted_skip tr hadm with ⟨hids, hords⟩
  have hacks := acked_skip tr hack
  have hline : lineOf c backlog (tr ++ [x]) = lineOf c backlog tr := by
    rw [lineOf, lineOf, hids]
  have hstream : ∀ s' ∈ db'.callStreams, s'.call = c →
      ∃ s ∈ db.callStreams, s.call = c ∧ StreamStep s s' := by
    intro s' hs' hcall
    rcases hspare.streams s' hs' hcall with ⟨s, hs, hst⟩
    exact ⟨s, hs, hst.owner ▸ hcall, hst⟩
  constructor
  case inv => exact hinv
  case taken =>
    rcases h.taken with ⟨s, hs, hcall⟩ | ⟨f, hf, hcall⟩
    · exact hspare.taken s hs hcall
    · exact Or.inr ⟨f, hspare.fenced f hf, hcall⟩
  case mode =>
    intro s' hs' hcall
    rcases hstream s' hs' hcall with ⟨s, hs, hsc, hst⟩
    rw [hst.owner]
    exact h.mode s hs hsc
  case next =>
    intro s' hs' hcall
    rcases hstream s' hs' hcall with ⟨s, hs, hsc, hst⟩
    rw [hacks, hst.next]
    exact h.next s hs hsc
  case last =>
    intro s' hs' hcall
    rcases hstream s' hs' hcall with ⟨s, hs, hsc, hst⟩
    rw [hline, hst.admitSeq]
    exact h.last s hs hsc
  case rows =>
    intro r' hr' hg hcall k hk
    rcases hrows r' hr' hg hcall with ⟨r, hr, hevent⟩
    rw [hline]
    rw [← hevent] at hg hcall hk ⊢
    exact h.rows r hr hg hcall k hk
  case acked =>
    rw [hacks, hline]
    exact h.acked
  case ordinals =>
    rw [hords, hids]
    exact h.ordinals

/-- An event of the call goes to the end of the line. -/
theorem Queued.admitted {lim : Limits} {rec : OutboxRecord} {now seq : Int} {dn : Bool}
    {base : OutboxTable} (h : Queued c backlog tr db)
    (hadm : Admission lim rec now db db' seq dn base) (hcall : rec.call = c)
    (huuid : rec.callUuid ≠ "") (hx : admittedBy x = some (rec, seq)) (hxa : ackedBy x = none) :
    Queued c backlog (tr ++ [x]) db' := by
  have hids : admittedIds c (tr ++ [x]) = admittedIds c tr ++ [rec.eventId] := by
    rw [admittedIds_snoc]
    simp [admittedIds, hx, hcall]
  have hords : admissionsOf c (tr ++ [x]) = admissionsOf c tr ++ [seq] := by
    rw [admissionsOf_snoc]
    simp [admissionsOf, hx, hcall]
  have hacks := acked_skip (c := c) tr (x := x) (by simp [hxa])
  have hline : lineOf c backlog (tr ++ [x]) = lineOf c backlog tr ++ [rec.eventId] := by
    rw [lineOf, lineOf, hids, List.append_assoc]
  rcases hadm.streams.inv with ⟨hempty, -, -⟩ | ⟨tbl, s, -, hpos, hmax, hclaim, heq⟩
  · exact absurd hempty huuid
  -- the call has its stream already, and it is one of admission
  have hmem : s ∈ db.callStreams := by
    rcases hclaim.found with ⟨hs, -⟩ | ⟨hnew, -⟩
    · exact hs
    · rcases h.taken with ⟨q, hq, hqc⟩ | ⟨f, hf, hfc⟩
      · exact absurd (hqc.trans hcall.symm) (hnew q hq)
      · exact absurd (hfc.trans hcall.symm) (hadm.unfenced huuid f hf)
  have hsc : s.call = c := hclaim.call_eq.trans hcall
  have hs := h.inv.bounded s hmem
  have hneg : rec.callSeq.toInt < 0 := by
    have hmode := h.mode s hmem hsc
    rw [hclaim.owner] at hmode
    by_contra hge
    simp [modeOf, hge] at hmode
  have hseq : seq = (lineOf c backlog tr).length := by
    rw [hclaim.admission hneg]
    exact h.last s hmem hsc
  -- its stream afterwards is the claimed one
  have honly : ∀ s' ∈ db'.callStreams, s'.call = c → s' = s.claimed seq := by
    intro s' hs' hs'c
    rw [heq, hclaim.mem_claimSeq] at hs'
    rcases hs' with rfl | ⟨-, hne⟩
    · rfl
    · exact absurd (hs'c.trans hcall.symm) hne
  have hclaimed : s.claimed seq ∈ db'.callStreams := heq ▸ hclaim.mem_claimSeq.mpr (Or.inl rfl)
  constructor
  case inv => exact h.inv.admitted hadm
  case taken => exact Or.inl ⟨_, hclaimed, hsc⟩
  case mode =>
    intro s' hs' hs'c
    rw [honly s' hs' hs'c]
    exact h.mode s hmem hsc
  case next =>
    intro s' hs' hs'c
    rw [honly s' hs' hs'c, hacks]
    exact h.next s hmem hsc
  case last =>
    intro s' hs' hs'c
    rw [honly s' hs' hs'c, hline, List.length_append, List.length_singleton]
    have hlast := h.last s hmem hsc
    simp only [Stream.claimed, hclaim.inc64_eq hs hpos hmax]
    push_cast
    omega
  case rows =>
    intro r hr hg hrc k hk
    rw [hline]
    rcases hadm.mem_outbox.mp hr with hold | rfl
    · have hk' := h.rows r (hadm.room.mem_of_mem hold) hg hrc k hk
      rw [List.getElem?_append_left (List.getElem?_eq_some_iff.mp hk').1]
      exact hk'
    · have hlen : k = (lineOf c backlog tr).length := by
        have hrow : (newRow rec now seq dn).callSeq = some seq := by simp [newRow, huuid]
        rw [hrow, Option.some.injEq] at hk
        omega
      rw [hlen, List.getElem?_concat_length]
      rfl
  case acked =>
    -- what is acknowledged is still the front of the line
    rw [hacks, hline, List.take_append_of_le_length, ← h.acked]
    have hnext := h.next s hmem hsc
    have hlast := h.last s hmem hsc
    have hle := hs.ordered
    omega
  case ordinals =>
    rw [hords, hids, h.ordinals, List.length_append, List.length_singleton, List.range_succ,
      List.map_append, hseq, lineOf, List.length_append]
    simp

/-- The head of the call is acknowledged: it is the next event of the line. -/
theorem Queued.ackedRow {r : Row} {now : Int} (h : Queued c backlog tr db) (hr : r ∈ db.outbox)
    (hstate : r.state = .inFlight) (hhead : r.grouped = true →
      ∃ s ∈ db.callStreams, s.call = r.call ∧ s.nextSeq = r.callSeq.getD 0)
    (hg : r.grouped = true) (hcall : r.call = c) (hx : ackedBy x = some r)
    (hxa : admittedBy x = none) : Queued c backlog (tr ++ [x]) (db.acked r now) := by
  rcases hhead hg with ⟨s, hs, hsc, -⟩
  have hplace := h.inv.seq_of_acked hr hhead hs ⟨hg, hsc⟩
  have hnext := h.next s hs (hsc.trans hcall)
  rcases admitted_skip (c := c) tr (x := x) (by simp [hxa]) with ⟨hids, hords⟩
  have hacks : ackedIds c (tr ++ [x]) = ackedIds c tr ++ [r.eventId] := by
    rw [ackedIds_snoc]
    simp [ackedIds, hx, hcall]
  have hline : lineOf c backlog (tr ++ [x]) = lineOf c backlog tr := by
    rw [lineOf, lineOf, hids]
  have hseq : r.callSeq = some ((ackedIds c tr).length : Int) := by
    rw [hplace.seq, hnext]
  have honly : ∀ s' ∈ (db.acked r now).callStreams, s'.call = c → s' = s.afterAck r := by
    intro s' hs' hs'c
    rcases Db.mem_acked_callStreams.mp hs' with ⟨s₀, hs₀, rfl⟩
    rw [Stream.afterAck_toOwnership] at hs'c
    rw [Table.eq_of_key hs₀ hs (hs'c.trans (hsc.trans hcall).symm)]
  constructor
  case inv => exact h.inv.acked hr hstate hhead
  case taken =>
    refine Or.inl ⟨s.afterAck r, Db.mem_acked_callStreams.mpr ⟨s, hs, rfl⟩, ?_⟩
    rw [Stream.afterAck_toOwnership]
    exact hsc.trans hcall
  case mode =>
    intro s' hs' hs'c
    rw [honly s' hs' hs'c, Stream.afterAck_toOwnership]
    exact h.mode s hs (hsc.trans hcall)
  case next =>
    intro s' hs' hs'c
    rw [honly s' hs' hs'c, Stream.afterAck_of_call hg hsc, hacks, hnext, List.length_append]
    rfl
  case last =>
    intro s' hs' hs'c
    rw [honly s' hs' hs'c, Stream.afterAck_admitSeq, hline]
    exact h.last s hs (hsc.trans hcall)
  case rows =>
    intro q' hq' hqg hqc k hk
    rcases Db.mem_acked_outbox.mp hq' with ⟨q, hq, -, rfl⟩
    rw [Row.afterAck_toEvent] at hqg hqc hk ⊢
    rw [hline]
    exact h.rows q hq hqg hqc k hk
  case acked =>
    -- the front of the line grows by the event at its position
    rw [hacks, hline, List.length_append, List.length_singleton, List.take_add_one, ← h.acked,
      h.rows r hr hg hcall _ hseq]
    rfl
  case ordinals =>
    rw [hords, hids]
    exact h.ordinals

/-- Every step of a life. -/
theorem Queued.live (hc : c.2 ≠ "") {b : Outbox} (act : LifeOp) (h : Queued c backlog tr b.db) :
    Queued c backlog (tr ++ [(b, act)]) (b.live act).db := by
  have hinv := h.inv.live (b := b) act
  cases b.lifeOutcome act with
  | refused heq =>
    rw [heq] at hinv ⊢
    exact h.spare hinv (Spares.refl c b.db) (fun r hr _ _ => ⟨r, hr, rfl⟩) rfl rfl
  | retired hret =>
    refine h.spare hinv (hret.spares c) (fun r hr _ _ => ⟨r, ?_, rfl⟩) rfl rfl
    rw [hret.outbox] at hr
    exact hr
  | @call op hout =>
    cases hout with
    | quiet hadm hack hquiet =>
      refine h.spare hinv (hquiet.spares c) ?_ (by simp [admittedBy, hadm])
        (by simp [ackedBy, hack])
      intro r' hr' _ _
      rcases hquiet.rows.backward hr' with ⟨r, hr, hst⟩
      exact ⟨r, hr, hst.event.symm⟩
    | @admitted lim rec now fault seq dn base hop hadm hack hadmission =>
      by_cases hmine : rec.call = c
      · have huuid := OutboxRecord.uuid_ne_of_call hmine hc
        rw [if_neg huuid] at hadm
        exact h.admitted hadmission hmine huuid hadm hack
      · refine h.spare hinv (hadmission.spares h.inv hmine) ?_ (by simp [admittedBy, hadm, hmine])
          (by simp [ackedBy, hack])
        intro r' hr' _ hrc
        rcases hadmission.mem_outbox.mp hr' with hold | rfl
        · exact ⟨r', hadmission.room.mem_of_mem hold, rfl⟩
        · exact absurd hrc hmine
    | @acked id now fault r hop hadm hack hr hid hstate hhead hdb =>
      rw [show (b.live (.call op)).db = b.db.acked r now from hdb] at hinv ⊢
      by_cases hmine : r.call = c
      · exact h.ackedRow hr hstate hhead (Event.grouped_of_call hmine hc) hmine hack hadm
      · refine h.spare hinv (acked_spares hr hmine) ?_ (by simp [admittedBy, hadm])
          (by simp [ackedBy, hack, hmine])
        intro q' hq' _ _
        rcases Db.mem_acked_outbox.mp hq' with ⟨q, hq, -, rfl⟩
        exact ⟨q, hq, by simp⟩

/-- Every life from a state with the backlog in line. -/
theorem queued_life (hc : c.2 ≠ "") {b : Outbox} (h : Queued c backlog [] b.db)
    (acts : List LifeOp) :
    Queued c backlog (Machine.trace Outbox.live b acts) (Machine.run Outbox.live b acts).db :=
  Machine.trace_invariant (J := fun tr b => Queued c backlog tr b.db) (P := fun _ _ => True) h
    (fun _ _ act _ h => h.live hc act) acts (fun _ _ => trivial)

end Queued

end EventKafka
