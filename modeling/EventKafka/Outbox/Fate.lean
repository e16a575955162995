import EventKafka.Outbox.Operations

/-! # The fate of an admitted event

An admitted event is stored until a step removes it, and only two kinds of steps
can: the ACK of its own row, and the capacity reclaim inside a later admission.
`fate` follows one event through the calls after its admission; the theorems say
what each answer means. An `event_id` may come back after its row is gone, as a new
admission with a fate of its own.
-/

namespace EventKafka

open Sql

/-- What became of an admitted event. -/
inductive Fate where
  | stored
  | acked
  | reclaimed
deriving DecidableEq, Repr

/-- The call is an admission that had to reclaim rows first. -/
def Outbox.reclaims (b : Outbox) (op : Op) : Bool :=
  match op, b.reply op with
  | .insertPending lim rec _ _, .ok _ => full lim rec b.db.outbox
  | _, _ => false

/-- How a call removes the row `id`, if it does. -/
def Outbox.removal (b : Outbox) (op : Op) (id : String) : Option Fate :=
  if (b.ack op).any fun r => r.eventId = id then some .acked
  else if b.reclaims op && (b.db.outbox.find? id).any reclaimable then some .reclaimed
  else none

/-- The fate of the row `id` of `b` after the calls `ops`. -/
def fate (id : String) : Outbox → List Op → Fate
  | _, [] => .stored
  | b, op :: ops => (b.removal op id).getD (fate id (b.step op) ops)

/-- Some call of the run admitted an event under `id`. -/
def Readmitted (id : String) (b : Outbox) (ops : List Op) : Prop :=
  ∃ x ∈ Machine.trace Outbox.step b ops, ∃ rec assigned,
    x.1.admission x.2 = some (rec, assigned) ∧ rec.eventId = id

/-! ## One step -/

theorem Outbox.reclaims_iff {b : Outbox} {op : Op} :
    b.reclaims op = true ↔ ∃ lim rec now fault assigned, op = .insertPending lim rec now fault ∧
      b.reply op = .ok assigned ∧ full lim rec b.db.outbox = true := by
  cases op with
  | insertPending lim rec now fault =>
    cases hreply : b.reply (.insertPending lim rec now fault) with
    | error e => simp [Outbox.reclaims, hreply]
    | ok assigned =>
      simp only [Outbox.reclaims, hreply]
      constructor
      · intro hfull
        exact ⟨lim, rec, now, fault, assigned, rfl, rfl, hfull⟩
      · rintro ⟨_, _, _, _, _, hop, -, hfull⟩
        cases hop
        exact hfull
  | _ => simp [Outbox.reclaims]

theorem Outbox.removal_acked {b : Outbox} {op : Op} {id : String}
    (h : b.removal op id = some .acked) :
    ∃ now fault r, op = .markAcked id now fault ∧ r ∈ b.db.outbox ∧ r.eventId = id ∧
      r.state = .inFlight ∧ (∃ n, b.reply op = .ok n) ∧ (b.step op).db = b.db.acked r now := by
  unfold Outbox.removal at h
  split at h
  · rename_i hack
    rcases (Option.any_eq_true _ _).mp hack with ⟨r', hr', hid'⟩
    cases b.outcome op with
    | quiet _ hno _ => simp [hno] at hr'
    | admitted _ _ hno _ => simp [hno] at hr'
    | @acked id' now fault r hop _ hsome hr hid hstate _ hdb =>
      have hrr : r = r' := by simpa [hsome] using hr'
      subst hrr
      have hid'' : r.eventId = id := of_decide_eq_true hid'
      refine ⟨now, fault, r, ?_, hr, hid'', hstate, Outbox.reply_of_ack hsome, hdb⟩
      rw [hop, ← hid, hid'']
  · split at h <;> simp at h

theorem Outbox.removal_reclaimed {b : Outbox} {op : Op} {id : String}
    (h : b.removal op id = some .reclaimed) :
    ∃ lim rec now fault assigned r, op = .insertPending lim rec now fault ∧
      b.reply op = .ok assigned ∧ full lim rec b.db.outbox = true ∧ r ∈ b.db.outbox ∧
      r.eventId = id ∧ reclaimable r = true := by
  unfold Outbox.removal at h
  split at h
  · simp at h
  · split at h
    · rename_i _ hrec
      rw [Bool.and_eq_true] at hrec
      rcases (Option.any_eq_true _ _).mp hrec.2 with ⟨r, hfind, hreclaim⟩
      rcases Table.find?_eq_some.mp hfind with ⟨hr, hid⟩
      rcases Outbox.reclaims_iff.mp hrec.1 with ⟨lim, rec, now, fault, assigned, hop, hreply, hfull⟩
      exact ⟨lim, rec, now, fault, assigned, r, hop, hreply, hfull, hr, hid, hreclaim⟩
    · simp at h

/-- A call that does not remove a row keeps its event. -/
theorem Outbox.row_kept {b : Outbox} {op : Op} {r : Row} (hr : r ∈ b.db.outbox)
    (h : b.removal op r.eventId = none) : ∃ r' ∈ (b.step op).db.outbox, r'.toEvent = r.toEvent := by
  have hnone : ¬ (b.ack op).any (fun q => decide (q.eventId = r.eventId)) = true ∧
      ¬ (b.reclaims op && (b.db.outbox.find? r.eventId).any reclaimable) = true := by
    unfold Outbox.removal at h
    split at h
    · simp at h
    · split at h
      · simp at h
      · exact ⟨by assumption, by assumption⟩
  cases b.outcome op with
  | quiet _ _ hquiet =>
    rcases hquiet.rows.forward hr with ⟨r', hr', hst⟩
    exact ⟨r', hr', hst.event⟩
  | @admitted lim rec now fault seq dn base hop hadm _ hadmission =>
    refine ⟨r, hadmission.mem_outbox.mpr (Or.inl ?_), rfl⟩
    rcases hadmission.room with ⟨hbase, -⟩ | ⟨hbase, hfull, -⟩
    · rw [hbase]
      exact hr
    · rw [hbase, Table.mem_delete]
      refine ⟨hr, Bool.eq_false_iff.mpr fun hrc => hnone.2 ?_⟩
      have hfind : b.db.outbox.find? r.eventId = some r := Table.find?_eq_some.mpr ⟨hr, rfl⟩
      rcases Outbox.admission_eq_some.mp hadm with ⟨_, _, _, -, hreply⟩
      have hreclaims : b.reclaims op = true :=
        Outbox.reclaims_iff.mpr ⟨lim, rec, now, fault, _, hop, hreply, hfull⟩
      simp [hreclaims, hfind, hrc]
  | @acked id now fault q _ _ hack hq _ _ _ hdb =>
    have hne : r.eventId ≠ q.eventId := by
      intro hid
      apply hnone.1
      simp [hack, hid]
    rw [hdb]
    exact ⟨q.afterAck now r, Db.mem_acked_outbox.mpr ⟨r, hr, hne, rfl⟩, by simp⟩

/-- After a call that removes the row `id`, a row `id` is one it admitted itself. -/
theorem Outbox.row_removed {b : Outbox} {op : Op} {id : String} {f : Fate}
    (h : b.removal op id = some f) (hf : f ≠ .stored) {q : Row} (hq : q ∈ (b.step op).db.outbox)
    (hid : q.eventId = id) :
    ∃ rec assigned, b.admission op = some (rec, assigned) ∧ rec.eventId = id := by
  cases f with
  | stored => exact absurd rfl hf
  | acked =>
    rcases Outbox.removal_acked h with ⟨now, fault, r, -, -, hrid, -, -, hdb⟩
    rw [hdb] at hq
    rcases Db.mem_acked_outbox.mp hq with ⟨q₀, -, hne, rfl⟩
    rw [Row.afterAck_toEvent] at hid
    exact absurd (hid.trans hrid.symm) hne
  | reclaimed =>
    obtain ⟨lim, rec, now, fault, assigned, r, hop, hreply, hfull, hr, hrid, hrc⟩ :=
      Outbox.removal_reclaimed h
    have hadm : b.admission op = some (rec, assigned) :=
      Outbox.admission_eq_some.mpr ⟨lim, now, fault, hop, hreply⟩
    cases b.outcome op with
    | quiet hno _ _ => simp [hno] at hadm
    | acked _ hno => simp [hno] at hadm
    | @admitted lim' rec' now' fault' seq dn base hop' hadm' _ hadmission =>
      obtain ⟨rfl, rfl, rfl, rfl⟩ : lim = lim' ∧ rec = rec' ∧ now = now' ∧ fault = fault' := by
        simpa [hop] using hop'
      rcases hadmission.mem_outbox.mp hq with hbase | rfl
      · rcases hadmission.room with ⟨-, hroom⟩ | ⟨rfl, -, -⟩
        · simp [hfull] at hroom
        · rcases Table.mem_delete.mp hbase with ⟨hq', hnrc⟩
          have hqr : q = r := Table.eq_of_key hq' hr (hid.trans hrid.symm)
          rw [hqr, hrc] at hnrc
          simp at hnrc
      · exact ⟨rec, assigned, hadm, hid⟩

/-! ## A run -/

theorem Outbox.removal_ne_stored (b : Outbox) (op : Op) (id : String) :
    b.removal op id ≠ some .stored := by
  unfold Outbox.removal
  split
  · simp
  · split <;> simp

/-- The step that sealed a fate: up to it the row was stored. -/
theorem fate_removed {id : String} {f : Fate} (hf : f ≠ .stored) {b : Outbox} {ops : List Op}
    (h : fate id b ops = f) :
    ∃ mid op rest, ops = mid ++ op :: rest ∧ fate id b mid = .stored ∧
      (Machine.run Outbox.step b mid).removal op id = some f := by
  induction ops generalizing b with
  | nil => exact absurd h.symm hf
  | cons op ops ih =>
    cases hrem : b.removal op id with
    | some g =>
      have hgf : g = f := by simpa [fate, hrem] using h
      exact ⟨[], op, ops, rfl, rfl, hgf ▸ hrem⟩
    | none =>
      have hrest : fate id (b.step op) ops = f := by simpa [fate, hrem] using h
      rcases ih hrest with ⟨mid, op', rest, hops, hmid, hrem'⟩
      refine ⟨op :: mid, op', rest, by rw [hops]; rfl, ?_, hrem'⟩
      simpa [fate, hrem] using hmid

theorem fate_stored_append {id : String} {b : Outbox} {as bs : List Op}
    (h : fate id b (as ++ bs) = .stored) : fate id b as = .stored := by
  induction as generalizing b with
  | nil => rfl
  | cons op as ih =>
    cases hrem : b.removal op id with
    | some f =>
      have hf : f = .stored := by simpa [fate, hrem] using h
      exact absurd (hf ▸ hrem) (b.removal_ne_stored op id)
    | none =>
      have hrest : fate id (b.step op) (as ++ bs) = .stored := by simpa [fate, hrem] using h
      simpa [fate, hrem] using ih hrest

/-- A stored row keeps its event. -/
theorem fate_stored {b : Outbox} {ops : List Op} {r : Row} (hr : r ∈ b.db.outbox)
    (h : fate r.eventId b ops = .stored) :
    ∃ r' ∈ (Machine.run Outbox.step b ops).db.outbox, r'.toEvent = r.toEvent := by
  induction ops generalizing b r with
  | nil => exact ⟨r, hr, rfl⟩
  | cons op ops ih =>
    cases hrem : b.removal op r.eventId with
    | some f =>
      have hf : f = .stored := by simpa [fate, hrem] using h
      exact absurd (hf ▸ hrem) (b.removal_ne_stored op r.eventId)
    | none =>
      rcases Outbox.row_kept hr hrem with ⟨q, hq, hqr⟩
      have hrest : fate q.eventId (b.step op) ops = .stored := by
        rw [hqr]
        simpa [fate, hrem] using h
      rcases ih hq hrest with ⟨r', hr', hevent⟩
      exact ⟨r', hr', hevent.trans hqr⟩

/-- An `event_id` that is absent can only come back by an admission. -/
theorem readmitted_of_absent {id : String} {b : Outbox} {ops : List Op} {q : Row}
    (habsent : ∀ r ∈ b.db.outbox, r.eventId ≠ id)
    (hq : q ∈ (Machine.run Outbox.step b ops).db.outbox) (hid : q.eventId = id) :
    Readmitted id b ops := by
  induction ops generalizing b with
  | nil => exact absurd hid (habsent q hq)
  | cons op ops ih =>
    by_cases hback : ∃ r ∈ (b.step op).db.outbox, r.eventId = id
    · rcases hback with ⟨r, hr, hrid⟩
      rcases Outbox.row_origin hr with ⟨q₀, hq₀, hevent⟩ | ⟨_, rec, now, _, assigned, -, hadm, hevent⟩
      · refine absurd ?_ (habsent q₀ hq₀)
        rw [hevent]
        exact hrid
      · refine ⟨(b, op), List.mem_cons_self, rec, assigned, hadm, ?_⟩
        rw [← hrid, hevent]
        rfl
    · have habsent' : ∀ r ∈ (b.step op).db.outbox, r.eventId ≠ id :=
        fun r hr hrid => hback ⟨r, hr, hrid⟩
      rcases ih habsent' hq with ⟨x, hx, hrest⟩
      exact ⟨x, List.mem_cons_of_mem _ hx, hrest⟩

/-- In the run `mid ++ op :: rest` from `b`, the event `e` is stored until the
successful call `op` removes its row `r`; it does not come back on its own. -/
structure RemovedAt (b : Outbox) (e : Event) (mid : List Op) (op : Op) (rest : List Op)
    (r : Row) : Prop where
  held : ∀ early, early <+: mid →
    ∃ q ∈ (Machine.run Outbox.step b early).db.outbox, q.toEvent = e
  row : r ∈ (Machine.run Outbox.step b mid).db.outbox
  event : r.toEvent = e
  success : ∃ n, (Machine.run Outbox.step b mid).reply op = .ok n
  gone : ∀ q ∈ (Machine.run Outbox.step b (mid ++ op :: rest)).db.outbox,
    q.eventId = e.eventId →
      Readmitted e.eventId (Machine.run Outbox.step b mid) (op :: rest)

theorem removedAt_of_removal {b : Outbox} {r₀ r : Row} {mid rest : List Op} {op : Op} {f : Fate}
    (hr₀ : r₀ ∈ b.db.outbox) (hmid : fate r₀.eventId b mid = .stored)
    (hrem : (Machine.run Outbox.step b mid).removal op r₀.eventId = some f)
    (hr : r ∈ (Machine.run Outbox.step b mid).db.outbox) (hid : r.eventId = r₀.eventId)
    (hok : ∃ n, (Machine.run Outbox.step b mid).reply op = .ok n) :
    RemovedAt b r₀.toEvent mid op rest r where
  held := by
    rintro early ⟨later, hlater⟩
    rw [← hlater] at hmid
    exact fate_stored hr₀ (fate_stored_append hmid)
  row := hr
  event := by
    rcases fate_stored hr₀ hmid with ⟨q, hq, hevent⟩
    have hqr : q = r := Table.eq_of_key hq hr (by rw [hevent, hid])
    rw [← hqr, hevent]
  success := hok
  gone := by
    intro q hq hqid
    have hne : f ≠ .stored := fun hf => Outbox.removal_ne_stored _ op _ (hf ▸ hrem)
    rw [Machine.run_append, Machine.run_cons] at hq
    by_cases hback : ∃ q' ∈ ((Machine.run Outbox.step b mid).step op).db.outbox,
        q'.eventId = r₀.eventId
    · rcases hback with ⟨q', hq', hq'id⟩
      rcases Outbox.row_removed hrem hne hq' hq'id with ⟨rec, assigned, hadm, hrec⟩
      exact ⟨_, List.mem_cons_self, rec, assigned, hadm, hrec⟩
    · have habsent : ∀ q' ∈ ((Machine.run Outbox.step b mid).step op).db.outbox,
          q'.eventId ≠ r₀.eventId := fun q' hq' hq'id => hback ⟨q', hq', hq'id⟩
      rcases readmitted_of_absent habsent hq hqid with ⟨x, hx, hrest⟩
      exact ⟨x, List.mem_cons_of_mem _ hx, hrest⟩

/-- What an answer of `fate` means for the event `e` of `b` after `ops`. -/
def Accounted (b : Outbox) (e : Event) (ops : List Op) : Fate → Prop
  | .stored => ∃ r ∈ (Machine.run Outbox.step b ops).db.outbox, r.toEvent = e
  | .acked => ∃ mid now fault rest r, ops = mid ++ .markAcked e.eventId now fault :: rest ∧
      RemovedAt b e mid (.markAcked e.eventId now fault) rest r ∧ r.state = .inFlight
  | .reclaimed => e.callUuid.getD "" = "" ∧
      ∃ mid lim rec now fault rest r, ops = mid ++ .insertPending lim rec now fault :: rest ∧
        RemovedAt b e mid (.insertPending lim rec now fault) rest r ∧
        r.state = .dead ∧ r.lastError = some "expired_ttl"

theorem accounted_fate {b : Outbox} {r₀ : Row} (hr₀ : r₀ ∈ b.db.outbox) (ops : List Op) :
    Accounted b r₀.toEvent ops (fate r₀.eventId b ops) := by
  cases hf : fate r₀.eventId b ops with
  | stored => exact fate_stored hr₀ hf
  | acked =>
    rcases fate_removed (by simp) hf with ⟨mid, op, rest, hops, hmid, hrem⟩
    rcases Outbox.removal_acked hrem with ⟨now, fault, r, rfl, hr, hid, hstate, hok, -⟩
    exact ⟨mid, now, fault, rest, r, hops, removedAt_of_removal hr₀ hmid hrem hr hid hok, hstate⟩
  | reclaimed =>
    rcases fate_removed (by simp) hf with ⟨mid, op, rest, hops, hmid, hrem⟩
    obtain ⟨lim, rec, now, fault, assigned, r, rfl, hreply, -, hr, hid, hrc⟩ :=
      Outbox.removal_reclaimed hrem
    have hremoved : RemovedAt b r₀.toEvent mid (.insertPending lim rec now fault) rest r :=
      removedAt_of_removal hr₀ hmid hrem hr hid ⟨assigned, hreply⟩
    simp only [reclaimable, Bool.and_eq_true, decide_eq_true_eq, Bool.not_eq_true'] at hrc
    refine ⟨?_, mid, lim, rec, now, fault, rest, r, hops, hremoved, hrc.1.1, hrc.1.2⟩
    rw [← hremoved.event]
    exact Event.grouped_eq_false.mp hrc.2

/-! ## Every admission -/

/-- Whatever calls follow an admission, the event is still stored as it was
admitted, or was removed by the ACK of its own row in flight, or — only without a
`call_uuid` — by a later admission's reclaim of its expired row. -/
theorem admitted_event_accounted (pre post : List Op) (lim : Limits) (rec : OutboxRecord)
    (now : Int) (fault : FaultPlan) (assigned : Int)
    (h : (Machine.run Outbox.step Outbox.init pre).reply (.insertPending lim rec now fault) =
      .ok assigned) :
    let b := Machine.run Outbox.step Outbox.init (pre ++ [.insertPending lim rec now fault])
    let e := admittedEvent rec now assigned
    (∃ r ∈ b.db.outbox, r.toEvent = e) ∧
      Accounted b e post (fate e.eventId b post) ∧
      (rec.callUuid ≠ "" → fate e.eventId b post ≠ .reclaimed) := by
  intro b e
  have hb : b = (Machine.run Outbox.step Outbox.init pre).step (.insertPending lim rec now fault) :=
    Machine.run_snoc pre _
  rcases Outbox.row_of_admission h with ⟨r, hr, hre⟩
  rw [← hb] at hr
  have hacc : Accounted b e post (fate e.eventId b post) := by
    have hrow := accounted_fate hr post
    rwa [hre] at hrow
  refine ⟨⟨r, hr, hre⟩, hacc, ?_⟩
  intro huuid hreclaimed
  rw [hreclaimed] at hacc
  exact huuid hacc.1

/-- A full outbox makes room for "b" by reclaiming the expired "a". -/
theorem admitted_event_accounted_reclaimed :
    let lim : Limits := ⟨1, 100⟩
    let b := Machine.run Outbox.step Outbox.init
      [.openDb noFault, .insertPending lim (sampleRecord "a" "") 0 noFault]
    let post : List Op :=
      [.expireTtl 2000 10 noFault, .insertPending lim (sampleRecord "b" "") 0 noFault]
    fate "a" b post = .reclaimed ∧
      Accounted b (admittedEvent (sampleRecord "a" "") 0 (-1)) post (fate "a" b post) := by
  intro lim b post
  refine ⟨by decide, ?_⟩
  exact (admitted_event_accounted [.openDb noFault] post lim (sampleRecord "a" "") 0 noFault (-1)
    (by decide)).2.1

end EventKafka
