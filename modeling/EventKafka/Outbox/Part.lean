import EventKafka.Lib.Relational
import EventKafka.Outbox.Capacity
import EventKafka.Outbox.Stamp
import EventKafka.Outbox.Transitions

/-! # Calls do not interfere

A run of the outbox is compared with the run that is left of it when the calls on the
events of everybody but one call are taken out. `Part` relates the two databases: the
second has the rows of the call and its cursor and nothing else, and has served fewer
turns.

A call on an event of somebody else leaves `Part` alone; `requeue_in_flight`,
`expire_ttl` and `open` work row by row; and a call on an event of the call in question
goes through the same statements in both runs, until the larger one runs out of room or
of turns.
-/

namespace EventKafka

open Sql

/-! ## The part of a call -/

/-- What of a stream its call can tell: everything but the turn it was served at. -/
def Stream.part (s : Stream) : Ownership × Int × Int := (s.toOwnership, s.nextSeq, s.admitSeq)

/-- The call an event is admitted for, if it is for one. -/
def OutboxRecord.owner (rec : OutboxRecord) : Option Call :=
  if rec.callUuid = "" then none else some rec.call

/-- `db'` is what `db` holds of call `c`; `owner` says whose event an id is. -/
structure Part (owner : String → Option Call) (c : Call) (db db' : Db) : Prop where
  rows : db'.outbox.rows = db.outbox.rows.filter (Row.ofCall c)
  stream : (db'.callStreams.find? c).map Stream.part = (db.callStreams.find? c).map Stream.part
  alone : ∀ s ∈ db'.callStreams, s.call = c
  owned : ∀ r ∈ db.outbox, r.ofCall c = true ↔ owner r.eventId = some c
  unfenced : db.retiredCalls = .empty ∧ db'.retiredCalls = .empty
  turn : db'.turn ≤ db.turn

section Part

variable {owner : String → Option Call} {c : Call} {db db' : Db}

theorem Part.empty : Part owner c .empty .empty where
  rows := rfl
  stream := rfl
  alone := by simp [Db.empty]
  owned := by simp [Db.empty]
  unfenced := ⟨rfl, rfl⟩
  turn := Int.le_refl _

theorem Part.mem (h : Part owner c db db') {r : Row} :
    r ∈ db'.outbox ↔ r ∈ db.outbox ∧ r.ofCall c = true := by
  rw [Table.mem_def, h.rows, List.mem_filter]
  rfl

/-- An event of the call is found in both. -/
theorem Part.find? (h : Part owner c db db') {id : String} (hid : owner id = some c) :
    db'.outbox.find? id = db.outbox.find? id := by
  cases hf : db.outbox.find? id with
  | none =>
    rw [Table.find?_eq_none] at hf ⊢
    exact fun r hr => hf r (h.mem.mp hr).1
  | some r =>
    rw [Table.find?_eq_some] at hf ⊢
    refine ⟨h.mem.mpr ⟨hf.1, (h.owned r hf.1).mpr ?_⟩, hf.2⟩
    rw [hf.2, hid]

/-- The cursors of the call agree. -/
theorem Part.streams (h : Part owner c db db') {s : Stream} (hs : db.callStreams.find? c = some s) :
    ∃ s', db'.callStreams.find? c = some s' ∧ s'.part = s.part := by
  have hpart := h.stream
  rw [hs, Option.map_some, Option.map_eq_some_iff] at hpart
  exact hpart

theorem Part.deliverable (h : Part owner c db db') {r : Row} (hr : r.ofCall c = true) :
    db'.deliverable r.toEvent = db.deliverable r.toEvent := by
  rcases Row.ofCall_iff.mp hr with ⟨hg, hcall⟩
  unfold Db.deliverable Db.isHead
  rw [Db.streamOf_of_grouped hg, Db.streamOf_of_grouped hg, hcall]
  have hpart := congrArg (fun o => o.any fun p : Ownership × Int × Int =>
    decide (r.callSeq = some p.2.1)) h.stream
  simp only [Option.any_map] at hpart
  rw [hg]
  exact congrArg (!true || ·) hpart

/-- The same `UPDATE outbox` in both, if it selects the same rows of the call. -/
theorem Part.updateOutbox (h : Part owner c db db') {p p' : Row → Bool} {f : Row → Progress}
    (hp : ∀ r ∈ db.outbox, r.ofCall c = true → p' r = p r) :
    Part owner c (db.updateOutbox p f) (db'.updateOutbox p' f) where
  rows := by
    show (db'.outbox.rows.map fun r => if p' r then ⟨r.toEvent, f r⟩ else r) =
      (db.outbox.rows.map fun r => if p r then ⟨r.toEvent, f r⟩ else r).filter (Row.ofCall c)
    have hkeep : (Row.ofCall c ∘ fun r => if p r then ⟨r.toEvent, f r⟩ else r) =
        Row.ofCall c := by
      funext r
      simp only [Function.comp]
      split <;> rfl
    rw [h.rows, List.filter_map, hkeep]
    apply List.map_congr_left
    intro r hr
    rcases List.mem_filter.mp hr with ⟨hmem, hcall⟩
    rw [hp r hmem hcall]
  stream := h.stream
  alone := h.alone
  owned := by
    intro r hr
    rcases Db.mem_updateOutbox.mp hr with ⟨q, hq, rfl⟩
    have hsame : ∀ b : Bool, (if b then ⟨q.toEvent, f q⟩ else q : Row).toEvent = q.toEvent := by
      intro b
      cases b <;> rfl
    have howned := h.owned q hq
    unfold Row.ofCall at howned ⊢
    rw [hsame]
    exact howned
  unfenced := h.unfenced
  turn := h.turn

/-- An `UPDATE outbox` that selects no row of the call. -/
theorem Part.updateOutbox_left (h : Part owner c db db') {p : Row → Bool} {f : Row → Progress}
    (hp : ∀ r ∈ db.outbox, r.ofCall c = true → p r = false) :
    Part owner c (db.updateOutbox p f) db' := by
  have hboth : Part owner c (db.updateOutbox p f) (db'.updateOutbox (fun _ => false) f) :=
    h.updateOutbox fun r hr hc => (hp r hr hc).symm
  have hsame : db'.updateOutbox (fun _ => false) f = db' := by
    rw [Db.updateOutbox, Table.update_of_changes_eq_zero]
    exact Table.changes_eq_zero.mpr fun _ _ => rfl
  rwa [hsame] at hboth

/-- An `UPDATE call_streams` in both that does the same to the cursor of the call. -/
theorem Part.updateStreams (h : Part owner c db db') {p p' : Stream → Bool}
    {f f' : Stream → Cursor}
    (hp : ∀ s s' : Stream, s.call = c → s'.part = s.part →
      (if p' s' then ⟨s'.toOwnership, f' s'⟩ else s' : Stream).part =
        (if p s then ⟨s.toOwnership, f s⟩ else s : Stream).part) :
    Part owner c (db.updateStreams p f) (db'.updateStreams p' f') where
  rows := h.rows
  stream := by
    rw [find?_updateStreams, find?_updateStreams]
    cases hs : db.callStreams.find? c with
    | none =>
      have hnone := h.stream
      rw [hs, Option.map_none, Option.map_eq_none_iff] at hnone
      rw [hnone]
      rfl
    | some s =>
      rcases h.streams hs with ⟨s', hs', hpart⟩
      rw [hs']
      exact congrArg some (hp s s' (Table.find?_eq_some.mp hs).2 hpart)
  alone := by
    intro s hs
    have hmem : ∃ q ∈ db'.callStreams, s = if p' q then ⟨q.toOwnership, f' q⟩ else q :=
      (Table.mem_of_rows_eq_map rfl).mp hs
    rcases hmem with ⟨q, hq, rfl⟩
    have hcall : (if p' q then ⟨q.toOwnership, f' q⟩ else q : Stream).call = q.call := by
      split <;> rfl
    rw [hcall]
    exact h.alone q hq
  owned := h.owned
  unfenced := h.unfenced
  turn := h.turn

/-- An `UPDATE call_streams` of other calls. -/
theorem Part.updateStreams_left (h : Part owner c db db') {p : Stream → Bool}
    {f : Stream → Cursor} (hp : ∀ s : Stream, s.call = c → p s = false) :
    Part owner c (db.updateStreams p f) db' := by
  have hboth : Part owner c (db.updateStreams p f) (db'.updateStreams (fun _ => false) f) := by
    refine h.updateStreams ?_
    intro s s' hcall hpart
    simp only [hp s hcall, Bool.false_eq_true, if_false]
    exact hpart
  have hsame : (db'.updateStreams (fun _ => false) f).callStreams = db'.callStreams := by
    apply Table.ext_rows
    exact List.map_id'' (fun _ => rfl) db'.callStreams.rows
  exact { hboth with stream := hsame ▸ hboth.stream, alone := hsame ▸ hboth.alone }

/-- A `DELETE` in both that selects the same rows of the call. -/
theorem Part.delete (h : Part owner c db db') {p p' : Row → Bool}
    (hp : ∀ r ∈ db.outbox, r.ofCall c = true → p' r = p r) :
    Part owner c { db with outbox := db.outbox.delete p }
      { db' with outbox := db'.outbox.delete p' } where
  rows := by
    show db'.outbox.rows.filter (fun r => !p' r) =
      (db.outbox.rows.filter fun r => !p r).filter (Row.ofCall c)
    rw [h.rows, List.filter_filter, List.filter_filter]
    apply List.filter_congr
    intro r hr
    cases hc : r.ofCall c with
    | false => simp
    | true => simp [hp r hr hc]
  stream := h.stream
  alone := h.alone
  owned := fun r hr => h.owned r (Table.mem_delete.mp hr).1
  unfenced := h.unfenced
  turn := h.turn

theorem Part.delete_left (h : Part owner c db db') {p : Row → Bool}
    (hp : ∀ r ∈ db.outbox, r.ofCall c = true → p r = false) :
    Part owner c { db with outbox := db.outbox.delete p } db' := by
  have hboth : Part owner c { db with outbox := db.outbox.delete p }
      { db' with outbox := db'.outbox.delete fun _ => false } :=
    h.delete fun r hr hc => (hp r hr hc).symm
  have hsame : db'.outbox.delete (fun _ => false) = db'.outbox := by
    apply Table.ext_rows
    exact List.filter_eq_self.mpr fun _ _ => rfl
  rwa [hsame] at hboth

end Part

/-! ## Statements -/

/-- Out of room or out of turns. -/
def Exhausted (e : String) : Prop :=
  e = "outbox capacity exceeded" ∨
    e = "stream capacity exceeded; inspect capacity; raise limit or explicitly retire proven closed calls" ∨
    e = "scheduler turn exhausted"

instance : DecidablePred Exhausted := fun _ => inferInstanceAs (Decidable (_ ∨ _ ∨ _))

section Statements

variable {owner : String → Option Call} {c : Call}

/-- Both succeed with values related by `V`, or both fail; what they hold of the call
stays the same. -/
def Follows {α β : Type} (owner : String → Option Call) (c : Call) (V : α → β → Prop)
    (x : Prog α) (y : Prog β) : Prop :=
  Program.Tracks Exhausted (Part owner c) (fun a b db db' => V a b ∧ Part owner c db db') x y

theorem Follows.pure {α β : Type} {V : α → β → Prop} {a : α} {b : β} (h : V a b) :
    Follows owner c V (pure a) (pure b) :=
  Program.Tracks.pure fun _ _ hpart => ⟨h, hpart⟩

theorem Follows.bind {α β γ δ : Type} {V : α → β → Prop} {W : γ → δ → Prop} {x : Prog α}
    {y : Prog β} {f : α → Prog γ} {g : β → Prog δ} (hx : Follows owner c V x y)
    (hf : ∀ a b, V a b → Follows owner c W (f a) (g b)) :
    Follows owner c W (x >>= f) (y >>= g) :=
  Program.Tracks.bind hx fun a b db db' h => hf a b h.1 db db' h.2

theorem Follows.statement {α β : Type} {V : α → β → Prop} {fault : Option String} {x : Prog α}
    {y : Prog β} (h : Follows owner c V x y) :
    Follows owner c V (Sql.statement fault x) (Sql.statement fault y) :=
  Program.Tracks.statement h

theorem Follows.transaction {α β : Type} {V : α → β → Prop} {f g : Option String} {x : Prog α}
    {y : Prog β} (h : Follows owner c V x y) :
    Follows owner c V (Sql.transaction f g x) (Sql.transaction f g y) :=
  Program.Tracks.transaction h

theorem Follows.require (b : Bool) (msg : String) :
    Follows owner c (fun _ _ => True) (require b msg) (require b msg) :=
  (Program.Tracks.require fun _ _ _ => rfl).weaken (fun _ _ h => h) fun _ _ _ _ h => ⟨trivial, h⟩

theorem Follows.require_skipped {b b' : Bool} {msg : String} (hskip : Exhausted msg)
    (h : b = true → b' = true) :
    Follows owner c (fun _ _ => True) (Sql.require b msg) (Sql.require b' msg) :=
  (Program.Tracks.require_skipped hskip fun _ _ _ => h).weaken (fun _ _ h => h)
    fun _ _ _ _ h => ⟨trivial, h⟩

/-- A query whose answers are related. -/
theorem Follows.query {α β : Type} {V : α → β → Prop} {fault : Option String} {f : Db → α}
    {g : Db → β} (h : ∀ db db', Part owner c db db' → V (f db) (g db')) :
    Follows owner c V (Sql.query fault f) (Sql.query fault g) :=
  Program.Tracks.query fun db db' hpart => ⟨h db db' hpart, hpart⟩

/-- An `UPDATE outbox` whose condition can be read off the rows of the call. -/
theorem follows_updateOutbox {p : Db → Row → Bool} {f : Row → Progress}
    (hp : ∀ db db', Part owner c db db' → ∀ r, r.ofCall c = true → p db' r = p db r) :
    Follows owner c (fun _ _ => True) (updateOutbox p f) (updateOutbox p f) := by
  intro db db' h
  exact .done ⟨trivial, h.updateOutbox fun r _ hr => hp db db' h r hr⟩

/-- It changes as many rows, if it is about one event of the call. -/
theorem follows_updateOutbox_of_key {p : Db → Row → Bool} {f : Row → Progress} {id : String}
    (hid : owner id = some c)
    (hp : ∀ db db', Part owner c db db' → ∀ r, r.ofCall c = true → p db' r = p db r)
    (hkey : ∀ db r, p db r = true → r.eventId = id) :
    Follows owner c Eq (updateOutbox p f) (updateOutbox p f) := by
  intro db db' h
  refine .done ⟨?_, h.updateOutbox fun r _ hr => hp db db' h r hr⟩
  rw [Table.changes_eq_find? (hkey db), Table.changes_eq_find? (hkey db'), h.find? hid]
  cases hf : db.outbox.find? id with
  | none => rfl
  | some r =>
    rw [Table.find?_eq_some] at hf
    have hr : r.ofCall c = true := (h.owned r hf.1).mpr (by rw [hf.2, hid])
    simp [hp db db' h r hr]

/-- An `UPDATE call_streams` that does the same to the cursor of the call. -/
theorem follows_updateStreams {p : Db → Stream → Bool} {f : Db → Stream → Cursor}
    (hp : ∀ db db', Part owner c db db' → ∀ s s' : Stream, s.call = c → s'.part = s.part →
      (if p db' s' then ⟨s'.toOwnership, f db' s'⟩ else s' : Stream).part =
        (if p db s then ⟨s.toOwnership, f db s⟩ else s : Stream).part) :
    Follows owner c (fun _ _ => True) (updateStreams p f) (updateStreams p f) := by
  intro db db' h
  exact .done ⟨trivial, h.updateStreams (hp db db' h)⟩

/-- It moves the cursor in both or in neither. -/
theorem follows_updateStreams_of_call {p : Stream → Bool} {f : Stream → Cursor}
    (hkey : ∀ s, p s = true → s.call = c)
    (hp : ∀ s s' : Stream, s'.part = s.part →
      p s' = p s ∧ (⟨s'.toOwnership, f s'⟩ : Stream).part = (⟨s.toOwnership, f s⟩ : Stream).part) :
    Follows owner c Eq (updateStreams (fun _ => p) fun _ => f)
      (updateStreams (fun _ => p) fun _ => f) := by
  intro db db' h
  refine .done ⟨?_, h.updateStreams ?_⟩
  · rw [Table.changes_eq_find? hkey, Table.changes_eq_find? hkey]
    cases hs : db.callStreams.find? c with
    | none =>
      have hnone := h.stream
      rw [hs, Option.map_none, Option.map_eq_none_iff] at hnone
      rw [hnone]
    | some s =>
      rcases h.streams hs with ⟨s', hs', hpart⟩
      rw [hs', Option.any_some, Option.any_some, (hp s s' hpart).1]
  · intro s s' _ hpart
    simp only [(hp s s' hpart).1]
    split
    · exact (hp s s' hpart).2
    · exact hpart

/-! ## Calls on an event of the call -/

/-- `mark_retry`, `mark_dead` and `retry_dead`. -/
theorem follows_updateOne {fault : Option String} {p : Row → Bool} {f : Row → Progress}
    {msg id : String} (hid : owner id = some c) (hkey : ∀ r, p r = true → r.eventId = id) :
    Follows owner c (fun _ _ => True) (updateOne fault p f msg) (updateOne fault p f msg) := by
  refine .bind (.statement (follows_updateOutbox_of_key hid (fun _ _ _ _ _ => rfl)
    fun _ => hkey)) ?_
  rintro n _ rfl
  exact .require _ _

theorem follows_markInFlight {id : String} {now : Int} {fault : FaultPlan}
    (hid : owner id = some c) :
    Follows owner c (fun _ _ => True) (markInFlight id now fault) (markInFlight id now fault) := by
  apply Follows.transaction
  refine .bind (V := Eq) (.statement (follows_updateOutbox_of_key hid ?_ ?_)) ?_
  · intro db db' h r hr
    simp only [sendable, h.deliverable hr]
  · intro db r hr
    exact (sendable_iff.mp hr).1
  rintro n _ rfl
  refine .bind (.require _ _) fun _ _ _ => ?_
  -- the smaller run has turns left as long as the larger one has
  refine .bind (V := fun n m : Nat => n = 1 → m = 1) (.statement ?_) ?_
  · intro db db' h
    have hturn := h.turn
    simp only [EStateM.run_bind, EStateM.run_get]
    by_cases hlt : db.turn < int64Max
    · rw [if_pos hlt, if_pos (Int.lt_of_le_of_lt hturn hlt)]
      exact .done ⟨fun _ => rfl, { h with turn := Int.add_le_add_right hturn 1 }⟩
    · -- the larger run is refused
      rw [if_neg hlt]
      by_cases hlt' : db'.turn < int64Max
      · rw [if_pos hlt']
        refine .done ⟨fun h0 => absurd h0 (by decide), { h with turn := ?_ }⟩
        exact Int.le_trans (Int.add_one_le_of_lt hlt') (Int.not_lt.mp hlt)
      · rw [if_neg hlt']
        exact .done ⟨fun h0 => absurd h0 (by decide), h⟩
  intro n m hnm
  refine .bind (.require_skipped (Or.inr (Or.inr rfl)) ?_) fun _ _ _ => ?_
  · simpa using hnm
  refine .bind (V := fun _ _ => True) (.statement (follows_updateStreams ?_)) fun _ _ _ => .pure trivial
  intro db db' _ s s' _ hpart
  have hsame : ∀ (b : Bool) (q : Stream) (t : Int),
      (if b then ⟨q.toOwnership, { q.toCursor with lastServedMs := t }⟩ else q : Stream).part =
        q.part := by
    intro b q t
    cases b <;> rfl
  rw [hsame, hsame, hpart]

theorem follows_markAcked {id : String} {now : Int} {fault : FaultPlan}
    (hid : owner id = some c) :
    Follows owner c (fun _ _ => True) (markAcked id now fault) (markAcked id now fault) := by
  apply Follows.transaction
  refine .bind (V := fun found found' => found = found' ∧ ∀ r, found = some r → r.ofCall c = true)
    (.query ?_) ?_
  · intro db db' h
    refine ⟨by rw [h.find? hid], fun r hr => ?_⟩
    rcases Table.find?_eq_some.mp (Option.mem_filter_iff.mp hr).1 with ⟨hmem, hkey⟩
    exact (h.owned r hmem).mpr (by rw [hkey, hid])
  rintro found _ ⟨rfl, hfound⟩
  cases found with
  | none => exact Program.Tracks.throw
  | some r =>
    rcases Row.ofCall_iff.mp (hfound r rfl) with ⟨hg, hcall⟩
    have huuid : r.uuid ≠ "" := by simpa [Event.grouped] using hg
    have hdelete : Follows owner c (fun _ _ => True)
        (statement (fault .deleteRow)
          (modify fun db => { db with outbox := db.outbox.delete fun q => q.eventId = id }))
        (statement (fault .deleteRow)
          (modify fun db => { db with outbox := db.outbox.delete fun q => q.eventId = id })) :=
      .statement fun db db' h => .done ⟨trivial, h.delete fun _ _ _ => rfl⟩
    simp only [huuid, ne_eq, not_false_eq_true, if_true]
    refine .bind (V := Eq) (.statement (follows_updateStreams_of_call ?_ ?_)) ?_
    · intro s hs
      simp only [Bool.and_eq_true, decide_eq_true_eq] at hs
      exact hs.1.trans hcall
    · intro s s' hpart
      simp only [Stream.part, Prod.mk.injEq] at hpart ⊢
      rw [hpart.1, hpart.2.1, hpart.2.2]
      exact ⟨rfl, rfl, rfl, rfl⟩
    rintro n _ rfl
    refine .bind (.require _ _) fun _ _ _ => ?_
    refine .bind (.statement (follows_updateOutbox fun _ _ _ _ _ => rfl)) fun _ _ _ => ?_
    exact hdelete

/-! ## `insert_pending` of the call -/

/-- The smaller table has room when the larger one has. -/
theorem Part.full {db db' : Db} (h : Part owner c db db') {lim : Limits} {rec : OutboxRecord}
    (hfull : full lim rec db'.outbox = true) : full lim rec db.outbox = true := by
  have hshrinks : Shrinks db.outbox db'.outbox := by
    unfold Shrinks
    rw [h.rows]
    exact List.filter_sublist.map Row.toEvent
  have hlength := hshrinks.length_le
  have hbytes := hshrinks.bytes_le
  simp only [EventKafka.full, Bool.or_eq_true, decide_eq_true_eq] at hfull ⊢
  omega

theorem Part.reclaim {db db' : Db} (h : Part owner c db db') (a b : Bool) :
    Part owner c (if a then db.reclaim else db) (if b then db'.reclaim else db') := by
  have hnone : ∀ r : Row, r.ofCall c = true → reclaimable r = false := by
    intro r hr
    simp [reclaimable, (Row.ofCall_iff.mp hr).1]
  have hright : db'.reclaim = db' := by
    have hrows : db'.outbox.delete reclaimable = db'.outbox := by
      apply Table.ext_rows
      refine List.filter_eq_self.mpr fun r hr => ?_
      simp [hnone r (h.mem.mp hr).2]
    rw [Db.reclaim, hrows]
  rw [hright, ite_self]
  cases a with
  | false => exact h
  | true => exact h.delete_left fun r _ hr => hnone r hr

theorem follows_checkRetired {rec : OutboxRecord} {fault : FaultPlan} :
    Follows owner c (fun _ _ => True) (checkRetired rec fault) (checkRetired rec fault) := by
  refine Program.Tracks.ite (fun _ => ?_) fun _ => Follows.pure trivial
  refine Follows.bind (V := Eq) (.query ?_) ?_
  · intro db db' h
    rw [h.unfenced.1, h.unfenced.2]
  · rintro fence _ rfl
    exact .require _ _

/-- Without a fault in the reclaim, room is all that can be lacking in one and not in
the other. -/
theorem follows_makeRoom {lim : Limits} {rec : OutboxRecord} {fault : FaultPlan}
    (hfault : fault .reclaim = none) :
    Follows owner c (fun _ _ => True) (makeRoom lim rec fault) (makeRoom lim rec fault) := by
  refine Follows.bind (V := fun _ _ => True) (.query fun _ _ _ => trivial) fun a b _ => ?_
  have hinsist : Follows owner c (fun _ _ => True)
      (do
        let stillNoRoom ← query (fault .usageAfter) fun db => full lim rec db.outbox
        require (!stillNoRoom) "outbox capacity exceeded")
      (do
        let stillNoRoom ← query (fault .usageAfter) fun db => full lim rec db.outbox
        require (!stillNoRoom) "outbox capacity exceeded") := by
    refine Follows.bind (V := fun a b => b = true → a = true) (.query fun _ _ h => h.full) ?_
    intro a b hab
    refine .require_skipped (Or.inl rfl) ?_
    cases a <;> cases b <;> simp_all
  -- either side may have to reclaim, and the rows of the call stay
  intro db db' h
  have hrun := hinsist _ _ (h.reclaim a b)
  rw [hfault]
  cases a <;> cases b <;> exact hrun

/-- A stream the call does not have yet is created in both. -/
theorem Part.newStream {db db' : Db} (h : Part owner c db db') {rec : OutboxRecord}
    (hcall : rec.call = c) (hnone : db.callStreams.find? c = none) :
    db'.callStreams.rows = [] ∧ ∃ t t', db.callStreams.insert (newStream rec) = some t ∧
      db'.callStreams.insert (newStream rec) = some t' ∧
      Part owner c { db with callStreams := t } { db' with callStreams := t' } := by
  have hnone' : db'.callStreams.find? c = none := by
    have hstream := h.stream
    rwa [hnone, Option.map_none, Option.map_eq_none_iff] at hstream
  -- the part has streams of `c` only
  have hempty : db'.callStreams.rows = [] := by
    rw [List.eq_nil_iff_forall_not_mem]
    exact fun s hs => Table.find?_eq_none.mp hnone' s hs (h.alone s hs)
  have hfree : ∀ t : StreamTable, t.find? c = none →
      ∃ t', t.insert (EventKafka.newStream rec) = some t' := by
    intro t ht
    rw [← hcall] at ht
    exact Table.exists_insert ht rfl
  have hfound : ∀ {t t' : StreamTable}, t.insert (EventKafka.newStream rec) = some t' →
      t'.find? c = some (EventKafka.newStream rec) := fun hins =>
    (Table.find?_insert hins c).trans (if_pos hcall.symm)
  rcases hfree db.callStreams hnone with ⟨t, ht⟩
  rcases hfree db'.callStreams hnone' with ⟨t', ht'⟩
  refine ⟨hempty, t, t', ht, ht', { h with stream := ?_, alone := ?_ }⟩
  · rw [hfound ht, hfound ht']
  · intro s hs
    rcases (Table.mem_insert ht').mp hs with hold | rfl
    · exact h.alone s hold
    · exact hcall

theorem follows_position {lim : Limits} {rec : OutboxRecord} {fault : FaultPlan}
    (hcall : rec.call = c) :
    Follows owner c Eq (position lim rec fault) (position lim rec fault) := by
  refine Program.Tracks.bind
    (Q := fun found found' db db' => Part owner c db db' ∧ found = db.callStreams.find? c ∧
      found' = db'.callStreams.find? c) (.query fun db db' h => ⟨h, ?_, ?_⟩) ?_
  · exact congrArg _ hcall
  · exact congrArg _ hcall
  intro found found' db db' hfound
  rcases hfound with ⟨h, hs, hs'⟩
  cases found with
  | some s =>
    rcases h.streams hs.symm with ⟨s', hsome, hpart⟩
    rw [← hs'] at hsome
    subst hsome
    simp only [Stream.part, Prod.mk.injEq] at hpart
    refine (?_ : Follows owner c Eq _ _) db db' h
    dsimp only
    rw [hpart.1, hpart.2.1, hpart.2.2]
    refine .bind (.require _ _) fun _ _ _ => ?_
    refine Program.Tracks.ite (fun _ => Follows.pure rfl) fun _ => ?_
    exact Follows.bind (.require _ _) fun _ _ _ => .pure rfl
  | none =>
    rcases h.newStream hcall hs.symm with ⟨hempty, t, t', ht, ht', hnew⟩
    have hnone' : found' = none := by
      rw [hs', Table.find?_eq_none]
      simp [Table.mem_def, hempty]
    subst hnone'
    -- nothing happens before the stream is created but a count, which is smaller in `db'`
    refine (?_ : Program.Tracks Exhausted (fun s t => s = db ∧ t = db')
      (fun a b s t => a = b ∧ Part owner c s t) _ _) db db' ⟨rfl, rfl⟩
    refine .bind (Q := fun n m s t => m = 0 ∧ s = db ∧ t = db') (.query ?_) fun n m => ?_
    · rintro _ _ ⟨rfl, rfl⟩
      exact ⟨by simp [hempty], rfl, rfl⟩
    refine .bind (.require_skipped (Or.inr (Or.inl rfl)) ?_) fun _ _ => ?_
    · rintro _ _ ⟨rfl, -⟩ hlt
      simp only [decide_eq_true_eq] at hlt ⊢
      omega
    refine .bind (Q := fun _ _ => Part owner c) (.statement ?_) fun _ _ => .pure fun _ _ h => ⟨rfl, h⟩
    rintro _ _ ⟨-, rfl, rfl⟩
    simp only [EStateM.run_bind, EStateM.run_get, ht, ht']
    exact .done hnew

/-- The position of a row of the call is taken in both tables or in neither. -/
theorem Part.seqIndex_mem {db db' : Db} (h : Part owner c db db') {r : Row}
    (hr : r.ofCall c = true) (hsome : r.seqIndex.isSome = true) :
    r.seqIndex ∈ db'.outbox.rows.map (fun q => q.seqIndex) ↔
      r.seqIndex ∈ db.outbox.rows.map fun q => q.seqIndex := by
  rw [h.rows]
  constructor
  · exact fun hindex => List.map_subset _ (List.filter_subset_self _) hindex
  · intro hindex
    rcases List.mem_map.mp hindex with ⟨q, hq, heq⟩
    refine List.mem_map.mpr ⟨q, List.mem_filter.mpr ⟨hq, ?_⟩, heq⟩
    rcases Option.isSome_iff_exists.mp hsome with ⟨⟨t, u, k⟩, hi⟩
    rw [hi, Event.seqIndex_eq] at heq
    rw [Event.seqIndex_eq] at hi
    have hsame : q.topic = r.topic ∧ q.callUuid = r.callUuid :=
      ⟨heq.1.trans hi.1.symm, heq.2.1.trans hi.2.1.symm⟩
    unfold Row.ofCall Event.grouped Event.call Event.uuid at hr ⊢
    rw [hsame.1, hsame.2]
    exact hr

theorem Part.notUnique_eq {db db' : Db} (h : Part owner c db db') {r : Row}
    (hr : r.ofCall c = true) : notUnique db.outbox r = notUnique db'.outbox r := by
  rw [notUnique, notUnique]
  congr 1
  exact propext (and_congr_right fun hsome => (h.seqIndex_mem hr hsome).symm)

/-- A row of the call goes into both tables or into neither. -/
theorem Part.insertRow {db db' : Db} (h : Part owner c db db') {r : Row} (hr : r.ofCall c = true)
    (hid : owner r.eventId = some c) :
    (db.outbox.insert r = none ∧ db'.outbox.insert r = none) ∨
      ∃ t t', db.outbox.insert r = some t ∧ db'.outbox.insert r = some t' ∧
        Part owner c { db with outbox := t } { db' with outbox := t' } := by
  -- a row in the way is a row of the call
  have hconflict : db'.outbox.Conflict r ↔ db.outbox.Conflict r := by
    unfold Table.Conflict
    refine or_congr ?_ (and_congr_right fun hsome => h.seqIndex_mem hr hsome)
    rw [h.rows]
    constructor
    · exact fun hkey => List.map_subset _ (List.filter_subset_self _) hkey
    · intro hkey
      rcases List.mem_map.mp hkey with ⟨q, hq, heq⟩
      refine List.mem_map.mpr ⟨q, List.mem_filter.mpr ⟨hq, (h.owned q hq).mpr ?_⟩, heq⟩
      rw [heq, hid]
  cases hins : db.outbox.insert r with
  | none =>
    left
    exact ⟨rfl, Table.insert_eq_none.mpr (hconflict.mpr (Table.insert_eq_none.mp hins))⟩
  | some t =>
    right
    have hins' : db'.outbox.insert r ≠ none := by
      intro hnone
      rw [Table.insert_eq_none.mpr (hconflict.mp (Table.insert_eq_none.mp hnone))] at hins
      cases hins
    rcases Option.ne_none_iff_exists'.mp hins' with ⟨t', ht'⟩
    refine ⟨t, t', rfl, ht', { h with rows := ?_, owned := ?_ }⟩
    · show t'.rows = t.rows.filter (Row.ofCall c)
      rw [(Table.insert_eq_some.mp ht').2, (Table.insert_eq_some.mp hins).2, List.filter_append,
        h.rows]
      simp [hr]
    · intro q hq
      rcases (Table.mem_insert hins).mp hq with hold | rfl
      · exact h.owned q hold
      · exact ⟨fun _ => hid, fun _ => hr⟩

theorem follows_place {lim : Limits} {rec : OutboxRecord} {fault : FaultPlan}
    (huuid : rec.callUuid ≠ "") (hcall : rec.call = c) :
    Follows owner c Eq (place lim rec fault) (place lim rec fault) := by
  unfold place
  rw [if_pos huuid]
  refine .bind (.require _ _) fun _ _ _ => ?_
  refine .bind (follows_position hcall) ?_
  rintro ⟨seq, dn⟩ _ rfl
  refine .bind (.require _ _) fun _ _ _ => ?_
  refine .bind (V := fun _ _ => True) (.statement (follows_updateStreams ?_)) fun _ _ _ => .pure rfl
  intro db db' _ s s' _ hpart
  simp only [Stream.part, Prod.mk.injEq] at hpart
  have hown : s'.call = s.call := congrArg Ownership.call hpart.1
  rw [hown]
  split
  · simp only [Stream.part]
    rw [hpart.1, hpart.2.1, hpart.2.2]
  · simp only [Stream.part]
    rw [hpart.1, hpart.2.1, hpart.2.2]

theorem follows_insertPending {lim : Limits} {rec : OutboxRecord} {now : Int} {fault : FaultPlan}
    (huuid : rec.callUuid ≠ "") (hcall : rec.call = c) (hid : owner rec.eventId = some c)
    (hfault : fault .reclaim = none) :
    Follows owner c Eq (insertPending lim rec now fault) (insertPending lim rec now fault) := by
  apply Follows.transaction
  refine .bind follows_checkRetired fun _ _ _ => ?_
  refine .bind (follows_makeRoom hfault) fun _ _ _ => ?_
  refine .bind (follows_place huuid hcall) ?_
  rintro ⟨seq, dn⟩ _ rfl
  refine .bind (V := fun _ _ => True) (.statement ?_) fun _ _ _ => .pure rfl
  intro db db' h
  have hr : (newRow rec now seq dn).ofCall c = true := by
    rw [Row.ofCall_iff, ← hcall]
    exact ⟨by simpa [newRow, Event.grouped, Event.uuid] using huuid, rfl⟩
  simp only [EStateM.run_bind, EStateM.run_get]
  rcases h.insertRow hr hid with ⟨hnone, hnone'⟩ | ⟨t, t', ht, ht', hpart⟩
  · rw [hnone, hnone']
    simp only [h.notUnique_eq hr]
    exact .failed
  · rw [ht, ht']
    exact .done ⟨trivial, hpart⟩

end Statements

end EventKafka
