import EventKafka.Lib.Relational
import EventKafka.Outbox.History

/-! # Up to rowid

Rows come out of a table in the order they went in, and no transition looks at that
order: it looks rows up, counts them, or rewrites each by itself. Two databases with the
same rows in another order answer every call alike, now and in every later life; only
`fetch_due` breaks its last ties by rowid.
-/

namespace EventKafka

open Sql

/-! ## The same rows -/

/-- The databases differ in the order of their rows at most. -/
structure Db.Same (db db' : Db) : Prop where
  outbox : Table.Same db.outbox db'.outbox
  callStreams : Table.Same db.callStreams db'.callStreams
  retiredCalls : Table.Same db.retiredCalls db'.retiredCalls
  turn : db.turn = db'.turn

namespace Db.Same

variable {db db' db'' : Db}

theorem refl (db : Db) : db.Same db := ⟨.refl _, .refl _, .refl _, rfl⟩

theorem symm (h : db.Same db') : db'.Same db :=
  ⟨h.outbox.symm, h.callStreams.symm, h.retiredCalls.symm, h.turn.symm⟩

/-- Reordering twice is reordering. -/
theorem trans (h : db.Same db') (h' : db'.Same db'') : db.Same db'' :=
  ⟨h.outbox.trans h'.outbox, h.callStreams.trans h'.callStreams,
    h.retiredCalls.trans h'.retiredCalls, h.turn.trans h'.turn⟩

/-- Whether a row is at the head of its call is decided by the call's one stream. -/
theorem deliverable (h : db.Same db') (r : Event) : db.deliverable r = db'.deliverable r := by
  unfold Db.deliverable Db.isHead Db.streamOf
  simp only [h.callStreams.find?_eq]

/-- An update rewrites each row by itself. -/
theorem updateOutbox (h : db.Same db') (p : Row → Bool) (f : Row → Progress) :
    (db.updateOutbox p f).Same (db'.updateOutbox p f) :=
  { h with outbox := h.outbox.update p (fun r => ⟨r.toEvent, f r⟩) (fun _ => rfl) fun _ => rfl }

/-- So does an update of the streams. -/
theorem updateStreams (h : db.Same db') (p : Stream → Bool) (f : Stream → Cursor) :
    (db.updateStreams p f).Same (db'.updateStreams p f) :=
  { h with
    callStreams :=
      h.callStreams.update p (fun s => ⟨s.toOwnership, f s⟩) (fun _ => rfl) fun _ => rfl }

/-- The bytes of the payloads add up to the same sum in any order. -/
theorem payloadBytes (h : db.Same db') : payloadBytes db.outbox = payloadBytes db'.outbox := by
  have hsum : ∀ t : OutboxTable, EventKafka.payloadBytes t =
      (t.rows.map fun r => r.payload.length).sum := by
    intro t
    rw [List.sum_eq_foldl_nat, List.foldl_map]
    rfl
  rw [hsum, hsum]
  exact (List.Perm.map _ h.outbox).sum_nat

/-- The capacity check sees two numbers, the rows and their bytes. -/
theorem full (h : db.Same db') (lim : Limits) (rec : OutboxRecord) :
    full lim rec db.outbox = full lim rec db'.outbox := by
  unfold EventKafka.full
  rw [h.payloadBytes, h.outbox.length_eq]

/-- Which constraint a clash is reported for does not depend on the order either. -/
theorem notUnique (h : db.Same db') (r : Row) :
    notUnique db.outbox r = notUnique db'.outbox r := by
  have hindex : r.seqIndex ∈ db.outbox.rows.map (fun q => q.seqIndex) ↔
      r.seqIndex ∈ db'.outbox.rows.map fun q => q.seqIndex :=
    (List.Perm.map _ h.outbox).mem_iff
  rw [EventKafka.notUnique, EventKafka.notUnique]
  congr 1
  exact propext (and_congr_right fun _ => hindex)

end Db.Same

/-! ## Programs that do not see the order -/

/-- Same rows in, same value or exception and same rows out. -/
def Blind {α : Type} (x : Prog α) : Prop :=
  Program.Tracks (fun _ => False) Db.Same (fun a b db db' => a = b ∧ db.Same db') x x

namespace Blind

variable {α β : Type}

theorem pure (a : α) : Blind (pure a : Prog α) :=
  Program.Tracks.pure fun _ _ h => ⟨rfl, h⟩

theorem throw (e : String) : Blind (throw e : Prog α) := Program.Tracks.throw

/-- The second program may depend on the value of the first, which is the same on both sides. -/
theorem bind {x : Prog α} {f : α → Prog β} (hx : Blind x) (hf : ∀ a, Blind (f a)) :
    Blind (x >>= f) := by
  refine Program.Tracks.bind hx fun a b db db' h => ?_
  obtain ⟨rfl, hsame⟩ := h
  exact hf a db db' hsame

theorem statement {fault : Option String} {x : Prog α} (h : Blind x) :
    Blind (Sql.statement fault x) :=
  Program.Tracks.statement h

theorem transaction {f g : Option String} {x : Prog α} (h : Blind x) :
    Blind (Sql.transaction f g x) :=
  Program.Tracks.transaction h

/-- A `SELECT` whose result does not depend on the order. -/
theorem query {fault : Option String} {f : Db → α} (h : ∀ db db', db.Same db' → f db = f db') :
    Blind (Sql.query fault f) :=
  Program.Tracks.query fun db db' hsame => ⟨h db db' hsame, hsame⟩

/-- A check of a value that is the same on both sides. -/
theorem require (b : Bool) (msg : String) : Blind (require b msg : Prog Unit) :=
  (Program.Tracks.require fun _ _ _ => rfl).weaken (fun _ _ h => h) fun _ _ _ _ h => ⟨rfl, h⟩

theorem ite {c : Prop} [Decidable c] {x y : Prog α} (hx : c → Blind x) (hy : ¬ c → Blind y) :
    Blind (if c then x else y) :=
  Program.Tracks.ite hx hy

/-- A statement that maps reordered databases to reordered ones. -/
theorem modify {f : Db → Db} (h : ∀ db db', db.Same db' → (f db).Same (f db')) :
    Blind (modify f : Prog PUnit) :=
  fun db db' hsame => .done ⟨rfl, h db db' hsame⟩

/-- The condition may look at the database, through what the order leaves alone. -/
theorem updateOutbox {p : Db → Row → Bool} {f : Row → Progress}
    (hp : ∀ db db', db.Same db' → p db = p db') : Blind (updateOutbox p f) := by
  intro db db' h
  refine .done ⟨?_, ?_⟩
  · rw [← hp db db' h]
    exact h.outbox.changes_eq _
  · rw [← hp db db' h]
    exact h.updateOutbox _ f

/-- The same for the streams, whose new values may look at the database too. -/
theorem updateStreams {p : Db → Stream → Bool} {f : Db → Stream → Cursor}
    (hp : ∀ db db', db.Same db' → p db = p db' ∧ f db = f db') : Blind (updateStreams p f) := by
  intro db db' h
  obtain ⟨hp, hf⟩ := hp db db' h
  refine .done ⟨?_, ?_⟩
  · rw [← hp]
    exact h.callStreams.changes_eq _
  · rw [← hp, ← hf]
    exact h.updateStreams _ _

/-- Both sides end alike. -/
theorem ends {x : Prog α} (hx : Blind x) {db db' : Db} (h : db.Same db') :
    (∃ e s s', x.run db = .error e s ∧ x.run db' = .error e s') ∨
      ∃ a s s', x.run db = .ok a s ∧ x.run db' = .ok a s' ∧ s.Same s' := by
  rcases Program.Tracks.ends hx h with
    ⟨_, _, _, hskip⟩ | ⟨e, s, s', hrun, hrun'⟩ | ⟨a, a', s, s', hrun, hrun', ha, hsame⟩
  · exact hskip.elim
  · exact .inl ⟨e, s, s', hrun, hrun'⟩
  · subst ha
    exact .inr ⟨a, s, s', hrun, hrun', hsame⟩

end Blind

/-! ## Every call -/

/-- A position comes from the one stream of the call, or from the number of streams. -/
theorem blind_position {lim : Limits} {rec : OutboxRecord} {fault : FaultPlan} :
    Blind (position lim rec fault) := by
  refine .bind (.query fun db db' h => h.callStreams.find?_eq _) fun found => ?_
  cases found with
  | some s =>
    refine .bind (.require _ _) fun _ => ?_
    refine .ite (fun _ => .pure _) fun _ => ?_
    exact .bind (.require _ _) fun _ => .pure _
  | none =>
    refine .bind (.query fun db db' h => h.callStreams.length_eq) fun count => ?_
    refine .bind (.require _ _) fun _ => ?_
    refine .bind (.statement ?_) fun _ => .pure _
    -- the call has a stream in both tables or in neither
    intro db db' h
    simp only [EStateM.run_bind, EStateM.run_get]
    rcases h.callStreams.insert (newStream rec) with ⟨hnone, hnone'⟩ | ⟨t, t', ht, ht', hsame⟩
    · rw [hnone, hnone']
      exact .failed
    · rw [ht, ht']
      exact .done ⟨trivial, { h with callStreams := hsame }⟩

/-- The place of a record is a check of its position and an update of one stream. -/
theorem blind_place {lim : Limits} {rec : OutboxRecord} {fault : FaultPlan} :
    Blind (place lim rec fault) := by
  refine .ite (fun _ => ?_) fun _ => .bind (.require _ _) fun _ => .pure _
  refine .bind (.require _ _) fun _ => ?_
  refine .bind blind_position fun x => ?_
  refine .bind (.require _ _) fun _ => ?_
  exact .bind (.statement (.updateStreams fun _ _ _ => ⟨rfl, rfl⟩)) fun _ => .pure _

/-- An admission looks up a fence, measures the table, places the record and inserts it: the
uniqueness of a row is a matter of the rows there are. -/
theorem blind_insertPending {lim : Limits} {rec : OutboxRecord} {now : Int} {fault : FaultPlan} :
    Blind (insertPending lim rec now fault) := by
  apply Blind.transaction
  refine .bind (.ite (fun _ => ?_) fun _ => .pure _) fun _ => ?_
  · exact .bind (.query fun db db' h => h.retiredCalls.find?_eq _) fun _ => .require _ _
  -- dead rows go from both outboxes before the second look
  refine .bind (.bind (.query fun db db' h => h.full lim rec) fun noRoom => ?_) fun _ => ?_
  · have hinsist : Blind (do
        let stillNoRoom ← query (fault .usageAfter) fun db => full lim rec db.outbox
        require (!stillNoRoom) "outbox capacity exceeded") :=
      .bind (.query fun db db' h => h.full lim rec) fun _ => .require _ _
    refine .ite (fun _ => ?_) fun _ => hinsist
    refine .bind (.statement (.modify fun db db' h => ?_)) fun _ => hinsist
    exact { h with outbox := h.outbox.delete _ }
  refine .bind blind_place fun x => ?_
  refine .bind (.statement ?_) fun _ => .pure _
  intro db db' h
  simp only [EStateM.run_bind, EStateM.run_get]
  rcases h.outbox.insert (newRow rec now x.1 x.2) with ⟨hnone, hnone'⟩ | ⟨t, t', ht, ht', hsame⟩
  · rw [hnone, hnone']
    simp only [h.notUnique]
    exact .failed
  · rw [ht, ht']
    exact .done ⟨trivial, { h with outbox := hsame }⟩

/-- The row is named by its id, and the turn is one number. -/
theorem blind_markInFlight {id : String} {now : Int} {fault : FaultPlan} :
    Blind (markInFlight id now fault) := by
  apply Blind.transaction
  refine .bind (.statement (.updateOutbox fun db db' h => ?_)) fun _ => ?_
  · funext r
    simp only [sendable, h.deliverable]
  refine .bind (.require _ _) fun _ => ?_
  refine .bind (.statement ?_) fun _ => ?_
  · -- the turn is one number, which both advance
    intro db db' h
    simp only [EStateM.run_bind, EStateM.run_get, ← h.turn]
    split
    · exact .done ⟨rfl, { h with turn := rfl }⟩
    · exact .done ⟨rfl, h⟩
  refine .bind (.require _ _) fun _ => ?_
  refine .bind (.statement (.updateStreams fun db db' h => ⟨?_, ?_⟩)) fun _ => .pure _
  · simp only [h.outbox.find?_eq]
  · simp only [h.turn]

/-- The row is looked up by its id, and its successor by its position. -/
theorem blind_markAcked {id : String} {now : Int} {fault : FaultPlan} :
    Blind (markAcked id now fault) := by
  apply Blind.transaction
  refine .bind (.query fun db db' h => by rw [h.outbox.find?_eq]) fun found => ?_
  have hdelete : Blind (statement (fault .deleteRow)
      (modify fun db : Db => { db with outbox := db.outbox.delete fun q => q.eventId = id })) :=
    .statement (.modify fun db db' h => { h with outbox := h.outbox.delete _ })
  cases found with
  | none => exact .throw _
  | some r =>
    refine .ite (fun _ => ?_) fun _ => hdelete
    refine .bind (.statement (.updateStreams fun _ _ _ => ⟨rfl, rfl⟩)) fun _ => ?_
    refine .bind (.require _ _) fun _ => ?_
    exact .bind (.statement (.updateOutbox fun _ _ _ => rfl)) fun _ => hdelete

/-- `mark_retry`, `mark_dead` and `retry_dead` name their row. -/
theorem blind_updateOne {fault : Option String} {p : Row → Bool} {f : Row → Progress}
    {msg : String} : Blind (updateOne fault p f msg) :=
  .bind (.statement (.updateOutbox fun _ _ _ => rfl)) fun _ => .require _ _

/-- Whether a row expires depends on the row and the stream of its call. -/
theorem blind_expireTtl {now ttl : Int} {fault : FaultPlan} : Blind (expireTtl now ttl fault) := by
  refine .bind (.statement (.updateOutbox fun db db' h => ?_)) fun _ => .pure _
  funext r
  simp only [expires, h.deliverable]

/-- The checks of `open` ask whether some row is bad, and its stamps look at single rows. -/
theorem blind_openDb {fault : FaultPlan} : Blind (openDb fault) := by
  refine .bind (.statement (.pure _)) fun _ => ?_
  apply Blind.transaction
  refine .bind (.statement (.pure _)) fun _ => ?_
  refine .bind (.query fun db db' h => ?_) fun _ => ?_
  · have hcorrupt : corrupt db = corrupt db' := by
      funext r
      simp only [corrupt, Db.streamOf, h.callStreams.find?_eq]
    rw [hcorrupt]
    exact h.outbox.any_eq _
  refine .bind (.require _ _) fun _ => ?_
  refine .bind (.query fun db db' h => ?_) fun _ => ?_
  · simp only [h.callStreams.find?_eq]
    exact h.retiredCalls.any_eq _
  refine .bind (.require _ _) fun _ => ?_
  refine .bind (.statement (.updateOutbox fun db db' h => ?_)) fun _ => .pure _
  funext r
  simp only [h.deliverable]

/-- The retirement tool counts rows and names its call. -/
theorem blind_retire {args : RetireArgs} {atMs : Int} {fault : FaultPlan} :
    Blind (retire args atMs fault) := by
  refine .bind ?_ fun _ => ?_
  · refine .bind (.require _ _) fun _ => ?_
    refine .bind (.require _ _) fun _ => ?_
    exact .bind (.require _ _) fun _ => .require _ _
  apply Blind.transaction
  refine .bind (.require _ _) fun _ => ?_
  refine .bind (.query fun db db' h => h.callStreams.find?_eq _) fun cursor => ?_
  split
  · exact .throw _
  rename_i s _
  refine .bind (.query fun db db' h => h.outbox.changes_eq _) fun _ => ?_
  refine .bind (.require _ _) fun _ => ?_
  refine .bind (.query fun db db' h => h.retiredCalls.length_eq) fun _ => ?_
  refine .bind (.require _ _) fun _ => ?_
  refine .bind (.statement ?_) fun _ => ?_
  · intro db db' h
    simp only [EStateM.run_bind, EStateM.run_get]
    rcases h.retiredCalls.insert (args.fence s atMs) with
      ⟨hnone, hnone'⟩ | ⟨t, t', ht, ht', hsame⟩
    · rw [hnone, hnone']
      exact .failed
    · rw [ht, ht']
      exact .done ⟨trivial, { h with retiredCalls := hsame }⟩
  refine .bind (.statement (.modify fun db db' h => ?_)) fun _ => ?_
  · exact { h with callStreams := h.callStreams.delete _ }
  refine .bind (.query fun db db' h => ?_) fun _ => .require _ _
  rw [h.callStreams.length_eq, h.outbox.length_eq]

/-! ## Every life -/

/-- The objects differ in the order of their rows at most. -/
structure Outbox.Same (b b' : Outbox) : Prop where
  db : b.db.Same b'.db
  isOpen : b.isOpen = b'.isOpen

/-- The row a call marked in flight. -/
def Outbox.mark (b : Outbox) (op : Op) : Option Row :=
  match op, b.reply op with
  | .markInFlight id _ _, .ok _ => b.db.outbox.find? id
  | _, _ => none

/-- The row a step marked in flight. -/
def sentBy (x : Outbox × LifeOp) : Option Row :=
  match x.2 with
  | .call op => x.1.mark op
  | .retire _ _ _ => none

/-- The sequences of the successful `mark_in_flight` calls for rows of `c`, in order. -/
def sendsOf (c : Call) (tr : History) : List Int :=
  tr.filterMap fun x => (sentBy x).bind fun r =>
    if r.call = c then some (r.callSeq.getD 0) else none

/-- The replies to the calls of a life. -/
def repliesOf (tr : History) : List (Except String Int) :=
  tr.filterMap fun x =>
    match x.2 with
    | .call op => some (x.1.reply op)
    | .retire _ _ _ => none

namespace Outbox.Same

variable {b b' b'' : Outbox}

theorem refl (b : Outbox) : b.Same b := ⟨.refl _, rfl⟩

theorem symm (h : b.Same b') : b'.Same b := ⟨h.db.symm, h.isOpen.symm⟩

theorem trans (h : b.Same b') (h' : b'.Same b'') : b.Same b'' :=
  ⟨h.db.trans h'.db, h.isOpen.trans h'.isOpen⟩

/-- The body of a call rolls back on an exception, so both databases stay as they were. -/
theorem call {α : Type} {body : Prog α} (value : α → Int) (h : b.Same b') (hblind : Blind body)
    (hatomic : Atomic body) :
    (b.call body value).1 = (b'.call body value).1 ∧
      (b.call body value).2.Same (b'.call body value).2 := by
  unfold Outbox.call
  rw [← h.isOpen]
  cases hopen : b.isOpen with
  | false => exact ⟨rfl, h⟩
  | true =>
    rcases hblind.ends h.db with ⟨e, s, s', hrun, hrun'⟩ | ⟨x, s, s', hrun, hrun', hsame⟩
    · -- an exception undoes what was written
      rw [hrun, hrun']
      have hs := hatomic _ _ _ hrun
      have hs' := hatomic _ _ _ hrun'
      subst hs hs'
      exact ⟨rfl, h.db, rfl⟩
    · rw [hrun, hrun']
      exact ⟨rfl, hsame, rfl⟩

/-- Every call of the interface answers alike and leaves the same rows. -/
theorem exec (h : b.Same b') (op : Op) :
    b.reply op = b'.reply op ∧ (b.step op).Same (b'.step op) := by
  cases op with
  | insertPending lim rec now fault => exact h.call _ blind_insertPending atomic_transaction
  | markInFlight id now fault => exact h.call _ blind_markInFlight atomic_transaction
  | markAcked id now fault => exact h.call _ blind_markAcked atomic_transaction
  | markRetry id _ _ _ _ | markDead id _ _ _ | retryDead id _ _ _ =>
    exact h.call _ blind_updateOne (atomic_updateOne id fun _ => eventId_of_keyed)
  | requeueInFlight now₁ now₂ fault =>
    refine h.call _ ?_ atomic_requeueInFlight
    exact .bind (.statement (.updateOutbox fun _ _ _ => rfl)) fun _ => .pure _
  | expireTtl now ttl fault =>
    unfold Outbox.reply Outbox.step Outbox.exec
    by_cases httl : ttl ≤ 0
    · simp only [httl, if_true]
      exact ⟨trivial, h⟩
    · simp only [httl, if_false]
      exact h.call _ blind_expireTtl atomic_expireTtl
  | openDb fault =>
    unfold Outbox.reply Outbox.step Outbox.exec
    simp only [← h.isOpen]
    cases hopen : b.isOpen with
    | true => exact ⟨rfl, h⟩
    | false =>
      rcases blind_openDb.ends h.db with ⟨e, s, s', hrun, hrun'⟩ | ⟨x, s, s', hrun, hrun', hsame⟩
      · rw [hrun, hrun']
        have hs := atomic_openDb _ _ _ hrun
        have hs' := atomic_openDb _ _ _ hrun'
        subst hs hs'
        exact ⟨rfl, h.db, rfl⟩
      · rw [hrun, hrun']
        exact ⟨rfl, hsame, rfl⟩
  | close => exact ⟨rfl, h.db, rfl⟩

/-- One step of a life: a call, or the retirement tool on the closed file. -/
theorem live (h : b.Same b') (act : LifeOp) : (b.live act).Same (b'.live act) := by
  cases act with
  | call op => exact (h.exec op).2
  | retire args atMs fault =>
    unfold Outbox.live
    simp only [← h.isOpen]
    split
    · exact h
    · have hblind : Blind (EventKafka.retire args atMs fault) := blind_retire
      rcases hblind.ends h.db with ⟨e, s, s', hrun, hrun'⟩ | ⟨x, s, s', hrun, hrun', hsame⟩
      · -- the command leaves the file as it was
        rw [hrun, hrun']
        exact h
      · rw [hrun, hrun']
        exact ⟨hsame, rfl⟩

end Outbox.Same

/-- Two histories of the same steps from databases with the same rows. -/
abbrev Parallel (tr tr' : History) : Prop :=
  List.Forall₂ (fun x y => x.2 = y.2 ∧ x.1.Same y.1) tr tr'

/-- The two lives stay together step by step. -/
theorem Outbox.Same.trace {b b' : Outbox} (h : b.Same b') (acts : List LifeOp) :
    Parallel (Machine.trace Outbox.live b acts) (Machine.trace Outbox.live b' acts) := by
  induction acts generalizing b b' with
  | nil => exact .nil
  | cons act acts ih => exact .cons ⟨rfl, h⟩ (ih (h.live act))

/-- The two lives end in databases with the same rows. -/
theorem Outbox.Same.run {b b' : Outbox} (h : b.Same b') (acts : List LifeOp) :
    (Machine.run Outbox.live b acts).Same (Machine.run Outbox.live b' acts) := by
  induction acts generalizing b b' with
  | nil => exact h
  | cons act acts ih => exact ih (h.live act)

/-- What a step of one shows, the same step of the other shows. -/
theorem Parallel.filterMap_eq {α : Type} {f : Outbox × LifeOp → Option α} {tr tr' : History}
    (h : Parallel tr tr') (hf : ∀ b b' act, b.Same b' → f (b, act) = f (b', act)) :
    tr.filterMap f = tr'.filterMap f := by
  induction h with
  | nil => rfl
  | @cons x y tr tr' hxy _ ih =>
    have hhead : f x = f y := by
      obtain ⟨b, act⟩ := x
      obtain ⟨b', act'⟩ := y
      obtain ⟨rfl, hsame⟩ := hxy
      exact hf b b' act hsame
    rw [List.filterMap_cons, List.filterMap_cons, hhead, ih]

/-- Two parallel lives answer every call alike. -/
theorem Parallel.replies {tr tr' : History} (h : Parallel tr tr') :
    repliesOf tr = repliesOf tr' := by
  refine h.filterMap_eq fun b b' act hsame => ?_
  cases act with
  | call op => exact congrArg some (hsame.exec op).1
  | retire args atMs fault => rfl

/-- They mark the rows of a call in flight in the same order. -/
theorem Parallel.sends {tr tr' : History} (h : Parallel tr tr') (c : Call) :
    sendsOf c tr = sendsOf c tr' := by
  refine h.filterMap_eq fun b b' act hsame => ?_
  cases act with
  | call op =>
    have hmark : b.mark op = b'.mark op := by
      unfold Outbox.mark
      simp only [(hsame.exec op).1, hsame.db.outbox.find?_eq]
    simp only [sentBy, hmark]
  | retire args atMs fault => rfl

/-- They acknowledge the rows of a call in the same order. -/
theorem Parallel.acks {tr tr' : History} (h : Parallel tr tr') (c : Call) :
    acksOf c tr = acksOf c tr' := by
  refine h.filterMap_eq fun b b' act hsame => ?_
  cases act with
  | call op =>
    have hack : b.ack op = b'.ack op := by
      unfold Outbox.ack
      simp only [(hsame.exec op).1, hsame.db.outbox.find?_eq]
    simp only [ackedBy, hack]
  | retire args atMs fault => rfl

end EventKafka
