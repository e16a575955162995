import Mathlib.Algebra.Ring.Nat
import EventKafka.Lib.Grouping
import EventKafka.Outbox.Transitions

/-! # Counting rows

`Outbox::stats` and `Outbox::oldest_pending_age_ms` look at the table and change nothing.
What they report is a count of rows, and every call of the outbox moves rows between the
counts in a known way (`Outbox.tally`).
-/

namespace EventKafka

open Sql

/-! ## `stats` -/

/-- `OutboxStats`. -/
structure OutboxStats where
  pending : Int
  inFlight : Int
  dead : Int
  totalBytes : Int
deriving DecidableEq, Repr

def OutboxStats.zero : OutboxStats := ⟨0, 0, 0, 0⟩

/-- The field of a state. -/
def OutboxStats.count (st : OutboxStats) : OutboxState → Int
  | .pending => st.pending
  | .inFlight => st.inFlight
  | .dead => st.dead

/-- `SELECT state,count(*),COALESCE(sum(length(payload)),0) FROM outbox GROUP BY state`. -/
def stateGroups (t : OutboxTable) : List (OutboxState × Nat × Nat) :=
  (Grouping.group (fun r => r.state) (fun r => r.payload.length) t.rows).map fun g =>
    (g.1, g.2.length, g.2.sum)

/-- The body of the loop over the groups. -/
def OutboxStats.read (st : OutboxStats) : OutboxState × Nat × Nat → OutboxStats
  | (.pending, n, bytes) => { st with pending := n, totalBytes := st.totalBytes + bytes }
  | (.inFlight, n, bytes) => { st with inFlight := n, totalBytes := st.totalBytes + bytes }
  | (.dead, n, bytes) => { st with dead := n, totalBytes := st.totalBytes + bytes }

/-- `Outbox::stats`: zeros when closed, an exception on a storage fault. -/
def Outbox.stats (b : Outbox) (fault : Option String) : Except String OutboxStats :=
  if b.isOpen then
    match fault with
    | some e => .error e
    | none => .ok ((stateGroups b.db.outbox).foldl OutboxStats.read .zero)
  else .ok .zero

/-- `SELECT min(created_at_ms) FROM outbox WHERE state='pending'`. -/
def oldestPending (t : OutboxTable) : Option Int :=
  ((t.rows.filter fun r => r.state = .pending).map fun r => r.createdAtMs).min?

/-- `Outbox::oldest_pending_age_ms`. -/
def Outbox.oldestPendingAgeMs (b : Outbox) (now : Int) (fault : Option String) :
    Except String Int :=
  if b.isOpen then
    match fault with
    | some e => .error e
    | none =>
      match oldestPending b.db.outbox with
      | none => .ok 0
      | some created => .ok (max 0 (now - created))
  else .ok 0

/-- The number of rows in a state. -/
def Db.count (db : Db) (st : OutboxState) : Nat := db.outbox.changes fun r => r.state = st

/-- The rows that are not dead. -/
def Db.live (db : Db) : Nat := db.outbox.changes fun r => r.state ≠ .dead

theorem Db.live_eq (db : Db) : db.live = db.count .pending + db.count .inFlight := by
  have hlist : ∀ l : List Row, l.countP (fun r => r.state ≠ .dead) =
      l.countP (fun r => r.state = .pending) + l.countP fun r => r.state = .inFlight := by
    intro l
    induction l with
    | nil => rfl
    | cons r l ih =>
      simp only [List.countP_cons, ih]
      cases r.state <;> simp <;> omega
  exact hlist db.outbox.rows

section Groups

variable {gs : List (OutboxState × Nat × Nat)} {st : OutboxStats}

/-- The loop reads each group once. -/
theorem count_foldl_read (hkeys : (gs.map Prod.fst).Nodup) (k : OutboxState) :
    (gs.foldl OutboxStats.read st).count k =
      ((gs.lookup k).map fun g => (g.1 : Int)).getD (st.count k) := by
  induction gs generalizing st with
  | nil => rfl
  | cons g gs ih =>
    rcases g with ⟨k', n, bytes⟩
    rw [List.map_cons, List.nodup_cons] at hkeys
    rw [List.foldl_cons, ih hkeys.2, List.lookup_cons]
    by_cases hk : k = k'
    · subst hk
      have hnone : gs.lookup k = none := by
        rw [List.lookup_eq_none_iff]
        intro g hg
        have hne : k ≠ g.1 := by
          rintro rfl
          exact hkeys.1 (List.mem_map.mpr ⟨g, hg, rfl⟩)
        simpa using hne
      rw [hnone]
      cases k <;> simp [OutboxStats.read, OutboxStats.count]
    · have hbeq : (k == k') = false := by simpa using hk
      have hread : (st.read (k', n, bytes)).count k = st.count k := by
        cases k' <;> cases k <;> first | rfl | exact absurd rfl hk
      rw [hbeq, hread]

theorem totalBytes_foldl_read :
    (gs.foldl OutboxStats.read st).totalBytes =
      st.totalBytes + ((gs.map fun g => g.2.2).sum : Nat) := by
  induction gs generalizing st with
  | nil => simp
  | cons g gs ih =>
    rcases g with ⟨k, n, bytes⟩
    have hread : (st.read (k, n, bytes)).totalBytes = st.totalBytes + bytes := by
      cases k <;> rfl
    rw [List.foldl_cons, ih, hread, List.map_cons, List.sum_cons]
    dsimp only
    omega

end Groups

theorem payloadBytes_eq_sum (t : OutboxTable) :
    payloadBytes t = (t.rows.map fun r => r.payload.length).sum := by
  rw [payloadBytes, List.sum_eq_foldl, List.foldl_map]

/-- What `stats` returns is the number of rows in each state, and the bytes the capacity
check adds up. -/
theorem Outbox.stats_eq {b : Outbox} (hopen : b.isOpen = true) :
    b.stats none = .ok ⟨b.db.count .pending, b.db.count .inFlight, b.db.count .dead,
      payloadBytes b.db.outbox⟩ := by
  let gs := stateGroups b.db.outbox
  have hkeys : (gs.map Prod.fst).Nodup := by
    have hgroups := Grouping.keys_nodup (fun r : Row => r.state) (fun r => r.payload.length)
      b.db.outbox.rows
    simpa [gs, stateGroups, Function.comp_def] using hgroups
  have hcount : ∀ k, (gs.foldl OutboxStats.read .zero).count k = b.db.count k := by
    intro k
    rw [count_foldl_read hkeys]
    have hvalues := Grouping.getD_lookup_group (fun r : Row => r.state)
      (fun r => r.payload.length) (l := b.db.outbox.rows) (k := k)
    have hlookup : ∀ l : List (OutboxState × List Nat),
        (l.map fun g => (g.1, g.2.length, g.2.sum)).lookup k =
          (l.lookup k).map fun as => (as.length, as.sum) := by
      intro l
      induction l with
      | nil => rfl
      | cons g l ih =>
        rw [List.map_cons, List.lookup_cons, List.lookup_cons, ih]
        cases k == g.1 <;> rfl
    have hlen : b.db.count k = (Grouping.valuesOf (fun r : Row => r.state)
        (fun r => r.payload.length) b.db.outbox.rows k).length := by
      rw [Grouping.valuesOf, List.length_map, ← List.countP_eq_length_filter]
      rfl
    rw [hlen, ← hvalues, show gs = stateGroups b.db.outbox from rfl, stateGroups, hlookup]
    cases (Grouping.group (fun r : Row => r.state) (fun r => r.payload.length)
      b.db.outbox.rows).lookup k with
    | none => cases k <;> rfl
    | some as => rfl
  have hbytes : (gs.foldl OutboxStats.read .zero).totalBytes = payloadBytes b.db.outbox := by
    rw [totalBytes_foldl_read, payloadBytes_eq_sum, show gs = stateGroups b.db.outbox from rfl,
      stateGroups, List.map_map]
    have hsum := (Grouping.group_perm (fun r : Row => r.state) (fun r => r.payload.length)
      b.db.outbox.rows).sum_nat
    simp only [OutboxStats.zero, Int.zero_add]
    rw [← hsum, List.flatMap, List.sum_flatten, List.map_map]
    rfl
  have hpending := hcount .pending
  have hflight := hcount .inFlight
  have hdead := hcount .dead
  simp only [Outbox.stats, hopen, if_true]
  simp only [OutboxStats.count] at hpending hflight hdead
  rw [← hpending, ← hflight, ← hdead, ← hbytes]

/-- What `oldest_pending_age_ms` returns bounds the age of every pending row, and no lower
value does. -/
theorem Outbox.oldestPendingAgeMs_le {b : Outbox} (hopen : b.isOpen = true) {now bound : Int}
    (hbound : 0 ≤ bound) :
    (∃ age, b.oldestPendingAgeMs now none = .ok age ∧ age ≤ bound) ↔
      ∀ r ∈ b.db.outbox, r.state = .pending → now - r.createdAtMs ≤ bound := by
  simp only [Outbox.oldestPendingAgeMs, hopen, if_true]
  cases hmin : oldestPending b.db.outbox with
  | none =>
    have hnone : ∀ r ∈ b.db.outbox, r.state ≠ .pending := by
      intro r hr hstate
      have hmem : r.createdAtMs ∈ (b.db.outbox.rows.filter fun r => r.state = .pending).map
          fun r => r.createdAtMs :=
        List.mem_map_of_mem (List.mem_filter.mpr ⟨hr, decide_eq_true hstate⟩)
      rw [List.min?_eq_none_iff.mp hmin] at hmem
      cases hmem
    exact iff_of_true ⟨0, rfl, hbound⟩ fun r hr hstate => absurd hstate (hnone r hr)
  | some created =>
    rcases List.min?_eq_some_iff.mp hmin with ⟨hmem, hle⟩
    rcases List.mem_map.mp hmem with ⟨q, hq, rfl⟩
    rcases List.mem_filter.mp hq with ⟨hqt, hqs⟩
    constructor
    · rintro ⟨age, hage, hlt⟩ r hr hstate
      have holdest := hle _ (List.mem_map_of_mem (List.mem_filter.mpr
        ⟨hr, decide_eq_true hstate⟩))
      simp only [Except.ok.injEq] at hage
      omega
    · intro h
      have holdest := h q hqt (of_decide_eq_true hqs)
      exact ⟨_, rfl, by omega⟩

/-! ## What a call moves -/

/-- How many rows a successful call brings to life; `n` is its reply. -/
def Op.born : Op → Int → Int
  | .insertPending _ _ _ _, _ => 1
  | .retryDead _ _ _ _, _ => 1
  | .markAcked _ _ _, _ => -1
  | .markDead _ _ _ _, _ => -1
  | .expireTtl _ _ _, n => -n
  | _, _ => 0

/-- How many rows it adds to the dead, those it reclaims apart. -/
def Op.died : Op → Int → Int
  | .markDead _ _ _ _, _ => 1
  | .expireTtl _ _ _, n => n
  | .retryDead _ _ _ _, _ => -1
  | _, _ => 0

/-- The rows an admission reclaims. -/
def Outbox.reclaimedRows (b : Outbox) : Op → Nat
  | .insertPending lim rec now fault =>
    b.db.outbox.changes fun r => r ∉ (b.step (.insertPending lim rec now fault)).db.outbox.rows
  | _ => 0

section Tally

variable {b b' : Outbox} {n : Int}

theorem Admission.tally {lim : Limits} {rec : OutboxRecord} {now seq : Int} {dn : Bool}
    {base : OutboxTable} {db db' : Db} (h : Admission lim rec now db db' seq dn base) :
    db'.live = db.live + 1 ∧
      db'.count .dead + db.outbox.changes (fun r => r ∉ db'.outbox.rows) = db.count .dead := by
  have hlive := Table.changes_insert (q := fun r => r.state ≠ .dead) h.row
  have hdead := Table.changes_insert (q := fun r => r.state = .dead) h.row
  have hnew : (newRow rec now seq dn).state = .pending := rfl
  simp only [hnew, reduceCtorEq, ne_eq, not_false_eq_true, decide_true, decide_false, if_true,
    Bool.false_eq_true, if_false, Nat.add_zero] at hlive hdead
  have hleft : ∀ r ∈ db.outbox, (r ∉ db'.outbox.rows ↔ r ∉ base ∧ r ≠ newRow rec now seq dn) := by
    intro r _
    rw [← Table.mem_def, Table.mem_insert h.row, not_or]
  rcases h.room with ⟨rfl, -⟩ | ⟨rfl, -, -⟩
  · have hzero : db.outbox.changes (fun r => r ∉ db'.outbox.rows) = 0 := by
      rw [Table.changes_eq_zero]
      intro r hr
      rw [decide_eq_false_iff_not, hleft r hr]
      exact fun hno => hno.1 hr
    rw [hzero]
    exact ⟨hlive, hdead⟩
  · -- the rows that left are the reclaimable ones, and those are dead
    have hgone : db.outbox.changes (fun r => r ∉ db'.outbox.rows) =
        db.outbox.changes fun r => reclaimable r && decide (r.state = .dead) := by
      refine List.countP_congr fun r hr => ?_
      rw [decide_eq_true_eq, hleft r hr, Table.mem_delete, Bool.and_eq_true, decide_eq_true_eq]
      constructor
      · rintro ⟨hno, -⟩
        have hrec : reclaimable r = true := by
          by_contra hnot
          exact hno ⟨hr, Bool.eq_false_iff.mpr hnot⟩
        refine ⟨hrec, ?_⟩
        simp only [reclaimable, Bool.and_eq_true, decide_eq_true_eq] at hrec
        exact hrec.1.1
      · rintro ⟨hrec, hstate⟩
        refine ⟨fun hno => by simp [hrec] at hno, ?_⟩
        rintro rfl
        rw [hnew] at hstate
        cases hstate
    have hnone : db.outbox.changes (fun r => reclaimable r && decide (r.state ≠ .dead)) = 0 := by
      rw [Table.changes_eq_zero]
      intro r _
      rw [Bool.eq_false_iff]
      intro hboth
      simp only [reclaimable, Bool.and_eq_true, decide_eq_true_eq] at hboth
      exact hboth.2 hboth.1.1.1
    have hlive' := Table.changes_delete (t := db.outbox) (p := reclaimable)
      (q := fun r => r.state ≠ .dead)
    have hdead' := Table.changes_delete (t := db.outbox) (p := reclaimable)
      (q := fun r => r.state = .dead)
    rw [hnone, Nat.add_zero] at hlive'
    rw [hgone]
    refine ⟨?_, ?_⟩
    · rw [Db.live, hlive, hlive']
      rfl
    · rw [Db.count, hdead, hdead']
      rfl

theorem tally_sent (db : Db) (r : Row) (now : Int) {q : Row} (hq : q ∈ db.outbox)
    (hid : q.eventId = r.eventId) (hstate : q.state = .pending) :
    (db.sent r now).live = db.live ∧ (db.sent r now).count .dead = db.count .dead := by
  have hpick : ∀ a ∈ db.outbox, decide (a.eventId = r.eventId) = true → a.state = .pending := by
    intro a ha hkey
    have haq : a = q := Table.eq_of_key ha hq ((of_decide_eq_true hkey).trans hid.symm)
    rw [haq, hstate]
  constructor
  · exact Table.changes_map_of_eq rfl fun a ha hkey => by simp [hpick a ha hkey]
  · exact Table.changes_map_of_eq rfl fun a ha hkey => by simp [hpick a ha hkey]

theorem tally_acked (db : Db) {r : Row} (now : Int) (hr : r ∈ db.outbox)
    (hstate : r.state = .inFlight) :
    (db.acked r now).live + 1 = db.live ∧ (db.acked r now).count .dead = db.count .dead := by
  -- the successor is stamped, and the row is deleted
  obtain ⟨moved, hacked, hmoved, r', hr', hid', hstate'⟩ : ∃ moved : Db,
      (db.acked r now).outbox = moved.outbox.delete (fun q => q.eventId = r.eventId) ∧
      (∀ st : OutboxState → Bool, (moved.outbox.changes fun q => st q.state) =
        db.outbox.changes fun q => st q.state) ∧
      ∃ r' ∈ moved.outbox, r'.eventId = r.eventId ∧ r'.state = .inFlight := by
    by_cases hg : r.grouped = true
    · refine ⟨_, by rw [Db.acked, if_pos hg], ?_, ?_⟩
      · exact fun st => Table.changes_map_of_eq rfl fun a _ _ => rfl
      · refine ⟨_, Db.mem_updateOutbox.mpr ⟨r, hr, rfl⟩, ?_, ?_⟩
        · split <;> rfl
        · split
          · exact hstate
          · exact hstate
    · exact ⟨db, by rw [Db.acked, if_neg hg], fun _ => rfl, r, hr, rfl, hstate⟩
  have hlive := Table.changes_delete (t := moved.outbox) (p := fun q => q.eventId = r.eventId)
    (q := fun q => q.state ≠ .dead)
  have hdead := Table.changes_delete (t := moved.outbox) (p := fun q => q.eventId = r.eventId)
    (q := fun q => q.state = .dead)
  have hone : (moved.outbox.changes fun q => decide (q.eventId = r.eventId) &&
      decide (q.state ≠ .dead)) = 1 := by
    refine (Table.changes_eq_one (k := r.eventId) fun q hq => ?_).mpr ⟨r', hr', ?_⟩
    · rw [Bool.and_eq_true, decide_eq_true_eq] at hq
      exact hq.1
    · simp [hid', hstate']
  have hzero : (moved.outbox.changes fun q => decide (q.eventId = r.eventId) &&
      decide (q.state = .dead)) = 0 := by
    rw [Table.changes_eq_zero]
    intro q hq
    rw [Bool.eq_false_iff]
    intro hboth
    rw [Bool.and_eq_true, decide_eq_true_eq, decide_eq_true_eq] at hboth
    have hqr : q = r' := Table.eq_of_key hq hr' (hboth.1.trans hid'.symm)
    rw [hqr, hstate'] at hboth
    exact absurd hboth.2 (by decide)
  have hlive' := hmoved fun st => st ≠ .dead
  have hdead' := hmoved fun st => st = .dead
  rw [hone, hlive', ← hacked] at hlive
  rw [hzero, hdead', ← hacked] at hdead
  exact ⟨hlive, hdead⟩

theorem Outbox.expireTtl_nonneg {now ttl : Int} {fault : FaultPlan}
    (h : b.exec (.expireTtl now ttl fault) = (.ok n, b')) : 0 ≤ n := by
  by_cases httl : ttl ≤ 0
  · simp only [Outbox.exec, httl, if_true, Prod.mk.injEq, Except.ok.injEq] at h
    exact h.1.le
  · simp only [Outbox.exec, httl, if_false] at h
    rcases call_ok h with ⟨m, hrun, hm⟩
    have hreply : n = m := hm
    rw [hreply, (expireTtl_ok hrun).1]
    exact Int.natCast_nonneg _

/-- A successful call moved rows between the living and the dead as its reply `n` says. -/
def Outbox.Tallied (b b' : Outbox) (op : Op) (n : Int) : Prop :=
  (b'.db.live : Int) = b.db.live + op.born n ∧
    (b'.db.count .dead : Int) + b.reclaimedRows op = b.db.count .dead + op.died n

/-- A call that keeps both counts, and says that it moved nothing. -/
theorem Outbox.Tallied.quiet {op : Op} (hlive : b'.db.live = b.db.live)
    (hdead : b'.db.count .dead = b.db.count .dead) (hborn : op.born n = 0)
    (hdied : op.died n = 0) (hrec : b.reclaimedRows op = 0) : b.Tallied b' op n := by
  rw [Outbox.Tallied, hlive, hdead, hborn, hdied, hrec]
  exact ⟨(Int.add_zero _).symm, rfl⟩

/-- An update that neither kills nor revives the rows it picks keeps both counts. -/
theorem tally_map_quiet {t t' : OutboxTable} {p : Row → Bool} {f : Row → Row}
    (ht : t'.rows = t.rows.map fun r => if p r then f r else r)
    (hkeep : ∀ r ∈ t, p r = true → ((f r).state = .dead ↔ r.state = .dead)) :
    (t'.changes fun r => r.state ≠ .dead) = (t.changes fun r => r.state ≠ .dead) ∧
      (t'.changes fun r => r.state = .dead) = t.changes fun r => r.state = .dead := by
  constructor
  · exact Table.changes_map_of_eq ht fun r hr hp => decide_eq_decide.mpr
      (not_congr (hkeep r hr hp))
  · exact Table.changes_map_of_eq ht fun r hr hp => decide_eq_decide.mpr (hkeep r hr hp)

/-- An update that kills the rows it picks moves them from the living to the dead. -/
theorem tally_map_dead {t t' : OutboxTable} {p : Row → Bool} {f : Row → Row}
    (ht : t'.rows = t.rows.map fun r => if p r then f r else r)
    (hlive : ∀ r ∈ t, p r = true → r.state ≠ .dead) (hdead : ∀ r, (f r).state = .dead) :
    (t'.changes fun r => r.state ≠ .dead) + t.changes p = (t.changes fun r => r.state ≠ .dead) ∧
      (t'.changes fun r => r.state = .dead) =
        (t.changes fun r => r.state = .dead) + t.changes p := by
  constructor
  · exact Table.changes_map_leave ht fun r hr hp => by simp [hlive r hr hp, hdead r]
  · exact Table.changes_map_enter ht fun r hr hp => by simp [hlive r hr hp, hdead r]

/-- An update that revives the rows it picks moves them back. -/
theorem tally_map_live {t t' : OutboxTable} {p : Row → Bool} {f : Row → Row}
    (ht : t'.rows = t.rows.map fun r => if p r then f r else r)
    (hdead : ∀ r ∈ t, p r = true → r.state = .dead) (hlive : ∀ r, (f r).state ≠ .dead) :
    (t'.changes fun r => r.state ≠ .dead) =
        (t.changes fun r => r.state ≠ .dead) + t.changes p ∧
      (t'.changes fun r => r.state = .dead) + t.changes p =
        t.changes fun r => r.state = .dead := by
  constructor
  · exact Table.changes_map_enter ht fun r hr hp => by simp [hdead r hr hp, hlive r]
  · exact Table.changes_map_leave ht fun r hr hp => by simp [hdead r hr hp, hlive r]

theorem tally_insertPending {lim : Limits} {rec : OutboxRecord} {now : Int} {fault : FaultPlan}
    (h : b.exec (.insertPending lim rec now fault) = (.ok n, b')) :
    b.Tallied b' (.insertPending lim rec now fault) n := by
  have hstep : b.step (.insertPending lim rec now fault) = b' := congrArg Prod.snd h
  rcases call_ok h with ⟨_, hrun, -⟩
  rcases insertPending_ok hrun with ⟨seq, dn, base, hadm, -⟩
  rcases hadm.tally with ⟨hlive, hdead⟩
  simp only [Outbox.Tallied, Op.born, Op.died, Outbox.reclaimedRows, hstep]
  omega

theorem tally_markInFlight {id : String} {now : Int} {fault : FaultPlan}
    (h : b.exec (.markInFlight id now fault) = (.ok n, b')) :
    b.Tallied b' (.markInFlight id now fault) n := by
  rcases call_ok h with ⟨_, hrun, -⟩
  rcases markInFlight_ok hrun with ⟨r, hr, hsend, -, hdb⟩
  rcases tally_sent b.db r now hr rfl (sendable_iff.mp hsend).2.1 with ⟨hlive, hdead⟩
  rw [← hdb] at hlive hdead
  exact .quiet hlive hdead rfl rfl rfl

theorem tally_markAcked {id : String} {now : Int} {fault : FaultPlan}
    (h : b.exec (.markAcked id now fault) = (.ok n, b')) :
    b.Tallied b' (.markAcked id now fault) n := by
  rcases call_ok h with ⟨_, hrun, -⟩
  rcases markAcked_ok hrun with ⟨r, hr, -, hstate, -, hdb⟩
  rcases tally_acked b.db now hr hstate with ⟨hlive, hdead⟩
  rw [← hdb] at hlive hdead
  simp only [Outbox.Tallied, Op.born, Op.died, Outbox.reclaimedRows]
  omega

theorem tally_markRetry {id error : String} {next now : Int} {fault : FaultPlan}
    (h : b.exec (.markRetry id next error now fault) = (.ok n, b')) :
    b.Tallied b' (.markRetry id next error now fault) n := by
  rcases call_ok h with ⟨_, hrun, -⟩
  have hdb := (updateOne_ok hrun).2
  have hcounts : b'.db.live = b.db.live ∧ b'.db.count .dead = b.db.count .dead := by
    rw [hdb]
    refine tally_map_quiet rfl fun r _ hp => ?_
    simp only [Bool.and_eq_true, decide_eq_true_eq] at hp
    simp [hp.2]
  exact .quiet hcounts.1 hcounts.2 rfl rfl rfl

theorem tally_markDead {id error : String} {now : Int} {fault : FaultPlan}
    (h : b.exec (.markDead id error now fault) = (.ok n, b')) :
    b.Tallied b' (.markDead id error now fault) n := by
  rcases call_ok h with ⟨_, hrun, -⟩
  rcases updateOne_ok hrun with ⟨hone, hdb⟩
  have hcounts : b'.db.live + 1 = b.db.live ∧ b'.db.count .dead = b.db.count .dead + 1 := by
    rw [hdb, ← hone]
    refine tally_map_dead rfl (fun r _ hp => ?_) fun _ => rfl
    simp only [Bool.and_eq_true, Bool.or_eq_true, decide_eq_true_eq] at hp
    rcases hp.2 with hs | hs <;> simp [hs]
  simp only [Outbox.Tallied, Op.born, Op.died, Outbox.reclaimedRows]
  omega

theorem tally_retryDead {id : String} {now₁ now₂ : Int} {fault : FaultPlan}
    (h : b.exec (.retryDead id now₁ now₂ fault) = (.ok n, b')) :
    b.Tallied b' (.retryDead id now₁ now₂ fault) n := by
  rcases call_ok h with ⟨_, hrun, -⟩
  rcases updateOne_ok hrun with ⟨hone, hdb⟩
  have hcounts : b'.db.live = b.db.live + 1 ∧ b'.db.count .dead + 1 = b.db.count .dead := by
    rw [hdb, ← hone]
    refine tally_map_live rfl (fun r _ hp => ?_) fun _ => by simp
    simp only [Bool.and_eq_true, decide_eq_true_eq] at hp
    exact hp.2
  simp only [Outbox.Tallied, Op.born, Op.died, Outbox.reclaimedRows]
  omega

theorem tally_requeueInFlight {now₁ now₂ : Int} {fault : FaultPlan}
    (h : b.exec (.requeueInFlight now₁ now₂ fault) = (.ok n, b')) :
    b.Tallied b' (.requeueInFlight now₁ now₂ fault) n := by
  rcases call_ok h with ⟨_, hrun, -⟩
  have hdb := requeueInFlight_ok hrun
  have hcounts : b'.db.live = b.db.live ∧ b'.db.count .dead = b.db.count .dead := by
    rw [hdb]
    exact tally_map_quiet rfl fun r _ hp => by simp [of_decide_eq_true hp]
  exact .quiet hcounts.1 hcounts.2 rfl rfl rfl

theorem tally_expireTtl {now ttl : Int} {fault : FaultPlan}
    (h : b.exec (.expireTtl now ttl fault) = (.ok n, b')) :
    b.Tallied b' (.expireTtl now ttl fault) n := by
  by_cases httl : ttl ≤ 0
  · simp only [Outbox.exec, httl, if_true, Prod.mk.injEq, Except.ok.injEq] at h
    rcases h with ⟨rfl, rfl⟩
    exact .quiet rfl rfl rfl rfl rfl
  · simp only [Outbox.exec, httl, if_false] at h
    rcases call_ok h with ⟨m, hrun, hm⟩
    have hreply : n = m := hm
    rcases expireTtl_ok hrun with ⟨hcount, hdb⟩
    have hcounts : b'.db.live + b.db.outbox.changes (expires now ttl b.db) = b.db.live ∧
        b'.db.count .dead =
          b.db.count .dead + b.db.outbox.changes (expires now ttl b.db) := by
      rw [hdb]
      refine tally_map_dead rfl (fun r _ hp => ?_) fun _ => rfl
      simp only [expires, Bool.and_eq_true, decide_eq_true_eq] at hp
      simp [hp.1.1]
    simp only [Outbox.Tallied, Op.born, Op.died, Outbox.reclaimedRows]
    omega

theorem tally_openDb {fault : FaultPlan} (h : b.exec (.openDb fault) = (.ok n, b')) :
    b.Tallied b' (.openDb fault) n := by
  cases hopen : b.isOpen with
  | true =>
    simp only [Outbox.exec, hopen, if_true, Prod.mk.injEq] at h
    rcases h with ⟨-, rfl⟩
    exact .quiet rfl rfl rfl rfl rfl
  | false =>
    cases hrun : (EventKafka.openDb fault).run b.db with
    | error e db => simp [Outbox.exec, hopen, hrun] at h
    | ok u db =>
      simp only [Outbox.exec, hopen, hrun, Bool.false_eq_true, if_false, Prod.mk.injEq] at h
      rcases h with ⟨-, rfl⟩
      -- the migration stamps rows, and a stamp is no state
      have hrows : db.outbox.rows = b.db.outbox.rows.map fun r =>
          if unstamped b.db r then
            ⟨r.toEvent, { r.toProgress with eligibleAtMs := some r.createdAtMs }⟩
          else r := by
        rw [openDb_ok hrun]
        rfl
      have hcounts := tally_map_quiet hrows fun _ _ _ => Iff.rfl
      exact .quiet hcounts.1 hcounts.2 rfl rfl rfl

/-- Every successful call moves rows between the living and the dead as its reply says. -/
theorem Outbox.tally {op : Op} (h : b.exec op = (.ok n, b')) :
    (b'.db.live : Int) = b.db.live + op.born n ∧
      (b'.db.count .dead : Int) + b.reclaimedRows op = b.db.count .dead + op.died n := by
  cases op with
  | insertPending lim rec now fault => exact tally_insertPending h
  | markInFlight id now fault => exact tally_markInFlight h
  | markAcked id now fault => exact tally_markAcked h
  | markRetry id next error now fault => exact tally_markRetry h
  | markDead id error now fault => exact tally_markDead h
  | retryDead id now₁ now₂ fault => exact tally_retryDead h
  | requeueInFlight now₁ now₂ fault => exact tally_requeueInFlight h
  | expireTtl now ttl fault => exact tally_expireTtl h
  | openDb fault => exact tally_openDb h
  | close =>
    simp only [Outbox.exec, Prod.mk.injEq] at h
    rcases h with ⟨-, rfl⟩
    exact Outbox.Tallied.quiet rfl rfl rfl rfl rfl

end Tally

end EventKafka
