import EventKafka.Verifier.Run

/-! # What the drill writes down

`test_pipeline_drill.cpp` offers events to a pipeline, consumes what the broker has, and
leaves the files of a run directory. Here they are as it writes them, at the level of the
lines of a text and the records of a table, for any number of calls where the drill has
one. The verifier reads back exactly what was written: `written_shows`.
-/

namespace EventKafka

/-! ## The writer -/

/-- An event the drill offered and `enqueue` gave an id. -/
structure Offer where
  eventId : String
  callUuid : String
  accepted : Bool
  phase : String
deriving DecidableEq, Repr

/-- A message the consumer of the drill was given. -/
structure Consumption where
  eventId : String
  partition : Int
  offset : Int
  observedAtMs : Int
deriving DecidableEq, Repr

/-- A line of `injected_events.csv`; the sequence counts all offers. -/
def Offer.line (o : Offer) (sequence : Nat) : List String :=
  [o.eventId, o.callUuid, toString (sequence : Int), o.phase]

/-- A line of `consumed_records.csv`. -/
def Consumption.line (c : Consumption) : List String :=
  [c.eventId, toString c.partition, toString c.offset, toString c.observedAtMs]

/-- `final_snapshot`, for one row. -/
def FinalRow.line (r : FinalRow) : List String :=
  [r.eventId, r.state, r.lastError, toString r.createdAtMs, toString r.updatedAtMs]

/-- What the drill saw. The permanent deaths it expects and the fault are the controller's
business. -/
structure Drill where
  offers : List Offer
  consumed : List Consumption
  final : List FinalRow
  expectedDead : List String
  recovery : Artifact Json

/-- The files of the run directory. -/
def Drill.evidence (d : Drill) : Evidence where
  injectedIds := .read (d.offers.map Offer.eventId)
  consumedIds := .read (d.consumed.map Consumption.eventId)
  rejectedIds := .read ((d.offers.filter fun o => !o.accepted).map Offer.eventId)
  expectedDeadIds := .read d.expectedDead
  outboxFinal := .read (finalColumns :: d.final.map FinalRow.line)
  injectedEvents := .read (injectedColumns :: d.offers.zipIdx.map fun x => x.1.line x.2)
  recovery := d.recovery
  consumedRecords := .read (receiptColumns :: d.consumed.map Consumption.line)

/-- The run the files are about. -/
def Drill.run (d : Drill) (fault : Recovery) : Run where
  injected := (d.offers.map Offer.eventId).toFinset
  consumed := d.consumed.map Consumption.eventId
  rejected := ((d.offers.filter fun o => !o.accepted).map Offer.eventId).toFinset
  expectedDead := d.expectedDead.toFinset
  final := d.final
  events := d.offers.zipIdx.map fun x => ⟨x.1.eventId, x.1.callUuid, x.2, x.1.phase⟩
  recovery := { fault with receipts := d.consumed.map fun c => ⟨c.eventId, c.observedAtMs⟩ }

/-! ## Integers and ids -/

/-- A nonempty text without white space, which `strip` leaves alone. -/
def Unspaced (s : String) : Prop := s ≠ "" ∧ ∀ c ∈ s.toList, isSpace c = false

instance (s : String) : Decidable (Unspaced s) :=
  have : Decidable (∀ c ∈ s.toList, isSpace c = false) := List.decidableBAll _ _
  inferInstanceAs (Decidable (_ ∧ _))

theorem stripBy_eq_self {p : Char → Bool} {s : List Char} (h : ∀ c ∈ s, p c = false) :
    stripBy p s = s := by
  have hdrop : ∀ l : List Char, (∀ c ∈ l, p c = false) → l.dropWhile p = l := by
    intro l hl
    cases l with
    | nil => rfl
    | cons c l => exact List.dropWhile_cons_of_neg (by simp [hl c List.mem_cons_self])
  rw [stripBy, hdrop s h, hdrop s.reverse fun c hc => h c (List.mem_reverse.mp hc),
    List.reverse_reverse]

theorem Unspaced.strip {s : String} (h : Unspaced s) : strip s = s := by
  rw [EventKafka.strip, stripBy_eq_self h.2, String.ofList_toList]

theorem Unspaced.not_blank {s : String} (h : Unspaced s) : blank s = false := by
  cases hs : s.toList with
  | nil => exact absurd (String.toList_eq_nil_iff.mp hs) h.1
  | cons c l =>
    have hc := h.2 c (by rw [hs]; exact List.mem_cons_self)
    simp [blank, hs, hc]

/-- Lines without white space are read as they were written. -/
theorem idList_of_unspaced {lines : List String} (h : ∀ s ∈ lines, Unspaced s) (required : Bool) :
    (Artifact.read lines : TextFile).IdList required lines := by
  have hstrip : lines.map strip = lines := by
    calc lines.map strip = lines.map id := List.map_congr_left fun s hs => (h s hs).strip
      _ = lines := List.map_id _
  refine Or.inl ⟨lines, rfl, ?_⟩
  rw [hstrip, eq_comm, List.filter_eq_self]
  exact fun s hs => decide_eq_true (h s hs).1

theorem decimalDigits_of_digits {s : List Char} (hne : s ≠ []) (h : ∀ c ∈ s, c.isDigit = true) :
    decimalDigits s = some (s.map fun c => c.toNat - 48) := by
  induction s with
  | nil => exact absurd rfl hne
  | cons c s ih =>
    have hc := h c List.mem_cons_self
    have hs : ∀ d ∈ s, d.isDigit = true := fun d hd => h d (List.mem_cons_of_mem _ hd)
    cases s with
    | nil => simp [decimalDigits, hc]
    | cons d s =>
      have hd : d ≠ '_' := by
        rintro rfl
        exact absurd (hs '_' List.mem_cons_self) (by decide)
      rw [decimalDigits, if_pos hc, ih (List.cons_ne_nil _ _) hs]
      · rfl
      · exact fun heq => List.cons_ne_nil _ _ heq
      · exact fun rest heq => hd (List.cons.inj heq).1

/-- `int` of a text of digits. -/
theorem pyInt_of_digits {s : List Char} (hne : s ≠ []) (h : ∀ c ∈ s, c.isDigit = true)
    (hlen : s.length ≤ maxStrDigits) : pyInt s = some ((Nat.ofDigitChars 10 s 0 : ℕ) : Int) := by
  have hrange : ∀ c ∈ s, 48 ≤ c.toNat ∧ c.toNat ≤ 57 := by
    intro c hc
    have hdigit := h c hc
    simp only [Char.isDigit, Bool.and_eq_true, decide_eq_true_eq] at hdigit
    exact ⟨hdigit.1, hdigit.2⟩
  have hascii : toAscii s = s := by
    apply if_pos
    rw [List.all_eq_true]
    intro c hc
    have hc := hrange c hc
    exact decide_eq_true (by omega)
  have hbody : stripBy isAsciiSpace s = s := by
    apply stripBy_eq_self
    intro c hc
    have hc := hrange c hc
    have hspace : c ≠ ' ' := by
      rintro rfl
      exact absurd hc.1 (by decide)
    simp only [isAsciiSpace, Bool.or_eq_false_iff, Bool.and_eq_false_iff, decide_eq_false_iff_not]
    exact ⟨Or.inr (by omega), hspace⟩
  -- the first character is no sign
  have hsign : ∀ c rest, s = c :: rest → c.isDigit = true := by
    rintro c rest rfl
    exact h c List.mem_cons_self
  have hminus : s.head? ≠ some '-' := by
    intro hhead
    exact absurd (h '-' (List.mem_of_mem_head? hhead)) (by decide)
  have hvalue : (s.map fun c => c.toNat - 48).foldl (fun n d => 10 * n + d) 0 =
      Nat.ofDigitChars 10 s 0 := by
    rw [List.foldl_map]
    exact Nat.ofDigitChars_eq_foldl.symm
  have hread := decimalDigits_of_digits hne h
  unfold pyInt
  simp only [hascii, hbody, if_neg hminus]
  split
  · rename_i hnone
    split at hnone
    · exact absurd (hsign _ _ rfl) (by decide)
    · exact absurd (hsign _ _ rfl) (by decide)
    · rw [hread] at hnone
      cases hnone
  · rename_i ds hsome
    split at hsome
    · exact absurd (hsign _ _ rfl) (by decide)
    · exact absurd (hsign _ _ rfl) (by decide)
    · rw [hread, Option.some.injEq] at hsome
      subst hsome
      rw [if_neg (by rw [List.length_map]; omega), hvalue]

/-- `int` reads back an `int64_t` that is not negative. -/
theorem pyInt_toString {n : Int} (hn : 0 ≤ n) (hlt : n < 2 ^ 63) :
    pyInt (toString n).toList = some n := by
  obtain ⟨m, rfl⟩ := Int.eq_ofNat_of_zero_le hn
  have htext : (toString (m : Int)).toList = Nat.toDigits 10 m := by
    change (Nat.repr m).toList = _
    rw [Nat.repr_eq_ofList_toDigits, String.toList_ofList]
  have hlen : (Nat.toDigits 10 m).length ≤ 19 :=
    (Nat.length_toDigits_le_iff (by decide) (by decide)).mpr (by omega)
  rw [htext, pyInt_of_digits Nat.toDigits_ne_nil, Nat.ofDigitChars_ten_toDigits]
  · exact fun c hc => Nat.isDigit_of_mem_toDigits (b := 10) (n := m) (by decide) (by decide) hc
  · exact hlen.trans (by decide)

/-! ## Tables -/

/-- A table whose records are as long as its header, with an id in each. -/
theorem tableOk_of_lines (columns : List String) (lines : List (List String))
    (hheader : columns.Nodup) (hne : columns ≠ [])
    (hlen : ∀ line ∈ lines, line.length = columns.length)
    (hid : ∀ line ∈ lines, blank ((Record.mk columns line).get "event_id") = false) :
    TableOk columns (columns :: lines) ∧
      tableRows (columns :: lines) = lines.map (Record.mk columns) := by
  have hrows : tableRows (columns :: lines) = lines.map (Record.mk columns) := by
    have hkeep : lines.filter (fun record => record ≠ []) = lines := by
      rw [List.filter_eq_self]
      intro line hline
      apply decide_eq_true
      rintro rfl
      exact hne (List.length_eq_zero_iff.mp (hlen [] hline).symm)
    simp only [tableRows, List.tail_cons, List.headD_cons, hkeep]
  refine ⟨⟨hheader, fun c hc => hc, ?_, ?_, ?_⟩, hrows⟩
  · intro row hrow hlong
    rw [hrows] at hrow
    rcases List.mem_map.mp hrow with ⟨line, hline, rfl⟩
    exact absurd hlong (by simp [Record.overlong, hlen line hline])
  · intro row hrow c hc hnone
    rw [hrows] at hrow
    rcases List.mem_map.mp hrow with ⟨line, hline, rfl⟩
    rw [Record.get?, List.lookup_eq_none_iff] at hnone
    have hmem : c ∈ (columns.zip line).map Prod.fst := by
      rw [List.map_fst_zip (hlen line hline).ge]
      exact hc
    rcases List.mem_map.mp hmem with ⟨p, hp, rfl⟩
    exact absurd (hnone p hp) (by simp)
  · intro row hrow
    rw [hrows] at hrow
    rcases List.mem_map.mp hrow with ⟨line, hline, rfl⟩
    exact hid line hline

/-! ## Reading it back -/

/-- An `int64_t` that is not negative. -/
def Written (n : Int) : Prop := 0 ≤ n ∧ n < 2 ^ 63

instance (n : Int) : Decidable (Written n) := inferInstanceAs (Decidable (_ ∧ _))

theorem Written.reads {row : Record} {column : String} {n : Int} (h : Written n)
    (htext : row.get column = toString n) : row.Reads column n := by
  refine ⟨?_, h.1⟩
  rw [htext]
  exact pyInt_toString h.1 h.2

/-- What `recovery.json` says of the fault; the receipts are elsewhere. -/
structure Tells (file : Artifact Json) (fault : Recovery) : Prop where
  metadata : ∃ value, file = .read value ∧
    value.member? "sender_before" = some fault.senderBefore ∧
    value.member? "sender_after" = some fault.senderAfter ∧
    value.member? "reload_count" = some (.int fault.reloadCount) ∧
    value.member? "fault_exit_code" = some (.int fault.faultExitCode) ∧
    (∃ v, value.member? "fault_start_ms" = some v ∧ v.Reads fault.faultStartMs) ∧
    (∃ v, value.member? "fault_end_ms" = some v ∧ v.Reads fault.faultEndMs)
  before : fault.senderBefore.Identity
  after : fault.senderAfter.Identity

/-- What the drill keeps to while it writes. -/
structure Drill.Keeps (args : VerifyArgs) (d : Drill) (fault : Recovery) : Prop where
  offered : d.offers ≠ []
  ids : (d.offers.map Offer.eventId).Nodup
  spelled : ∀ o ∈ d.offers, Unspaced o.eventId
  /-- `int sequence` does not overflow. -/
  counted : d.offers.length ≤ 2 ^ 31
  phased : ∀ o ∈ d.offers, o.phase ∈ phases
  call : args.checkOrder = true → ∃ o ∈ d.offers, o.callUuid ≠ ""
  receipts : ∀ c ∈ d.consumed, Written c.partition ∧ Written c.offset ∧ Written c.observedAtMs
  expected : d.expectedDead.Nodup ∧ ∀ s ∈ d.expectedDead, Unspaced s
  recovery : args.requireRecovery = true → Tells d.recovery fault

/-- The outbox it found is in order too. -/
structure Drill.Clean (args : VerifyArgs) (d : Drill) (fault : Recovery) : Prop
    extends d.Keeps args fault where
  consumed : ∀ c ∈ d.consumed, Unspaced c.eventId
  rows : (d.final.map FinalRow.eventId).Nodup
  row : ∀ r ∈ d.final, Unspaced r.eventId ∧ r.Sound ∧ Written r.createdAtMs ∧
    Written r.updatedAtMs

section Shows

variable {args : VerifyArgs} {d : Drill} {fault : Recovery}

/-- The snapshot is read back row by row. -/
theorem Drill.Clean.shows_final (h : d.Clean args fault) :
    ∃ result, d.evidence.outboxFinal.Rows finalColumns result ∧ DistinctIds result ∧
      List.Forall₂ Record.IsFinal result d.final := by
  have htable := tableOk_of_lines finalColumns (d.final.map FinalRow.line)
    (by decide) (by decide) ?_ ?_
  · refine ⟨_, ⟨_, rfl, htable.1, rfl⟩, ?_, ?_⟩
    · rw [htable.2, DistinctIds, List.map_map, List.map_map]
      exact h.rows
    · rw [htable.2, List.map_map, List.forall₂_map_left_iff, List.forall₂_same]
      intro r hr
      rcases h.row r hr with ⟨-, hsound, hcreated, hupdated⟩
      exact ⟨rfl, rfl, rfl, hcreated.reads rfl, hupdated.reads rfl, hsound⟩
  · intro line hline
    rcases List.mem_map.mp hline with ⟨r, -, rfl⟩
    rfl
  · intro line hline
    rcases List.mem_map.mp hline with ⟨r, hr, rfl⟩
    exact (h.row r hr).1.not_blank

/-- The offers are read back with their numbers. -/
theorem Drill.Clean.shows_events (h : d.Clean args fault) :
    ∃ ordered, d.evidence.injectedEvents.Rows injectedColumns ordered ∧
      EventsOk (d.run fault).injected ordered ∧
      List.Forall₂ (Record.IsInjected args) ordered (d.run fault).events := by
  have htable := tableOk_of_lines injectedColumns
    (d.offers.zipIdx.map fun x => x.1.line x.2) (by decide) (by decide) ?_ ?_
  · have hids : (tableRows (injectedColumns :: d.offers.zipIdx.map fun x => x.1.line x.2)).map
        (Record.get · "event_id") = d.offers.map Offer.eventId := by
      calc (tableRows (injectedColumns :: d.offers.zipIdx.map fun x => x.1.line x.2)).map
            (Record.get · "event_id")
          = (d.offers.zipIdx.map Prod.fst).map Offer.eventId := by
            rw [htable.2, List.map_map, List.map_map, List.map_map]
            rfl
        _ = d.offers.map Offer.eventId := by rw [List.zipIdx_map_fst]
    refine ⟨_, ⟨_, rfl, htable.1, rfl⟩, ⟨?_, ?_, ?_⟩, ?_⟩
    · rw [DistinctIds, hids]
      exact h.ids
    · rw [hids]
      rfl
    · intro row hrow
      rw [htable.2, List.map_map] at hrow
      rcases List.mem_map.mp hrow with ⟨x, hx, rfl⟩
      exact h.phased x.1 (List.fst_mem_of_mem_zipIdx hx)
    · rw [htable.2, List.map_map, Drill.run, List.forall₂_map_left_iff,
        List.forall₂_map_right_iff, List.forall₂_same]
      intro x hx
      have hlt : x.2 < d.offers.length := List.snd_lt_of_mem_zipIdx hx
      have hcounted := h.counted
      have hwritten : Written (x.2 : Int) := ⟨by omega, by omega⟩
      exact ⟨rfl, rfl, rfl, fun _ => hwritten.reads rfl⟩
  · intro line hline
    rcases List.mem_map.mp hline with ⟨x, -, rfl⟩
    rfl
  · intro line hline
    rcases List.mem_map.mp hline with ⟨x, hx, rfl⟩
    exact (h.spelled x.1 (List.fst_mem_of_mem_zipIdx hx)).not_blank

/-- No two offers have one number. -/
theorem Drill.Clean.calls_ok (h : d.Clean args fault) (horder : args.checkOrder = true) :
    CallsOk (d.run fault).events := by
  constructor
  · rcases h.call horder with ⟨o, ho, hcall⟩
    rcases List.mem_iff_getElem?.mp ho with ⟨i, hi⟩
    exact ⟨_, List.mem_map.mpr ⟨(o, i), List.mem_zipIdx_iff_getElem?.mpr hi, rfl⟩, hcall⟩
  · intro call _
    have hseq : ((d.run fault).events.map InjectedEvent.sequence).Nodup := by
      have hnumbers : (d.run fault).events.map InjectedEvent.sequence =
          (d.offers.zipIdx.map Prod.snd).map fun n : ℕ => (n : Int) := by
        rw [Drill.run, List.map_map, List.map_map]
        rfl
      rw [hnumbers, List.zipIdx_map_snd]
      exact List.Nodup.map (fun _ _ hnm => Int.ofNat.inj hnm) List.nodup_range'
    exact hseq.sublist (List.filter_sublist.map _)

theorem Drill.Clean.shows_receipts (h : d.Clean args fault) :
    ∃ result, d.evidence.consumedRecords.Rows receiptColumns result ∧
      List.Forall₂ Record.IsReceipt result (d.run fault).recovery.receipts := by
  have htable := tableOk_of_lines receiptColumns
    (d.consumed.map Consumption.line) (by decide) (by decide) ?_ ?_
  · refine ⟨_, ⟨_, rfl, htable.1, rfl⟩, ?_⟩
    rw [htable.2, List.map_map, Drill.run, List.forall₂_map_left_iff, List.forall₂_map_right_iff,
      List.forall₂_same]
    intro c hc
    rcases h.receipts c hc with ⟨hpartition, hoffset, hobserved⟩
    exact ⟨rfl, ⟨_, hpartition.reads rfl⟩, ⟨_, hoffset.reads rfl⟩, hobserved.reads rfl⟩
  · intro line hline
    rcases List.mem_map.mp hline with ⟨c, -, rfl⟩
    rfl
  · intro line hline
    rcases List.mem_map.mp hline with ⟨c, hc, rfl⟩
    exact (h.consumed c hc).not_blank

/-- What the drill wrote is well formed evidence, and says what the drill saw. -/
theorem written_shows (h : d.Clean args fault) : d.evidence.Shows args (d.run fault) where
  injected := by
    refine ⟨_, idList_of_unspaced ?_ true, h.ids, rfl⟩
    intro s hs
    rcases List.mem_map.mp hs with ⟨o, ho, rfl⟩
    exact h.spelled o ho
  nonempty := by
    rw [Drill.run, List.toFinset_nonempty_iff]
    exact fun hnil => h.offered (List.map_eq_nil_iff.mp hnil)
  consumed := by
    refine idList_of_unspaced ?_ true
    intro s hs
    rcases List.mem_map.mp hs with ⟨c, hc, rfl⟩
    exact h.consumed c hc
  rejected := by
    refine ⟨_, idList_of_unspaced ?_ false, ?_, rfl⟩
    · intro s hs
      rcases List.mem_map.mp hs with ⟨o, ho, rfl⟩
      exact h.spelled o (List.mem_filter.mp ho).1
    · exact h.ids.sublist (List.filter_sublist.map _)
  expectedDead := ⟨_, idList_of_unspaced h.expected.2 false, h.expected.1, rfl⟩
  final := h.shows_final
  events := fun _ => h.shows_events
  calls := h.calls_ok
  recovery := by
    intro hneed
    have htells := h.recovery hneed
    refine ⟨htells.metadata, htells.before, htells.after, h.shows_receipts, ?_⟩
    rw [Drill.run, List.map_map]
    rfl

end Shows

end EventKafka
