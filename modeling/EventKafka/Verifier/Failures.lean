import EventKafka.Verifier.Reading

/-! # What a failure means

Each kind of failure `verify` records is absent exactly when the run meets the part of the
acceptance test it stands for: `setFailures_eq_nil`, `recoveryFailures_eq_nil` and, call
by call, `orderFailure_eq_nil`.
-/

namespace EventKafka

open Checks

/-! ## The sets -/

/-- The set the loop over `final` fills with the rows of a class. -/
def FinalTally.ofClass (t : FinalTally) : RowClass → Finset String
  | .live => t.live
  | .expired => t.expired
  | .dead => t.dead

/-- Filing a row adds its id to the set of its class and leaves the other two. -/
theorem FinalTally.ofClass_file {t : FinalTally} {eid : String} {filed : RowClass × Option String}
    {c : RowClass} :
    (t.file eid filed).ofClass c =
      if filed.1 = c then insert eid (t.ofClass c) else t.ofClass c := by
  obtain ⟨c', failure⟩ := filed
  cases c' <;> cases c <;> rfl

/-- Filing a row appends the failure it has, if any. -/
theorem FinalTally.failures_file {t : FinalTally} {eid : String}
    {filed : RowClass × Option String} :
    (t.file eid filed).failures = t.failures ++ filed.2.toList := by
  obtain ⟨c, failure⟩ := filed
  cases c <;> rfl

section FinalTally

variable {ttlMs : Int} {final : List FinalRow}

/-- The loop adds to a set the ids of the rows of its class. -/
theorem mem_foldl_add {t : FinalTally} {c : RowClass} {eid : String} :
    eid ∈ (final.foldl (FinalTally.add ttlMs) t).ofClass c ↔
      eid ∈ t.ofClass c ∨ ∃ r ∈ final, (r.filed ttlMs).1 = c ∧ r.eventId = eid := by
  induction final generalizing t with
  | nil => simp
  | cons r final ih =>
    rw [List.foldl_cons, ih, FinalTally.add, FinalTally.ofClass_file]
    by_cases hc : (r.filed ttlMs).1 = c
    · simp only [if_pos hc, Finset.mem_insert, List.mem_cons]
      constructor
      · rintro ((rfl | h) | ⟨q, hq, hqc, rfl⟩)
        · exact .inr ⟨r, .inl rfl, hc, rfl⟩
        · exact .inl h
        · exact .inr ⟨q, .inr hq, hqc, rfl⟩
      · rintro (h | ⟨q, rfl | hq, hqc, rfl⟩)
        · exact .inl (.inr h)
        · exact .inl (.inl rfl)
        · exact .inr ⟨q, hq, hqc, rfl⟩
    · simp only [if_neg hc, List.mem_cons]
      constructor
      · rintro (h | ⟨q, hq, hqc, rfl⟩)
        · exact .inl h
        · exact .inr ⟨q, .inr hq, hqc, rfl⟩
      · rintro (h | ⟨q, rfl | hq, hqc, rfl⟩)
        · exact .inl h
        · exact absurd hqc hc
        · exact .inr ⟨q, hq, hqc, rfl⟩

/-- It starts with empty sets, so these ids are all. -/
theorem mem_tallyOf {c : RowClass} {eid : String} :
    eid ∈ (tallyOf ttlMs final).ofClass c ↔
      ∃ r ∈ final, (r.filed ttlMs).1 = c ∧ r.eventId = eid := by
  have hstart : eid ∉ FinalTally.start.ofClass c := by
    cases c <;> exact Finset.notMem_empty eid
  rw [tallyOf, mem_foldl_add]
  exact or_iff_right hstart

/-- The failures come in the order of the rows. -/
theorem failures_foldl_add {t : FinalTally} :
    (final.foldl (FinalTally.add ttlMs) t).failures =
      t.failures ++ final.flatMap fun r => (r.filed ttlMs).2.toList := by
  induction final generalizing t with
  | nil => simp
  | cons r final ih =>
    rw [List.foldl_cons, ih, FinalTally.add, FinalTally.failures_file, List.append_assoc,
      List.flatMap_cons]

/-- What the class of a row says about it. -/
def FinalRow.InClass (r : FinalRow) : RowClass → Prop
  | .live => r.state = "pending" ∨ r.state = "in_flight"
  | .expired => r.state = "dead" ∧ r.lastError = "expired_ttl"
  | .dead => r.state = "dead" ∧ r.lastError ≠ "expired_ttl"

/-- A sound row is filed by what its state and its last error say. -/
theorem FinalRow.filed_fst {r : FinalRow} (h : r.Sound) {c : RowClass} :
    (r.filed ttlMs).1 = c ↔ r.InClass c := by
  unfold FinalRow.filed FinalRow.InClass
  rcases h.known with hs | hs | hs
  · rw [hs]
    cases c <;> simp
  · rw [hs]
    cases c <;> simp
  · rw [hs]
    by_cases he : r.lastError = "expired_ttl"
    · cases c <;> simp [he]
    · cases c <;> simp [he]

/-- A row is a failure when it died of its age without being old enough. -/
theorem FinalRow.filed_snd {r : FinalRow} :
    (r.filed ttlMs).2 = none ↔ (r.state = "dead" → r.lastError = "expired_ttl" →
      0 < ttlMs ∧ ttlMs < r.updatedAtMs - r.createdAtMs) := by
  unfold FinalRow.filed
  by_cases hs : r.state = "dead"
  · by_cases he : r.lastError = "expired_ttl"
    · simp only [hs, he, if_true, forall_const]
      split
      · rename_i haged
        simp only [reduceCtorEq, false_iff]
        omega
      · rename_i haged
        simp only [true_iff]
        omega
    · simp [hs, he]
  · simp [hs]

end FinalTally

/-- No two outcomes overlap exactly when the loop over the pairs records nothing. -/
theorem conflicts_eq_nil {outcomes : List (String × Finset String)} :
    conflicts outcomes = [] ↔ (outcomes.map Prod.snd).Pairwise Disjoint := by
  induction outcomes with
  | nil => simp [conflicts]
  | cons outcome rest ih =>
    obtain ⟨name, values⟩ := outcome
    have hhead : (rest.flatMap fun outcome => failIf (values ∩ outcome.2 ≠ ∅)
        ("conflicting outcomes " ++ name ++ "/" ++ outcome.1 ++ ": " ++
          listed (values ∩ outcome.2) 10)) = [] ↔
        ∀ others ∈ rest.map Prod.snd, Disjoint values others := by
      simp only [List.flatMap_eq_nil_iff, failIf_eq_nil, not_not, List.forall_mem_map,
        Finset.disjoint_iff_inter_eq_empty]
    rw [conflicts, List.append_eq_nil_iff, ih, hhead, List.map_cons, List.pairwise_cons]

/-- The comparisons record nothing exactly when the outcomes partition the injected ids, nothing is
left alive, the dead are the expected ones and rejections are allowed. -/
theorem compareSets_eq_nil {args : VerifyArgs}
    {injected consumed rejected expectedDead : Finset String} {t : FinalTally} :
    compareSets args injected consumed rejected expectedDead t = [] ↔
      t.live = ∅ ∧ (args.allowRejected = false → rejected = ∅) ∧ t.dead = expectedDead ∧
      injected = consumed ∪ rejected ∪ t.expired ∪ t.dead ∧
      [consumed, rejected, t.expired, t.dead].Pairwise Disjoint := by
  unfold compareSets
  simp only [List.append_eq_nil_iff, failIf_eq_nil, not_not, conflicts_eq_nil, List.map_cons,
    List.map_nil, List.flatMap_cons, List.flatMap_nil, Finset.sdiff_eq_empty_iff_subset,
    List.foldl_cons, List.foldl_nil, Finset.empty_union, not_and, and_true]
  constructor
  · rintro ⟨⟨⟨⟨⟨⟨hlive, hrejected⟩, hdead⟩, hc, hr, he, hd⟩, -⟩, hpairs⟩, hcovered⟩
    refine ⟨hlive, ?_, hdead, ?_, hpairs⟩
    · intro hallow
      by_contra hne
      exact hrejected hne hallow
    · exact hcovered.antisymm
        (Finset.union_subset (Finset.union_subset (Finset.union_subset hc hr) he) hd)
  · rintro ⟨hlive, hrejected, hdead, hunion, hpairs⟩
    have hsubset := hunion.symm.subset
    simp only [Finset.union_subset_iff] at hsubset
    obtain ⟨⟨⟨hc, hr⟩, he⟩, hd⟩ := hsubset
    refine ⟨⟨⟨⟨⟨⟨hlive, ?_⟩, hdead⟩, hc, hr, he, hd⟩, ?_⟩, hpairs⟩, hunion.subset⟩
    · exact fun hne hallow => hne (hrejected hallow)
    · rw [hlive]
      exact Finset.empty_subset injected

section Sets

variable {args : VerifyArgs} {run : Run}

/-- The three sets, of sound rows. -/
theorem mem_tally (hsound : ∀ r ∈ run.final, r.Sound) {c : RowClass} {eid : String} :
    eid ∈ (tallyOf args.ttlMs run.final).ofClass c ↔
      ∃ r ∈ run.final, r.InClass c ∧ r.eventId = eid := by
  rw [mem_tallyOf]
  constructor
  · rintro ⟨r, hr, hc, heid⟩
    exact ⟨r, hr, (FinalRow.filed_fst (hsound r hr)).mp hc, heid⟩
  · rintro ⟨r, hr, hc, heid⟩
    exact ⟨r, hr, (FinalRow.filed_fst (hsound r hr)).mpr hc, heid⟩

/-- The set of expired ids is that of the run. -/
theorem tally_expired (hsound : ∀ r ∈ run.final, r.Sound) :
    (tallyOf args.ttlMs run.final).expired = run.expired := by
  ext eid
  refine (mem_tally hsound (c := .expired)).trans ?_
  simp [Run.expired, FinalRow.InClass, and_assoc]

/-- The set of ids dead of another reason is that of the run. -/
theorem tally_dead (hsound : ∀ r ∈ run.final, r.Sound) :
    (tallyOf args.ttlMs run.final).dead = run.dead := by
  ext eid
  refine (mem_tally hsound (c := .dead)).trans ?_
  simp [Run.dead, FinalRow.InClass, and_assoc]

/-- Nothing is filed as live when the outbox is drained. -/
theorem tally_live (hsound : ∀ r ∈ run.final, r.Sound) :
    (tallyOf args.ttlMs run.final).live = ∅ ↔
      ∀ r ∈ run.final, r.state ≠ "pending" ∧ r.state ≠ "in_flight" := by
  rw [Finset.eq_empty_iff_forall_notMem]
  constructor
  · intro h r hr
    have hno : ¬r.InClass .live := fun hc =>
      h r.eventId ((mem_tally hsound (c := .live)).mpr ⟨r, hr, hc, rfl⟩)
    exact not_or.mp hno
  · intro h eid heid
    obtain ⟨r, hr, hc, -⟩ := (mem_tally hsound (c := .live)).mp heid
    exact not_or.mpr (h r hr) hc

/-- The loop over `final` records nothing when every death of age is an old enough one. -/
theorem tally_failures :
    (tallyOf args.ttlMs run.final).failures = [] ↔
      ∀ r ∈ run.final, r.state = "dead" → r.lastError = "expired_ttl" →
        0 < args.ttlMs ∧ args.ttlMs < r.updatedAtMs - r.createdAtMs := by
  have hstart : FinalTally.start.failures = [] := rfl
  rw [tallyOf, failures_foldl_add, hstart, List.nil_append, List.flatMap_eq_nil_iff]
  simp only [Option.toList_eq_nil_iff, FinalRow.filed_snd]

/-- The rows and the sets. -/
theorem setFailures_eq_nil (hsound : ∀ r ∈ run.final, r.Sound) (hne : run.injected.Nonempty) :
    run.setFailures args = [] ↔ run.Accounted args := by
  unfold Run.setFailures
  rw [List.append_eq_nil_iff, tally_failures, compareSets_eq_nil, tally_live hsound,
    tally_expired hsound, tally_dead hsound]
  constructor
  · rintro ⟨haged, hdrained, hallowed, hexpected, hunion, hdisjoint⟩
    exact ⟨hne, hdrained, hunion, hdisjoint, hallowed, haged, hexpected⟩
  · intro h
    exact ⟨h.aged, h.drained, h.allowed, h.expected, h.union, h.disjoint⟩

end Sets

/-! ## The recovery from the fault -/

/-- A phase passes when it has ids, and when the two it needs in time were consumed on their side
of the fault. -/
theorem checkPhase_eq_nil {phaseIds : Finset String} {receipts : List Receipt}
    {faultStart faultEnd : Int} {phase : String} :
    checkPhase phaseIds (Grouping.group Receipt.eventId Receipt.observedAtMs receipts)
        faultStart faultEnd phase = [] ↔
      phaseIds ≠ ∅ ∧
      (phase = "baseline" → ∃ eid ∈ phaseIds, ∃ r ∈ receipts, r.eventId = eid ∧
        r.observedAtMs ≤ faultStart) ∧
      (phase = "recovery" → ∃ eid ∈ phaseIds, ∃ r ∈ receipts, r.eventId = eid ∧
        faultEnd < r.observedAtMs) := by
  unfold checkPhase
  simp only [List.append_eq_nil_iff, failIf_eq_nil, Grouping.getD_lookup_group, Grouping.valuesOf,
    List.mem_map, List.mem_filter, decide_eq_true_eq, not_and, not_not, ne_eq, and_assoc]
  have hexists : ∀ (p : Int → Prop) (eid : String),
      (∃ t, (∃ r, r ∈ receipts ∧ r.eventId = eid ∧ r.observedAtMs = t) ∧ p t) ↔
        ∃ r ∈ receipts, r.eventId = eid ∧ p r.observedAtMs := by
    intro p eid
    constructor
    · rintro ⟨t, ⟨r, hr, heid, rfl⟩, ht⟩
      exact ⟨r, hr, heid, ht⟩
    · rintro ⟨r, hr, heid, ht⟩
      exact ⟨_, ⟨r, hr, heid, rfl⟩, ht⟩
  simp only [hexists]

section Recovery

variable {run : Run}

/-- The ids of a phase are those of its injected events. -/
theorem Run.mem_phaseIds {phase eid : String} :
    eid ∈ run.phaseIds phase ↔ ∃ ev ∈ run.events, ev.phase = phase ∧ ev.eventId = eid := by
  simp [Run.phaseIds, and_assoc]

/-- The recovery, of receipts that are what was consumed. -/
theorem recoveryFailures_eq_nil
    (hreceipts : (run.recovery.receipts.map Receipt.eventId : Multiset String) = run.consumed) :
    run.recovery.failures run.phaseIds = [] ↔ run.Recovered := by
  unfold Recovery.failures
  simp only [List.append_eq_nil_iff, failIf_eq_nil, List.flatMap_eq_nil_iff, checkPhase_eq_nil,
    not_or, not_not, not_le, Bool.not_eq_false, ne_eq]
  constructor
  · rintro ⟨⟨⟨hsender, hreload⟩, hwindow, hcompleted⟩, hphases⟩
    refine ⟨hsender, hreload, hwindow, hcompleted, hreceipts, ?_, ?_, ?_⟩
    · intro phase hphase
      obtain ⟨eid, heid⟩ := Finset.nonempty_iff_ne_empty.mpr (hphases phase hphase).1
      obtain ⟨ev, hev, hevphase, -⟩ := Run.mem_phaseIds.mp heid
      exact ⟨ev, hev, hevphase⟩
    · obtain ⟨eid, heid, hr⟩ := (hphases "baseline" (by decide)).2.1 rfl
      obtain ⟨ev, hev, hevphase, rfl⟩ := Run.mem_phaseIds.mp heid
      exact ⟨ev, hev, hevphase, hr⟩
    · obtain ⟨eid, heid, hr⟩ := (hphases "recovery" (by decide)).2.2 rfl
      obtain ⟨ev, hev, hevphase, rfl⟩ := Run.mem_phaseIds.mp heid
      exact ⟨ev, hev, hevphase, hr⟩
  · intro h
    refine ⟨⟨⟨h.sender, h.reload⟩, h.window, h.completed⟩, ?_⟩
    intro phase hphase
    refine ⟨?_, ?_, ?_⟩
    · obtain ⟨ev, hev, hevphase⟩ := h.phased phase hphase
      exact Finset.ne_empty_of_mem (Run.mem_phaseIds.mpr ⟨ev, hev, hevphase, rfl⟩)
    · rintro rfl
      obtain ⟨ev, hev, hevphase, hr⟩ := h.before
      exact ⟨ev.eventId, Run.mem_phaseIds.mpr ⟨ev, hev, hevphase, rfl⟩, hr⟩
    · rintro rfl
      obtain ⟨ev, hev, hevphase, hr⟩ := h.after
      exact ⟨ev.eventId, Run.mem_phaseIds.mpr ⟨ev, hev, hevphase, rfl⟩, hr⟩

end Recovery

/-! ## The order of each call -/

instance : Std.Total eventLe where
  total x y := by
    unfold eventLe
    rcases lt_trichotomy x.1 y.1 with h | h | h
    · exact .inl (.inl h)
    · rcases le_total x.2 y.2 with hid | hid
      · exact .inl (.inr ⟨h, hid⟩)
      · exact .inr (.inr ⟨h.symm, hid⟩)
    · exact .inr (.inl h)

instance : IsTrans (Int × String) eventLe where
  trans x y z := by
    rintro (hxy | ⟨hxy, hid⟩) (hyz | ⟨hyz, hid'⟩)
    · exact .inl (hxy.trans hyz)
    · exact .inl (hyz ▸ hxy)
    · exact .inl (hxy ▸ hyz)
    · exact .inr ⟨hxy.trans hyz, hid.trans hid'⟩

/-- A consumed id has its first position in the stream. -/
theorem firstPosition_eq_some {consumed : List String} {eid : String} {i : Nat} :
    firstPosition consumed eid = some i ↔ eid ∈ consumed ∧ consumed.idxOf eid = i := by
  unfold firstPosition
  rw [List.idxOf_eq_getD_idxOf?]
  cases h : consumed.idxOf? eid with
  | none =>
    have hno := List.idxOf?_eq_none_iff.mp h
    simp [hno]
  | some j =>
    have hmem : eid ∈ consumed := by
      by_contra hno
      rw [List.idxOf?_eq_none_iff.mpr hno] at h
      cases h
    simp [hmem]

/-- The events of a call, sorted: the positions are sorted when each event with a smaller
sequence was consumed first. -/
theorem positions_sorted_iff {consumed : List String} {xs : List (Int × String)}
    (hdistinct : (xs.map Prod.fst).Nodup) :
    positions consumed xs = (positions consumed xs).insertionSort (· ≤ ·) ↔
      ∀ x ∈ xs, ∀ y ∈ xs, x.1 < y.1 → x.2 ∈ consumed → y.2 ∈ consumed →
        consumed.idxOf x.2 ≤ consumed.idxOf y.2 := by
  have hperm : (xs.insertionSort eventLe).Perm xs := List.perm_insertionSort eventLe xs
  have hnodup : ((xs.insertionSort eventLe).map Prod.fst).Nodup :=
    (hperm.map Prod.fst).nodup_iff.mpr hdistinct
  -- no two sequences are equal, so the sorted list is strictly sorted by them
  have hstrict : (xs.insertionSort eventLe).Pairwise fun x y => x.1 < y.1 := by
    have hle := List.pairwise_insertionSort eventLe xs
    refine (hle.and (List.pairwise_map.mp hnodup)).imp ?_
    rintro x y ⟨hlt | ⟨heq, -⟩, hne⟩
    · exact hlt
    · exact absurd heq hne
  rw [Grouping.eq_insertionSort_iff, positions, List.pairwise_filterMap,
    Grouping.pairwise_iff_of_sorted (fun x => lt_irrefl x.1) (fun x y h => h.asymm) hstrict]
  simp only [firstPosition_eq_some, hperm.mem_iff]
  constructor
  · exact fun h x hx y hy hxy hcx hcy => h x hx y hy hxy _ ⟨hcx, rfl⟩ _ ⟨hcy, rfl⟩
  · rintro h x hx y hy hxy _ ⟨hcx, rfl⟩ _ ⟨hcy, rfl⟩
    exact h x hx y hy hxy hcx hcy

section Order

variable {args : VerifyArgs} {run : Run}

/-- A call is in order exactly when `verify` records nothing for it. -/
theorem orderFailure_eq_nil (hids : (run.events.map InjectedEvent.eventId).Nodup)
    (hcalls : CallsOk run.events) {call : String} {xs : List (Int × String)}
    (hmem : (call, xs) ∈ callsOf run.events) :
    orderFailure run.consumed (call, xs) = [] ↔ run.InOrder call := by
  have hdistinct := (callsOk_iff.mp hcalls).2 _ hmem
  obtain ⟨rfl, -, -⟩ := mem_callsOf.mp hmem
  unfold orderFailure Run.InOrder
  rw [failIf_eq_nil, not_not, positions_sorted_iff hdistinct]
  simp only [List.mem_map, List.mem_filter, decide_eq_true_eq, forall_exists_index, and_imp]
  constructor
  · intro h x hx y hy hxcall hycall hxy hcx hcy
    have hle := h _ x hx hxcall rfl _ y hy hycall rfl hxy hcx hcy
    -- two events with one first position are one event
    refine lt_of_le_of_ne hle fun heq => ?_
    have heid : x.eventId = y.eventId := (List.idxOf_inj hcx).mp heq
    rw [List.inj_on_of_nodup_map hids hx hy heid] at hxy
    exact lt_irrefl _ hxy
  · rintro h _ x hx hxcall rfl _ y hy hycall rfl hxy hcx hcy
    exact (h x hx y hy hxcall hycall hxy hcx hcy).le

/-- A call of which some consumed events were not consumed in order. -/
def Run.OutOfOrder (run : Run) (call : String) : Prop := call ≠ "" ∧ ¬run.InOrder call

/-- The calls out of order are those the loop records a failure for. -/
theorem outOfOrder_iff (hids : (run.events.map InjectedEvent.eventId).Nodup)
    (hcalls : CallsOk run.events) {call : String} :
    run.OutOfOrder call ↔
      ∃ xs, (call, xs) ∈ callsOf run.events ∧ orderFailure run.consumed (call, xs) ≠ [] := by
  constructor
  · rintro ⟨hne, hout⟩
    have hsome : ∃ ev ∈ run.events, ev.callUuid = call := by
      by_contra hno
      exact hout fun x hx _ _ hxcall => absurd ⟨x, hx, hxcall⟩ hno
    have hmem := mem_callsOf.mpr ⟨rfl, hne, hsome⟩
    exact ⟨_, hmem, fun hnil => hout ((orderFailure_eq_nil hids hcalls hmem).mp hnil)⟩
  · rintro ⟨xs, hmem, hfail⟩
    exact ⟨(mem_callsOf.mp hmem).2.1,
      fun hin => hfail ((orderFailure_eq_nil hids hcalls hmem).mpr hin)⟩

/-- There is a failure of the order exactly when some call is out of order. -/
theorem disorder_ne_nil (hids : (run.events.map InjectedEvent.eventId).Nodup)
    (hcalls : CallsOk run.events) :
    disorder run.consumed run.events ≠ [] ↔ ∃ call, run.OutOfOrder call := by
  simp only [outOfOrder_iff hids hcalls, disorder, ne_eq, List.flatMap_eq_nil_iff, not_forall,
    Prod.exists, exists_prop]

/-- One failure of the order was recorded for each call out of order. -/
theorem length_disorder_le_one (hids : (run.events.map InjectedEvent.eventId).Nodup)
    (hcalls : CallsOk run.events) :
    (disorder run.consumed run.events).length ≤ 1 ↔
      ∀ c c', run.OutOfOrder c → run.OutOfOrder c' → c = c' := by
  have hkeys : ((callsOf run.events).map Prod.fst).Nodup := Grouping.keys_nodup _ _ _
  have hone : ∀ call ∈ callsOf run.events, (orderFailure run.consumed call).length ≤ 1 :=
    fun call _ => length_failIf_le
  rw [disorder, length_flatMap_le_one hkeys.of_map hone]
  simp only [outOfOrder_iff hids hcalls]
  constructor
  · rintro h c c' ⟨xs, hmem, hfail⟩ ⟨xs', hmem', hfail'⟩
    exact congrArg Prod.fst (h _ hmem _ hmem' hfail hfail')
  · rintro h ⟨c, xs⟩ hmem ⟨c', xs'⟩ hmem' hfail hfail'
    have hc : c = c' := h c c' ⟨xs, hmem, hfail⟩ ⟨xs', hmem', hfail'⟩
    exact List.inj_on_of_nodup_map hkeys hmem hmem' hc

end Order

end EventKafka
