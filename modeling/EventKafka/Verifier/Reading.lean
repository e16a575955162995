import EventKafka.Verifier.Run

/-! # What the verifier reads

Each reader and each section of `verify` returns exactly on the evidence that is well
formed for it, and what it returns is a function of the content. `verify_eq_ok` puts the
sections together: `verify` returns on the evidence that shows a run, and `Run.tally`,
`disorder` and `Recovery.failures` are the failures it has found by then.
-/

namespace EventKafka

open Checks

/-! ## The readers -/

/-- `ids` returns the lines, or nothing for an optional file that is absent. -/
theorem ids_eq_ok {file : TextFile} {name : String} {required : Bool} {l : List String} :
    ids file name required = .ok l ↔ file.IdList required l := by
  cases file with
  | missing =>
    cases required with
    | false => simp [ids, Artifact.IdList, eq_comm]
    | true => simp [ids, Artifact.IdList]
  | damaged error => simp [ids, Artifact.IdList]
  | read lines => simp [ids, Artifact.IdList, eq_comm]

/-- The source compares the length of a list with that of its set. -/
theorem length_ne_card {α : Type} [DecidableEq α] {values : List α} :
    values.length ≠ values.toFinset.card ↔ ¬values.Nodup := by
  rw [not_iff_not, List.card_toFinset, eq_comm, (List.dedup_sublist values).length_eq]
  exact List.dedup_eq_self

/-- `unique` returns the set of a list without repetition. -/
theorem unique_eq_ok {values : List String} {name : String} {s : Finset String} :
    unique values name = .ok s ↔ values.Nodup ∧ s = values.toFinset := by
  unfold unique
  simp only [bind_eq_ok, raiseIf_eq_ok, length_ne_card, not_not, pure_eq_ok, exists_const]

/-- A file is loaded when it is there and decodes. -/
theorem load_eq_ok {α : Type} {file : Artifact α} {name : String} {contents : α} :
    file.load name = .ok contents ↔ file = .read contents := by
  cases file with
  | missing => simp [Artifact.load]
  | damaged error => simp [Artifact.load]
  | read c => simp [Artifact.load]

/-- `rows` returns the records of a table that has the columns, all filled, and an id in every
record; with `unique_ids` no id may repeat. -/
theorem rows_eq_ok {file : CsvFile} {name : String} {columns : List String} {uniqueIds : Bool}
    {result : List Record} :
    rows file name columns uniqueIds = .ok result ↔
      file.Rows columns result ∧ (uniqueIds = true → DistinctIds result) := by
  unfold rows Artifact.Rows DistinctIds
  simp only [bind_eq_ok, raiseIf_eq_ok, load_eq_ok, length_ne_card, not_not, exists_const,
    tableRows]
  constructor
  · rintro ⟨records, rfl, hheader, hcolumns, hmalformed, hempty, hlast⟩
    -- `unique` is called for its exception only
    have hresult : result = tableRows records ∧
        (uniqueIds = true → DistinctIds (tableRows records)) := by
      cases uniqueIds with
      | false =>
        obtain ⟨s, -, heq⟩ := bind_eq_ok.mp hlast
        exact ⟨pure_eq_ok.mp heq, fun hu => absurd hu Bool.false_ne_true⟩
      | true =>
        obtain ⟨s, hs, heq⟩ := bind_eq_ok.mp hlast
        exact ⟨pure_eq_ok.mp heq, fun _ => (unique_eq_ok.mp hs).1⟩
    obtain ⟨rfl, hdistinct⟩ := hresult
    refine ⟨⟨records, rfl, ⟨hheader, hcolumns, ?_, ?_, ?_⟩, rfl⟩, hdistinct⟩
    · exact fun row hrow hlong => hmalformed ⟨row, hrow, .inl hlong⟩
    · exact fun row hrow c hc hnone => hmalformed ⟨row, hrow, .inr ⟨c, hc, hnone⟩⟩
    · intro row hrow
      exact Bool.eq_false_iff.mpr fun hblank => hempty ⟨row, hrow, hblank⟩
  · rintro ⟨⟨records, rfl, htable, rfl⟩, hdistinct⟩
    refine ⟨records, rfl, htable.header, htable.required, ?_, ?_, ?_⟩
    · rintro ⟨row, hrow, hlong | ⟨c, hc, hnone⟩⟩
      · exact htable.short row hrow hlong
      · exact htable.full row hrow c hc hnone
    · rintro ⟨row, hrow, hblank⟩
      exact Bool.false_ne_true ((htable.named row hrow).symm.trans hblank)
    · cases uniqueIds with
      | false => exact bind_eq_ok.mpr ⟨∅, rfl, rfl⟩
      | true => exact bind_eq_ok.mpr ⟨_, unique_eq_ok.mpr ⟨hdistinct rfl, rfl⟩, rfl⟩

/-- `number` returns what is not negative. -/
theorem number_eq_ok {value n : Int} {field : String} :
    number value field = .ok n ↔ 0 ≤ value ∧ n = value := by
  unfold number
  by_cases hvalue : value < 0
  · simp [hvalue]
  · simp only [if_neg hvalue, Except.ok.injEq]
    constructor
    · rintro rfl
      exact ⟨by omega, rfl⟩
    · rintro ⟨-, rfl⟩
      rfl

/-- `number` of a column. -/
theorem Record.number_eq_ok {row : Record} {column : String} {n : Int} :
    row.number column = .ok n ↔ row.Reads column n := by
  unfold Record.number Record.Reads
  cases pyInt (row.get column).toList with
  | none => simp
  | some m =>
    simp only [EventKafka.number_eq_ok, Option.some.injEq]
    constructor
    · rintro ⟨hm, rfl⟩
      exact ⟨rfl, hm⟩
    · rintro ⟨rfl, hm⟩
      exact ⟨hm, rfl⟩

/-- `number` of a member, which is an integer or a text of one. -/
theorem Json.number_eq_ok {value : Json} {field : String} {n : Int} :
    value.number field = .ok n ↔ value.Reads n := by
  unfold Json.Reads
  cases value with
  | int m =>
    simp only [Json.number, EventKafka.number_eq_ok, Json.int.injEq, reduceCtorEq, false_and,
      exists_false, or_false]
    constructor
    · rintro ⟨hm, rfl⟩
      exact ⟨rfl, hm⟩
    · rintro ⟨rfl, hm⟩
      exact ⟨hm, rfl⟩
  | str s =>
    -- a text with a lone surrogate has no characters for `int` to read
    simp only [Json.number, reduceCtorEq, Json.str.injEq, false_or]
    cases hchars : s.chars?.bind pyInt with
    | none =>
      simp only [reduceCtorEq, false_iff]
      rintro ⟨⟨s', chars, rfl, hs, hint⟩, -⟩
      rw [hs, Option.bind_some, hint] at hchars
      cases hchars
    | some m =>
      obtain ⟨chars, hs, hint⟩ := Option.bind_eq_some_iff.mp hchars
      simp only [EventKafka.number_eq_ok]
      constructor
      · rintro ⟨hm, rfl⟩
        exact ⟨⟨s, chars, rfl, hs, hint⟩, hm⟩
      · rintro ⟨⟨s', chars', rfl, hs', hint'⟩, hm⟩
        rw [hs'] at hs
        cases hs
        rw [hint'] at hint
        cases hint
        exact ⟨hm, rfl⟩
  | _ => simp [Json.number]

/-- `value[key]` needs an object with that key. -/
theorem Json.item_eq_ok {value member : Json} {key : String} :
    value.item key = .ok member ↔ value.member? key = some member := by
  cases value with
  | obj members =>
    simp only [Json.item, Json.member?]
    cases members.lookup (jsonText key) with
    | none => simp
    | some m => simp
  | _ => simp [Json.item, Json.member?]

theorem Json.int?_eq_some {value : Json} {n : Int} : value.int? = some n ↔ value = .int n := by
  cases value with
  | int m => simp [Json.int?]
  | _ => simp [Json.int?]

theorem Json.str?_eq_some {value : Json} {s : JsonText} : value.str? = some s ↔ value = .str s := by
  cases value with
  | str t => simp [Json.str?]
  | _ => simp [Json.str?]

/-- A member that must be an integer, where a text will not do. -/
theorem Json.whole_eq_ok {value : Json} {key : String} {n : Int} :
    value.whole key = .ok n ↔ value.member? key = some (.int n) := by
  unfold Json.whole
  rw [bind_eq_ok]
  simp only [Json.item_eq_ok]
  constructor
  · rintro ⟨member, hmember, hn⟩
    cases hint : member.int? with
    | none =>
      rw [hint] at hn
      cases hn
    | some m =>
      rw [hint, pure_eq_ok] at hn
      rw [hmember, Json.int?_eq_some.mp hint, hn]
  · intro hmember
    exact ⟨.int n, hmember, rfl⟩

/-- The identity of a sender is a positive pid and a start id that is not blank. -/
theorem Json.isIdentity_iff {identity : Json} : identity.isIdentity = true ↔ identity.Identity := by
  unfold Json.isIdentity Json.Identity
  constructor
  · intro h
    split at h
    · rename_i pid startId hpid hstart
      obtain ⟨v, hv, hint⟩ := Option.bind_eq_some_iff.mp hpid
      obtain ⟨w, hw, hstr⟩ := Option.bind_eq_some_iff.mp hstart
      rw [Bool.and_eq_true, decide_eq_true_eq, Bool.not_eq_true'] at h
      rw [Json.int?_eq_some.mp hint] at hv
      rw [Json.str?_eq_some.mp hstr] at hw
      exact ⟨pid, startId, hv, h.1, hw, h.2⟩
    · cases h
  · rintro ⟨pid, startId, hpid, hpos, hstart, hblank⟩
    simp [hpid, hstart, Json.int?, Json.str?, hpos, hblank]

/-! ## The final snapshot -/

/-- What the loop over `final` files a sound row as, and the failure it appends. -/
def FinalRow.filed (ttlMs : Int) (r : FinalRow) : RowClass × Option String :=
  if r.state = "dead" then
    if r.lastError = "expired_ttl" then
      (.expired, if ttlMs ≤ 0 ∨ r.updatedAtMs - r.createdAtMs ≤ ttlMs then
        some ("invalid/unauthorized TTL expiry: " ++ r.eventId) else none)
    else (.dead, none)
  else (.live, none)

/-- A sound row, filed. -/
def FinalTally.add (ttlMs : Int) (t : FinalTally) (r : FinalRow) : FinalTally :=
  t.file r.eventId (r.filed ttlMs)

/-- The sets and failures after the loop over `final`. -/
def tallyOf (ttlMs : Int) (final : List FinalRow) : FinalTally :=
  final.foldl (FinalTally.add ttlMs) FinalTally.start

/-- The body of the loop over `final` returns on a sound row, which it files. -/
theorem checkRow_eq_ok {ttlMs : Int} {r : FinalRow} {filed : RowClass × Option String}
    (hcreated : 0 ≤ r.createdAtMs) (hupdated : 0 ≤ r.updatedAtMs) :
    checkRow ttlMs r = .ok filed ↔ r.Sound ∧ filed = r.filed ttlMs := by
  have hc : number r.createdAtMs "created_at_ms" = .ok r.createdAtMs :=
    number_eq_ok.mpr ⟨hcreated, rfl⟩
  have hu : number r.updatedAtMs "updated_at_ms" = .ok r.updatedAtMs :=
    number_eq_ok.mpr ⟨hupdated, rfl⟩
  unfold checkRow FinalRow.filed
  rw [hc, hu]
  simp only [bind, Except.bind, pure, Except.pure]
  -- the checks in the order of the source; each exception is a clause of `Sound`
  by_cases hsince : r.updatedAtMs < r.createdAtMs
  · simp only [if_pos hsince, throw, throwThe, MonadExceptOf.throw, reduceCtorEq, false_iff]
    rintro ⟨hsound, -⟩
    exact absurd hsound.since (not_le.mpr hsince)
  have hsince' : r.createdAtMs ≤ r.updatedAtMs := not_lt.mp hsince
  rw [if_neg hsince]
  by_cases hlive : r.state = "pending" ∨ r.state = "in_flight"
  · have hdead : r.state ≠ "dead" := by
      rcases hlive with h | h <;> rw [h] <;> decide
    rw [if_pos hlive, if_neg hdead]
    constructor
    · intro h
      cases h
      exact ⟨⟨hsince', hlive.elim .inl fun h => .inr (.inl h), fun h => absurd h hdead⟩, rfl⟩
    · rintro ⟨-, rfl⟩
      rfl
  rw [if_neg hlive]
  by_cases hdead : r.state = "dead"
  · rw [if_pos hdead, if_pos hdead]
    by_cases hexpired : r.lastError = "expired_ttl"
    · -- a TTL death is filed whatever its age, which is only a failure
      have hsound : r.Sound := by
        refine ⟨hsince', .inr (.inr hdead), fun _ => ?_⟩
        rw [hexpired]
        decide
      rw [if_pos hexpired, if_pos hexpired]
      by_cases haged : ttlMs ≤ 0 ∨ r.updatedAtMs - r.createdAtMs ≤ ttlMs
      · rw [if_pos haged, if_pos haged, Except.ok.injEq, eq_comm]
        exact (and_iff_right hsound).symm
      · rw [if_neg haged, if_neg haged, Except.ok.injEq, eq_comm]
        exact (and_iff_right hsound).symm
    · -- any other death needs a reason
      rw [if_neg hexpired, if_neg hexpired]
      cases hblank : blank r.lastError with
      | false =>
        have hsound : r.Sound := ⟨hsince', .inr (.inr hdead), fun _ => hblank⟩
        simp [hsound, eq_comm]
      | true =>
        simp only [Bool.not_true, Bool.false_eq_true, if_false, throw, throwThe,
          MonadExceptOf.throw, reduceCtorEq, false_iff]
        rintro ⟨hsound, -⟩
        rw [hsound.reason hdead] at hblank
        cases hblank
  · simp only [if_neg hdead, throw, throwThe, MonadExceptOf.throw, reduceCtorEq, false_iff]
    rintro ⟨hsound, -⟩
    rcases hsound.known with h | h | h
    · exact hlive (.inl h)
    · exact hlive (.inr h)
    · exact hdead h

/-- The loop over `final` reads a record as a row and files it. -/
theorem tallyRow_eq_ok {ttlMs : Int} {t t' : FinalTally} {row : Record} :
    tallyRow ttlMs t row = .ok t' ↔
      ∃ r, row.IsFinal r ∧ t' = FinalTally.add ttlMs t r := by
  unfold tallyRow FinalTally.add
  simp only [bind_eq_ok, pure_eq_ok, Record.number_eq_ok]
  constructor
  · rintro ⟨created, hcreated, updated, hupdated, filed, hfiled, rfl⟩
    obtain ⟨hsound, rfl⟩ := (checkRow_eq_ok hcreated.2 hupdated.2).mp hfiled
    exact ⟨_, ⟨rfl, rfl, rfl, hcreated, hupdated, hsound⟩, rfl⟩
  · rintro ⟨r, hr, rfl⟩
    refine ⟨r.createdAtMs, hr.created, r.updatedAtMs, hr.updated, r.filed ttlMs, ?_, ?_⟩
    · have hrow : FinalRow.mk (row.get "event_id") (row.get "state") (row.get "last_error")
          r.createdAtMs r.updatedAtMs = r := by
        rw [← hr.eventId, ← hr.state, ← hr.lastError]
      rw [hrow]
      exact (checkRow_eq_ok hr.created.2 hr.updated.2).mpr ⟨hr.sound, rfl⟩
    · rw [hr.eventId]

/-- The loop over `final` returns when every record is a sound row. -/
theorem tally_eq_ok {ttlMs : Int} {final : List Record} {t : FinalTally} :
    final.foldlM (tallyRow ttlMs) FinalTally.start = .ok t ↔
      ∃ rs, List.Forall₂ Record.IsFinal final rs ∧ t = tallyOf ttlMs rs := by
  have hloop : ∀ s row s', tallyRow ttlMs s row = .ok s' ↔
      ∃ r, row.IsFinal r ∧ s' = FinalTally.add ttlMs s r := fun _ _ _ => tallyRow_eq_ok
  unfold tallyOf
  exact foldlM_eq_ok hloop

/-! ## The order of each call -/

/-- The injected events are a table with one record for each injected id, in one of the phases
each. -/
theorem loadInjected_eq_ok {injected : Finset String} {file : CsvFile} {ordered : List Record} :
    loadInjected injected file = .ok ordered ↔
      file.Rows injectedColumns ordered ∧ EventsOk injected ordered := by
  unfold loadInjected
  simp only [bind_eq_ok, raiseIf_eq_ok, rows_eq_ok, pure_eq_ok, exists_const, not_not]
  constructor
  · rintro ⟨rs, ⟨hrows, hdistinct⟩, hcover, hphase, rfl⟩
    refine ⟨hrows, hdistinct trivial, hcover, ?_⟩
    intro row hrow
    by_contra hno
    exact hphase ⟨row, hrow, hno⟩
  · rintro ⟨hrows, hevents⟩
    refine ⟨ordered, ⟨hrows, fun _ => hevents.distinct⟩, hevents.cover, ?_, rfl⟩
    rintro ⟨row, hrow, hno⟩
    exact hno (hevents.phased row hrow)

/-- What an event adds to `calls`. -/
def addEvent (calls : List (String × List (Int × String))) (ev : InjectedEvent) :
    List (String × List (Int × String)) :=
  if ev.callUuid ≠ "" then Grouping.add ev.callUuid (ev.sequence, ev.eventId) calls else calls

/-- `calls`. -/
def callsOf (events : List InjectedEvent) : List (String × List (Int × String)) :=
  Grouping.group InjectedEvent.callUuid (fun ev => (ev.sequence, ev.eventId))
    (events.filter fun ev => ev.callUuid ≠ "")

/-- `calls`, as the loop builds it. -/
theorem foldl_addEvent (events : List InjectedEvent) :
    events.foldl addEvent [] = callsOf events := by
  unfold callsOf Grouping.group
  rw [List.foldl_filter]
  congr 1
  funext calls ev
  simp [addEvent]

/-- A call has the sequence and the id of each of its events, in the order of the rows. -/
theorem mem_callsOf {events : List InjectedEvent} {call : String} {xs : List (Int × String)} :
    (call, xs) ∈ callsOf events ↔
      xs = (events.filter fun ev => ev.callUuid = call).map (fun ev => (ev.sequence, ev.eventId)) ∧
        call ≠ "" ∧ ∃ ev ∈ events, ev.callUuid = call := by
  -- the events of a call that has an id all have one
  have hvalues : call ≠ "" →
      Grouping.valuesOf InjectedEvent.callUuid (fun ev => (ev.sequence, ev.eventId))
          (events.filter fun ev => ev.callUuid ≠ "") call =
        (events.filter fun ev => ev.callUuid = call).map fun ev => (ev.sequence, ev.eventId) := by
    intro hne
    rw [Grouping.valuesOf, List.filter_filter]
    congr 1
    refine List.filter_congr fun x _ => ?_
    by_cases hx : x.callUuid = call
    · simp [hx, hne]
    · simp [hx]
  rw [callsOf, Grouping.mem_group]
  simp only [List.mem_filter, decide_eq_true_eq]
  constructor
  · rintro ⟨rfl, ev, ⟨hev, hne⟩, rfl⟩
    exact ⟨hvalues hne, hne, ev, hev, rfl⟩
  · rintro ⟨rfl, hne, ev, hev, rfl⟩
    exact ⟨(hvalues hne).symm, ev, ⟨hev, hne⟩, rfl⟩

/-- The checks on `calls` are checks of the events: there is a call, and no call uses a sequence
twice. -/
theorem callsOk_iff {events : List InjectedEvent} :
    CallsOk events ↔
      callsOf events ≠ [] ∧ ∀ call ∈ callsOf events, (call.2.map Prod.fst).Nodup := by
  have hfst : ∀ call : String, ((events.filter fun ev => ev.callUuid = call).map
      fun ev => (ev.sequence, ev.eventId)).map Prod.fst =
        (events.filter fun ev => ev.callUuid = call).map InjectedEvent.sequence := by
    intro call
    rw [List.map_map]
    rfl
  constructor
  · intro h
    obtain ⟨ev, hev, hne⟩ := h.some
    refine ⟨List.ne_nil_of_mem (mem_callsOf.mpr ⟨rfl, hne, ev, hev, rfl⟩), ?_⟩
    rintro ⟨call, xs⟩ hcall
    obtain ⟨rfl, hcallne, -⟩ := mem_callsOf.mp hcall
    rw [hfst]
    exact h.distinct call hcallne
  · rintro ⟨hne, hdistinct⟩
    obtain ⟨⟨call, xs⟩, hcall⟩ := List.exists_mem_of_ne_nil _ hne
    obtain ⟨-, hcallne, ev, hev, rfl⟩ := mem_callsOf.mp hcall
    refine ⟨⟨ev, hev, hcallne⟩, ?_⟩
    intro c hc
    by_cases hsome : ∃ ev ∈ events, ev.callUuid = c
    · rw [← hfst]
      exact hdistinct _ (mem_callsOf.mpr ⟨rfl, hc, hsome⟩)
    · -- a call without events is no entry of `calls`
      have hnone : (events.filter fun ev => ev.callUuid = c) = [] := by
        simp only [List.filter_eq_nil_iff, decide_eq_true_eq]
        exact fun ev hev heq => hsome ⟨ev, hev, heq⟩
      rw [hnone]
      exact List.nodup_nil

/-- The failures of the calls. -/
def disorder (consumed : List String) (events : List InjectedEvent) : List String :=
  (callsOf events).flatMap (orderFailure consumed)

/-- An event of a call needs a sequence that reads as a number. -/
theorem addToCall_eq_ok {args : VerifyArgs} (hargs : args.checkOrder = true)
    {calls calls' : List (String × List (Int × String))} {row : Record} :
    addToCall calls row = .ok calls' ↔
      ∃ ev, row.IsInjected args ev ∧ calls' = addEvent calls ev := by
  unfold addToCall addEvent
  simp only [bind_eq_ok, pure_eq_ok, Record.number_eq_ok]
  constructor
  · rintro ⟨sequence, hsequence, rfl⟩
    exact ⟨⟨row.get "event_id", row.get "call_uuid", sequence, row.get "phase"⟩,
      ⟨rfl, rfl, rfl, fun _ => hsequence⟩, rfl⟩
  · rintro ⟨ev, hev, rfl⟩
    refine ⟨ev.sequence, hev.sequence hargs, ?_⟩
    rw [hev.callUuid, hev.eventId]

/-- A call returns its failure unless a sequence repeats, which raises. -/
theorem checkCall_eq_ok {consumed : List String} {call : String × List (Int × String)}
    {failures : List String} :
    checkCall consumed call = .ok failures ↔
      (call.2.map Prod.fst).Nodup ∧ failures = orderFailure consumed call := by
  have hlength : (call.2.map Prod.fst).toFinset.card ≠ call.2.length ↔
      ¬(call.2.map Prod.fst).Nodup := by
    rw [← length_ne_card, List.length_map, ne_comm]
  unfold checkCall
  simp only [bind_eq_ok, raiseIf_eq_ok, pure_eq_ok, exists_const, hlength, not_not]

/-- The section on the order returns the failures of the calls, and whether there are any. -/
theorem checkOrder_eq_ok {args : VerifyArgs} (hargs : args.checkOrder = true)
    {consumed : List String} {ordered : List Record} {out : List String × Bool} :
    checkOrder consumed ordered = .ok out ↔
      ∃ events, List.Forall₂ (Record.IsInjected args) ordered events ∧ CallsOk events ∧
        out = (disorder consumed events, decide (disorder consumed events ≠ [])) := by
  have hloop : ∀ calls row calls', addToCall calls row = .ok calls' ↔
      ∃ ev, row.IsInjected args ev ∧ calls' = addEvent calls ev :=
    fun _ _ _ => addToCall_eq_ok hargs
  unfold checkOrder
  simp only [bind_eq_ok, raiseIf_eq_ok, pure_eq_ok, exists_const, foldlM_eq_ok hloop, mapM_eq_ok,
    checkCall_eq_ok]
  constructor
  · rintro ⟨calls, ⟨events, hevents, rfl⟩, hne, failures, hfailures, rfl⟩
    rw [foldl_addEvent] at hne hfailures
    obtain ⟨hdistinct, hflat⟩ := flatten_of_forall₂ hfailures
    exact ⟨events, hevents, callsOk_iff.mpr ⟨hne, hdistinct⟩, by rw [hflat, disorder]⟩
  · rintro ⟨events, hevents, hcalls, rfl⟩
    obtain ⟨hne, hdistinct⟩ := callsOk_iff.mp hcalls
    refine ⟨_, ⟨events, hevents, rfl⟩, ?_, (callsOf events).map (orderFailure consumed), ?_, ?_⟩
    · rw [foldl_addEvent]
      exact hne
    · rw [foldl_addEvent, List.forall₂_map_right_iff, List.forall₂_same]
      exact fun call hcall => ⟨hdistinct call hcall, rfl⟩
    · rw [disorder, List.flatMap_def]

/-! ## The recovery from the fault -/

/-- The failures of the recovery. -/
def Recovery.failures (phaseIds : String → Finset String) (rec : Recovery) : List String :=
  failIf (rec.senderBefore.eq rec.senderAfter = false ∨ rec.reloadCount ≠ 0)
    "sender restarted or module reloaded" ++
  failIf (rec.faultEndMs ≤ rec.faultStartMs ∨ rec.faultExitCode ≠ 0)
    "fault did not complete successfully" ++
  phases.flatMap fun phase => checkPhase (phaseIds phase)
    (Grouping.group Receipt.eventId Receipt.observedAtMs rec.receipts) rec.faultStartMs
    rec.faultEndMs phase

/-- What a receipt adds to `observed`. -/
def addReceipt (observed : List (String × List Int)) (r : Receipt) : List (String × List Int) :=
  Grouping.add r.eventId r.observedAtMs observed

/-- A receipt is a record with a partition, an offset and a time. -/
theorem addObserved_eq_ok {observed observed' : List (String × List Int)} {row : Record} :
    addObserved observed row = .ok observed' ↔
      ∃ r, row.IsReceipt r ∧ observed' = addReceipt observed r := by
  unfold addObserved addReceipt
  simp only [bind_eq_ok, pure_eq_ok, Record.number_eq_ok]
  constructor
  · rintro ⟨partition, hpartition, offset, hoffset, observedAt, hobserved, rfl⟩
    exact ⟨⟨row.get "event_id", observedAt⟩,
      ⟨rfl, ⟨partition, hpartition⟩, ⟨offset, hoffset⟩, hobserved⟩, rfl⟩
  · rintro ⟨r, hr, rfl⟩
    obtain ⟨partition, hpartition⟩ := hr.partition
    obtain ⟨offset, hoffset⟩ := hr.offset
    refine ⟨partition, hpartition, offset, hoffset, r.observedAtMs, hr.observedAt, ?_⟩
    rw [hr.eventId]

/-- The section on the recovery returns on a `recovery.json` and receipts that show one. -/
theorem checkRecovery_eq_ok {e : Evidence} {consumed : List String} {ordered : List Record}
    {failures : List String} :
    checkRecovery e consumed ordered = .ok failures ↔
      ∃ rec, e.ShowsRecovery consumed rec ∧ failures = rec.failures (phaseIds ordered) := by
  have hloop : ∀ observed row observed', addObserved observed row = .ok observed' ↔
      ∃ r, row.IsReceipt r ∧ observed' = addReceipt observed r := fun _ _ _ => addObserved_eq_ok
  unfold checkRecovery
  simp only [bind_eq_ok, raiseIf_eq_ok, pure_eq_ok, exists_const, foldlM_eq_ok hloop, load_eq_ok,
    Json.item_eq_ok, Json.whole_eq_ok, Json.number_eq_ok, rows_eq_ok, not_or, Bool.not_eq_false,
    Json.isIdentity_iff, not_not]
  constructor
  -- the counts of consumed ids are compared with the receipts, so with what they say
  · rintro ⟨value, hvalue, before, hbefore, after, hafter, ⟨hid, hid'⟩, reloads, hreloads, code,
      hcode, v, hv, start, hstart, w, hw, stop, hstop, receipts, ⟨hreceipts, -⟩, hcounts, observed,
      ⟨rs, hrs, rfl⟩, rfl⟩
    have hids := map_eq_of_forall₂ (f := (Record.get · "event_id")) (fun _ _ h => h.eventId) hrs
    refine ⟨⟨before, after, reloads, code, start, stop, rs⟩, ?_, rfl⟩
    exact ⟨⟨value, hvalue, hbefore, hafter, hreloads, hcode, ⟨v, hv, hstart⟩, ⟨w, hw, hstop⟩⟩,
      hid, hid', ⟨receipts, hreceipts, hrs⟩, hids ▸ hcounts⟩
  · rintro ⟨rec, hrec, rfl⟩
    obtain ⟨value, hvalue, hbefore, hafter, hreloads, hcode, ⟨v, hv, hstart⟩, ⟨w, hw, hstop⟩⟩ :=
      hrec.metadata
    obtain ⟨receipts, hreceipts, hrs⟩ := hrec.receipts
    have hids := map_eq_of_forall₂ (f := (Record.get · "event_id")) (fun _ _ h => h.eventId) hrs
    refine ⟨value, hvalue, _, hbefore, _, hafter, ⟨hrec.before, hrec.after⟩, _, hreloads, _, hcode,
      v, hv, _, hstart, w, hw, _, hstop, receipts, ⟨hreceipts, ?_⟩, ?_, _, ⟨_, hrs, rfl⟩, rfl⟩
    · exact fun h => absurd h Bool.false_ne_true
    · rw [← hids]
      exact hrec.consumed

/-! ## The run -/

section Verify

variable {args : VerifyArgs} {e : Evidence}

/-- The injected ids of a phase. -/
def Run.phaseIds (run : Run) (phase : String) : Finset String :=
  ((run.events.filter fun ev => ev.phase = phase).map InjectedEvent.eventId).toFinset

/-- The failures of the recovery. -/
def Run.recoveryFailures (args : VerifyArgs) (run : Run) : List String :=
  if args.requireRecovery then run.recovery.failures run.phaseIds else []

/-- The failures of the rows and of the sets. -/
def Run.setFailures (args : VerifyArgs) (run : Run) : List String :=
  (tallyOf args.ttlMs run.final).failures ++
    compareSets args run.injected run.consumed.toFinset run.rejected run.expectedDead
      (tallyOf args.ttlMs run.final)

/-- The failures of the order. -/
def Run.orderFailures (args : VerifyArgs) (run : Run) : List String :=
  if args.checkOrder then disorder run.consumed run.events else []

/-- What `verify` returns on a run. -/
def Run.code (args : VerifyArgs) (run : Run) : Nat :=
  exitCode (decide (run.orderFailures args ≠ []))
    (run.setFailures args ++ run.orderFailures args ++ run.recoveryFailures args)

/-- The injected events are only read by the sections that need them. -/
theorem injectedRows_eq_ok {injected : Finset String} {ordered : List Record} :
    injectedRows args e injected = .ok ordered ↔
      if args.checkOrder = true ∨ args.requireRecovery = true then
        e.injectedEvents.Rows injectedColumns ordered ∧ EventsOk injected ordered
      else ordered = [] := by
  unfold injectedRows
  by_cases hneed : args.checkOrder = true ∨ args.requireRecovery = true
  · rw [if_pos hneed, if_pos (Bool.or_eq_true _ _ ▸ hneed), loadInjected_eq_ok]
  · rw [if_neg hneed, if_neg (Bool.or_eq_true _ _ ▸ hneed), pure_eq_ok]

/-- Without `--check-order` every row is an event of any sequence. -/
theorem exists_events (hargs : args.checkOrder = false) (ordered : List Record) :
    ∃ events, List.Forall₂ (Record.IsInjected args) ordered events := by
  refine ⟨ordered.map fun row => ⟨row.get "event_id", row.get "call_uuid", 0, row.get "phase"⟩, ?_⟩
  rw [List.forall₂_map_right_iff, List.forall₂_same]
  exact fun row _ => ⟨rfl, rfl, rfl, fun h => absurd h (Bool.eq_false_iff.mp hargs)⟩

/-- The ids of a phase can be read off the records or off the events. -/
theorem phaseIds_eq {ordered : List Record} {run : Run}
    (h : List.Forall₂ (Record.IsInjected args) ordered run.events) :
    phaseIds ordered = run.phaseIds := by
  funext phase
  have hfilter : List.Forall₂ (Record.IsInjected args)
      (ordered.filter fun row => row.get "phase" = phase)
      (run.events.filter fun ev => ev.phase = phase) :=
    List.rel_filter (fun row ev hev => by simp [hev.phase]) h
  unfold phaseIds Run.phaseIds
  rw [map_eq_of_forall₂ (f := (Record.get · "event_id")) (fun _ _ hev => hev.eventId) hfilter]

/-- `--check-order`, or nothing. -/
theorem orderSection_eq_ok {consumed : List String} {ordered : List Record}
    {out : List String × Bool} :
    orderSection args consumed ordered = .ok out ↔
      ∃ events, List.Forall₂ (Record.IsInjected args) ordered events ∧
        (args.checkOrder = true → CallsOk events) ∧
        let failures := if args.checkOrder then disorder consumed events else []
        out = (failures, decide (failures ≠ [])) := by
  unfold orderSection
  cases hargs : args.checkOrder with
  | true =>
    simp only [if_true, checkOrder_eq_ok hargs, forall_const]
  | false =>
    -- the sequences are not read
    obtain ⟨events, hevents⟩ := exists_events hargs ordered
    simp only [Bool.false_eq_true, if_false, pure_eq_ok, false_implies, true_and, ne_eq,
      not_true_eq_false, decide_false]
    exact ⟨fun h => ⟨events, hevents, h⟩, fun ⟨_, _, h⟩ => h⟩

/-- `--require-recovery`, or nothing. -/
theorem recoverySection_eq_ok {consumed : List String} {ordered : List Record}
    {failures : List String} :
    recoverySection args e consumed ordered = .ok failures ↔
      ∃ rec, (args.requireRecovery = true → e.ShowsRecovery consumed rec) ∧
        failures = if args.requireRecovery then rec.failures (phaseIds ordered) else [] := by
  unfold recoverySection
  cases args.requireRecovery with
  | true => simp only [if_true, checkRecovery_eq_ok, forall_const]
  | false =>
    simp only [Bool.false_eq_true, if_false, pure_eq_ok, false_implies, true_and]
    exact ⟨fun h => ⟨⟨.null, .null, 0, 0, 0, 0, []⟩, h⟩, fun ⟨_, h⟩ => h⟩

/-- `verify` returns on the evidence that is well formed, and what it returns is a
function of what the evidence says. -/
theorem verify_eq_ok {code : Nat} :
    verify args e = .ok code ↔ ∃ run, e.Shows args run ∧ code = run.code args := by
  unfold verify
  simp only [bind_eq_ok, raiseIf_eq_ok, pure_eq_ok, exists_const, unique_eq_ok, ids_eq_ok,
    rows_eq_ok, tally_eq_ok, injectedRows_eq_ok]
  constructor
  -- what the sections read is a run, and the exit code is computed from it
  · rintro ⟨l, hl, injected, ⟨hnd, rfl⟩, hne, consumed, hconsumed, l', hl', rejected, ⟨hnd', rfl⟩,
      l'', hl'', expectedDead, ⟨hnd'', rfl⟩, result, ⟨hfinal, hdistinct⟩, tally, ⟨rs, hrs, rfl⟩,
      ordered, hordered, order, horder, recovery, hrecovery, rfl⟩
    obtain ⟨events, hevents, hcalls, rfl⟩ := orderSection_eq_ok.mp horder
    obtain ⟨rec, hrec, rfl⟩ := recoverySection_eq_ok.mp hrecovery
    refine ⟨⟨l.toFinset, consumed, l'.toFinset, l''.toFinset, rs, events, rec⟩, ?_, ?_⟩
    · refine ⟨⟨l, hl, hnd, rfl⟩, Finset.nonempty_iff_ne_empty.mpr hne, hconsumed,
        ⟨l', hl', hnd', rfl⟩, ⟨l'', hl'', hnd'', rfl⟩, ⟨result, hfinal, hdistinct trivial, hrs⟩, ?_,
        hcalls, hrec⟩
      intro hneed
      rw [if_pos hneed] at hordered
      exact ⟨ordered, hordered.1, hordered.2, hevents⟩
    · let run : Run := ⟨l.toFinset, consumed, l'.toFinset, l''.toFinset, rs, events, rec⟩
      have hphases : phaseIds ordered = run.phaseIds := phaseIds_eq hevents
      rw [hphases]
      rfl
  -- on the evidence of a run no section raises
  · rintro ⟨run, hrun, rfl⟩
    obtain ⟨l, hl, hnd, hinjected⟩ := hrun.injected
    obtain ⟨l', hl', hnd', hrejected⟩ := hrun.rejected
    obtain ⟨l'', hl'', hnd'', hexpected⟩ := hrun.expectedDead
    obtain ⟨result, hfinal, hdistinct, hrs⟩ := hrun.final
    refine ⟨l, hl, run.injected, ⟨hnd, hinjected⟩, Finset.nonempty_iff_ne_empty.mp hrun.nonempty,
      run.consumed, hrun.consumed, l', hl', run.rejected, ⟨hnd', hrejected⟩, l'', hl'',
      run.expectedDead, ⟨hnd'', hexpected⟩, result, ⟨hfinal, fun _ => hdistinct⟩, _,
      ⟨run.final, hrs, rfl⟩, ?_⟩
    by_cases hneed : args.checkOrder = true ∨ args.requireRecovery = true
    · obtain ⟨ordered, hrows, hok, hevents⟩ := hrun.events hneed
      refine ⟨ordered, ?_, _, orderSection_eq_ok.mpr ⟨run.events, hevents, hrun.calls, rfl⟩, _,
        recoverySection_eq_ok.mpr ⟨run.recovery, hrun.recovery, rfl⟩, ?_⟩
      · rw [if_pos hneed]
        exact ⟨hrows, hok⟩
      · rw [phaseIds_eq hevents]
        rfl
    · -- neither section is asked for, and the events are not read
      have horder : args.checkOrder = false := Bool.eq_false_iff.mpr fun h => hneed (.inl h)
      have hrecovery : args.requireRecovery = false := Bool.eq_false_iff.mpr fun h => hneed (.inr h)
      refine ⟨[], if_neg hneed ▸ rfl, ([], false), ?_, [], ?_, ?_⟩
      · simp [orderSection, horder, pure, Except.pure]
      · simp [recoverySection, hrecovery, pure, Except.pure]
      · simp [Run.code, Run.orderFailures, Run.recoveryFailures, Run.setFailures, horder, hrecovery]

end Verify

end EventKafka
