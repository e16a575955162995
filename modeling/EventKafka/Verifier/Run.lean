import EventKafka.Verifier.Verify

/-! # What an evidence set says

`Run` is the abstract content of an evidence set: the sets of ids, the typed rows of the
final snapshot, the injected events, the recovery. `Evidence.Shows args e run` says that
the evidence is well formed, as far as the flags ask for it, and that `run` is what it
says; it does not mention the verifier. `Run.Accepted` is what the acceptance test asks of
the run.
-/

namespace EventKafka

/-! ## The run -/

/-- An event, as the injecting side recorded it. -/
structure InjectedEvent where
  eventId : String
  callUuid : String
  sequence : Int
  phase : String

/-- A record a consumer observed. -/
structure Receipt where
  eventId : String
  observedAtMs : Int

/-- The fault, and the sending process around it. -/
structure Recovery where
  senderBefore : Json
  senderAfter : Json
  reloadCount : Int
  faultExitCode : Int
  faultStartMs : Int
  faultEndMs : Int
  receipts : List Receipt

/-- The content of an evidence set. -/
structure Run where
  injected : Finset String
  consumed : List String
  rejected : Finset String
  expectedDead : Finset String
  final : List FinalRow
  events : List InjectedEvent
  recovery : Recovery

/-- The rows that expired. -/
def Run.expired (run : Run) : Finset String :=
  ((run.final.filter fun r => r.state = "dead" ∧ r.lastError = "expired_ttl").map
    FinalRow.eventId).toFinset

/-- The rows that are dead for another reason. -/
def Run.dead (run : Run) : Finset String :=
  ((run.final.filter fun r => r.state = "dead" ∧ r.lastError ≠ "expired_ttl").map
    FinalRow.eventId).toFinset

/-! ## What the acceptance test asks of a run -/

/-- The sets add up, and nothing is left in the outbox. -/
structure Run.Accounted (args : VerifyArgs) (run : Run) : Prop where
  nonempty : run.injected.Nonempty
  drained : ∀ r ∈ run.final, r.state ≠ "pending" ∧ r.state ≠ "in_flight"
  union : run.injected = run.consumed.toFinset ∪ run.rejected ∪ run.expired ∪ run.dead
  disjoint : [run.consumed.toFinset, run.rejected, run.expired, run.dead].Pairwise Disjoint
  allowed : args.allowRejected = false → run.rejected = ∅
  aged : ∀ r ∈ run.final, r.state = "dead" → r.lastError = "expired_ttl" →
    0 < args.ttlMs ∧ args.ttlMs < r.updatedAtMs - r.createdAtMs
  expected : run.dead = run.expectedDead

/-- The sender is the same process and did not reload, the fault took place, the
receipts are what was consumed, and events went through before and after. -/
structure Run.Recovered (run : Run) : Prop where
  sender : run.recovery.senderBefore.eq run.recovery.senderAfter = true
  reload : run.recovery.reloadCount = 0
  window : run.recovery.faultStartMs < run.recovery.faultEndMs
  completed : run.recovery.faultExitCode = 0
  receipts : (run.recovery.receipts.map Receipt.eventId : Multiset String) = run.consumed
  phased : ∀ phase ∈ phases, ∃ ev ∈ run.events, ev.phase = phase
  before : ∃ ev ∈ run.events, ev.phase = "baseline" ∧ ∃ r ∈ run.recovery.receipts,
    r.eventId = ev.eventId ∧ r.observedAtMs ≤ run.recovery.faultStartMs
  after : ∃ ev ∈ run.events, ev.phase = "recovery" ∧ ∃ r ∈ run.recovery.receipts,
    r.eventId = ev.eventId ∧ run.recovery.faultEndMs < r.observedAtMs

/-- Every check but that of the order. -/
structure Run.Reconciled (args : VerifyArgs) (run : Run) : Prop where
  accounted : run.Accounted args
  recovered : args.requireRecovery = true → run.Recovered

/-- The consumed events of a call were first consumed in the order of their sequence. -/
def Run.InOrder (run : Run) (call : String) : Prop :=
  ∀ x ∈ run.events, ∀ y ∈ run.events, x.callUuid = call → y.callUuid = call →
    x.sequence < y.sequence → x.eventId ∈ run.consumed → y.eventId ∈ run.consumed →
    run.consumed.idxOf x.eventId < run.consumed.idxOf y.eventId

/-- What the acceptance test asks. The events of no call have an empty `call_uuid`. -/
structure Run.Accepted (args : VerifyArgs) (run : Run) : Prop where
  reconciled : run.Reconciled args
  ordered : args.checkOrder = true → ∀ call, call ≠ "" → run.InOrder call

/-! ## Well formed evidence -/

/-- The ids of a text file: its lines without surrounding space and without blank lines. A
file that is not required may be missing. -/
def Artifact.IdList (file : TextFile) (required : Bool) (l : List String) : Prop :=
  (∃ lines, file = .read lines ∧ l = (lines.map strip).filter fun s => s ≠ "") ∨
  (file = .missing ∧ required = false ∧ l = [])

/-- The ids of a text file that has none twice. -/
def Artifact.IdSet (file : TextFile) (required : Bool) (s : Finset String) : Prop :=
  ∃ l, file.IdList required l ∧ l.Nodup ∧ s = l.toFinset

/-- The rows below the header, without blank lines. -/
def tableRows (records : List (List String)) : List Record :=
  (records.tail.filter fun record => record ≠ []).map (Record.mk (records.headD []))

/-- The columns are there, and every row has them and no more fields than the header. -/
structure TableOk (columns : List String) (records : List (List String)) : Prop where
  header : (records.headD []).Nodup
  required : columns ⊆ records.headD []
  short : ∀ row ∈ tableRows records, ¬row.overlong
  full : ∀ row ∈ tableRows records, ∀ c ∈ columns, row.get? c ≠ none
  named : ∀ row ∈ tableRows records, blank (row.get "event_id") = false

/-- The rows of a CSV file. -/
def Artifact.Rows (file : CsvFile) (columns : List String) (result : List Record) : Prop :=
  ∃ records, file = .read records ∧ TableOk columns records ∧ result = tableRows records

/-- No event has two rows. -/
def DistinctIds (result : List Record) : Prop := (result.map (Record.get · "event_id")).Nodup

instance (result : List Record) : Decidable (DistinctIds result) :=
  inferInstanceAs (Decidable (List.Nodup _))

/-- The column holds a nonnegative integer. -/
def Record.Reads (row : Record) (column : String) (n : Int) : Prop :=
  pyInt (row.get column).toList = some n ∧ 0 ≤ n

/-- The row was not updated before it was created, its state is known, and it is dead for
a reason. -/
structure FinalRow.Sound (r : FinalRow) : Prop where
  since : r.createdAtMs ≤ r.updatedAtMs
  known : r.state = "pending" ∨ r.state = "in_flight" ∨ r.state = "dead"
  reason : r.state = "dead" → blank r.lastError = false

/-- A row of the final snapshot. -/
structure Record.IsFinal (row : Record) (r : FinalRow) : Prop where
  eventId : r.eventId = row.get "event_id"
  state : r.state = row.get "state"
  lastError : r.lastError = row.get "last_error"
  created : row.Reads "created_at_ms" r.createdAtMs
  updated : row.Reads "updated_at_ms" r.updatedAtMs
  sound : r.Sound

/-- A row of the injected events; the sequence is read when the order is checked. -/
structure Record.IsInjected (args : VerifyArgs) (row : Record) (ev : InjectedEvent) : Prop where
  eventId : ev.eventId = row.get "event_id"
  callUuid : ev.callUuid = row.get "call_uuid"
  phase : ev.phase = row.get "phase"
  sequence : args.checkOrder = true → row.Reads "sequence" ev.sequence

/-- A row of the receipts. -/
structure Record.IsReceipt (row : Record) (r : Receipt) : Prop where
  eventId : r.eventId = row.get "event_id"
  partition : ∃ n, row.Reads "partition" n
  offset : ∃ n, row.Reads "offset" n
  observedAt : row.Reads "observed_at_ms" r.observedAtMs

/-- The events cover exactly the injected ids, each in a known phase. -/
structure EventsOk (injected : Finset String) (ordered : List Record) : Prop where
  distinct : DistinctIds ordered
  cover : (ordered.map (Record.get · "event_id")).toFinset = injected
  phased : ∀ row ∈ ordered, row.get "phase" ∈ phases

/-- Some event belongs to a call, and a call numbers its events without repetition. -/
structure CallsOk (events : List InjectedEvent) : Prop where
  some : ∃ ev ∈ events, ev.callUuid ≠ ""
  distinct : ∀ call, call ≠ "" →
    ((events.filter fun ev => ev.callUuid = call).map InjectedEvent.sequence).Nodup

/-- A process: a positive `pid`, and a `start_id` that is not blank. -/
def Json.Identity (identity : Json) : Prop :=
  ∃ pid startId, identity.member? "pid" = some (.int pid) ∧ 0 < pid ∧
    identity.member? "start_id" = some (.str startId) ∧ startId.blank = false

/-- The value is a nonnegative integer or a string that spells one. -/
def Json.Reads (value : Json) (n : Int) : Prop :=
  (value = .int n ∨ ∃ s chars, value = .str s ∧ s.chars? = some chars ∧ pyInt chars = some n) ∧
    0 ≤ n

/-- `recovery.json` and the receipts. -/
structure Evidence.ShowsRecovery (e : Evidence) (consumed : List String) (rec : Recovery) : Prop where
  metadata : ∃ value, e.recovery = .read value ∧
    value.member? "sender_before" = some rec.senderBefore ∧
    value.member? "sender_after" = some rec.senderAfter ∧
    value.member? "reload_count" = some (.int rec.reloadCount) ∧
    value.member? "fault_exit_code" = some (.int rec.faultExitCode) ∧
    (∃ v, value.member? "fault_start_ms" = some v ∧ v.Reads rec.faultStartMs) ∧
    (∃ v, value.member? "fault_end_ms" = some v ∧ v.Reads rec.faultEndMs)
  before : rec.senderBefore.Identity
  after : rec.senderAfter.Identity
  receipts : ∃ result, e.consumedRecords.Rows receiptColumns result ∧
    List.Forall₂ Record.IsReceipt result rec.receipts
  consumed : (rec.receipts.map Receipt.eventId : Multiset String) = consumed

/-- The evidence is well formed, and `run` is what it says. -/
structure Evidence.Shows (args : VerifyArgs) (e : Evidence) (run : Run) : Prop where
  injected : e.injectedIds.IdSet true run.injected
  nonempty : run.injected.Nonempty
  consumed : e.consumedIds.IdList true run.consumed
  rejected : e.rejectedIds.IdSet false run.rejected
  expectedDead : e.expectedDeadIds.IdSet false run.expectedDead
  final : ∃ result, e.outboxFinal.Rows finalColumns result ∧ DistinctIds result ∧
    List.Forall₂ Record.IsFinal result run.final
  events : args.checkOrder = true ∨ args.requireRecovery = true →
    ∃ ordered, e.injectedEvents.Rows injectedColumns ordered ∧ EventsOk run.injected ordered ∧
      List.Forall₂ (Record.IsInjected args) ordered run.events
  calls : args.checkOrder = true → CallsOk run.events
  recovery : args.requireRecovery = true → e.ShowsRecovery run.consumed run.recovery

end EventKafka
