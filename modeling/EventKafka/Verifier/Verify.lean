import EventKafka.Lib.Grouping
import EventKafka.Verifier.Evidence

/-! # The acceptance verifier

`verify` of `verify_event_ids.py`, section by section in the order of the source: the
final snapshot, the comparison of the sets, the order of each call, the recovery from the
fault. A section raises on evidence that is missing or malformed and returns the
failures it appends; `exitCode` is what `verify` returns for them.
-/

namespace EventKafka

open Checks

/-! ## What it is given -/

/-- The flags of the command line. -/
structure VerifyArgs where
  allowRejected : Bool
  ttlMs : Int
  checkOrder : Bool
  requireRecovery : Bool
deriving DecidableEq, Repr

/-- The files of the run directory. -/
structure Evidence where
  injectedIds : TextFile
  consumedIds : TextFile
  rejectedIds : TextFile
  expectedDeadIds : TextFile
  outboxFinal : CsvFile
  injectedEvents : CsvFile
  recovery : Artifact Json
  consumedRecords : CsvFile

def finalColumns : List String :=
  ["event_id", "state", "last_error", "created_at_ms", "updated_at_ms"]

def injectedColumns : List String := ["event_id", "call_uuid", "sequence", "phase"]

def receiptColumns : List String := ["event_id", "partition", "offset", "observed_at_ms"]

def phases : List String := ["baseline", "during", "recovery"]

/-! ## The final snapshot -/

/-- The sets the loop over `final` fills, and the failures it appends. -/
structure FinalTally where
  expired : Finset String
  dead : Finset String
  live : Finset String
  failures : List String

/-- Before the loop. -/
def FinalTally.start : FinalTally := ⟨∅, ∅, ∅, []⟩

/-- File a row as `checkRow` says. -/
def FinalTally.file (t : FinalTally) (eid : String) (filed : RowClass × Option String) : FinalTally :=
  match filed.1 with
  | .live => { t with live := insert eid t.live, failures := t.failures ++ filed.2.toList }
  | .expired => { t with expired := insert eid t.expired, failures := t.failures ++ filed.2.toList }
  | .dead => { t with dead := insert eid t.dead, failures := t.failures ++ filed.2.toList }

/-- The body of the loop over `final`. -/
def tallyRow (ttlMs : Int) (t : FinalTally) (row : Record) : Except String FinalTally := do
  let created ← row.number "created_at_ms"
  let updated ← row.number "updated_at_ms"
  let filed ← checkRow ttlMs
    { eventId := row.get "event_id", state := row.get "state", lastError := row.get "last_error",
      createdAtMs := created, updatedAtMs := updated }
  return t.file (row.get "event_id") filed

/-! ## The sets -/

/-- What `str.isprintable` says of a character; beyond Latin-1 all count as printable. -/
def isPrintable (c : Char) : Bool :=
  !(c.toNat < 0x20 || (0x7f ≤ c.toNat && c.toNat ≤ 0xa0) || c.toNat = 0xad)

/-- A character in the `repr` of a string that is quoted with `quote`. -/
def reprChar (quote c : Char) : List Char :=
  if c = quote ∨ c = '\\' then ['\\', c]
  else if c = '\t' then ['\\', 't']
  else if c = '\n' then ['\\', 'n']
  else if c = '\r' then ['\\', 'r']
  else if isPrintable c then [c]
  else ['\\', 'x', (c.toNat / 16).digitChar, (c.toNat % 16).digitChar]

/-- `repr` quotes with apostrophes, but a text that has them and no quotation mark with
these. -/
def reprText (s : String) : String :=
  let apostrophe := Char.ofNat 0x27
  let mark := Char.ofNat 0x22
  let quote := if apostrophe ∈ s.toList ∧ mark ∉ s.toList then mark else apostrophe
  String.ofList (quote :: (s.toList.flatMap (reprChar quote) ++ [quote]))

/-- `sorted(values)[:n]` in a message. -/
def listed (values : Finset String) (n : Nat) : String :=
  "[" ++ ", ".intercalate (((values.sort).take n).map reprText) ++ "]"

/-- The loop over the pairs of outcomes. -/
def conflicts : List (String × Finset String) → List String
  | [] => []
  | (name, values) :: rest =>
    (rest.flatMap fun outcome => failIf (values ∩ outcome.2 ≠ ∅)
      ("conflicting outcomes " ++ name ++ "/" ++ outcome.1 ++ ": " ++
        listed (values ∩ outcome.2) 10)) ++ conflicts rest

/-- The failures of the sets. -/
def compareSets (args : VerifyArgs) (injected consumed rejected expectedDead : Finset String)
    (t : FinalTally) : List String :=
  let outcomes := [("consumed", consumed), ("rejected", rejected), ("expired", t.expired),
    ("dead", t.dead)]
  let covered := outcomes.foldl (fun set outcome => set ∪ outcome.2) ∅
  failIf (t.live ≠ ∅)
    ("outbox not drained: " ++ toString t.live.card ++ " pending/in_flight") ++
  failIf (rejected ≠ ∅ ∧ args.allowRejected = false)
    "rejected events require --allow-rejected" ++
  failIf (t.dead ≠ expectedDead)
    "permanent dead IDs differ from expected_dead_ids.txt" ++
  (outcomes.flatMap fun outcome => failIf (outcome.2 \ injected ≠ ∅)
    ("unexpected " ++ outcome.1 ++ " IDs: " ++ listed (outcome.2 \ injected) 10)) ++
  failIf (t.live \ injected ≠ ∅) "unexpected IDs in final outbox" ++
  conflicts outcomes ++
  failIf (injected \ covered ≠ ∅) ("missing IDs: " ++ listed (injected \ covered) 20)

/-! ## The order of each call -/

/-- `ordered`. -/
def loadInjected (injected : Finset String) (file : CsvFile) : Except String (List Record) := do
  let ordered ← rows file "injected_events.csv" injectedColumns true
  raiseIf ((ordered.map (Record.get · "event_id")).toFinset ≠ injected)
    "injected_events.csv does not cover exactly injected_ids.txt"
  raiseIf (∃ row ∈ ordered, row.get "phase" ∉ phases) "invalid phase in injected_events.csv"
  return ordered

/-- `first_position.get(eid)`. -/
def firstPosition (consumed : List String) (eid : String) : Option Nat := consumed.idxOf? eid

/-- The body of the loop that fills `calls`. -/
def addToCall (calls : List (String × List (Int × String))) (row : Record) :
    Except String (List (String × List (Int × String))) := do
  let sequence ← row.number "sequence"
  return if row.get "call_uuid" ≠ "" then
      Grouping.add (row.get "call_uuid") (sequence, row.get "event_id") calls
    else calls

/-- The order of the tuples `(sequence, event_id)`. -/
def eventLe (x y : Int × String) : Prop := x.1 < y.1 ∨ (x.1 = y.1 ∧ x.2 ≤ y.2)

instance : DecidableRel eventLe := fun x y =>
  inferInstanceAs (Decidable (x.1 < y.1 ∨ (x.1 = y.1 ∧ x.2 ≤ y.2)))

/-- `positions`. -/
def positions (consumed : List String) (events : List (Int × String)) : List Nat :=
  (events.insertionSort eventLe).filterMap fun x => firstPosition consumed x.2

/-- The failure of a call whose `positions` are not sorted. -/
def orderFailure (consumed : List String) (call : String × List (Int × String)) : List String :=
  failIf (positions consumed call.2 ≠ (positions consumed call.2).insertionSort (· ≤ ·))
    ("ORDER_FAIL call_uuid=" ++ call.1)

/-- The body of the loop over `calls`. -/
def checkCall (consumed : List String) (call : String × List (Int × String)) :
    Except String (List String) := do
  raiseIf ((call.2.map Prod.fst).toFinset.card ≠ call.2.length)
    ("duplicate sequence for call " ++ call.1)
  return orderFailure consumed call

/-- The section under `--check-order`: the failures, and `order_failed`. -/
def checkOrder (consumed : List String) (ordered : List Record) :
    Except String (List String × Bool) := do
  let calls ← ordered.foldlM addToCall []
  raiseIf (calls = []) "order requested but no call_uuid evidence"
  let failures ← calls.mapM (checkCall consumed)
  return (failures.flatten, failures.flatten ≠ [])

/-! ## The recovery from the fault -/

/-- A sender identity has a positive `pid` and a `start_id` that is not blank. -/
def Json.isIdentity (identity : Json) : Bool :=
  match (identity.member? "pid").bind Json.int?, (identity.member? "start_id").bind Json.str? with
  | some pid, some startId => 0 < pid && !startId.blank
  | _, _ => false

/-- A field that has to be an `int`. -/
def Json.whole (value : Json) (key : String) : Except String Int := do
  match (← value.item key).int? with
  | some n => return n
  | none => throw "reload_count/fault_exit_code must be integers"

/-- The body of the loop that fills `observed`. -/
def addObserved (observed : List (String × List Int)) (row : Record) :
    Except String (List (String × List Int)) := do
  let _ ← row.number "partition"
  let _ ← row.number "offset"
  let observedAt ← row.number "observed_at_ms"
  return Grouping.add (row.get "event_id") observedAt observed

/-- `phase_ids`. -/
def phaseIds (ordered : List Record) (phase : String) : Finset String :=
  ((ordered.filter fun row => row.get "phase" = phase).map (Record.get · "event_id")).toFinset

/-- The body of the loop over the phases. -/
def checkPhase (phaseIds : Finset String) (observed : List (String × List Int))
    (faultStart faultEnd : Int) (phase : String) : List String :=
  let times := fun eid => (observed.lookup eid).getD []
  failIf (phaseIds = ∅) ("no injected events in " ++ phase) ++
  failIf (phase = "baseline" ∧ ¬∃ eid ∈ phaseIds, ∃ t ∈ times eid, t ≤ faultStart)
    "no baseline consumption before fault" ++
  failIf (phase = "recovery" ∧ ¬∃ eid ∈ phaseIds, ∃ t ∈ times eid, faultEnd < t)
    "no new recovery consumption after fault"

/-- The section under `--require-recovery`. -/
def checkRecovery (e : Evidence) (consumed : List String) (ordered : List Record) :
    Except String (List String) := do
  let recovery ← e.recovery.load "recovery.json"
  let before ← recovery.item "sender_before"
  let after ← recovery.item "sender_after"
  raiseIf (before.isIdentity = false ∨ after.isIdentity = false)
    "sender identity needs pid and start_id"
  let reloadCount ← recovery.whole "reload_count"
  let faultExitCode ← recovery.whole "fault_exit_code"
  let faultStart ← (← recovery.item "fault_start_ms").number "fault_start_ms"
  let faultEnd ← (← recovery.item "fault_end_ms").number "fault_end_ms"
  let receipts ← rows e.consumedRecords "consumed_records.csv" receiptColumns false
  raiseIf ((receipts.map (Record.get · "event_id") : Multiset String) ≠ consumed)
    "consumed_records.csv differs from consumed_ids.txt"
  let observed ← receipts.foldlM addObserved []
  return failIf (before.eq after = false ∨ reloadCount ≠ 0)
      "sender restarted or module reloaded" ++
    failIf (faultEnd ≤ faultStart ∨ faultExitCode ≠ 0) "fault did not complete successfully" ++
    phases.flatMap fun phase =>
      checkPhase (phaseIds ordered phase) observed faultStart faultEnd phase

/-! ## The verdict -/

/-- What `verify` returns. -/
def exitCode (orderFailed : Bool) (failures : List String) : Nat :=
  if failures ≠ [] then if orderFailed = true ∧ failures.length = 1 then 2 else 1 else 0

/-- `ordered`, where a flag asks for it. -/
def injectedRows (args : VerifyArgs) (e : Evidence) (injected : Finset String) :
    Except String (List Record) :=
  if args.checkOrder || args.requireRecovery then loadInjected injected e.injectedEvents
  else pure []

/-- The order, where the flag asks for it. -/
def orderSection (args : VerifyArgs) (consumed : List String) (ordered : List Record) :
    Except String (List String × Bool) :=
  if args.checkOrder then checkOrder consumed ordered else pure ([], false)

/-- The recovery, where the flag asks for it. -/
def recoverySection (args : VerifyArgs) (e : Evidence) (consumed : List String)
    (ordered : List Record) : Except String (List String) :=
  if args.requireRecovery then checkRecovery e consumed ordered else pure []

/-- `verify`. -/
def verify (args : VerifyArgs) (e : Evidence) : Except String Nat := do
  let injected ← unique (← ids e.injectedIds "injected_ids.txt" true) "injected_ids.txt"
  raiseIf (injected = ∅) "empty run: no injected events"
  let consumed ← ids e.consumedIds "consumed_ids.txt" true
  let rejected ← unique (← ids e.rejectedIds "rejected_ids.txt" false) "rejected_ids.txt"
  let expectedDead ←
    unique (← ids e.expectedDeadIds "expected_dead_ids.txt" false) "expected_dead_ids.txt"
  let final ← rows e.outboxFinal "outbox_final.csv" finalColumns true
  let tally ← final.foldlM (tallyRow args.ttlMs) FinalTally.start
  let outcome := compareSets args injected consumed.toFinset rejected expectedDead tally
  let ordered ← injectedRows args e injected
  let order ← orderSection args consumed ordered
  let recovery ← recoverySection args e consumed ordered
  return exitCode order.2 (tally.failures ++ outcome ++ order.1 ++ recovery)

end EventKafka
