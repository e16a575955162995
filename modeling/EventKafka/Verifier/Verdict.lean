import Mathlib.Tactic.Tauto
import EventKafka.Verifier.Failures

/-! # The verdict

`verify` returns 0 exactly on well formed evidence of an accepted run. Exit code 2 is
documented as a failure of the order alone; `verify` returns it when it recorded exactly
one failure, and it records one for each call out of order.
-/

namespace EventKafka

open Checks

/-! ## The exit code -/

section Code

variable {orderFailed : Bool} {failures : List String}

theorem exitCode_eq_zero : exitCode orderFailed failures = 0 ↔ failures = [] := by
  unfold exitCode
  by_cases hnil : failures = []
  · simp [hnil]
  · rw [if_pos hnil]
    split
    · simp [hnil]
    · simp [hnil]

theorem exitCode_eq_two :
    exitCode orderFailed failures = 2 ↔ orderFailed = true ∧ failures.length = 1 := by
  unfold exitCode
  by_cases hnil : failures = []
  · simp [hnil]
  · rw [if_pos hnil]
    split
    · rename_i hone
      simp [hone]
    · rename_i hone
      simp [hone]

theorem exitCode_eq_one :
    exitCode orderFailed failures = 1 ↔
      failures ≠ [] ∧ ¬(orderFailed = true ∧ failures.length = 1) := by
  unfold exitCode
  by_cases hnil : failures = []
  · simp [hnil]
  · rw [if_pos hnil]
    split
    · rename_i hone
      simp [hone]
    · rename_i hone
      simp [hnil, hone]

end Code

section Verdict

variable {args : VerifyArgs} {e : Evidence} {run : Run}

/-- The evidence does not name an event twice. -/
theorem Evidence.Shows.nodup_ids (h : e.Shows args run)
    (hneed : args.checkOrder = true ∨ args.requireRecovery = true) :
    (run.events.map InjectedEvent.eventId).Nodup := by
  obtain ⟨ordered, -, hok, hevents⟩ := h.events hneed
  rw [map_eq_of_forall₂ (f := (Record.get · "event_id")) (fun _ _ hev => hev.eventId) hevents]
  exact hok.distinct

theorem sound_of_forall₂ {result : List Record} {rs : List FinalRow}
    (h : List.Forall₂ Record.IsFinal result rs) : ∀ r ∈ rs, r.Sound := by
  induction h with
  | nil =>
    intro r hr
    cases hr
  | cons hrow _ ih => exact List.forall_mem_cons.mpr ⟨hrow.sound, ih⟩

theorem Evidence.Shows.sound (h : e.Shows args run) : ∀ r ∈ run.final, r.Sound := by
  obtain ⟨result, -, -, hfinal⟩ := h.final
  exact sound_of_forall₂ hfinal

/-- Nothing but the order failed. -/
theorem Evidence.Shows.reconciled_iff (h : e.Shows args run) :
    run.Reconciled args ↔ run.setFailures args = [] ∧ run.recoveryFailures args = [] := by
  rw [setFailures_eq_nil h.sound h.nonempty]
  have hrecovery : run.recoveryFailures args = [] ↔
      (args.requireRecovery = true → run.Recovered) := by
    unfold Run.recoveryFailures
    by_cases hneed : args.requireRecovery = true
    · rw [if_pos hneed, recoveryFailures_eq_nil (h.recovery hneed).consumed]
      simp [hneed]
    · simp [hneed]
  rw [hrecovery]
  exact ⟨fun hr => ⟨hr.accounted, hr.recovered⟩, fun hr => ⟨hr.1, hr.2⟩⟩

/-- `verify` on evidence that shows a run. -/
theorem Evidence.Shows.verify_eq (h : e.Shows args run) : verify args e = .ok (run.code args) :=
  verify_eq_ok.mpr ⟨run, h, rfl⟩

/-- `verify` returns 0 exactly on well formed evidence of an accepted run. -/
theorem verify_accepts :
    verify args e = .ok 0 ↔ ∃ run, e.Shows args run ∧ run.Accepted args := by
  rw [verify_eq_ok]
  refine exists_congr fun run => and_congr_right fun h => ?_
  have horder : run.orderFailures args = [] ↔
      (args.checkOrder = true → ∀ call, call ≠ "" → run.InOrder call) := by
    unfold Run.orderFailures
    by_cases hcheck : args.checkOrder = true
    · have hids := h.nodup_ids (.inl hcheck)
      rw [if_pos hcheck, ← not_iff_not, ← ne_eq, disorder_ne_nil hids (h.calls hcheck)]
      simp [hcheck, Run.OutOfOrder]
    · simp [hcheck]
  rw [eq_comm, Run.code, exitCode_eq_zero, List.append_eq_nil_iff, List.append_eq_nil_iff, horder]
  constructor
  · rintro ⟨⟨hsets, hordered⟩, hrecovery⟩
    exact ⟨h.reconciled_iff.mpr ⟨hsets, hrecovery⟩, hordered⟩
  · intro haccepted
    obtain ⟨hsets, hrecovery⟩ := h.reconciled_iff.mp haccepted.reconciled
    exact ⟨⟨hsets, haccepted.ordered⟩, hrecovery⟩

/-- `verify` raises exactly on evidence that is not well formed. -/
theorem verify_raises : (∃ error, verify args e = .error error) ↔ ¬∃ run, e.Shows args run := by
  constructor
  · rintro ⟨error, herror⟩ ⟨run, h⟩
    rw [h.verify_eq] at herror
    cases herror
  · intro hno
    cases hverify : verify args e with
    | error error => exact ⟨error, rfl⟩
    | ok code =>
      obtain ⟨run, h, -⟩ := verify_eq_ok.mp hverify
      exact absurd ⟨run, h⟩ hno

/-- Exit code 2 means a failure of the order alone, and exit code 1 any other failure,
exactly when at most one call is out of order or another check fails as well. -/
theorem order_exit_code (h : e.Shows args run) (horder : args.checkOrder = true) :
    ((verify args e = .ok 2 ↔ (∃ call, run.OutOfOrder call) ∧ run.Reconciled args) ∧
      (verify args e = .ok 1 ↔ ¬run.Reconciled args)) ↔
    ((∀ c c', run.OutOfOrder c → run.OutOfOrder c' → c = c') ∨ ¬run.Reconciled args) := by
  have hids := h.nodup_ids (.inl horder)
  have hcalls := h.calls horder
  have hfailures : run.orderFailures args = disorder run.consumed run.events := if_pos horder
  rw [h.verify_eq, Except.ok.injEq, Except.ok.injEq, Run.code, exitCode_eq_two, exitCode_eq_one,
    hfailures, h.reconciled_iff, ← length_disorder_le_one hids hcalls,
    ← disorder_ne_nil hids hcalls, decide_eq_true_eq]
  -- three lists of failures, of which the middle one is the order's
  generalize run.setFailures args = sets
  generalize disorder run.consumed run.events = order
  generalize run.recoveryFailures args = recovery
  simp only [ne_eq, ← List.length_eq_zero_iff, List.length_append]
  omega

end Verdict

/-! ## Two calls out of order -/

/-- `--check-order` alone. -/
def orderArgs : VerifyArgs := ⟨false, 0, true, false⟩

/-- Two calls of two events each, all consumed, the events of each call in reverse. -/
def reversedCalls : Evidence where
  injectedIds := .read ["a", "b", "c", "d"]
  consumedIds := .read ["b", "a", "d", "c"]
  rejectedIds := .missing
  expectedDeadIds := .missing
  outboxFinal := .read [finalColumns]
  injectedEvents := .read [injectedColumns, ["a", "x", "0", "baseline"], ["b", "x", "1", "baseline"],
    ["c", "y", "0", "baseline"], ["d", "y", "1", "baseline"]]
  recovery := .missing
  consumedRecords := .missing

/-- What `reversedCalls` says. -/
def reversedCallsRun : Run where
  injected := {"a", "b", "c", "d"}
  consumed := ["b", "a", "d", "c"]
  rejected := ∅
  expectedDead := ∅
  final := []
  events := [⟨"a", "x", 0, "baseline"⟩, ⟨"b", "x", 1, "baseline"⟩, ⟨"c", "y", 0, "baseline"⟩,
    ⟨"d", "y", 1, "baseline"⟩]
  recovery := ⟨.null, .null, 0, 0, 0, 0, []⟩

theorem reversedCalls_shows : reversedCalls.Shows orderArgs reversedCallsRun where
  injected := ⟨["a", "b", "c", "d"], .inl ⟨_, rfl, by decide⟩, by decide, by decide⟩
  nonempty := ⟨"a", by decide⟩
  consumed := .inl ⟨_, rfl, by decide⟩
  rejected := ⟨[], .inr ⟨rfl, rfl, rfl⟩, List.nodup_nil, rfl⟩
  expectedDead := ⟨[], .inr ⟨rfl, rfl, rfl⟩, List.nodup_nil, rfl⟩
  final := ⟨[], ⟨_, rfl, ⟨by decide, by decide, by decide, by decide, by decide⟩, rfl⟩, by decide,
    .nil⟩
  events := by
    intro _
    refine ⟨_, ⟨_, rfl, ⟨by decide, by decide, by decide, by decide, by decide⟩, rfl⟩,
      ⟨by decide, by decide, by decide⟩, ?_⟩
    refine .cons ?_ (.cons ?_ (.cons ?_ (.cons ?_ .nil)))
    · exact ⟨by decide, by decide, by decide, fun _ => ⟨by decide, by decide⟩⟩
    · exact ⟨by decide, by decide, by decide, fun _ => ⟨by decide, by decide⟩⟩
    · exact ⟨by decide, by decide, by decide, fun _ => ⟨by decide, by decide⟩⟩
    · exact ⟨by decide, by decide, by decide, fun _ => ⟨by decide, by decide⟩⟩
  calls := fun _ => callsOk_iff.mpr ⟨by decide, by decide⟩
  recovery := fun h => absurd h (by decide)

theorem reversedCalls_reconciled : reversedCallsRun.Reconciled orderArgs where
  accounted :=
    ⟨⟨"a", by decide⟩, by decide, by decide, by decide, fun _ => rfl, by decide, by decide⟩
  recovered := fun h => absurd h (by decide)

theorem reversedCalls_outOfOrder :
    reversedCallsRun.OutOfOrder "x" ∧ reversedCallsRun.OutOfOrder "y" := by
  constructor
  · refine ⟨by decide, fun h => ?_⟩
    have hlt := h ⟨"a", "x", 0, "baseline"⟩ (by simp [reversedCallsRun]) ⟨"b", "x", 1, "baseline"⟩
      (by simp [reversedCallsRun]) rfl rfl (by decide) (by decide) (by decide)
    exact absurd hlt (by decide)
  · refine ⟨by decide, fun h => ?_⟩
    have hlt := h ⟨"c", "y", 0, "baseline"⟩ (by simp [reversedCallsRun]) ⟨"d", "y", 1, "baseline"⟩
      (by simp [reversedCallsRun]) rfl rfl (by decide) (by decide) (by decide)
    exact absurd hlt (by decide)

/-- Nothing but the order fails, and `verify` returns 1. -/
theorem order_exit_code_fails :
    reversedCalls.Shows orderArgs reversedCallsRun ∧ orderArgs.checkOrder = true ∧
      (∃ call, reversedCallsRun.OutOfOrder call) ∧ reversedCallsRun.Reconciled orderArgs ∧
      verify orderArgs reversedCalls = .ok 1 ∧
      ¬((verify orderArgs reversedCalls = .ok 2 ↔
          (∃ call, reversedCallsRun.OutOfOrder call) ∧ reversedCallsRun.Reconciled orderArgs) ∧
        (verify orderArgs reversedCalls = .ok 1 ↔ ¬reversedCallsRun.Reconciled orderArgs)) := by
  have hcode : verify orderArgs reversedCalls = .ok 1 := by rfl
  refine ⟨reversedCalls_shows, rfl, ⟨"x", reversedCalls_outOfOrder.1⟩, reversedCalls_reconciled,
    hcode, ?_⟩
  rintro ⟨-, hone⟩
  exact hone.mp hcode reversedCalls_reconciled

/-- The condition of `order_exit_code` is about these two calls. -/
theorem order_exit_code_reversed :
    ((verify orderArgs reversedCalls = .ok 2 ↔
        (∃ call, reversedCallsRun.OutOfOrder call) ∧ reversedCallsRun.Reconciled orderArgs) ∧
      (verify orderArgs reversedCalls = .ok 1 ↔ ¬reversedCallsRun.Reconciled orderArgs)) ↔
    ((∀ c c', reversedCallsRun.OutOfOrder c → reversedCallsRun.OutOfOrder c' → c = c') ∨
      ¬reversedCallsRun.Reconciled orderArgs) :=
  order_exit_code reversedCalls_shows rfl

end EventKafka
