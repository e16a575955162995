import Mathlib.Data.List.Induction

/-! # Runs of an action machine

A machine is a total step function on states and actions. An action that is not
enabled leaves the state alone, so every list of actions is a run and a theorem
about every list is a theorem about every interleaving the actions can describe.

`run` is the state a run ends in and `trace` its history, the state each action
met together with the action. The rules below are the induction over a run: for
an invariant of states (`run_invariant`), for an invariant that needs something
of every step taken (`run_invariant_along`), for an invariant that ties the
state to the history (`trace_invariant`), and for the refinement of another machine
(`run_refines`). `Confluent` is for a batch of actions whose order does not matter
(`Confluent.run_perm`).
-/

namespace Machine

variable {σ α : Type}

/-- The state after running `acts` from `s`. -/
def run (step : σ → α → σ) (s : σ) (acts : List α) : σ := acts.foldl step s

/-- The steps of a run: the state each action met, and the action. -/
def trace (step : σ → α → σ) : σ → List α → List (σ × α)
  | _, [] => []
  | s, a :: acts => (s, a) :: trace step (step s a) acts

section Rules

variable {step : σ → α → σ} {s : σ}

@[simp] theorem run_nil : run step s [] = s := rfl

@[simp] theorem run_cons (a : α) (acts : List α) :
    run step s (a :: acts) = run step (step s a) acts := rfl

/-- A run of two parts is the second from where the first ends. -/
theorem run_append (as bs : List α) :
    run step s (as ++ bs) = run step (run step s as) bs := List.foldl_append

@[simp] theorem run_snoc (acts : List α) (a : α) :
    run step s (acts ++ [a]) = step (run step s acts) a := by
  rw [run_append]
  rfl

@[simp] theorem trace_nil : trace step s [] = [] := rfl

@[simp] theorem trace_cons (a : α) (acts : List α) :
    trace step s (a :: acts) = (s, a) :: trace step (step s a) acts := rfl

/-- Its trace is the two traces, one after the other. -/
theorem trace_append (as bs : List α) :
    trace step s (as ++ bs) = trace step s as ++ trace step (run step s as) bs := by
  induction as generalizing s with
  | nil => rfl
  | cons a as ih => simp [ih]

/-- The last step starts where the run before it ended. -/
@[simp] theorem trace_snoc (acts : List α) (a : α) :
    trace step s (acts ++ [a]) = trace step s acts ++ [(run step s acts, a)] := by
  rw [trace_append]
  rfl

/-- A step of a run is met after some prefix of it. -/
theorem exists_prefix_of_mem_trace {acts : List α} {x : σ × α} (h : x ∈ trace step s acts) :
    ∃ pre post, acts = pre ++ x.2 :: post ∧ x.1 = run step s pre := by
  induction acts generalizing s with
  | nil => simp at h
  | cons a acts ih =>
    rcases List.mem_cons.mp h with rfl | h
    · exact ⟨[], acts, rfl, rfl⟩
    · rcases ih h with ⟨pre, post, hacts, hx⟩
      refine ⟨a :: pre, post, ?_, ?_⟩
      · rw [hacts]
        rfl
      · rw [hx]
        rfl

/-- What was done in a trace is one of the actions. -/
theorem mem_of_mem_trace {acts : List α} {x : σ × α} (h : x ∈ trace step s acts) :
    x.2 ∈ acts := by
  rcases exists_prefix_of_mem_trace h with ⟨pre, post, hacts, -⟩
  rw [hacts]
  exact List.mem_append_right _ List.mem_cons_self

/-- A step of a run, with the history it was met after. -/
theorem trace_eq_append_cons {acts : List α} {pre post : List (σ × α)} {x : σ × α}
    (h : trace step s acts = pre ++ x :: post) :
    ∃ as bs, acts = as ++ x.2 :: bs ∧ pre = trace step s as ∧ x.1 = run step s as := by
  induction acts generalizing s pre with
  | nil => simp at h
  | cons a acts ih =>
    cases pre with
    | nil =>
      rw [trace_cons, List.nil_append, List.cons.injEq] at h
      refine ⟨[], acts, ?_, rfl, ?_⟩
      · rw [← h.1]
        rfl
      · rw [← h.1]
        rfl
    | cons y pre =>
      rw [trace_cons, List.cons_append, List.cons.injEq] at h
      rcases ih h.2 with ⟨as, bs, hacts, hpre, hx⟩
      refine ⟨a :: as, bs, ?_, ?_, hx⟩
      · rw [hacts]
        rfl
      · rw [trace_cons, h.1, hpre]

/-- The induction over a run with its history: `J` holds of the empty history,
and every step that satisfies `P` extends it. -/
theorem trace_invariant {J : List (σ × α) → σ → Prop} {P : σ → α → Prop} (hinit : J [] s)
    (hstep : ∀ tr s a, P s a → J tr s → J (tr ++ [(s, a)]) (step s a)) (acts : List α)
    (hP : ∀ x ∈ trace step s acts, P x.1 x.2) :
    J (trace step s acts) (run step s acts) := by
  induction acts using List.reverseRecOn with
  | nil => exact hinit
  | append_singleton acts a ih =>
    rw [trace_snoc] at hP ⊢
    rw [run_snoc]
    apply hstep
    · exact hP _ (List.mem_append_right _ (List.mem_singleton_self _))
    · apply ih
      intro x hx
      exact hP x (List.mem_append_left _ hx)

/-- The induction over a run whose every step satisfies `P`. -/
theorem run_invariant_along {I : σ → Prop} {P : σ → α → Prop} (hinit : I s)
    (hstep : ∀ s a, P s a → I s → I (step s a)) (acts : List α)
    (hP : ∀ x ∈ trace step s acts, P x.1 x.2) : I (run step s acts) :=
  trace_invariant (J := fun _ s => I s) hinit (fun _ s a => hstep s a) acts hP

/-- Refinement: where `I` holds, a step is on the view some steps of the machine `abs`, so a
run is a run of it. -/
theorem run_refines {τ β : Type} {abs : τ → β → τ} {view : σ → τ} {label : σ → α → List β}
    {I : σ → Prop} {P : σ → α → Prop} (hinit : I s)
    (hstep : ∀ s a, P s a → I s → I (step s a))
    (hview : ∀ s a, P s a → I s → view (step s a) = run abs (view s) (label s a))
    (acts : List α) (hP : ∀ x ∈ trace step s acts, P x.1 x.2) :
    view (run step s acts) =
      run abs (view s) ((trace step s acts).flatMap fun x => label x.1 x.2) := by
  have hall : I (run step s acts) ∧ view (run step s acts) =
      run abs (view s) ((trace step s acts).flatMap fun x => label x.1 x.2) := by
    refine trace_invariant (P := P) (J := fun tr s' =>
      I s' ∧ view s' = run abs (view s) (tr.flatMap fun x => label x.1 x.2)) ⟨hinit, rfl⟩ ?_ acts hP
    rintro tr s' a ha ⟨hI, hv⟩
    refine ⟨hstep s' a ha hI, ?_⟩
    rw [hview s' a ha hI, hv, List.flatMap_append, run_append, List.flatMap_singleton]
  exact hall.2

/-- The induction over any run. -/
theorem run_invariant {I : σ → Prop} (hinit : I s) (hstep : ∀ s a, I s → I (step s a))
    (acts : List α) : I (run step s acts) :=
  run_invariant_along (P := fun _ _ => True) hinit (fun s a _ => hstep s a) acts
    (fun _ _ => trivial)

end Rules

/-! ## Batches in any order -/

/-- The order of a batch does not matter up to `E`. `P s l` says that the actions `l` may
be taken at `s`; neighbours may be swapped as long as it holds. -/
structure Confluent (step : σ → α → σ) (E : σ → σ → Prop) (P : σ → List α → Prop) : Prop where
  equiv : Equivalence E
  respects : ∀ {s t : σ} (a : α), E s t → E (step s a) (step t a)
  next : ∀ {s : σ} {a : α} {l : List α}, P s (a :: l) → P (step s a) l
  perm : ∀ {s : σ} {l l' : List α}, l.Perm l' → P s l → P s l'
  swap : ∀ {s : σ} {a b : α} {l : List α}, P s (a :: b :: l) →
    E (step (step s a) b) (step (step s b) a)

namespace Confluent

variable {step : σ → α → σ} {E : σ → σ → Prop} {P : σ → List α → Prop}

/-- Equivalent states end in equivalent states under the same actions. -/
theorem run_congr (h : Confluent step E P) (acts : List α) {s t : σ} (hst : E s t) :
    E (run step s acts) (run step t acts) := by
  induction acts generalizing s t with
  | nil => exact hst
  | cons a acts ih => exact ih (h.respects a hst)

/-- The induction over the swaps that make one order of a batch into another. -/
theorem run_perm (h : Confluent step E P) {l l' : List α} (hperm : l.Perm l') {s : σ}
    (hP : P s l) : E (run step s l) (run step s l') := by
  induction hperm generalizing s with
  | nil => exact h.equiv.refl s
  | cons a _ ih => exact ih (h.next hP)
  | swap a b l => exact h.run_congr l (h.swap hP)
  | trans hfirst _ ih ih' => exact h.equiv.trans (ih hP) (ih' (h.perm hfirst hP))

end Confluent

end Machine
