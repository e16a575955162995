import EventKafka.Lib.Machine
import Mathlib.Algebra.Order.Group.Nat
import Mathlib.Algebra.BigOperators.Group.List.Basic
import Mathlib.Algebra.Ring.Nat

/-! # Goals that a rank leads to

A run reaches a goal when some of its steps, the fair ones, lower a rank and the others
do not raise it for free. `cost` is what a step may add: the work that comes in while the
run goes on. Nothing is said of the order the steps come in, so the rule holds for every
interleaving that has enough fair steps: `exists_goal_of_rank_le` where rank zero is the
goal, `exists_goal_of_rank` where it need not be.
-/

namespace Machine

variable {σ α : Type}

/-- The actions of a history are those of the run. -/
theorem trace_map_snd (step : σ → α → σ) (s : σ) (acts : List α) :
    (trace step s acts).map Prod.snd = acts := by
  induction acts generalizing s with
  | nil => rfl
  | cons a acts ih => rw [trace_cons, List.map_cons, ih]

/-- How a step may change the rank before the goal is reached. `P` is what is assumed of
the steps, `I` what they keep. -/
structure Ranked (step : σ → α → σ) (P : σ → α → Prop) (I goal : σ → Prop)
    (fair : σ × α → Bool) (cost : σ × α → ℕ) (rank : σ → ℕ) : Prop where
  keeps : ∀ s a, P s a → I s → ¬ goal s → I (step s a)
  lowers : ∀ s a, P s a → I s → ¬ goal s → fair (s, a) = true →
    rank (step s a) < rank s + cost (s, a)
  bounds : ∀ s a, P s a → I s → ¬ goal s → rank (step s a) ≤ rank s + cost (s, a)

section Ranked

variable {step : σ → α → σ} {P : σ → α → Prop} {I goal : σ → Prop} {fair : σ × α → Bool}
  {cost : σ × α → ℕ} {rank : σ → ℕ}

/-- A run with as many fair steps as the rank and the costs together meets the goal, if
there is nothing left to do at rank zero. -/
theorem exists_goal_of_rank_le (h : Ranked step P I goal fair cost rank)
    (hzero : ∀ s, I s → rank s = 0 → goal s) {s : σ} (hs : I s) {acts : List α}
    (hP : ∀ x ∈ trace step s acts, P x.1 x.2)
    (hmany : rank s + ((trace step s acts).map cost).sum ≤ (trace step s acts).countP fair) :
    ∃ pre post, acts = pre ++ post ∧ I (run step s pre) ∧ goal (run step s pre) := by
  induction acts generalizing s with
  | nil =>
    have hrank : rank s = 0 := by simpa using hmany
    exact ⟨[], [], rfl, hs, hzero s hs hrank⟩
  | cons a acts ih =>
    by_cases hgoal : goal s
    · exact ⟨[], a :: acts, rfl, hs, hgoal⟩
    · have hstep : P s a := hP (s, a) List.mem_cons_self
      have hI := h.keeps s a hstep hs hgoal
      -- what the first step costs and lowers is accounted for; the rest is shorter
      have hrest : rank (step s a) + ((trace step (step s a) acts).map cost).sum ≤
          (trace step (step s a) acts).countP fair := by
        rw [trace_cons, List.map_cons, List.sum_cons, List.countP_cons] at hmany
        by_cases hfair : fair (s, a) = true
        · have hlow := h.lowers s a hstep hs hgoal hfair
          simp only [hfair, if_true] at hmany
          omega
        · have hle := h.bounds s a hstep hs hgoal
          simp only [hfair, Bool.false_eq_true, if_false] at hmany
          omega
      rcases ih hI (fun x hx => hP x (List.mem_cons_of_mem _ hx)) hrest with
        ⟨pre, post, hacts, hrun⟩
      exact ⟨a :: pre, post, by rw [hacts]; rfl, hrun⟩

/-- Where rank zero says nothing yet, one more fair step is enough. -/
theorem exists_goal_of_rank (h : Ranked step P I goal fair cost rank) {s : σ} (hs : I s)
    {acts : List α} (hP : ∀ x ∈ trace step s acts, P x.1 x.2)
    (hmany : rank s + ((trace step s acts).map cost).sum < (trace step s acts).countP fair) :
    ∃ pre post, acts = pre ++ post ∧ I (run step s pre) ∧ goal (run step s pre) := by
  have hmore : Ranked step P I goal fair cost fun s => rank s + 1 := by
    refine ⟨h.keeps, ?_, ?_⟩
    · intro s a hstep hI hgoal hfair
      have hlow := h.lowers s a hstep hI hgoal hfair
      omega
    · intro s a hstep hI hgoal
      have hle := h.bounds s a hstep hI hgoal
      omega
  have hnever : ∀ s, I s → rank s + 1 = 0 → goal s := fun s _ h => absurd h (Nat.succ_ne_zero _)
  exact exists_goal_of_rank_le hmore hnever hs hP (by omega)

end Ranked

end Machine
