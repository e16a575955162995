import Mathlib.Data.List.Range

/-! # In-order delivery behind a cursor

A sender issues positions `0, 1, 2, ...` to an unreliable medium. Whatever was
issued may be logged later, any number of times and in any order. What keeps the
log in order is the cursor: nothing beyond it is ever issued, and it moves past a
position only once that position is in the log.

`Sound` is that discipline as an invariant, with one rule for each thing that can
happen. `Sound.ordered` is what it buys: the first occurrences in the log are
`0, 1, 2, ...` in this order, without a gap.
-/

namespace CursorLog

/-- The log `log` of a sender with cursor `cursor`, which has issued `issued`. -/
structure Sound (cursor : ℕ) (issued : ℕ → Prop) (log : List ℕ) : Prop where
  issued_le : ∀ k, issued k → k ≤ cursor
  logged : ∀ k, k < cursor → k ∈ log
  log_issued : ∀ k ∈ log, issued k
  ordered : log.eraseDups = List.range log.eraseDups.length

variable {cursor : ℕ} {issued issued' : ℕ → Prop} {log : List ℕ}

theorem Sound.init : Sound 0 (fun _ => False) [] where
  issued_le := fun _ h => h.elim
  logged := fun _ h => absurd h (Nat.not_lt_zero _)
  log_issued := fun _ h => absurd h List.not_mem_nil
  ordered := rfl

/-- Issuing positions up to the cursor. -/
theorem Sound.issue (h : Sound cursor issued log) (hmono : ∀ k, issued k → issued' k)
    (hle : ∀ k, issued' k → k ≤ cursor) : Sound cursor issued' log where
  issued_le := hle
  logged := h.logged
  log_issued := fun k hk => hmono k (h.log_issued k hk)
  ordered := h.ordered

/-- The distinct positions of the log are those below the cursor, and possibly the
one it stands on. -/
theorem Sound.length_eq (h : Sound cursor issued log) :
    log.eraseDups.length = if cursor ∈ log then cursor + 1 else cursor := by
  have hmem : ∀ k, k < log.eraseDups.length ↔ k ∈ log := by
    intro k
    rw [← List.mem_range, ← h.ordered, List.mem_eraseDups]
  have hle : log.eraseDups.length ≤ cursor + 1 := by
    by_contra hlt
    have hin : cursor + 1 ∈ log := (hmem _).mp (by omega)
    have := h.issued_le _ (h.log_issued _ hin)
    omega
  have hge : cursor ≤ log.eraseDups.length := by
    by_contra hlt
    have hin := h.logged log.eraseDups.length (by omega)
    have := (hmem _).mpr hin
    omega
  by_cases hc : cursor ∈ log
  · have := (hmem _).mpr hc
    simp only [hc, if_true]
    omega
  · have hnot : ¬ cursor < log.eraseDups.length := fun hlt => hc ((hmem _).mp hlt)
    simp only [hc, if_false]
    omega

/-- Anything issued may be logged, again or for the first time. -/
theorem Sound.append (h : Sound cursor issued log) {k : ℕ} (hk : issued k) :
    Sound cursor issued (log ++ [k]) where
  issued_le := h.issued_le
  logged := fun j hj => List.mem_append_left _ (h.logged j hj)
  log_issued := by
    intro j hj
    rcases List.mem_append.mp hj with hj | hj
    · exact h.log_issued j hj
    · rw [List.mem_singleton.mp hj]
      exact hk
  ordered := by
    rw [List.eraseDups_append]
    by_cases hin : k ∈ log
    · -- a duplicate adds no first occurrence
      have hnil : ([k] : List ℕ).removeAll log = [] := by simp [List.removeAll, hin]
      rw [hnil, List.eraseDups_nil, List.append_nil]
      exact h.ordered
    · -- a new position is the one the cursor stands on
      have hone : ([k] : List ℕ).removeAll log = [k] := by simp [List.removeAll, hin]
      have hsingle : ([k] : List ℕ).eraseDups = [k] := by simp [List.eraseDups_cons]
      have hcursor : k = cursor := by
        have hle := h.issued_le k hk
        by_contra hne
        exact hin (h.logged k (by omega))
      have hlen : log.eraseDups.length = cursor := by
        rw [h.length_eq, if_neg (hcursor ▸ hin)]
      rw [hone, hsingle, List.length_append, List.length_singleton, List.range_succ, ← h.ordered,
        hlen, hcursor]

/-- The cursor moves past a position that is logged. -/
theorem Sound.advance (h : Sound cursor issued log) (hlogged : cursor ∈ log) :
    Sound (cursor + 1) issued log where
  issued_le := fun k hk => Nat.le_succ_of_le (h.issued_le k hk)
  logged := by
    intro k hk
    rcases Nat.lt_or_eq_of_le (Nat.lt_succ_iff.mp hk) with hlt | heq
    · exact h.logged k hlt
    · rw [heq]
      exact hlogged
  log_issued := h.log_issued
  ordered := h.ordered

/-- First occurrences under an injective renaming. -/
theorem eraseDups_map {α β : Type} [DecidableEq α] [DecidableEq β] {f : α → β}
    (hf : Function.Injective f) (l : List α) : (l.map f).eraseDups = l.eraseDups.map f := by
  -- the tail of the recursion is a filtered list, so the induction is on the length
  induction hn : l.length using Nat.strong_induction_on generalizing l with
  | _ n ih =>
    cases l with
    | nil => rfl
    | cons a l =>
      have hfilter : (l.map f).filter (fun b => !b == f a) =
          (l.filter fun b => !b == a).map f := by
        rw [List.filter_map]
        congr 1
        apply List.filter_congr
        intro b _
        simp [hf.eq_iff]
      have hlt : (l.filter fun b => !b == a).length < n := by
        have := List.length_filter_le (fun b => !b == a) l
        simp only [List.length_cons] at hn
        omega
      rw [List.map_cons, List.eraseDups_cons, List.eraseDups_cons, List.map_cons, hfilter,
        ih _ hlt _ rfl]

/-- Before a position is logged for the first time, the positions below it are. -/
theorem mem_of_first {pre post : List ℕ} {j k n : ℕ}
    (h : (pre ++ k :: post).eraseDups = List.range n) (hk : k ∉ pre) (hj : j < k) : j ∈ pre := by
  have hrest : (k :: post).removeAll pre = k :: post.removeAll pre := by
    simp [List.removeAll, hk]
  rw [List.eraseDups_append, hrest, List.eraseDups_cons] at h
  have hsorted : (List.range n).Pairwise (· < ·) := List.pairwise_lt_range
  have hkn : k < n := by
    rw [← List.mem_range, ← h]
    exact List.mem_append_right _ List.mem_cons_self
  have hjn : j ∈ List.range n := List.mem_range.mpr (hj.trans hkn)
  rw [← h] at hsorted hjn
  rcases List.mem_append.mp hjn with hpre | hpost
  · exact List.mem_eraseDups.mp hpre
  · -- what comes after the first occurrence of `k` is larger
    have hafter := (List.pairwise_append.mp hsorted).2.1
    rcases List.mem_cons.mp hpost with rfl | hlater
    · omega
    · have hlt := List.rel_of_pairwise_cons hafter hlater
      omega

end CursorLog
