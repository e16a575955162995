import EventKafka.Lib.Program

/-! # Two programs side by side

`Tracks skip R Q x y` is a relational triple: from states related by `R` the programs
`x` and `y` both succeed, with values and states related by `Q`, or both throw the same
text. A text in `skip` ends the comparison: where `x` throws it, nothing is asked of
`y`. What the states are after an exception is left to whoever catches it, as a
transaction restores them.

There is a rule for every construct programs are made of, so a program is compared with
itself on two states by going through its statements.
-/

namespace Sql

variable {σ τ α β γ δ : Type} {skip : String → Prop}

/-- The results of two runs that are compared. -/
inductive Together (skip : String → Prop) (Q : α → β → σ → τ → Prop) :
    EStateM.Result String σ α → EStateM.Result String τ β → Prop where
  | done {a : α} {b : β} {s : σ} {t : τ} (h : Q a b s t) : Together skip Q (.ok a s) (.ok b t)
  | failed {e : String} {s : σ} {t : τ} : Together skip Q (.error e s) (.error e t)
  | skipped {e : String} {s : σ} {y : EStateM.Result String τ β} (h : skip e) :
      Together skip Q (.error e s) y

/-- From related states, `y` does what `x` does. -/
def Program.Tracks (skip : String → Prop) (R : σ → τ → Prop) (Q : α → β → σ → τ → Prop)
    (x : Program σ α) (y : Program τ β) : Prop :=
  ∀ s t, R s t → Together skip Q (x.run s) (y.run t)

namespace Program.Tracks

variable {R : σ → τ → Prop} {Q : α → β → σ → τ → Prop} {x : Program σ α} {y : Program τ β}

/-- How two compared runs can end. -/
theorem ends (h : Program.Tracks skip R Q x y) {s : σ} {t : τ} (hst : R s t) :
    (∃ e s', x.run s = .error e s' ∧ skip e) ∨
      (∃ e s' t', x.run s = .error e s' ∧ y.run t = .error e t') ∨
      ∃ a b s' t', x.run s = .ok a s' ∧ y.run t = .ok b t' ∧ Q a b s' t' := by
  have hrun := h s t hst
  generalize x.run s = rx at hrun
  generalize y.run t = ry at hrun
  cases hrun with
  | done hq => exact Or.inr (Or.inr ⟨_, _, _, _, rfl, rfl, hq⟩)
  | failed => exact Or.inr (Or.inl ⟨_, _, _, rfl, rfl⟩)
  | skipped he => exact Or.inl ⟨_, _, rfl, he⟩

theorem pure {a : α} {b : β} (h : ∀ s t, R s t → Q a b s t) :
    Program.Tracks skip R Q (pure a) (pure b) :=
  fun s t hst => .done (h s t hst)

/-- Both sides throw the same text. -/
theorem throw {e : String} : Program.Tracks skip R Q (throw e) (throw e) :=
  fun _ _ _ => .failed

/-- The second programs start from what the first ones establish. -/
theorem bind {V : γ → δ → σ → τ → Prop} {f : α → Program σ γ} {g : β → Program τ δ}
    (hx : Program.Tracks skip R Q x y) (hf : ∀ a b, Program.Tracks skip (Q a b) V (f a) (g b)) :
    Program.Tracks skip R V (x >>= f) (y >>= g) := by
  intro s t hst
  rcases hx.ends hst with ⟨e, s', hxs, he⟩ | ⟨e, s', t', hxs, hyt⟩ | ⟨a, b, s', t', hxs, hyt, hq⟩
  · rw [run_bind_of_error hxs]
    exact .skipped he
  · rw [run_bind_of_error hxs, run_bind_of_error hyt]
    exact .failed
  · rw [run_bind_of_ok hxs, run_bind_of_ok hyt]
    exact hf a b s' t' hq

/-- A fault that is the same on both sides fails both. -/
theorem statement {fault : Option String} (h : Program.Tracks skip R Q x y) :
    Program.Tracks skip R Q (Sql.statement fault x) (Sql.statement fault y) := by
  cases fault with
  | none => exact h
  | some msg => exact throw

/-- Two `SELECT`s of related databases. -/
theorem query {fault : Option String} {f : σ → α} {g : τ → β}
    (h : ∀ s t, R s t → Q (f s) (g t) s t) :
    Program.Tracks skip R Q (Sql.query fault f) (Sql.query fault g) :=
  statement fun s t hst => .done (h s t hst)

/-- A check whose outcome is the same on both sides. -/
theorem require {b b' : Bool} {msg : String} (h : ∀ s t, R s t → b = b') :
    Program.Tracks skip R (fun _ _ => R) (Sql.require b msg) (Sql.require b' msg) := by
  intro s t hst
  rw [← h s t hst, run_require, run_require]
  cases b with
  | false => exact .failed
  | true => exact .done hst

/-- The text is skipped, so only a check that passes has to pass on both sides. -/
theorem require_skipped {b b' : Bool} {msg : String} (hskip : skip msg)
    (h : ∀ s t, R s t → b = true → b' = true) :
    Program.Tracks skip R (fun _ _ => R) (Sql.require b msg) (Sql.require b' msg) := by
  intro s t hst
  rw [run_require, run_require]
  cases hb : b with
  | false => exact .skipped hskip
  | true =>
    rw [h s t hst hb]
    exact .done hst

theorem ite {c : Prop} [Decidable c] {x' : Program σ α} {y' : Program τ β}
    (hx : c → Program.Tracks skip R Q x y) (hy : ¬ c → Program.Tracks skip R Q x' y') :
    Program.Tracks skip R Q (if c then x else x') (if c then y else y') := by
  split
  · rename_i hc
    exact hx hc
  · rename_i hc
    exact hy hc

/-- Both sides begin, run and commit, or both roll back. -/
theorem transaction {f g : Option String} (h : Program.Tracks skip R Q x y) :
    Program.Tracks skip R Q (Sql.transaction f g x) (Sql.transaction f g y) := by
  intro s t hst
  cases f with
  | some msg => exact .failed
  | none =>
    rcases h.ends hst with ⟨e, s', hxs, he⟩ | ⟨e, s', t', hxs, hyt⟩ | ⟨a, b, s', t', hxs, hyt, hq⟩
    · rw [run_transaction_of_error hxs]
      exact .skipped he
    · rw [run_transaction_of_error hxs, run_transaction_of_error hyt]
      exact .failed
    · rw [run_transaction_of_ok hxs, run_transaction_of_ok hyt]
      cases g with
      | none => exact .done hq
      | some msg => exact .failed

/-- Ask more of the states before, or less of what comes out. -/
theorem weaken {R' : σ → τ → Prop} {Q' : α → β → σ → τ → Prop}
    (h : Program.Tracks skip R Q x y) (hpre : ∀ s t, R' s t → R s t)
    (hpost : ∀ a b s t, Q a b s t → Q' a b s t) : Program.Tracks skip R' Q' x y := by
  intro s t hst
  rcases h.ends (hpre s t hst) with
    ⟨e, s', hxs, he⟩ | ⟨e, s', t', hxs, hyt⟩ | ⟨a, b, s', t', hxs, hyt, hq⟩
  · rw [hxs]
    exact .skipped he
  · rw [hxs, hyt]
    exact .failed
  · rw [hxs, hyt]
    exact .done (hpost _ _ _ _ hq)

end Program.Tracks

end Sql
