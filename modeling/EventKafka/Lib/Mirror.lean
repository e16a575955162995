import EventKafka.Lib.Program

/-! # One program at two databases

`x` runs against databases of type `τ`, `y` against databases of type `σ`, and `φ` maps
the latter to the former. `x` mirrors `y` on the databases of `I` when it does on the image
of such a database what `y` does on the database itself: it returns the value of `y`, up to
`v`, or throws the text of `y`, and leaves the image of the database `y` leaves; and `y`
stays in `I`.

The rules follow the constructs of a program, so a mirror is put together statement by
statement. `Mirrors.check` is for a statement that only `x` has.
-/

namespace Sql

variable {σ τ α β γ δ : Type}

/-- The image of what a program returned. -/
def image (φ : σ → τ) (v : α → β) : EStateM.Result String σ α → EStateM.Result String τ β
  | .ok a s => .ok (v a) (φ s)
  | .error e s => .error e (φ s)

/-- On the databases of `I`, `x` does at `φ s` what `y` does at `s`. -/
def Program.Mirrors (I : σ → Prop) (φ : σ → τ) (v : α → β) (x : Program τ β)
    (y : Program σ α) : Prop :=
  ∀ s, I s → x.run (φ s) = image φ v (y.run s) ∧ ∀ a s', y.run s = .ok a s' → I s'

namespace Program.Mirrors

variable {I : σ → Prop} {φ : σ → τ} {v : α → β} {w : γ → δ} {x : Program τ β} {y : Program σ α}

theorem throw (msg : String) : Program.Mirrors I φ v (throw msg) (throw msg) := by
  intro s _
  refine ⟨rfl, fun a s' h => ?_⟩
  cases h

/-- A check does not look at the database. -/
theorem require {b : Bool} {msg : String} :
    Program.Mirrors I φ id (Sql.require b msg) (Sql.require b msg) := by
  cases b with
  | false => exact throw msg
  | true =>
    intro s hs
    refine ⟨rfl, fun a s' h => ?_⟩
    cases h
    exact hs

/-- A statement that commutes with the map of the databases. -/
theorem modify {f : τ → τ} {g : σ → σ} (h : ∀ s, f (φ s) = φ (g s)) (hI : ∀ s, I s → I (g s)) :
    Program.Mirrors I φ id (modify f) (modify g) := by
  intro s hs
  refine ⟨?_, fun a s' hrun => ?_⟩
  · show EStateM.Result.ok PUnit.unit (f (φ s)) = EStateM.Result.ok PUnit.unit (φ (g s))
    rw [h s]
  · cases hrun
    exact hI s hs

/-- The same fault fails both. -/
theorem statement {fault : Option String} (h : Program.Mirrors I φ v x y) :
    Program.Mirrors I φ v (Sql.statement fault x) (Sql.statement fault y) := by
  cases fault with
  | some msg => exact throw msg
  | none => exact h

/-- A `SELECT` whose result the map carries over. -/
theorem query {fault : Option String} {f : τ → β} {g : σ → α} (h : ∀ s, f (φ s) = v (g s)) :
    Program.Mirrors I φ v (Sql.query fault f) (Sql.query fault g) := by
  refine statement fun s hs => ⟨?_, fun a s' hrun => ?_⟩
  · show EStateM.Result.ok (f (φ s)) (φ s) = EStateM.Result.ok (v (g s)) (φ s)
    rw [h s]
  · cases hrun
    exact hs

/-- The second program gets the mapped value of the first. -/
theorem bind {f : β → Program τ δ} {g : α → Program σ γ} (h : Program.Mirrors I φ v x y)
    (hf : ∀ a, Program.Mirrors I φ w (f (v a)) (g a)) :
    Program.Mirrors I φ w (x >>= f) (y >>= g) := by
  intro s hs
  rcases h s hs with ⟨hrun, hkeep⟩
  rw [EStateM.run_bind, EStateM.run_bind, hrun]
  cases hy : y.run s with
  | ok a s' => exact hf a s' (hkeep a s' hy)
  | error e s' => exact ⟨rfl, fun a s' h => by cases h⟩

/-- `x` passes on the databases of `I` and leaves them alone. -/
theorem check {b : β} {f : β → Program τ δ} {g : Program σ γ}
    (h : ∀ s, I s → x.run (φ s) = .ok b (φ s)) (hf : Program.Mirrors I φ w (f b) g) :
    Program.Mirrors I φ w (x >>= f) g := by
  intro s hs
  rw [run_bind_of_ok (h s hs)]
  exact hf s hs

end Program.Mirrors

/-- What is left of a result at `t`: an exception rolls back to it. -/
def committed (φ : σ → τ) (v : α → β) (t : τ) :
    EStateM.Result String σ α → EStateM.Result String τ β
  | .ok a s => .ok (v a) (φ s)
  | .error e _ => .error e t

/-- Transactions with the same faults, on bodies that do the same. -/
theorem run_transaction_of_image {f g : Option String} {φ : σ → τ} {v : α → β}
    {x : Program τ β} {y : Program σ α} {s : σ} {t : τ} (h : x.run t = image φ v (y.run s)) :
    (transaction f g x).run t = committed φ v t ((transaction f g y).run s) := by
  cases f with
  | some msg => rfl
  | none =>
    cases hy : y.run s with
    | error e s' =>
      rw [hy] at h
      rw [run_transaction_of_error h, run_transaction_of_error hy]
      rfl
    | ok a s' =>
      rw [hy] at h
      rw [run_transaction_of_ok h, run_transaction_of_ok hy]
      cases g <;> rfl

end Sql
