import Mathlib.Tactic.Basic

/-! # Database programs with statement faults

A program issues SQL statements against a database `σ` and may throw. An
exception keeps the writes made so far: undoing them is the business of
`transaction`, whose ROLLBACK restores the state at BEGIN on every exit that is
not the COMMIT. Each statement runs under a fault, the text it throws instead of
taking effect, so a fault plan is an argument of the program and a statement
about every plan covers every choice of failing statements.

* `run_*_ok` invert a program that returned a value: what ran, and from where;
* `transaction_error` is atomicity of a transaction that throws;
* `Program.ReadOnly` programs leave the database alone, whatever they return;
* `Program.Throws` bounds the texts a program can throw;
* `Program.Below` says that a success does not depend on the faults avoided.
-/

namespace Sql

/-- A database program: a value or the text of an exception, and the database as
the executed statements left it. -/
abbrev Program (σ α : Type) := EStateM String σ α

variable {σ α β : Type}

/-- One statement. Under a fault it throws and has no effect. -/
def statement (fault : Option String) (body : Program σ α) : Program σ α :=
  match fault with
  | some msg => throw msg
  | none => body

/-- A `SELECT`: one statement that only reads. -/
def query (fault : Option String) (f : σ → α) : Program σ α :=
  statement fault do
    let s ← get
    return f s

/-- Throw `msg` unless `b`. -/
def require (b : Bool) (msg : String) : Program σ Unit :=
  if b then pure () else throw msg

/-- BEGIN, `body`, COMMIT. When BEGIN fails nothing ran; when `body` or COMMIT
throws, ROLLBACK restores the database of BEGIN. -/
def transaction (beginFault commitFault : Option String) (body : Program σ α) :
    Program σ α := fun s =>
  match beginFault with
  | some msg => .error msg s
  | none =>
    match body s with
    | .error msg _ => .error msg s
    | .ok a s' =>
      match commitFault with
      | some msg => .error msg s
      | none => .ok a s'

/-! ## Inverting a program that returned -/

/-- Of a sequence that returned, both parts returned. -/
theorem run_bind_ok {x : Program σ α} {f : α → Program σ β} {s s' : σ} {b : β} :
    (x >>= f).run s = .ok b s' ↔ ∃ a s₁, x.run s = .ok a s₁ ∧ (f a).run s₁ = .ok b s' := by
  rw [EStateM.run_bind]
  cases hx : x.run s with
  | error e s₁ => simp
  | ok a s₁ =>
    constructor
    · intro h
      exact ⟨a, s₁, rfl, h⟩
    · rintro ⟨a', s₂, h₁, h₂⟩
      cases h₁
      exact h₂

theorem run_pure_ok {s s' : σ} {a b : α} :
    (pure a : Program σ α).run s = .ok b s' ↔ a = b ∧ s = s' := by
  rw [EStateM.run_pure]
  simp

/-- What throws does not return. -/
theorem run_throw_ok {s s' : σ} {a : α} {e : String} :
    (throw e : Program σ α).run s = .ok a s' ↔ False := by
  constructor
  · intro h
    cases h
  · exact False.elim

theorem run_get_ok {s s' s₁ : σ} :
    (get : Program σ σ).run s = .ok s₁ s' ↔ s = s₁ ∧ s = s' := by
  rw [EStateM.run_get]
  simp

theorem run_set_ok {s s' s₁ : σ} {u : PUnit} :
    (set s₁ : Program σ PUnit).run s = .ok u s' ↔ s₁ = s' := by
  rw [EStateM.run_set]
  simp

theorem run_modify_ok {f : σ → σ} {s s' : σ} {u : PUnit} :
    (modify f : Program σ PUnit).run s = .ok u s' ↔ f s = s' := by
  rw [EStateM.run_modify]
  simp

/-- A statement that returned ran without a fault. -/
theorem run_statement_ok {fault : Option String} {x : Program σ α} {s s' : σ} {a : α} :
    (statement fault x).run s = .ok a s' ↔ fault = none ∧ x.run s = .ok a s' := by
  cases fault with
  | none => simp [statement]
  | some msg => simp [statement, run_throw_ok]

/-- A `SELECT` that returned found the database as it is and left it so. -/
theorem run_query_ok {fault : Option String} {f : σ → α} {s s' : σ} {a : α} :
    (query fault f).run s = .ok a s' ↔ fault = none ∧ f s = a ∧ s = s' := by
  simp only [query, run_statement_ok, run_bind_ok, run_get_ok, run_pure_ok]
  constructor
  · rintro ⟨hf, _, _, ⟨rfl, rfl⟩, ha, hs⟩
    exact ⟨hf, ha, hs⟩
  · rintro ⟨hf, ha, hs⟩
    exact ⟨hf, s, s, ⟨rfl, rfl⟩, ha, hs⟩

/-- A `SELECT` forward: it throws its fault, or returns what it finds. -/
theorem run_query {fault : Option String} {f : σ → α} {s : σ} :
    (query fault f).run s =
      match fault with
      | some msg => .error msg s
      | none => .ok (f s) s := by
  cases fault <;> rfl

/-- A check that returned was met. -/
theorem run_require_ok {b : Bool} {msg : String} {s s' : σ} {u : Unit} :
    (require b msg : Program σ Unit).run s = .ok u s' ↔ b = true ∧ s = s' := by
  cases b with
  | false => simp [require]
  | true => simp [require]

/-- A check forward. -/
theorem run_require {b : Bool} {msg : String} {s : σ} :
    (require b msg : Program σ Unit).run s = if b then .ok () s else .error msg s := by
  cases b <;> rfl

/-- A transaction that returned began, ran its body and committed. -/
theorem run_transaction_ok {f g : Option String} {x : Program σ α} {s s' : σ} {a : α} :
    (transaction f g x).run s = .ok a s' ↔ f = none ∧ g = none ∧ x.run s = .ok a s' := by
  cases f with
  | some msg => simp [transaction, EStateM.run]
  | none =>
    cases hx : x.run s with
    | error e s₁ =>
      have hx' : x s = .error e s₁ := hx
      simp [transaction, EStateM.run, hx']
    | ok b s₁ =>
      have hx' : x s = .ok b s₁ := hx
      cases g <;> simp [transaction, EStateM.run, hx']

theorem run_ite_ok {c : Prop} [Decidable c] {x y : Program σ α} {s s' : σ} {a : α} :
    (if c then x else y).run s = .ok a s' ↔
      c ∧ x.run s = .ok a s' ∨ ¬ c ∧ y.run s = .ok a s' := by
  by_cases h : c <;> simp [h]

/-- A transaction that throws leaves the database as it found it. -/
theorem transaction_error {f g : Option String} {x : Program σ α} {s s' : σ} {e : String}
    (h : (transaction f g x).run s = .error e s') : s' = s := by
  cases f with
  | some msg =>
    simp only [transaction, EStateM.run, EStateM.Result.error.injEq] at h
    exact h.2.symm
  | none =>
    cases hx : x s with
    | error e₁ s₁ =>
      simp only [transaction, EStateM.run, hx, EStateM.Result.error.injEq] at h
      exact h.2.symm
    | ok a s₁ =>
      cases g with
      | some msg =>
        simp only [transaction, EStateM.run, hx, EStateM.Result.error.injEq] at h
        exact h.2.symm
      | none => simp [transaction, EStateM.run, hx] at h

/-! ## Running a program forward -/

/-- Past a part that returned, only the rest runs. -/
theorem run_bind_of_ok {x : Program σ α} {f : α → Program σ β} {s s₁ : σ} {a : α}
    (h : x.run s = .ok a s₁) : (x >>= f).run s = (f a).run s₁ := by
  rw [EStateM.run_bind, h]

/-- Past a part that threw, nothing runs. -/
theorem run_bind_of_error {x : Program σ α} {f : α → Program σ β} {s s₁ : σ} {e : String}
    (h : x.run s = .error e s₁) : (x >>= f).run s = .error e s₁ := by
  rw [EStateM.run_bind, h]

/-- Without faults of its own a transaction throws what its body throws. -/
theorem run_transaction_of_error {g : Option String} {x : Program σ α} {s s' : σ} {e : String}
    (h : x.run s = .error e s') : (transaction none g x).run s = .error e s := by
  have hx : x s = .error e s' := h
  simp only [transaction, EStateM.run, hx]

/-- A `COMMIT` that fails rolls back. -/
theorem run_transaction_of_ok {g : Option String} {x : Program σ α} {s s' : σ} {a : α}
    (h : x.run s = .ok a s') :
    (transaction none g x).run s = g.elim (.ok a s') fun msg => .error msg s := by
  have hx : x s = .ok a s' := h
  cases g <;> simp only [transaction, EStateM.run, hx, Option.elim]

/-- Rolling back does not change whether there was an exception. -/
theorem transaction_error_iff {x : Program σ α} {s : σ} {e : String} :
    (∃ s', (transaction none none x).run s = .error e s') ↔ ∃ s', x.run s = .error e s' := by
  cases hx : x.run s with
  | error e₁ s₁ =>
    have hx' : x s = .error e₁ s₁ := hx
    simp [transaction, EStateM.run, hx']
  | ok a s₁ =>
    have hx' : x s = .ok a s₁ := hx
    simp [transaction, EStateM.run, hx']

/-- The rule of a loop: `I pre s` before the turn after those of `pre`. -/
theorem run_forM_ok {l : List α} {f : α → Program σ PUnit} (I : List α → σ → Prop) {s s' : σ}
    {u : PUnit} (hinit : I [] s)
    (hstep : ∀ pre a post, l = pre ++ a :: post → ∀ s s' u, I pre s →
      (f a).run s = .ok u s' → I (pre ++ [a]) s')
    (h : (forM l f : Program σ PUnit).run s = .ok u s') : I l s' := by
  -- over what is left of the list
  suffices hrest : ∀ (post pre : List α), l = pre ++ post → ∀ s, I pre s →
      (forM post f : Program σ PUnit).run s = .ok u s' → I l s' from
    hrest l [] rfl s hinit h
  intro post
  induction post with
  | nil =>
    intro pre hl s hI hrun
    rw [List.append_nil] at hl
    rw [List.forM_nil, run_pure_ok] at hrun
    rw [hl, ← hrun.2]
    exact hI
  | cons a post ih =>
    intro pre hl s hI hrun
    rw [List.forM_cons, run_bind_ok] at hrun
    rcases hrun with ⟨_, s₁, hfirst, hrun⟩
    refine ih (pre ++ [a]) (by simp [hl]) s₁ ?_ hrun
    exact hstep pre a post hl s s₁ _ hI hfirst

/-! ## Programs that only read -/

/-- `x` leaves the database as it finds it. -/
def Program.ReadOnly (x : Program σ α) : Prop :=
  ∀ s, (∀ a s', x.run s = .ok a s' → s' = s) ∧ ∀ e s', x.run s = .error e s' → s' = s

namespace Program.ReadOnly

theorem pure (a : α) : Program.ReadOnly (pure a : Program σ α) := by
  intro s
  constructor
  · intro _ _ h
    cases h
    rfl
  · intro _ _ h
    cases h

theorem throw (msg : String) : Program.ReadOnly (throw msg : Program σ α) := by
  intro s
  constructor
  · intro _ _ h
    cases h
  · intro _ _ h
    cases h
    rfl

theorem statement {fault : Option String} {x : Program σ α} (h : Program.ReadOnly x) :
    Program.ReadOnly (Sql.statement fault x) := by
  cases fault with
  | some msg => exact throw msg
  | none => exact h

theorem query {fault : Option String} {f : σ → α} : Program.ReadOnly (Sql.query fault f) := by
  refine statement fun s => ⟨fun _ _ h => ?_, fun _ _ h => ?_⟩
  · cases h
    rfl
  · cases h

theorem require {b : Bool} {msg : String} :
    Program.ReadOnly (Sql.require b msg : Program σ Unit) := by
  cases b with
  | false => exact throw msg
  | true => exact pure ()

/-- Both parts only read, so what the second finds is what the first found. -/
theorem bind {x : Program σ α} {f : α → Program σ β} (hx : Program.ReadOnly x)
    (hf : ∀ a, Program.ReadOnly (f a)) : Program.ReadOnly (x >>= f) := by
  intro s
  rw [EStateM.run_bind]
  cases hrun : x.run s with
  | error e s₁ =>
    refine ⟨fun _ _ h => ?_, fun _ _ h => ?_⟩
    · cases h
    · cases h
      exact (hx s).2 _ _ hrun
  | ok a s₁ =>
    rw [(hx s).1 _ _ hrun]
    exact hf a s

theorem ite {c : Prop} [Decidable c] {x y : Program σ α} (hx : Program.ReadOnly x)
    (hy : Program.ReadOnly y) : Program.ReadOnly (if c then x else y) := by
  by_cases h : c
  · simpa [h] using hx
  · simpa [h] using hy

end Program.ReadOnly

/-! ## The texts a program can throw -/

/-- Every exception of `x` has a text in `P`. -/
def Program.Throws (P : String → Prop) (x : Program σ α) : Prop :=
  ∀ s e s', x.run s = .error e s' → P e

namespace Program.Throws

variable {P : String → Prop}

theorem pure (a : α) : Program.Throws P (pure a : Program σ α) := by
  intro s e s' h
  cases h

theorem throw {msg : String} (h : P msg) : Program.Throws P (throw msg : Program σ α) := by
  intro s e s' he
  cases he
  exact h

theorem get : Program.Throws P (get : Program σ σ) := by
  intro s e s' h
  cases h

theorem set (s₁ : σ) : Program.Throws P (set s₁ : Program σ PUnit) := by
  intro s e s' h
  cases h

/-- Without a fault a `SELECT` throws nothing. -/
theorem query {f : σ → α} : Program.Throws P (Sql.query none f) := by
  intro s e s' h
  cases h

/-- A check throws its own text. -/
theorem require {b : Bool} {msg : String} (h : P msg) :
    Program.Throws P (Sql.require b msg : Program σ Unit) := by
  cases b with
  | false => exact throw h
  | true => exact pure ()

/-- Whatever is thrown is thrown by one part or the other. -/
theorem bind {x : Program σ α} {f : α → Program σ β} (hx : Program.Throws P x)
    (hf : ∀ a, Program.Throws P (f a)) : Program.Throws P (x >>= f) := by
  intro s e s' h
  rw [EStateM.run_bind] at h
  cases hrun : x.run s with
  | error e₁ s₁ =>
    rw [hrun] at h
    cases h
    exact hx _ _ _ hrun
  | ok a s₁ =>
    rw [hrun] at h
    exact hf a _ _ _ h

theorem ite {c : Prop} [Decidable c] {x y : Program σ α} (hx : Program.Throws P x)
    (hy : Program.Throws P y) : Program.Throws P (if c then x else y) := by
  by_cases h : c
  · simpa [h] using hx
  · simpa [h] using hy

end Program.Throws

/-! ## Successes do not depend on the faults avoided -/

/-- Every success of `x` is a success of `y` with the same value and database. -/
def Program.Below (x y : Program σ α) : Prop :=
  ∀ s a s', x.run s = .ok a s' → y.run s = .ok a s'

namespace Program.Below

theorem refl (x : Program σ α) : Program.Below x x := fun _ _ _ h => h

/-- The fault of a statement that returned was `none`, as on the right. -/
theorem statement {f : Option String} {x y : Program σ α} (h : Program.Below x y) :
    Program.Below (Sql.statement f x) (Sql.statement none y) := by
  intro s a s' hs
  rw [run_statement_ok] at hs ⊢
  exact ⟨rfl, h s a s' hs.2⟩

theorem query {f : Option String} {g : σ → α} :
    Program.Below (Sql.query f g) (Sql.query none g) := statement (refl _)

/-- A sequence is below another if its parts are, after every value of the first. -/
theorem bind {x y : Program σ α} {f g : α → Program σ β} (hx : Program.Below x y)
    (hf : ∀ a, Program.Below (f a) (g a)) : Program.Below (x >>= f) (y >>= g) := by
  intro s b s' hs
  rw [run_bind_ok] at hs ⊢
  rcases hs with ⟨a, s₁, h₁, h₂⟩
  exact ⟨a, s₁, hx _ _ _ h₁, hf a _ _ _ h₂⟩

theorem ite {c : Prop} [Decidable c] {x y x' y' : Program σ α} (hx : Program.Below x x')
    (hy : Program.Below y y') :
    Program.Below (if c then x else y) (if c then x' else y') := by
  by_cases h : c
  · simpa [h] using hx
  · simpa [h] using hy

/-- BEGIN and COMMIT did not fail, so without faults they do the same. -/
theorem transaction {f g : Option String} {x y : Program σ α} (h : Program.Below x y) :
    Program.Below (Sql.transaction f g x) (Sql.transaction none none y) := by
  intro s a s' hs
  rw [run_transaction_ok] at hs ⊢
  exact ⟨rfl, rfl, h s a s' hs.2.2⟩

/-- With the faults of the transaction itself left as they are. -/
theorem inTransaction {f g : Option String} {x y : Program σ α} (h : Program.Below x y) :
    Program.Below (Sql.transaction f g x) (Sql.transaction f g y) := by
  intro s a s' hs
  rw [run_transaction_ok] at hs ⊢
  exact ⟨hs.1, hs.2.1, h s a s' hs.2.2⟩

end Program.Below

/-! ## What a program returns -/

/-- The value or the exception of `x`, without the database it leaves. -/
def Program.reply (x : Program σ α) (s : σ) : Except String α :=
  match x.run s with
  | .ok a _ => .ok a
  | .error e _ => .error e

section Reply

variable {x : Program σ α} {f : α → Program σ β} {s s₁ : σ}

/-- The reply of a program that returned is its value. -/
theorem reply_of_ok {a : α} (h : x.run s = .ok a s₁) : Program.reply x s = .ok a := by
  rw [Program.reply, h]

/-- Past a first part that returned, the reply is that of the second. -/
theorem reply_bind_of_ok {a : α} (h : x.run s = .ok a s₁) :
    Program.reply (x >>= f) s = Program.reply (f a) s₁ := by
  rw [Program.reply, run_bind_of_ok h, Program.reply]

/-- A first part that threw is the reply. -/
theorem reply_bind_of_error {e : String} (h : x.run s = .error e s₁) :
    Program.reply (x >>= f) s = .error e := by
  rw [Program.reply, run_bind_of_error h]

/-- A check in front either lets the rest answer or answers with its text. -/
theorem reply_require {b : Bool} {msg : String} {g : Unit → Program σ β} :
    Program.reply (require b msg >>= g) s = if b then Program.reply (g ()) s else .error msg := by
  cases b <;> rfl

/-- Rolling back does not change what is returned. -/
theorem reply_transaction : Program.reply (transaction none none x) s = Program.reply x s := by
  cases h : x.run s with
  | ok a s₁ => rw [Program.reply, run_transaction_of_ok h, reply_of_ok h, Option.elim]
  | error e s₁ => rw [Program.reply, run_transaction_of_error h, Program.reply, h]

end Reply

end Sql
