import Mathlib.Data.List.Forall2

/-! # Programs that raise and programs that record

A checker meets a defect in one of two ways. It raises, and nothing it has found so
far is reported, or it records a failure and goes on. `raiseIf` is the first and lives
in `Except`; `failIf` is the second and lives in the list of what was recorded.

* `bind_eq_ok`, `raiseIf_eq_ok` invert a program that returned;
* `mapM_eq_ok` and `foldlM_eq_ok` invert a loop that may raise at any element: the
  elements were all read, and what the loop returns is a pure function of what was read.
-/

namespace Checks

variable {ε α β γ σ : Type}

/-- `if p: raise error`. -/
def raiseIf (p : Prop) [Decidable p] (error : ε) : Except ε Unit :=
  if p then .error error else .ok ()

/-- `if p: failures.append(message)`. -/
def failIf (p : Prop) [Decidable p] (message : α) : List α :=
  if p then [message] else []

/-! ## What was recorded -/

@[simp] theorem failIf_eq_nil {p : Prop} [Decidable p] {message : α} :
    failIf p message = [] ↔ ¬p := by
  by_cases hp : p
  · simp [failIf, hp]
  · simp [failIf, hp]

theorem length_failIf_le {p : Prop} [Decidable p] {message : α} :
    (failIf p message).length ≤ 1 := by
  by_cases hp : p
  · simp [failIf, hp]
  · simp [failIf, hp]

/-- Where an element records at most one failure, at most one was recorded when at most
one element recorded any. -/
theorem length_flatMap_le_one {f : α → List β} {l : List α} (hnd : l.Nodup)
    (hf : ∀ a ∈ l, (f a).length ≤ 1) :
    (l.flatMap f).length ≤ 1 ↔ ∀ a ∈ l, ∀ b ∈ l, f a ≠ [] → f b ≠ [] → a = b := by
  induction l with
  | nil => simp
  | cons a l ih =>
    rw [List.nodup_cons] at hnd
    have ih' := ih hnd.2 fun b hb => hf b (.tail _ hb)
    rw [List.flatMap_cons, List.length_append]
    by_cases ha : f a = []
    · rw [ha, List.length_nil, Nat.zero_add, ih']
      constructor
      · intro h x hx y hy hfx hfy
        rcases List.mem_cons.mp hx with rfl | hxl
        · exact absurd ha hfx
        · rcases List.mem_cons.mp hy with rfl | hyl
          · exact absurd ha hfy
          · exact h x hxl y hyl hfx hfy
      · exact fun h x hx y hy => h x (.tail _ hx) y (.tail _ hy)
    · have hone : (f a).length = 1 :=
        Nat.le_antisymm (hf a (.head _)) (List.length_pos_iff.mpr ha)
      have hrest : (f a).length + (l.flatMap f).length ≤ 1 ↔ ∀ b ∈ l, f b = [] := by
        rw [hone, ← List.flatMap_eq_nil_iff, ← List.length_eq_zero_iff]
        omega
      rw [hrest]
      constructor
      · intro h x hx y hy hfx hfy
        rcases List.mem_cons.mp hx with rfl | hxl
        · rcases List.mem_cons.mp hy with rfl | hyl
          · rfl
          · exact absurd (h y hyl) hfy
        · exact absurd (h x hxl) hfx
      · intro h b hb
        by_contra hfb
        exact hnd.1 (h a (.head _) b (.tail _ hb) ha hfb ▸ hb)

/-! ## Inverting a program that returned -/

theorem bind_eq_ok {x : Except ε α} {f : α → Except ε β} {b : β} :
    (x >>= f) = .ok b ↔ ∃ a, x = .ok a ∧ f a = .ok b := by
  cases x with
  | error e => simp [bind, Except.bind]
  | ok a => simp [bind, Except.bind]

theorem raiseIf_eq_ok {p : Prop} [Decidable p] {error : ε} {u : Unit} :
    raiseIf p error = .ok u ↔ ¬p := by
  by_cases hp : p
  · simp [raiseIf, hp]
  · simp [raiseIf, hp]

theorem pure_eq_ok {a b : α} : (pure a : Except ε α) = .ok b ↔ b = a := by
  simp [pure, Except.pure, eq_comm]

/-- A loop that reads every element. -/
theorem mapM_eq_ok {f : α → Except ε β} {l : List α} {ys : List β} :
    l.mapM f = .ok ys ↔ List.Forall₂ (fun a b => f a = .ok b) l ys := by
  induction l generalizing ys with
  | nil => simp [pure_eq_ok]
  | cons a l ih =>
    rw [List.mapM_cons, bind_eq_ok, List.forall₂_cons_left_iff]
    constructor
    · rintro ⟨b, hb, hrest⟩
      obtain ⟨bs, hbs, heq⟩ := bind_eq_ok.mp hrest
      exact ⟨b, bs, hb, ih.mp hbs, pure_eq_ok.mp heq⟩
    · rintro ⟨b, bs, hb, hbs, rfl⟩
      exact ⟨b, hb, bind_eq_ok.mpr ⟨bs, ih.mpr hbs, rfl⟩⟩

/-- A loop with an accumulator, where `R` says what reading an element yields: every
element was read, and the accumulator is the fold over what was read. -/
theorem foldlM_eq_ok {R : α → β → Prop} {add : σ → β → σ} {step : σ → α → Except ε σ}
    (hstep : ∀ s a s', step s a = .ok s' ↔ ∃ b, R a b ∧ s' = add s b)
    {l : List α} {s s' : σ} :
    l.foldlM step s = .ok s' ↔ ∃ ys, List.Forall₂ R l ys ∧ s' = ys.foldl add s := by
  induction l generalizing s with
  | nil => simp [pure_eq_ok]
  | cons a l ih =>
    rw [List.foldlM_cons, bind_eq_ok]
    constructor
    · rintro ⟨s₁, h₁, hrest⟩
      obtain ⟨b, hb, rfl⟩ := (hstep s a s₁).mp h₁
      obtain ⟨ys, hys, hfold⟩ := ih.mp hrest
      exact ⟨b :: ys, .cons hb hys, hfold⟩
    · rintro ⟨ys, hys, hfold⟩
      obtain ⟨b, bs, hb, hbs, rfl⟩ := List.forall₂_cons_left_iff.mp hys
      exact ⟨add s b, (hstep s a _).mpr ⟨b, hb, rfl⟩, ih.mpr ⟨bs, hbs, hfold⟩⟩

/-! ## What a loop read -/

/-- The results of a loop that checks each element, one after the other. -/
theorem flatten_of_forall₂ {f : α → List β} {P : α → Prop} {l : List α} {ys : List (List β)}
    (h : List.Forall₂ (fun a b => P a ∧ b = f a) l ys) :
    (∀ a ∈ l, P a) ∧ ys.flatten = l.flatMap f := by
  induction h with
  | nil => simp
  | cons hab _ ih =>
    obtain ⟨hP, rfl⟩ := hab
    exact ⟨List.forall_mem_cons.mpr ⟨hP, ih.1⟩, by rw [List.flatten_cons, List.flatMap_cons, ih.2]⟩

/-- What the elements and what was read of them have in common. -/
theorem map_eq_of_forall₂ {R : α → β → Prop} {f : α → γ} {f' : β → γ}
    (hf : ∀ a b, R a b → f' b = f a) {l : List α} {ys : List β} (h : List.Forall₂ R l ys) :
    ys.map f' = l.map f := by
  have hmap : List.Forall₂ Eq (l.map f) (ys.map f') :=
    List.rel_map (fun a b hab => (hf a b hab).symm) h
  rw [List.forall₂_eq_eq_eq] at hmap
  exact hmap.symm

end Checks
