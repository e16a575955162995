import Mathlib.Logic.Function.Basic
import Mathlib.Data.Nat.Notation

/-! # Files and their names

A disk of files that are referred to by name. Several names may refer to one file: what is
written under one of them shows under the others, and removing a name leaves the file to
the rest. `Shares` says that two names are of one file; a write is invisible under every
name that does not share with the one written (`content_modify_of_not_shares`), and the
rules `shares_*` say which names an operation makes share.
-/

/-- What the names refer to, and what the files hold. -/
structure Disk (ν σ : Type) where
  entry : ν → Option ℕ
  data : ℕ → σ
  /-- The number of the next new file. -/
  next : ℕ
  entry_lt : ∀ p i, entry p = some i → i < next

namespace Disk

variable {ν σ : Type} {d : Disk ν σ} {p q r t : ν} {f : σ → σ} {x : σ}

/-- What the file of a name holds. -/
def content (d : Disk ν σ) (p : ν) : Option σ := (d.entry p).map d.data

/-- Two names are of one file. -/
def Shares (d : Disk ν σ) (p q : ν) : Prop := ∃ i, d.entry p = some i ∧ d.entry q = some i

/-- Rewrite the file of a name. -/
def modify (d : Disk ν σ) (p : ν) (f : σ → σ) : Disk ν σ :=
  match d.entry p with
  | none => d
  | some i => { d with data := Function.update d.data i (f (d.data i)) }

section Names

variable [DecidableEq ν]

/-- A new file under the name `p`. -/
def create (d : Disk ν σ) (p : ν) (x : σ) : Disk ν σ where
  entry := Function.update d.entry p (some d.next)
  data := Function.update d.data d.next x
  next := d.next + 1
  entry_lt := by
    intro q i hq
    by_cases hqp : q = p
    · rw [hqp, Function.update_self, Option.some.injEq] at hq
      omega
    · rw [Function.update_of_ne hqp] at hq
      exact Nat.lt_succ_of_lt (d.entry_lt q i hq)

/-- The name `q` for the file of `p`. -/
def link (d : Disk ν σ) (p q : ν) : Disk ν σ where
  entry := Function.update d.entry q (d.entry p)
  data := d.data
  next := d.next
  entry_lt := by
    intro r i hr
    by_cases hrq : r = q
    · rw [hrq, Function.update_self] at hr
      exact d.entry_lt p i hr
    · rw [Function.update_of_ne hrq] at hr
      exact d.entry_lt r i hr

/-- Remove a name. -/
def remove (d : Disk ν σ) (p : ν) : Disk ν σ where
  entry := Function.update d.entry p none
  data := d.data
  next := d.next
  entry_lt := by
    intro q i hq
    by_cases hqp : q = p
    · rw [hqp, Function.update_self] at hq
      cases hq
    · rw [Function.update_of_ne hqp] at hq
      exact d.entry_lt q i hq

/-- Write `x` under the name `p`, whether it is there or not. -/
def put (d : Disk ν σ) (p : ν) (x : σ) : Disk ν σ :=
  if (d.entry p).isSome then d.modify p fun _ => x else d.create p x

end Names

/-! ## What the names hold after it -/

@[simp] theorem entry_modify : (d.modify p f).entry = d.entry := by
  unfold modify
  split <;> rfl

/-- Writing through a name changes what it holds. -/
@[simp] theorem content_modify_self : (d.modify p f).content p = (d.content p).map f := by
  unfold content
  rw [entry_modify, modify]
  cases hp : d.entry p with
  | none => rfl
  | some i => simp

/-- Under a name of another file the write does not show. -/
theorem content_modify_of_not_shares (h : ¬ d.Shares p q) :
    (d.modify p f).content q = d.content q := by
  unfold content
  rw [entry_modify, modify]
  cases hp : d.entry p with
  | none => rfl
  | some i =>
    cases hq : d.entry q with
    | none => rfl
    | some j =>
      have hij : j ≠ i := by
        rintro rfl
        exact h ⟨j, hp, hq⟩
      simp [Function.update_of_ne hij]

section Contents

variable [DecidableEq ν]

@[simp] theorem content_create_self : (d.create p x).content p = some x := by
  simp [content, create]

/-- A new file takes one name. -/
theorem content_create_of_ne (h : q ≠ p) : (d.create p x).content q = d.content q := by
  unfold content create
  dsimp only
  rw [Function.update_of_ne h]
  cases hq : d.entry q with
  | none => rfl
  | some i =>
    -- the new file has a number no name had
    have hi : i ≠ d.next := Nat.ne_of_lt (d.entry_lt q i hq)
    simp [Function.update_of_ne hi]

/-- A link shows the content of its source. -/
@[simp] theorem content_link_self : (d.link p q).content q = d.content p := by
  simp [content, link]

theorem content_link_of_ne (h : r ≠ q) : (d.link p q).content r = d.content r := by
  simp [content, link, Function.update_of_ne h]

/-- Removing a name leaves what other names hold. -/
theorem content_remove_of_ne (h : q ≠ p) : (d.remove p).content q = d.content q := by
  simp [content, remove, Function.update_of_ne h]

@[simp] theorem content_put_self : (d.put p x).content p = some x := by
  unfold put
  split
  · rename_i h
    rcases Option.isSome_iff_exists.mp h with ⟨i, hi⟩
    rw [content_modify_self, content, hi]
    rfl
  · exact content_create_self

/-- Replacing a file leaves every name of another file. -/
theorem content_put_of_not_shares (hne : q ≠ p) (h : ¬ d.Shares p q) :
    (d.put p x).content q = d.content q := by
  unfold put
  split
  · exact content_modify_of_not_shares h
  · exact content_create_of_ne hne

end Contents

/-! ## Which names share after it -/

@[simp] theorem shares_modify : (d.modify p f).Shares q r ↔ d.Shares q r := by
  unfold Shares
  rw [entry_modify]

theorem Shares.symm (h : d.Shares p q) : d.Shares q p := by
  rcases h with ⟨i, hp, hq⟩
  exact ⟨i, hq, hp⟩

section Sharing

variable [DecidableEq ν]

/-- A new file has one name. -/
theorem Shares.of_create (hne : q ≠ r) (h : (d.create p x).Shares q r) : d.Shares q r := by
  rcases h with ⟨i, hq, hr⟩
  have hnot : ∀ t : ν, t ≠ p → d.entry t ≠ some d.next := fun t _ ht =>
    Nat.lt_irrefl _ (d.entry_lt t _ ht)
  simp only [create] at hq hr
  by_cases hqp : q = p
  · have hrp : r ≠ p := fun h => hne (hqp.trans h.symm)
    rw [hqp, Function.update_self, Option.some.injEq] at hq
    rw [Function.update_of_ne hrp, ← hq] at hr
    exact absurd hr (hnot r hrp)
  · rw [Function.update_of_ne hqp] at hq
    by_cases hrp : r = p
    · rw [hrp, Function.update_self, Option.some.injEq] at hr
      rw [← hr] at hq
      exact absurd hq (hnot q hqp)
    · rw [Function.update_of_ne hrp] at hr
      exact ⟨i, hq, hr⟩

/-- A replacement makes no two names share a file. -/
theorem Shares.of_put (hne : q ≠ r) (h : (d.put p x).Shares q r) : d.Shares q r := by
  unfold put at h
  split at h
  · exact shares_modify.mp h
  · exact h.of_create hne

/-- Nor does a removal. -/
theorem Shares.of_remove (h : (d.remove p).Shares q r) : d.Shares q r := by
  rcases h with ⟨i, hq, hr⟩
  have hkeep : ∀ t : ν, (d.remove p).entry t = some i → d.entry t = some i := by
    intro t ht
    simp only [remove] at ht
    by_cases htp : t = p
    · rw [htp, Function.update_self] at ht
      cases ht
    · rwa [Function.update_of_ne htp] at ht
  exact ⟨i, hkeep q hq, hkeep r hr⟩

/-- A link makes the new name share with the old one and what that shared with. -/
theorem Shares.of_link (hne : r ≠ t) (h : (d.link p q).Shares r t) :
    d.Shares r t ∨ (r = q ∧ d.Shares p t) ∨ (t = q ∧ d.Shares p r) := by
  rcases h with ⟨i, hr, ht⟩
  simp only [link] at hr ht
  by_cases hrq : r = q
  · have htq : t ≠ q := fun h => hne (hrq.trans h.symm)
    rw [hrq, Function.update_self] at hr
    rw [Function.update_of_ne htq] at ht
    exact Or.inr (Or.inl ⟨hrq, i, hr, ht⟩)
  · rw [Function.update_of_ne hrq] at hr
    by_cases htq : t = q
    · rw [htq, Function.update_self] at ht
      exact Or.inr (Or.inr ⟨htq, i, ht, hr⟩)
    · rw [Function.update_of_ne htq] at ht
      exact Or.inl ⟨i, hr, ht⟩

end Sharing

end Disk
