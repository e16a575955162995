import Mathlib.Data.List.Nodup
import Mathlib.Data.List.Forall2

/-! # Relational tables with a primary key and a unique index

A table is the list of its rows in rowid order. The two constraints a storage
engine enforces — the primary key, and a unique index in which a NULL column
never collides — are fields of the structure, so a table that violates them
cannot be built and every statement below has to keep them:

* `Table.update` is `UPDATE ... SET ... WHERE`, restricted to assignments that
  leave the constrained columns alone;
* `Table.delete` is `DELETE ... WHERE`;
* `Table.insert` is `INSERT`, which fails on a conflict;
* `Table.changes` is the affected-row count of an `UPDATE` or `DELETE`.
-/

namespace Sql

/-- A table with primary key `key` and unique index `index`. `index` is `none`
on a row with a NULL among the indexed columns. -/
structure Table {α κ ι : Type} (key : α → κ) (index : α → Option ι) where
  rows : List α
  key_nodup : (rows.map key).Nodup
  index_nodup : (rows.filterMap index).Nodup

/-- The index of a table that has no unique index besides its primary key. -/
def noIndex {α : Type} (_ : α) : Option Unit := none

namespace Table

variable {α κ ι : Type} {key : α → κ} {index : α → Option ι}

theorem ext_rows {t t' : Table key index} (h : t.rows = t'.rows) : t = t' := by
  cases t
  cases t'
  cases h
  rfl

instance [DecidableEq α] : DecidableEq (Table key index) := fun t t' =>
  decidable_of_iff (t.rows = t'.rows) ⟨ext_rows, fun h => by rw [h]⟩

instance : Membership α (Table key index) := ⟨fun t a => a ∈ t.rows⟩

theorem mem_def {t : Table key index} {a : α} : a ∈ t ↔ a ∈ t.rows := Iff.rfl

/-- The empty table. -/
def empty : Table key index := ⟨[], List.nodup_nil, List.nodup_nil⟩

@[simp] theorem notMem_empty (a : α) : a ∉ (empty : Table key index) :=
  List.not_mem_nil

/-! ## The constraints as facts about rows -/

/-- Two rows with one primary key are one row. -/
theorem eq_of_key {t : Table key index} {a b : α} (ha : a ∈ t) (hb : b ∈ t)
    (h : key a = key b) : a = b :=
  List.inj_on_of_nodup_map t.key_nodup ha hb h

/-- Two rows with one index entry are one row. -/
theorem eq_of_index {t : Table key index} {a b : α} {i : ι} (ha : a ∈ t) (hb : b ∈ t)
    (hi : index a = some i) (hj : index b = some i) : a = b := by
  have hrows : ∀ l : List α, (l.filterMap index).Nodup → a ∈ l → b ∈ l → a = b := by
    intro l
    induction l with
    | nil =>
      intro _ h _
      simp at h
    | cons c l ih =>
      intro hnd hac hbc
      have htail : (l.filterMap index).Nodup := by
        have hsub : (l.filterMap index).Sublist ((c :: l).filterMap index) :=
          (List.sublist_cons_self c l).filterMap index
        exact hnd.sublist hsub
      -- a row of the tail cannot share the head's entry
      have hclash : ∀ x ∈ l, index c = some i → index x ≠ some i := by
        intro x hx hc hxi
        rw [List.filterMap_cons_some hc, List.nodup_cons] at hnd
        exact hnd.1 (List.mem_filterMap.mpr ⟨x, hx, hxi⟩)
      rcases List.mem_cons.mp hac with rfl | hal
      · rcases List.mem_cons.mp hbc with rfl | hbl
        · rfl
        · exact absurd hj (hclash b hbl hi)
      · rcases List.mem_cons.mp hbc with rfl | hbl
        · exact absurd hi (hclash a hal hj)
        · exact ih htail hal hbl
  exact hrows t.rows t.index_nodup ha hb

/-! ## Point lookup -/

section Lookup

variable [DecidableEq κ]

/-- `SELECT * WHERE key = k`. -/
def find? (t : Table key index) (k : κ) : Option α := t.rows.find? fun a => key a = k

/-- A lookup by the key finds the one row that has it. -/
theorem find?_eq_some {t : Table key index} {k : κ} {a : α} :
    t.find? k = some a ↔ a ∈ t ∧ key a = k := by
  constructor
  · intro h
    have hk := List.find?_some h
    exact ⟨List.mem_of_find?_eq_some h, of_decide_eq_true hk⟩
  · rintro ⟨ha, hk⟩
    cases hf : t.find? k with
    | none =>
      have hno := List.find?_eq_none.mp hf a ha
      exact absurd (decide_eq_true hk) hno
    | some b =>
      have hb : b ∈ t := List.mem_of_find?_eq_some hf
      have hbk : key b = k := of_decide_eq_true (List.find?_some (p := fun a => decide (key a = k)) hf)
      rw [eq_of_key hb ha (hbk.trans hk.symm)]

/-- It finds nothing when no row has it. -/
theorem find?_eq_none {t : Table key index} {k : κ} :
    t.find? k = none ↔ ∀ a ∈ t, key a ≠ k := by
  constructor
  · intro h a ha hk
    have hno := List.find?_eq_none.mp h a ha
    exact hno (decide_eq_true hk)
  · intro h
    apply List.find?_eq_none.mpr
    intro a ha
    simpa using h a ha

/-- A key is looked up among the rows that have it. -/
theorem find?_congr {t t' : Table key index} {k : κ} (h : ∀ a, key a = k → (a ∈ t' ↔ a ∈ t)) :
    t'.find? k = t.find? k := by
  cases hf : t.find? k with
  | none =>
    rw [find?_eq_none] at hf ⊢
    exact fun a ha hk => hf a ((h a hk).mp ha) hk
  | some a =>
    rw [find?_eq_some] at hf ⊢
    exact ⟨(h a hf.2).mpr hf.1, hf.2⟩

end Lookup

/-! ## Affected rows -/

/-- How many rows a `WHERE p` touches. -/
def changes (t : Table key index) (p : α → Bool) : Nat := t.rows.countP p

/-- A statement that selects no row changes none. -/
theorem changes_eq_zero {t : Table key index} {p : α → Bool} :
    t.changes p = 0 ↔ ∀ a ∈ t, p a = false := by
  simp [changes, List.countP_eq_zero, mem_def]

/-- A condition that fixes the primary key touches at most one row. -/
theorem changes_le_one {t : Table key index} {p : α → Bool} {k : κ}
    (hp : ∀ a, p a = true → key a = k) : t.changes p ≤ 1 := by
  have hrows : ∀ l : List α, (l.map key).Nodup → l.countP p ≤ 1 := by
    intro l
    induction l with
    | nil => simp
    | cons a l ih =>
      intro hnd
      rw [List.map_cons, List.nodup_cons] at hnd
      cases hpa : p a with
      | false =>
        rw [List.countP_cons_of_neg (by simp [hpa])]
        exact ih hnd.2
      | true =>
        -- the rest of the table has other keys, so it adds nothing
        have hrest : l.countP p = 0 := by
          rw [List.countP_eq_zero]
          intro b hb hpb
          apply hnd.1
          rw [hp a hpa, ← hp b hpb]
          exact List.mem_map_of_mem hb
        rw [List.countP_cons_of_pos hpa]
        omega
  exact hrows t.rows t.key_nodup

theorem exists_of_changes_ne_zero {t : Table key index} {p : α → Bool}
    (h : t.changes p ≠ 0) : ∃ a ∈ t, p a = true := by
  by_contra hno
  push Not at hno
  apply h
  rw [changes_eq_zero]
  intro a ha
  exact Bool.eq_false_iff.mpr (hno a ha)

/-- On a condition that fixes the key, one affected row is the same as some row
satisfying it. -/
theorem changes_eq_one {t : Table key index} {p : α → Bool} {k : κ}
    (hp : ∀ a, p a = true → key a = k) :
    t.changes p = 1 ↔ ∃ a ∈ t, p a = true := by
  constructor
  · intro h
    apply exists_of_changes_ne_zero
    omega
  · rintro ⟨a, ha, hpa⟩
    have hle := changes_le_one (t := t) hp
    have hne : t.changes p ≠ 0 := by
      intro h0
      rw [changes_eq_zero] at h0
      simp [h0 a ha] at hpa
    omega

/-- A statement that names its row by the key changes one row or none. -/
theorem changes_eq_find? [DecidableEq κ] {t : Table key index} {p : α → Bool} {k : κ}
    (hp : ∀ a, p a = true → key a = k) :
    t.changes p = if (t.find? k).any p then 1 else 0 := by
  split
  · rename_i h
    rw [changes_eq_one hp]
    rcases (Option.any_eq_true _ _).mp h with ⟨a, hfind, ha⟩
    exact ⟨a, (find?_eq_some.mp hfind).1, ha⟩
  · rename_i h
    rw [changes_eq_zero]
    intro a ha
    rw [Bool.eq_false_iff]
    intro hpa
    apply h
    rw [find?_eq_some.mpr ⟨ha, hp a hpa⟩]
    exact hpa

/-! ## UPDATE -/

/-- `UPDATE ... SET f WHERE p`, for an assignment that keeps the key and the
indexed columns. -/
def update (t : Table key index) (p : α → Bool) (f : α → α)
    (hkey : ∀ a, key (f a) = key a) (hindex : ∀ a, index (f a) = index a) :
    Table key index where
  rows := t.rows.map fun a => if p a then f a else a
  key_nodup := by
    have hcomp : (key ∘ fun a => if p a then f a else a) = key := by
      funext a
      by_cases h : p a <;> simp [h, hkey]
    rw [List.map_map, hcomp]
    exact t.key_nodup
  index_nodup := by
    have hcomp : (index ∘ fun a => if p a then f a else a) = index := by
      funext a
      by_cases h : p a <;> simp [h, hindex]
    rw [List.filterMap_map, hcomp]
    exact t.index_nodup

variable {p : α → Bool} {f : α → α} {hkey : ∀ a, key (f a) = key a}
  {hindex : ∀ a, index (f a) = index a}

/-- The rows of a table whose rows were mapped. -/
theorem mem_of_rows_eq_map {t t' : Table key index} {b : α}
    (hrows : t'.rows = t.rows.map fun a => if p a then f a else a) :
    b ∈ t' ↔ ∃ a ∈ t, b = if p a then f a else a := by
  rw [mem_def, hrows, List.mem_map]
  constructor
  · rintro ⟨a, ha, rfl⟩
    exact ⟨a, ha, rfl⟩
  · rintro ⟨a, ha, rfl⟩
    exact ⟨a, ha, rfl⟩

/-- The rows after an `UPDATE`. -/
theorem mem_update {t : Table key index} {b : α} :
    b ∈ t.update p f hkey hindex ↔ ∃ a ∈ t, b = if p a then f a else a :=
  mem_of_rows_eq_map rfl

/-- An update that touches no row changes nothing. -/
theorem update_of_changes_eq_zero {t : Table key index} (h : t.changes p = 0) :
    t.update p f hkey hindex = t := by
  rw [changes_eq_zero] at h
  apply ext_rows
  have hid : ∀ a ∈ t.rows, (if p a then f a else a) = a := by
    intro a ha
    simp [h a ha]
  calc (t.update p f hkey hindex).rows
      = t.rows.map (fun a => if p a then f a else a) := rfl
    _ = t.rows.map id := List.map_congr_left hid
    _ = t.rows := List.map_id _

/-- The lookups after an `UPDATE`, which does not touch the key. -/
theorem find?_update [DecidableEq κ] {t : Table key index} {k : κ} :
    (t.update p f hkey hindex).find? k = (t.find? k).map fun a => if p a then f a else a := by
  cases hf : t.find? k with
  | none =>
    rw [find?_eq_none] at hf
    rw [Option.map_none, find?_eq_none]
    intro b hb
    rcases mem_update.mp hb with ⟨a, ha, rfl⟩
    have hka := hf a ha
    by_cases h : p a <;> simpa [h, hkey] using hka
  | some a =>
    rw [find?_eq_some] at hf
    rw [Option.map_some, find?_eq_some]
    refine ⟨mem_update.mpr ⟨a, hf.1, rfl⟩, ?_⟩
    by_cases h : p a <;> simp [h, hkey, hf.2]

/-- What an update does to the number of rows `q` counts: rows leave, and rows enter. -/
theorem changes_map {t t' : Table key index} {q : α → Bool}
    (hrows : t'.rows = t.rows.map fun a => if p a then f a else a) :
    t'.changes q + t.changes (fun a => p a && q a) =
      t.changes q + t.changes fun a => p a && q (f a) := by
  have hlist : ∀ l : List α, (l.map fun a => if p a then f a else a).countP q +
      l.countP (fun a => p a && q a) = l.countP q + l.countP fun a => p a && q (f a) := by
    intro l
    induction l with
    | nil => rfl
    | cons a l ih =>
      simp only [List.map_cons, List.countP_cons]
      cases hp : p a
      · simp only [Bool.false_and, Bool.false_eq_true, if_false]
        omega
      · simp only [Bool.true_and, if_true]
        omega
  rw [changes, hrows]
  exact hlist t.rows

/-- A count that does not notice the update. -/
theorem changes_map_of_eq {t t' : Table key index} {q : α → Bool}
    (hrows : t'.rows = t.rows.map fun a => if p a then f a else a)
    (h : ∀ a ∈ t, p a = true → q (f a) = q a) : t'.changes q = t.changes q := by
  have hsame : t.changes (fun a => p a && q (f a)) = t.changes fun a => p a && q a := by
    refine List.countP_congr fun a ha => ?_
    cases hp : p a
    · simp
    · simp [h a ha hp]
  have hcount := changes_map (q := q) hrows
  omega

/-- The rows an update takes away from those `q` counts. -/
theorem changes_map_leave {t t' : Table key index} {q : α → Bool}
    (hrows : t'.rows = t.rows.map fun a => if p a then f a else a)
    (h : ∀ a ∈ t, p a = true → q a = true ∧ q (f a) = false) :
    t'.changes q + t.changes p = t.changes q := by
  have hbefore : t.changes (fun a => p a && q a) = t.changes p := by
    refine List.countP_congr fun a ha => ?_
    cases hp : p a
    · simp
    · simp [(h a ha hp).1]
  have hafter : t.changes (fun a => p a && q (f a)) = 0 := by
    rw [changes_eq_zero]
    intro a ha
    cases hp : p a
    · simp
    · simp [(h a ha hp).2]
  have hcount := changes_map (q := q) hrows
  omega

/-- The rows an update adds to those `q` counts. -/
theorem changes_map_enter {t t' : Table key index} {q : α → Bool}
    (hrows : t'.rows = t.rows.map fun a => if p a then f a else a)
    (h : ∀ a ∈ t, p a = true → q a = false ∧ q (f a) = true) :
    t'.changes q = t.changes q + t.changes p := by
  have hbefore : t.changes (fun a => p a && q a) = 0 := by
    rw [changes_eq_zero]
    intro a ha
    cases hp : p a
    · simp
    · simp [(h a ha hp).1]
  have hafter : t.changes (fun a => p a && q (f a)) = t.changes p := by
    refine List.countP_congr fun a ha => ?_
    cases hp : p a
    · simp
    · simp [(h a ha hp).2]
  have hcount := changes_map (q := q) hrows
  omega

/-! ## Row-wise steps -/

/-- `t'` has the rows of `t`, each taken to its successor by `R`. -/
def Stepwise (R : α → α → Prop) (t t' : Table key index) : Prop :=
  List.Forall₂ R t.rows t'.rows

namespace Stepwise

variable {R : α → α → Prop}

theorem refl (hR : ∀ a, R a a) (t : Table key index) : Stepwise R t t :=
  List.forall₂_same.mpr fun a _ => hR a

/-- A table whose rows were mapped, each within the relation. -/
theorem of_map {t t' : Table key index} {g : α → α} (hrows : t'.rows = t.rows.map g)
    (h : ∀ a ∈ t, R a (g a)) : Stepwise R t t' := by
  unfold Stepwise
  rw [hrows]
  apply List.forall₂_map_right_iff.mpr
  exact List.forall₂_same.mpr h

/-- An `UPDATE` is a step for each row, selected or not. -/
theorem update {t t' : Table key index} (hrows : t'.rows = t.rows.map fun a => if p a then f a else a)
    (hin : ∀ a ∈ t, p a = true → R a (f a)) (hout : ∀ a ∈ t, R a a) : Stepwise R t t' := by
  refine of_map hrows fun a ha => ?_
  by_cases h : p a
  · simpa [h] using hin a ha h
  · simpa [h] using hout a ha

/-- What became of a row. -/
theorem forward {t t' : Table key index} (h : Stepwise R t t') {a : α} (ha : a ∈ t) :
    ∃ b ∈ t', R a b := by
  have hlists : ∀ {l l' : List α}, List.Forall₂ R l l' → a ∈ l → ∃ b ∈ l', R a b := by
    intro l l' hl
    induction hl with
    | nil =>
      intro hmem
      simp at hmem
    | @cons c d l l' hcd _ ih =>
      intro hmem
      rcases List.mem_cons.mp hmem with rfl | hmem
      · exact ⟨d, List.mem_cons_self, hcd⟩
      · rcases ih hmem with ⟨b, hb, hab⟩
        exact ⟨b, List.mem_cons_of_mem _ hb, hab⟩
  exact hlists h ha

/-- What a row was before. -/
theorem backward {t t' : Table key index} (h : Stepwise R t t') {b : α} (hb : b ∈ t') :
    ∃ a ∈ t, R a b := by
  have hflip : Stepwise (flip R) t' t := h.flip
  exact hflip.forward hb

/-- Two steps for each row are one. -/
theorem comp {S T : α → α → Prop} {t t' t'' : Table key index} (h : Stepwise R t t')
    (h' : Stepwise S t' t'') (hT : ∀ a b c, R a b → S b c → T a c) : Stepwise T t t'' := by
  unfold Stepwise at h h' ⊢
  revert h h'
  generalize t.rows = as
  generalize t'.rows = bs
  generalize t''.rows = cs
  intro h h'
  induction h generalizing cs with
  | nil =>
    cases h'
    exact .nil
  | cons hab _ ih =>
    cases h' with
    | cons hbc hrest => exact .cons (hT _ _ _ hab hbc) (ih _ hrest)

end Stepwise

/-! ## DELETE -/

/-- `DELETE ... WHERE p`. -/
def delete (t : Table key index) (p : α → Bool) : Table key index where
  rows := t.rows.filter fun a => !p a
  key_nodup := t.key_nodup.sublist (List.filter_sublist.map key)
  index_nodup := t.index_nodup.sublist (List.filter_sublist.filterMap index)

/-- The rows after a `DELETE`. -/
theorem mem_delete {t : Table key index} {a : α} :
    a ∈ t.delete p ↔ a ∈ t ∧ p a = false := by
  simp [mem_def, delete, List.mem_filter]

/-- A count after a `DELETE` lacks the rows that left. -/
theorem changes_delete {t : Table key index} {p q : α → Bool} :
    (t.delete p).changes q + t.changes (fun a => p a && q a) = t.changes q := by
  have hlist : ∀ l : List α, (l.filter fun a => !p a).countP q +
      l.countP (fun a => p a && q a) = l.countP q := by
    intro l
    induction l with
    | nil => rfl
    | cons a l ih =>
      cases hp : p a
      · simp only [hp, List.filter_cons, List.countP_cons, Bool.not_false, if_true, Bool.false_and,
          Bool.false_eq_true, if_false]
        omega
      · simp only [hp, List.filter_cons, List.countP_cons, Bool.not_true, Bool.false_eq_true,
          if_false, Bool.true_and]
        omega
  exact hlist t.rows

/-! ## INSERT -/

section Insert

variable [DecidableEq κ] [DecidableEq ι]

/-- `a` violates the primary key or the unique index of `t`. -/
def Conflict (t : Table key index) (a : α) : Prop :=
  key a ∈ t.rows.map key ∨ (index a).isSome ∧ index a ∈ t.rows.map index

instance (t : Table key index) (a : α) : Decidable (t.Conflict a) :=
  inferInstanceAs (Decidable (_ ∨ _ ∧ _))

/-- `INSERT`: append the row, or fail on a conflict. -/
def insert (t : Table key index) (a : α) : Option (Table key index) :=
  if h : t.Conflict a then none
  else some {
    rows := t.rows ++ [a]
    key_nodup := by
      have hk : key a ∉ t.rows.map key := fun hk => h (Or.inl hk)
      rw [List.map_append]
      exact t.key_nodup.append (List.nodup_singleton _) (by simpa using hk)
    index_nodup := by
      rw [List.filterMap_append]
      refine t.index_nodup.append ?_ ?_
      · cases hi : index a <;> simp [hi]
      · intro i hi hia
        have hai : index a = some i := by simpa using hia
        rcases List.mem_filterMap.mp hi with ⟨b, hb, hbi⟩
        apply h
        right
        rw [hai, ← hbi]
        exact ⟨by simp [hbi], List.mem_map_of_mem hb⟩ }

/-- An `INSERT` fails on a conflict only. -/
theorem insert_eq_none {t : Table key index} {a : α} : t.insert a = none ↔ t.Conflict a := by
  unfold insert
  split
  · rename_i h
    exact ⟨fun _ => h, fun _ => rfl⟩
  · rename_i h
    exact ⟨nofun, fun hc => absurd hc h⟩

/-- A row without an index entry goes in if its key is free. -/
theorem exists_insert {t : Table key index} {a : α} (hkey : t.find? (key a) = none)
    (hindex : index a = none) : ∃ t', t.insert a = some t' := by
  refine Option.ne_none_iff_exists'.mp fun hnone => ?_
  rcases insert_eq_none.mp hnone with hconflict | ⟨hsome, -⟩
  · rcases List.mem_map.mp hconflict with ⟨b, hb, hk⟩
    exact find?_eq_none.mp hkey b hb hk
  · simp [hindex] at hsome

/-- Otherwise the row comes last. -/
theorem insert_eq_some {t t' : Table key index} {a : α} :
    t.insert a = some t' ↔ ¬ t.Conflict a ∧ t'.rows = t.rows ++ [a] := by
  unfold insert
  by_cases h : t.Conflict a
  · simp [h]
  · simp only [h, dite_false, Option.some.injEq, not_false_iff, true_and]
    constructor
    · rintro rfl
      rfl
    · intro hr
      exact ext_rows hr.symm

/-- The rows after an `INSERT`. -/
theorem mem_insert {t t' : Table key index} {a b : α} (h : t.insert a = some t') :
    b ∈ t' ↔ b ∈ t ∨ b = a := by
  rw [insert_eq_some] at h
  rw [mem_def, mem_def, h.2]
  simp

/-- A count after an `INSERT`. -/
theorem changes_insert {t t' : Table key index} {a : α} {q : α → Bool} (h : t.insert a = some t') :
    t'.changes q = t.changes q + if q a then 1 else 0 := by
  rw [changes, (insert_eq_some.mp h).2, List.countP_append, List.countP_singleton]
  rfl

/-- The lookups after an `INSERT`. -/
theorem find?_insert {t t' : Table key index} {a : α} (h : t.insert a = some t') (k : κ) :
    t'.find? k = if k = key a then some a else t.find? k := by
  by_cases hk : k = key a
  · rw [if_pos hk]
    exact find?_eq_some.mpr ⟨(mem_insert h).mpr (Or.inr rfl), hk.symm⟩
  · rw [if_neg hk]
    refine find?_congr fun b hb => ?_
    rw [mem_insert h]
    constructor
    · rintro (hold | rfl)
      · exact hold
      · exact absurd hb.symm hk
    · exact Or.inl

/-- An inserted row's key was free. -/
theorem key_ne_of_insert {t t' : Table key index} {a b : α} (h : t.insert a = some t')
    (hb : b ∈ t) : key b ≠ key a := by
  intro hk
  apply (insert_eq_some.mp h).1
  left
  rw [← hk]
  exact List.mem_map_of_mem hb

/-- An inserted row's index entry was free. -/
theorem index_ne_of_insert {t t' : Table key index} {a b : α} {i : ι}
    (h : t.insert a = some t') (hb : b ∈ t) (hi : index a = some i) : index b ≠ some i := by
  intro hbi
  apply (insert_eq_some.mp h).1
  right
  rw [hi, ← hbi]
  exact ⟨by simp [hbi], List.mem_map_of_mem hb⟩

end Insert

/-! ## Up to the order of the rows -/

/-- The tables have the same rows, in whatever order they were inserted. -/
def Same (t t' : Table key index) : Prop := t.rows.Perm t'.rows

namespace Same

variable {t t' t'' : Table key index}

theorem refl (t : Table key index) : Same t t := List.Perm.refl _

theorem symm (h : Same t t') : Same t' t := List.Perm.symm h

theorem trans (h : Same t t') (h' : Same t' t'') : Same t t'' := List.Perm.trans h h'

/-- The same rows are members. -/
theorem mem_iff (h : Same t t') {a : α} : a ∈ t ↔ a ∈ t' := List.Perm.mem_iff h

/-- There are as many rows. -/
theorem length_eq (h : Same t t') : t.rows.length = t'.rows.length := List.Perm.length_eq h

/-- Keys are unique, so lookups find the same row. -/
theorem find?_eq [DecidableEq κ] (h : Same t t') (k : κ) : t.find? k = t'.find? k :=
  find?_congr fun _ _ => h.mem_iff

theorem any_eq (h : Same t t') (p : α → Bool) : t.rows.any p = t'.rows.any p := by
  rw [Bool.eq_iff_iff, List.any_eq_true, List.any_eq_true]
  simp only [List.Perm.mem_iff h]

/-- A count does not see the order. -/
theorem changes_eq (h : Same t t') (p : α → Bool) : t.changes p = t'.changes p :=
  List.Perm.countP_eq p h

/-- An `UPDATE` and a `DELETE` take each row by itself. -/
theorem update (h : Same t t') (p : α → Bool) (f : α → α) (hkey : ∀ a, key (f a) = key a)
    (hindex : ∀ a, index (f a) = index a) :
    Same (t.update p f hkey hindex) (t'.update p f hkey hindex) :=
  List.Perm.map _ h

theorem delete (h : Same t t') (p : α → Bool) : Same (t.delete p) (t'.delete p) :=
  List.Perm.filter _ h

/-- A row goes into both tables or into neither. -/
theorem insert [DecidableEq κ] [DecidableEq ι] (h : Same t t') (a : α) :
    (t.insert a = none ∧ t'.insert a = none) ∨
      ∃ u u', t.insert a = some u ∧ t'.insert a = some u' ∧ Same u u' := by
  have hconflict : t.Conflict a ↔ t'.Conflict a := by
    unfold Conflict
    rw [(List.Perm.map key h).mem_iff, (List.Perm.map index h).mem_iff]
  cases hins : t.insert a with
  | none => exact Or.inl ⟨rfl, insert_eq_none.mpr (hconflict.mp (insert_eq_none.mp hins))⟩
  | some u =>
    right
    obtain ⟨hfree, hrows⟩ := insert_eq_some.mp hins
    cases hins' : t'.insert a with
    | none => exact absurd (hconflict.mpr (insert_eq_none.mp hins')) hfree
    | some u' =>
      refine ⟨u, u', rfl, rfl, ?_⟩
      unfold Same
      rw [hrows, (insert_eq_some.mp hins').2]
      exact List.Perm.append_right [a] h

end Same

/-- Tables are told apart by looking keys up. -/
theorem same_of_find? [DecidableEq κ] {t t' : Table key index}
    (h : ∀ k, t.find? k = t'.find? k) : Same t t' := by
  refine (List.perm_ext_iff_of_nodup t.key_nodup.of_map t'.key_nodup.of_map).mpr fun a => ?_
  have hmem : ∀ u : Table key index, a ∈ u.rows ↔ u.find? (key a) = some a := fun u => by
    rw [find?_eq_some]
    exact ⟨fun ha => ⟨ha, rfl⟩, fun ha => ha.1⟩
  rw [hmem, hmem, h]

end Table

end Sql
