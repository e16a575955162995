import Mathlib.Data.List.Induction
import Mathlib.Data.List.Sort

/-! # Rows grouped by a key

`group` files the values of a list under their keys, with the keys in the order in
which they are first met and the values of a key in the order of the list. A group is
put in order by `insertionSort`, and `pairwise_iff_of_sorted` reads a statement about
neighbours in a sorted list as one about all its members.

* `mem_group`: a group holds exactly the values of its key;
* `keys_nodup`: a key has one group.
-/

namespace Grouping

variable {κ α β : Type} [DecidableEq κ]

/-- Append a value to the group of its key; a new key comes last. -/
def add (k : κ) (a : α) : List (κ × List α) → List (κ × List α)
  | [] => [(k, [a])]
  | (k', as) :: rest => if k' = k then (k', as ++ [a]) :: rest else (k', as) :: add k a rest

/-- The groups of a list. -/
def group (key : β → κ) (val : β → α) (l : List β) : List (κ × List α) :=
  l.foldl (fun groups b => add (key b) (val b) groups) []

theorem add_keys (k : κ) (a : α) (d : List (κ × List α)) :
    (add k a d).map Prod.fst = if k ∈ d.map Prod.fst then d.map Prod.fst
      else d.map Prod.fst ++ [k] := by
  induction d with
  | nil => simp [add]
  | cons g d ih =>
    obtain ⟨k', as⟩ := g
    by_cases hk : k' = k
    · simp [add, hk]
    · have hk' : ¬ k = k' := fun h => hk h.symm
      simp only [add, if_neg hk, List.map_cons, ih, List.mem_cons, hk', false_or]
      split
      · rfl
      · rfl

theorem add_keys_nodup {k : κ} {a : α} {d : List (κ × List α)} (h : (d.map Prod.fst).Nodup) :
    ((add k a d).map Prod.fst).Nodup := by
  rw [add_keys]
  split
  · exact h
  · rename_i hk
    exact h.append (List.nodup_singleton k) (List.disjoint_singleton.mpr hk)

/-- What a step does to the group of a key: it grows, or it is new. -/
theorem mem_add {k k' : κ} {a : α} {bs : List α} {d : List (κ × List α)}
    (hnd : (d.map Prod.fst).Nodup) :
    (k', bs) ∈ add k a d ↔
      (k' ≠ k ∧ (k', bs) ∈ d) ∨
      (k' = k ∧ ((∃ as, (k, as) ∈ d ∧ bs = as ++ [a]) ∨ (k ∉ d.map Prod.fst ∧ bs = [a]))) := by
  induction d with
  | nil => simp [add]
  | cons g d ih =>
    obtain ⟨k₀, as⟩ := g
    rw [List.map_cons, List.nodup_cons] at hnd
    by_cases hk : k₀ = k
    · subst hk
      have habsent : ∀ xs, (k₀, xs) ∉ d := fun xs h =>
        hnd.1 (List.mem_map.mpr ⟨_, h, rfl⟩)
      rw [add, if_pos rfl, List.mem_cons, List.map_cons]
      simp only [List.mem_cons, Prod.mk.injEq]
      constructor
      · rintro (⟨rfl, rfl⟩ | h)
        · exact .inr ⟨rfl, .inl ⟨as, .inl ⟨trivial, rfl⟩, rfl⟩⟩
        · exact .inl ⟨fun heq => habsent bs (heq ▸ h), .inr h⟩
      · rintro (⟨hne, ⟨rfl, -⟩ | h⟩ | ⟨rfl, ⟨xs, ⟨-, rfl⟩ | h, rfl⟩ | ⟨hno, -⟩⟩)
        · exact absurd rfl hne
        · exact .inr h
        · exact .inl ⟨rfl, rfl⟩
        · exact absurd h (habsent xs)
        · exact absurd (.inl trivial) hno
    · have hk' : ¬ k = k₀ := fun h => hk h.symm
      simp only [add, if_neg hk, List.mem_cons, Prod.mk.injEq, List.map_cons, ih hnd.2, hk',
        false_and, false_or]
      constructor
      · rintro (⟨rfl, rfl⟩ | h | h)
        · exact .inl ⟨hk, .inl ⟨rfl, rfl⟩⟩
        · exact .inl ⟨h.1, .inr h.2⟩
        · exact .inr h
      · rintro (⟨hne, h | h⟩ | h)
        · exact .inl h
        · exact .inr (.inl ⟨hne, h⟩)
        · exact .inr (.inr h)

section Group

variable (key : β → κ) (val : β → α)

theorem group_concat (l : List β) (b : β) :
    group key val (l ++ [b]) = add (key b) (val b) (group key val l) := by
  simp [group, List.foldl_append]

theorem keys_nodup (l : List β) : ((group key val l).map Prod.fst).Nodup := by
  induction l using List.reverseRecOn with
  | nil => exact List.nodup_nil
  | append_singleton l b ih =>
    rw [group_concat]
    exact add_keys_nodup ih

/-- The values of a key, in the order of the list. -/
def valuesOf (l : List β) (k : κ) : List α := (l.filter fun b => key b = k).map val

theorem valuesOf_eq_nil {l : List β} {k : κ} (h : ¬∃ b ∈ l, key b = k) :
    valuesOf key val l k = [] := by
  simp only [valuesOf, List.map_eq_nil_iff, List.filter_eq_nil_iff, decide_eq_true_eq]
  exact fun b hb hkey => h ⟨b, hb, hkey⟩

theorem mem_keys {l : List β} {k : κ} :
    k ∈ (group key val l).map Prod.fst ↔ ∃ b ∈ l, key b = k := by
  induction l using List.reverseRecOn with
  | nil => simp [group]
  | append_singleton l b ih =>
    rw [group_concat, add_keys]
    simp only [List.mem_append, List.mem_singleton]
    by_cases hk : key b ∈ (group key val l).map Prod.fst
    · rw [if_pos hk, ih]
      constructor
      · rintro ⟨x, hx, hkey⟩
        exact ⟨x, .inl hx, hkey⟩
      · rintro ⟨x, hx | rfl, hkey⟩
        · exact ⟨x, hx, hkey⟩
        · exact ih.mp (hkey ▸ hk)
    · rw [if_neg hk, List.mem_append, List.mem_singleton, ih]
      constructor
      · rintro (⟨x, hx, hkey⟩ | rfl)
        · exact ⟨x, .inl hx, hkey⟩
        · exact ⟨b, .inr rfl, rfl⟩
      · rintro ⟨x, hx | rfl, hkey⟩
        · exact .inl ⟨x, hx, hkey⟩
        · exact .inr hkey.symm

/-- A group holds exactly the values of its key, and none is empty. -/
theorem mem_group {l : List β} {k : κ} {as : List α} :
    (k, as) ∈ group key val l ↔ as = valuesOf key val l k ∧ ∃ b ∈ l, key b = k := by
  induction l using List.reverseRecOn generalizing k as with
  | nil => simp [group]
  | append_singleton l b ih =>
    rw [group_concat, mem_add (keys_nodup key val l), mem_keys]
    have hvalues : valuesOf key val (l ++ [b]) k =
        valuesOf key val l k ++ if key b = k then [val b] else [] := by
      simp only [valuesOf, List.filter_append, List.map_append]
      by_cases hk : key b = k
      · simp [hk]
      · simp [hk]
    rw [hvalues]
    simp only [ih, List.mem_append, List.mem_singleton]
    by_cases hk : k = key b
    · subst hk
      simp only [ne_eq, not_true_eq_false, false_and, false_or, true_and, if_true]
      constructor
      · rintro (⟨xs, ⟨rfl, -⟩, rfl⟩ | ⟨hno, rfl⟩)
        · exact ⟨rfl, b, .inr rfl, rfl⟩
        · -- the key is new, so no earlier value has it
          exact ⟨by rw [valuesOf_eq_nil key val hno]; rfl, b, .inr rfl, rfl⟩
      · rintro ⟨rfl, -⟩
        by_cases hold : ∃ x ∈ l, key x = key b
        · exact .inl ⟨_, ⟨rfl, hold⟩, rfl⟩
        · exact .inr ⟨hold, by rw [valuesOf_eq_nil key val hold]; rfl⟩
    · have hk' : ¬ key b = k := fun h => hk h.symm
      simp only [ne_eq, hk, not_false_eq_true, true_and, false_and, or_false, if_neg hk',
        List.append_nil]
      constructor
      · rintro ⟨rfl, x, hx, hkey⟩
        exact ⟨rfl, x, .inl hx, hkey⟩
      · rintro ⟨rfl, x, hx | rfl, hkey⟩
        · exact ⟨rfl, x, hx, hkey⟩
        · exact absurd hkey.symm hk

/-- A key that is not there has no values. -/
theorem getD_lookup_group {l : List β} {k : κ} :
    ((group key val l).lookup k).getD [] = valuesOf key val l k := by
  cases hlookup : (group key val l).lookup k with
  | some as =>
    obtain ⟨before, after, heq, -⟩ := List.lookup_eq_some_iff.mp hlookup
    have hmem : (k, as) ∈ group key val l := by
      rw [heq]
      simp
    exact (mem_group key val).mp hmem |>.1
  | none =>
    have habsent : ¬∃ b ∈ l, key b = k := by
      intro hb
      obtain ⟨g, hg, rfl⟩ := List.mem_map.mp ((mem_keys key val).mpr hb)
      have hne := List.lookup_eq_none_iff.mp hlookup g hg
      simp at hne
    rw [valuesOf_eq_nil key val habsent]
    rfl

/-- Grouping loses no value and makes none up. -/
theorem group_perm (l : List β) : ((group key val l).flatMap Prod.snd).Perm (l.map val) := by
  have hadd : ∀ (k : κ) (a : α) (d : List (κ × List α)),
      ((add k a d).flatMap Prod.snd).Perm (d.flatMap Prod.snd ++ [a]) := by
    intro k a d
    induction d with
    | nil => exact List.Perm.refl _
    | cons g d ih =>
      obtain ⟨k', as⟩ := g
      rw [add]
      split
      · simp only [List.flatMap_cons, List.append_assoc]
        exact List.perm_append_comm.append_left as
      · simp only [List.flatMap_cons, List.append_assoc]
        exact ih.append_left as
  induction l using List.reverseRecOn with
  | nil => exact List.Perm.refl _
  | append_singleton l b ih =>
    rw [group_concat, List.map_append]
    exact (hadd _ _ _).trans (ih.append_right _)

end Group

/-! ## Groups in order -/

omit [DecidableEq κ] in
/-- In a list sorted by an asymmetric relation, what holds of every pair in list order
holds of every pair in the order of the relation. -/
theorem pairwise_iff_of_sorted {R S : α → α → Prop} {l : List α} (hirrefl : ∀ a, ¬R a a)
    (hasymm : ∀ a b, R a b → ¬R b a) (hl : l.Pairwise R) :
    l.Pairwise S ↔ ∀ a ∈ l, ∀ b ∈ l, R a b → S a b := by
  induction l with
  | nil => simp
  | cons c l ih =>
    rw [List.pairwise_cons] at hl ⊢
    rw [ih hl.2]
    constructor
    · rintro ⟨hhead, htail⟩ a ha b hb hab
      rcases List.mem_cons.mp ha with rfl | hal
      · rcases List.mem_cons.mp hb with rfl | hb
        · exact absurd hab (hirrefl _)
        · exact hhead b hb
      · rcases List.mem_cons.mp hb with rfl | hb
        · exact absurd (hl.1 a hal) (hasymm _ _ hab)
        · exact htail a hal b hb hab
    · intro h
      exact ⟨fun b hb => h c (.head _) b (.tail _ hb) (hl.1 b hb),
        fun a ha b hb => h a (.tail _ ha) b (.tail _ hb)⟩

/-- A list is left alone by sorting exactly when it is sorted. -/
theorem eq_insertionSort_iff {r : α → α → Prop} [DecidableRel r] [Std.Total r] [IsTrans α r]
    {l : List α} : l = l.insertionSort r ↔ l.Pairwise r := by
  constructor
  · intro h
    rw [h]
    exact List.pairwise_insertionSort r l
  · intro h
    exact h.insertionSort_eq.symm

end Grouping
