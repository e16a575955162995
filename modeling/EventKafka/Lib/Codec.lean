import Mathlib.Algebra.Ring.Nat
import Mathlib.Data.List.Basic
import Mathlib.Logic.Function.Basic

/-! # Encodings that can be read back

An encoding writes a value as a list of symbols. Some can be read back wherever they end;
others, such as decimal numbers, only when the next symbol cannot belong to them.
`Decodes p f` says that `f` can be read back when nothing follows or a symbol `p`
accepts: two texts that agree are the text of one value, and the same rest follows.

* `Decodes.injective`: on its own the text determines the value;
* `Decodes.span`, `Decodes.ofLength`, `Decodes.ofDecoder` and `Decodes.framed` are
  encodings to start from;
* `Decodes.prepend`, `Decodes.terminated`, `Decodes.comp`, `Decodes.flatMap` and
  `Decodes.separated` build further ones, and `kind_eq` tells alternatives apart by their first symbol.
-/

namespace Codec

variable {α β κ σ : Type} {p q : σ → Prop} {f : α → List σ}

/-- Nothing follows, or a symbol `p` accepts. -/
def Follows (p : σ → Prop) (s : List σ) : Prop := ∀ c ∈ s.head?, p c

theorem follows_nil : Follows p [] := by
  intro c hc
  cases hc

@[simp] theorem follows_cons {c : σ} {s : List σ} : Follows p (c :: s) ↔ p c := by
  simp [Follows]

theorem Follows.mono {s : List σ} (hpq : ∀ c, p c → q c) (h : Follows p s) : Follows q s :=
  fun c hc => hpq c (h c hc)

/-- The text of a value can be told from what follows it. -/
def Decodes (p : σ → Prop) (f : α → List σ) : Prop :=
  ∀ ⦃a b : α⦄ ⦃s t : List σ⦄, Follows p s → Follows p t → f a ++ s = f b ++ t → a = b ∧ s = t

theorem Decodes.injective (h : Decodes p f) : Function.Injective f := by
  intro a b hab
  have happend : f a ++ [] = f b ++ [] := by rw [hab]
  exact (h follows_nil follows_nil happend).1

/-! ## Encodings to start from -/

/-- An encoding with a decoder. -/
theorem Decodes.ofDecoder (decode : List σ → Option (α × List σ))
    (h : ∀ a s, Follows p s → decode (f a ++ s) = some (a, s)) : Decodes p f := by
  intro a b s t hs ht heq
  have hboth : some (a, s) = some (b, t) := by rw [← h a s hs, ← h b t ht, heq]
  cases hboth
  exact ⟨rfl, rfl⟩

/-- An encoding of fixed length. -/
theorem Decodes.ofLength {n : Nat} (hlength : ∀ a, (f a).length = n)
    (hf : Function.Injective f) : Decodes p f := by
  intro a b s t _ _ heq
  have hab := List.append_inj heq ((hlength a).trans (hlength b).symm)
  exact ⟨hf hab.1, hab.2⟩

/-- An encoding of which no symbol can follow it. -/
theorem Decodes.span (hf : Function.Injective f) (hp : ∀ a, ∀ c ∈ f a, ¬p c) : Decodes p f := by
  -- the longer of two texts would contain the symbol that follows the shorter
  have hshort : ∀ (a : α) (l m t : List σ), f a = l ++ m → Follows p (m ++ t) → m = [] := by
    intro a l m t hfa hm
    cases m with
    | nil => rfl
    | cons c m =>
      have hc : c ∈ f a := by rw [hfa]; simp
      exact absurd (follows_cons.mp hm) (hp a c hc)
  intro a b s t hs ht heq
  rcases List.append_eq_append_iff.mp heq with ⟨m, hb, rfl⟩ | ⟨m, ha, rfl⟩
  · have hm := hshort b (f a) m t hb hs
    subst hm
    rw [List.append_nil] at hb
    exact ⟨(hf hb).symm, rfl⟩
  · have hm := hshort a (f b) m s ha ht
    subst hm
    rw [List.append_nil] at ha
    exact ⟨hf ha, rfl⟩

/-- A text after its length, where lengths below `n` are told apart. -/
theorem Decodes.framed {size : Nat → List σ} {k n : Nat} (hlength : ∀ m, (size m).length = k)
    (hsize : ∀ l < n, ∀ m < n, size l = size m → l = m) :
    Decodes p fun x : {x : List σ // x.length < n} => size x.1.length ++ x.1 := by
  intro x y s t _ _ heq
  rw [List.append_assoc, List.append_assoc] at heq
  have hhead := List.append_inj heq ((hlength _).trans (hlength _).symm)
  have htext := List.append_inj hhead.2 (hsize _ x.2 _ y.2 hhead.1)
  exact ⟨Subtype.ext htext.1, htext.2⟩

/-! ## Encodings from others -/

/-- A text after a fixed one. -/
theorem Decodes.prepend (l : List σ) (h : Decodes p f) : Decodes p fun a => l ++ f a := by
  intro a b s t hs ht heq
  rw [List.append_assoc, List.append_assoc] at heq
  exact h hs ht (List.append_cancel_left heq)

/-- A text before a fixed one that can follow it. -/
theorem Decodes.terminated {c : σ} {l : List σ} (h : Decodes p f) (hc : p c) :
    Decodes q fun a => f a ++ c :: l := by
  intro a b s t _ _ heq
  rw [List.append_assoc, List.append_assoc] at heq
  obtain ⟨hab, hrest⟩ := h (follows_cons.mpr hc) (follows_cons.mpr hc) heq
  have hst : l ++ s = l ++ t := List.tail_eq_of_cons_eq hrest
  exact ⟨hab, List.append_cancel_left hst⟩

/-- The text of what a value determines, and is determined by. -/
theorem Decodes.comp {g : β → α} (hg : Function.Injective g) (h : Decodes p f) :
    Decodes p fun b => f (g b) := by
  intro a b s t hs ht heq
  obtain ⟨hab, hst⟩ := h hs ht heq
  exact ⟨hg hab, hst⟩

/-- What may follow a list of elements does not begin one more. -/
theorem Follows.ne_append {s : List σ} (hs : Follows p s) {a : α}
    (hhead : ∃ c l, f a = c :: l ∧ ¬p c) (t : List σ) : s ≠ f a ++ t := by
  intro heq
  obtain ⟨c, l, hfa, hc⟩ := hhead
  rw [heq, hfa] at hs
  exact hc (follows_cons.mp hs)

/-- The texts of a list, one after the other: what follows the list cannot begin one more
element, and each element can follow another. -/
theorem Decodes.flatMap (h : Decodes q f) (hpq : ∀ c, p c → q c)
    (hhead : ∀ a, ∃ c l, f a = c :: l ∧ q c ∧ ¬p c) : Decodes p (List.flatMap f) := by
  have hfollows : ∀ (as : List α) (s : List σ), Follows p s → Follows q (as.flatMap f ++ s) := by
    intro as s hs
    cases as with
    | nil => exact hs.mono hpq
    | cons a as =>
      obtain ⟨c, l, hfa, hc, -⟩ := hhead a
      rw [List.flatMap_cons, hfa]
      exact follows_cons.mpr hc
  have hmore : ∀ a, ∃ c l, f a = c :: l ∧ ¬p c := fun a => by
    obtain ⟨c, l, hfa, -, hc⟩ := hhead a
    exact ⟨c, l, hfa, hc⟩
  intro as
  induction as with
  | nil =>
    intro bs s t hs _ heq
    cases bs with
    | nil => exact ⟨rfl, heq⟩
    | cons b bs =>
      rw [List.flatMap_cons, List.append_assoc] at heq
      exact absurd heq (hs.ne_append (hmore b) _)
  | cons a as ih =>
    intro bs s t hs ht heq
    cases bs with
    | nil =>
      rw [List.flatMap_cons, List.append_assoc] at heq
      exact absurd heq.symm (ht.ne_append (hmore a) _)
    | cons b bs =>
      rw [List.flatMap_cons, List.flatMap_cons, List.append_assoc, List.append_assoc] at heq
      obtain ⟨rfl, hrest⟩ := h (hfollows as s hs) (hfollows bs t ht) heq
      obtain ⟨rfl, hst⟩ := ih hs ht hrest
      exact ⟨rfl, hst⟩

/-- The texts of a list with a separator between them. -/
def separated (sep : σ) (f : α → List σ) : List α → List σ
  | [] => []
  | a :: as => f a ++ as.flatMap fun b => sep :: f b

/-- The texts of a list with a separator between them, where what follows the list is
neither the separator nor the beginning of an element. -/
theorem Decodes.separated {sep : σ} (h : Decodes q f) (hsep : q sep) (hpq : ∀ c, p c → q c)
    (hp : ¬p sep) (hhead : ∀ a, ∃ c l, f a = c :: l ∧ ¬p c) : Decodes p (separated sep f) := by
  have hrest : Decodes p (List.flatMap fun b => sep :: f b) :=
    (h.prepend [sep]).flatMap hpq fun b => ⟨sep, f b, rfl, hsep, hp⟩
  have hfollows : ∀ (as : List α) (s : List σ), Follows p s →
      Follows q ((as.flatMap fun b => sep :: f b) ++ s) := by
    intro as s hs
    cases as with
    | nil => exact hs.mono hpq
    | cons a as => exact follows_cons.mpr hsep
  intro as bs s t hs ht heq
  cases as with
  | nil =>
    cases bs with
    | nil => exact ⟨rfl, heq⟩
    | cons b bs =>
      rw [Codec.separated, Codec.separated, List.append_assoc] at heq
      exact absurd heq (hs.ne_append (hhead b) _)
  | cons a as =>
    cases bs with
    | nil =>
      rw [Codec.separated, Codec.separated, List.append_assoc] at heq
      exact absurd heq.symm (ht.ne_append (hhead a) _)
    | cons b bs =>
      rw [Codec.separated, Codec.separated, List.append_assoc, List.append_assoc] at heq
      obtain ⟨rfl, htail⟩ := h (hfollows as s hs) (hfollows bs t ht) heq
      obtain ⟨rfl, hst⟩ := hrest hs ht htail
      exact ⟨rfl, hst⟩

/-- Alternatives that begin differently are told apart. -/
theorem kind_eq {kind : α → κ} {kindOf : σ → κ}
    (hhead : ∀ a, ∃ c l, f a = c :: l ∧ kindOf c = kind a) {a b : α} {s t : List σ}
    (heq : f a ++ s = f b ++ t) : kind a = kind b := by
  obtain ⟨c, l, ha, hc⟩ := hhead a
  obtain ⟨d, m, hb, hd⟩ := hhead b
  rw [ha, hb, List.cons_append, List.cons_append, List.cons.injEq] at heq
  rw [← hc, ← hd, heq.1]

/-! ## Numbers of fixed width -/

/-- The last `k` bytes of a number, the highest first. -/
def bigEndian : Nat → Nat → List UInt8
  | 0, _ => []
  | k + 1, n => bigEndian k (n / 256) ++ [UInt8.ofNat n]

theorem length_bigEndian (k n : Nat) : (bigEndian k n).length = k := by
  induction k generalizing n with
  | zero => rfl
  | succ k ih => rw [bigEndian, List.length_append, ih, List.length_singleton]

theorem bigEndian_inj {k m n : Nat} (hm : m < 256 ^ k) (hn : n < 256 ^ k)
    (h : bigEndian k m = bigEndian k n) : m = n := by
  induction k generalizing m n with
  | zero =>
    rw [Nat.pow_zero] at hm hn
    omega
  | succ k ih =>
    rw [Nat.pow_succ] at hm hn
    obtain ⟨hhigh, hlow⟩ := List.append_inj' h rfl
    have hdiv : m / 256 = n / 256 := ih (by omega) (by omega) hhigh
    have hmod : m % 256 = n % 256 := by
      have hbyte := congrArg UInt8.toNat (List.singleton_inj.mp hlow)
      rwa [UInt8.toNat_ofNat', UInt8.toNat_ofNat'] at hbyte
    omega

/-- The last `k` hexadecimal digits of a number, the highest first. -/
def hexadecimal : Nat → Nat → List Char
  | 0, _ => []
  | k + 1, n => hexadecimal k (n / 16) ++ [(n % 16).digitChar]

@[simp] theorem length_hexadecimal (k n : Nat) : (hexadecimal k n).length = k := by
  induction k generalizing n with
  | zero => rfl
  | succ k ih => rw [hexadecimal, List.length_append, ih, List.length_singleton]

theorem mem_hexadecimal {k n : Nat} {c : Char} (h : c ∈ hexadecimal k n) :
    ∃ d, d < 16 ∧ c = d.digitChar := by
  induction k generalizing n with
  | zero => cases h
  | succ k ih =>
    rcases List.mem_append.mp h with h | h
    · exact ih h
    · exact ⟨n % 16, Nat.mod_lt _ (by decide), List.mem_singleton.mp h⟩

/-- Digits of one number of places determine what they show. -/
theorem hexadecimal_eq_iff {k m n : Nat} :
    hexadecimal k m = hexadecimal k n ↔ m % 16 ^ k = n % 16 ^ k := by
  have hdigit : ∀ d, d < 16 → ∀ e, e < 16 → (d.digitChar = e.digitChar ↔ d = e) := by decide
  induction k generalizing m n with
  | zero => simp [hexadecimal, Nat.mod_one]
  | succ k ih =>
    have hsplit : ∀ x : Nat, x % 16 ^ (k + 1) = 16 * (x / 16 % 16 ^ k) + x % 16 := by
      intro x
      rw [Nat.pow_succ, Nat.mul_comm, Nat.mod_mul, Nat.add_comm]
    rw [hexadecimal, hexadecimal, hsplit m, hsplit n]
    constructor
    · intro h
      obtain ⟨hhigh, hlow⟩ := List.append_inj' h rfl
      have hmod := (hdigit _ (Nat.mod_lt _ (by decide)) _ (Nat.mod_lt _ (by decide))).mp
        (List.singleton_inj.mp hlow)
      rw [ih.mp hhigh, hmod]
    · intro h
      have hm := Nat.mod_lt m (y := 16) (by decide)
      have hn := Nat.mod_lt n (y := 16) (by decide)
      have hhigh : m / 16 % 16 ^ k = n / 16 % 16 ^ k := by omega
      have hlow : m % 16 = n % 16 := by omega
      rw [ih.mpr hhigh, hlow]

end Codec
