import EventKafka.Lib.Codec

/-! # Event ids

`make_event_id` of `kafka_outbox.cpp` prints two draws of a 64-bit generator as a random
UUID: four of the first draw's bits make room for the version, and two of the second's for
the variant. The identity of an event in the outbox, the broker and the evidence is this
text, so it matters what of the draws it keeps.
-/

namespace EventKafka

open Codec

/-- The fourth group: the variant, and 14 bits of the second draw. -/
def variantBits (b : UInt64) : UInt64 := (0x8000 : UInt64) ||| ((b >>> 48) &&& 0x3fff)

/-- The five groups `make_event_id` formats, between their dashes. A conversion `%0kx` of a
value below `16 ^ k` prints its `k` digits. -/
def eventIdText (a b : UInt64) : List Char :=
  hexadecimal 8 (a >>> 32).toNat ++
    '-' :: (hexadecimal 4 ((a >>> 16) &&& 0xffff).toNat ++
    '-' :: '4' :: (hexadecimal 3 (a &&& 0xfff).toNat ++
    '-' :: (hexadecimal 4 (variantBits b).toNat ++
    '-' :: hexadecimal 12 (b &&& 0xffffffffffff).toNat)))

/-- `make_event_id`, from the two draws. -/
def makeEventId (a b : UInt64) : String := String.ofList (eventIdText a b)

section Text

variable {a b a' b' : UInt64}

/-- It fits in `char buf[37]`, with the terminating zero. -/
theorem length_eventIdText (a b : UInt64) : (eventIdText a b).length = 36 := by
  simp [eventIdText]

theorem mem_eventIdText {c : Char} (h : c ∈ eventIdText a b) :
    c = '-' ∨ ∃ d, d < 16 ∧ c = d.digitChar := by
  simp only [eventIdText, List.mem_append, List.mem_cons] at h
  rcases h with h | rfl | h | rfl | rfl | h | rfl | h | rfl | h
  · exact Or.inr (mem_hexadecimal h)
  · exact Or.inl rfl
  · exact Or.inr (mem_hexadecimal h)
  · exact Or.inl rfl
  · exact Or.inr ⟨4, by decide, by decide⟩
  · exact Or.inr (mem_hexadecimal h)
  · exact Or.inl rfl
  · exact Or.inr (mem_hexadecimal h)
  · exact Or.inl rfl
  · exact Or.inr (mem_hexadecimal h)

/-- A text is made of its groups. -/
theorem eventIdText_eq_iff :
    eventIdText a b = eventIdText a' b' ↔
      hexadecimal 8 (a >>> 32).toNat = hexadecimal 8 (a' >>> 32).toNat ∧
      hexadecimal 4 ((a >>> 16) &&& 0xffff).toNat = hexadecimal 4 ((a' >>> 16) &&& 0xffff).toNat ∧
      hexadecimal 3 (a &&& 0xfff).toNat = hexadecimal 3 (a' &&& 0xfff).toNat ∧
      hexadecimal 4 (variantBits b).toNat =
        hexadecimal 4 (variantBits b').toNat ∧
      hexadecimal 12 (b &&& 0xffffffffffff).toNat =
        hexadecimal 12 (b' &&& 0xffffffffffff).toNat := by
  constructor
  · intro h
    obtain ⟨h1, h⟩ := List.append_inj h (by simp)
    obtain ⟨h2, h⟩ := List.append_inj (List.cons.inj h).2 (by simp)
    obtain ⟨h3, h⟩ := List.append_inj (List.cons.inj (List.cons.inj h).2).2 (by simp)
    obtain ⟨h4, h⟩ := List.append_inj (List.cons.inj h).2 (by simp)
    exact ⟨h1, h2, h3, h4, (List.cons.inj h).2⟩
  · rintro ⟨h1, h2, h3, h4, h5⟩
    rw [eventIdText, h1, h2, h3, h4, h5]
    rfl

end Text

/-! ## The bits that are kept -/

theorem toNat_and_mask (x : UInt64) {k : Nat} {m : UInt64} (hm : m.toNat = 2 ^ k - 1) :
    (x &&& m).toNat = x.toNat % 2 ^ k := by
  rw [UInt64.toNat_and, hm, Nat.and_two_pow_sub_one_eq_mod]

theorem toNat_shift (x : UInt64) {k : UInt64} (hk : k.toNat < 64) :
    (x >>> k).toNat = x.toNat / 2 ^ k.toNat := by
  rw [UInt64.toNat_shiftRight, Nat.mod_eq_of_lt hk, Nat.shiftRight_eq_div_pow]

theorem toNat_variant (b : UInt64) :
    (variantBits b).toNat = 2 ^ 15 + b.toNat / 2 ^ 48 % 2 ^ 14 := by
  have hlow : ((b >>> 48) &&& 0x3fff).toNat = b.toNat / 2 ^ 48 % 2 ^ 14 := by
    rw [toNat_and_mask _ (by decide : (0x3fff : UInt64).toNat = 2 ^ 14 - 1),
      toNat_shift b (by decide)]
    rfl
  have hlt : b.toNat / 2 ^ 48 % 2 ^ 14 < 2 ^ 15 := by omega
  rw [variantBits, UInt64.toNat_or, hlow]
  exact (Nat.two_pow_add_eq_or_of_lt hlt 1).symm

/-- The first two groups hold the high 48 bits of the first draw. -/
theorem high_groups_iff {m n : Nat} (hm : m < 2 ^ 64) (hn : n < 2 ^ 64) :
    (m / 2 ^ 32 % 16 ^ 8 = n / 2 ^ 32 % 16 ^ 8 ∧
      m / 2 ^ 16 % 2 ^ 16 % 16 ^ 4 = n / 2 ^ 16 % 2 ^ 16 % 16 ^ 4) ↔
      m / 2 ^ 16 = n / 2 ^ 16 := by
  have hhigh : ∀ x < 2 ^ 64, x / 2 ^ 32 % 16 ^ 8 = x / 2 ^ 16 / 2 ^ 16 := by omega
  have hmid : ∀ x : Nat, x / 2 ^ 16 % 2 ^ 16 % 16 ^ 4 = x / 2 ^ 16 % 2 ^ 16 := by omega
  rw [hhigh m hm, hhigh n hn, hmid m, hmid n]
  omega

/-- The last two hold the low 62 bits of the second, beside the variant. -/
theorem low_groups_iff (m n : Nat) :
    ((2 ^ 15 + m / 2 ^ 48 % 2 ^ 14) % 16 ^ 4 = (2 ^ 15 + n / 2 ^ 48 % 2 ^ 14) % 16 ^ 4 ∧
      m % 2 ^ 48 % 16 ^ 12 = n % 2 ^ 48 % 16 ^ 12) ↔ m % 2 ^ 62 = n % 2 ^ 62 := by
  have hsplit : ∀ x : Nat, x % 2 ^ 62 = x % 2 ^ 48 + 2 ^ 48 * (x / 2 ^ 48 % 2 ^ 14) :=
    fun x => Nat.mod_mul (x := x) (a := 2 ^ 48) (b := 2 ^ 14)
  have hvariant : ∀ x : Nat,
      (2 ^ 15 + x / 2 ^ 48 % 2 ^ 14) % 16 ^ 4 = 2 ^ 15 + x / 2 ^ 48 % 2 ^ 14 := by omega
  have hlow : ∀ x : Nat, x % 2 ^ 48 % 16 ^ 12 = x % 2 ^ 48 := by omega
  rw [hsplit m, hsplit n, hvariant m, hvariant n, hlow m, hlow n]
  omega

/-- The text of an id has the shape of a version 4 UUID, and two draws give one id exactly
when they agree in the 122 bits it keeps: all of the first but bits 12 to 15, and all of
the second but bits 62 and 63. -/
theorem event_ids (a b a' b' : UInt64) :
    ((makeEventId a b).toList.length = 36 ∧
      (∀ c ∈ (makeEventId a b).toList, c = '-' ∨ ∃ d, d < 16 ∧ c = d.digitChar) ∧
      (∀ i ∈ [8, 13, 18, 23], (makeEventId a b).toList[i]? = some '-') ∧
      (makeEventId a b).toList[14]? = some '4' ∧
      ∃ c ∈ ['8', '9', 'a', 'b'], (makeEventId a b).toList[19]? = some c) ∧
    (makeEventId a b = makeEventId a' b' ↔
      a.toNat / 2 ^ 16 = a'.toNat / 2 ^ 16 ∧ a.toNat % 2 ^ 12 = a'.toNat % 2 ^ 12 ∧
        b.toNat % 2 ^ 62 = b'.toNat % 2 ^ 62) := by
  have htext : (makeEventId a b).toList = eventIdText a b := String.toList_ofList
  constructor
  · rw [htext]
    refine ⟨length_eventIdText a b, fun c => mem_eventIdText, ?_, by simp [eventIdText], ?_⟩
    · simp [eventIdText, List.getElem?_append]
    · -- the variant is in the highest digit of its group
      have hrange : (variantBits b).toNat / 16 / 16 / 16 % 16 ∈ [8, 9, 10, 11] := by
        rw [toNat_variant]
        simp only [List.mem_cons, List.not_mem_nil, or_false]
        omega
      have hall : ∀ d ∈ [8, 9, 10, 11], d.digitChar ∈ ['8', '9', 'a', 'b'] := by decide
      refine ⟨_, hall _ hrange, ?_⟩
      simp [eventIdText, hexadecimal]
  · have hwhole : makeEventId a b = makeEventId a' b' ↔ eventIdText a b = eventIdText a' b' :=
      String.ofList_inj
    have h32 : ∀ x : UInt64, (x >>> 32).toNat = x.toNat / 2 ^ 32 :=
      fun x => toNat_shift x (by decide)
    have h16 : ∀ x : UInt64, (x >>> 16).toNat = x.toNat / 2 ^ 16 :=
      fun x => toNat_shift x (by decide)
    rw [hwhole, eventIdText_eq_iff]
    simp only [hexadecimal_eq_iff, toNat_variant, h32, h16,
      toNat_and_mask _ (by decide : (0xffff : UInt64).toNat = 2 ^ 16 - 1),
      toNat_and_mask _ (by decide : (0xfff : UInt64).toNat = 2 ^ 12 - 1),
      toNat_and_mask _ (by decide : (0xffffffffffff : UInt64).toNat = 2 ^ 48 - 1)]
    have htail : a.toNat % 2 ^ 12 % 16 ^ 3 = a'.toNat % 2 ^ 12 % 16 ^ 3 ↔
        a.toNat % 2 ^ 12 = a'.toNat % 2 ^ 12 := by omega
    rw [htail, ← high_groups_iff a.toNat_lt a'.toNat_lt, ← low_groups_iff b.toNat b'.toNat]
    constructor
    · rintro ⟨h8, h4, h3, hv, h12⟩
      exact ⟨⟨h8, h4⟩, h3, hv, h12⟩
    · rintro ⟨⟨h8, h4⟩, h3, hv, h12⟩
      exact ⟨h8, h4, h3, hv, h12⟩

end EventKafka
