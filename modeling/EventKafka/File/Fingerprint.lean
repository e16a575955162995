import Mathlib.Data.Set.List
import EventKafka.File.Migrate
import EventKafka.Lib.Checks
import EventKafka.Lib.Codec

/-! # The fingerprint stream

What `fingerprint` of `outbox_ops.py` feeds to SHA-256: for each row, its JSON array as
`json.dumps` writes it in ASCII and without blanks, after its length in eight bytes. A
row is a list of SQLite values, and a BLOB is the object `{"bytes": hex}`.

`fingerprint_stream` is that the stream determines the rows.
-/

namespace EventKafka

open Checks Codec Sql

/-! ## `json.dumps` -/

/-- A value of a column, as `sqlite3` returns it. -/
inductive SqlValue where
  | null
  | integer (n : Int)
  | text (s : String)
  | blob (bytes : List UInt8)
deriving DecidableEq, Repr

/-- `'{:04x}'.format(n)`. -/
def hex4 (n : Nat) : List Char :=
  [(n / 4096 % 16).digitChar, (n / 256 % 16).digitChar, (n / 16 % 16).digitChar,
    (n % 16).digitChar]

/-- `ensure_ascii`: a character outside `' '..'~'` is written as its UTF-16 code units. -/
def escapeChar (c : Char) : List Char :=
  if c = '"' then ['\\', '"']
  else if c = '\\' then ['\\', '\\']
  else if c = '\n' then ['\\', 'n']
  else if c = '\r' then ['\\', 'r']
  else if c = '\t' then ['\\', 't']
  else if c.toNat = 0x08 then ['\\', 'b']
  else if c.toNat = 0x0c then ['\\', 'f']
  else if 0x20 ≤ c.toNat ∧ c.toNat ≤ 0x7e then [c]
  else if c.toNat < 0x10000 then '\\' :: 'u' :: hex4 c.toNat
  else '\\' :: 'u' :: (hex4 (0xd800 + (c.toNat - 0x10000) / 0x400) ++
    '\\' :: 'u' :: hex4 (0xdc00 + (c.toNat - 0x10000) % 0x400))

/-- A string. -/
def jsonString (s : List Char) : List Char := '"' :: (s.flatMap escapeChar ++ ['"'])

/-- `int.__repr__`. -/
def jsonInt (n : Int) : List Char :=
  if n < 0 then '-' :: Nat.toDigits 10 n.natAbs else Nat.toDigits 10 n.natAbs

/-- Two digits of `bytes.hex`. -/
def hexByte (b : UInt8) : List Char :=
  [(b.toNat / 16).digitChar, (b.toNat % 16).digitChar]

/-- `{'bytes': v.hex()} if isinstance(v, bytes) else v`, written. -/
def SqlValue.json : SqlValue → List Char
  | .null => ['n', 'u', 'l', 'l']
  | .integer n => jsonInt n
  | .text s => jsonString s.toList
  | .blob bytes =>
    '{' :: (jsonString ['b', 'y', 't', 'e', 's'] ++
      ':' :: (jsonString (bytes.flatMap hexByte) ++ ['}']))

/-- `json.dumps(row, ensure_ascii=True, separators=(',', ':'))`. -/
def dumps (row : List SqlValue) : String :=
  String.ofList ('[' :: (separated ',' SqlValue.json row ++ [']']))

/-! ## The stream -/

/-- `.encode()`. -/
def encode (s : String) : List UInt8 := s.toUTF8.data.toList

/-- `n.to_bytes(8, 'big')`. -/
def toBytes8 (n : Nat) : Except String (List UInt8) := do
  raiseIf (2 ^ 64 ≤ n) "int too big to convert"
  return bigEndian 8 n

/-- What a row adds to the stream. -/
def rowBytes (row : List SqlValue) : Except String (List UInt8) := do
  let encoded := encode (dumps row)
  let size ← toBytes8 encoded.length
  return size ++ encoded

/-- The bytes SHA-256 reads. -/
def fingerprintBytes (rows : List (List SqlValue)) : Except String (List UInt8) := do
  let chunks ← rows.mapM rowBytes
  return chunks.flatten

/-! ## Reading the JSON back -/

/-- The value of a hexadecimal digit. -/
def hexVal (c : Char) : Nat := if c.isDigit then c.toNat - 48 else c.toNat - 87

theorem hexVal_digitChar : ∀ d, d < 16 → hexVal d.digitChar = d := by decide

/-- The number four digits spell. -/
def unhex4 (a b c d : Char) : Nat :=
  ((hexVal a * 16 + hexVal b) * 16 + hexVal c) * 16 + hexVal d

/-- The second half of a pair. -/
def unescapeLow (high : Nat) : List Char → Option (Char × List Char)
  | '\\' :: 'u' :: a :: b :: c :: d :: s =>
    some (Char.ofNat (0x10000 + (high - 0xd800) * 0x400 + (unhex4 a b c d - 0xdc00)), s)
  | _ => none

/-- A code unit, and another one where the first is half of a pair. -/
def unescapeUnits : List Char → Option (Char × List Char)
  | a :: b :: c :: d :: s =>
    if unhex4 a b c d < 0xd800 ∨ 0xe000 ≤ unhex4 a b c d then some (Char.ofNat (unhex4 a b c d), s)
    else unescapeLow (unhex4 a b c d) s
  | _ => none

/-- What follows a backslash. -/
def unescapeTail : List Char → Option (Char × List Char)
  | [] => none
  | x :: s =>
    if x = '"' then some ('"', s)
    else if x = '\\' then some ('\\', s)
    else if x = 'n' then some ('\n', s)
    else if x = 'r' then some ('\r', s)
    else if x = 't' then some ('\t', s)
    else if x = 'b' then some (Char.ofNat 0x08, s)
    else if x = 'f' then some (Char.ofNat 0x0c, s)
    else unescapeUnits s

/-- The first character of an escaped text. -/
def unescape : List Char → Option (Char × List Char)
  | [] => none
  | c :: s => if c = '\\' then unescapeTail s else some (c, s)

theorem unescape_units (s : List Char) : unescape ('\\' :: 'u' :: s) = unescapeUnits s := rfl

theorem unhex4_hex4 {n : Nat} (h : n < 0x10000) (s : List Char) :
    ∃ a b c d, hex4 n ++ s = a :: b :: c :: d :: s ∧ unhex4 a b c d = n := by
  refine ⟨_, _, _, _, rfl, ?_⟩
  unfold unhex4
  rw [hexVal_digitChar _ (Nat.mod_lt _ (by decide)), hexVal_digitChar _ (Nat.mod_lt _ (by decide)),
    hexVal_digitChar _ (Nat.mod_lt _ (by decide)), hexVal_digitChar _ (Nat.mod_lt _ (by decide))]
  omega

/-- No character is half of a pair. -/
theorem scalar_bounds (c : Char) :
    c.toNat < 0xd800 ∨ (0xe000 ≤ c.toNat ∧ c.toNat < 0x110000) := by
  have hvalid : c.toNat < 0xd800 ∨ (0xdfff < c.toNat ∧ c.toNat < 0x110000) := c.valid
  omega

/-- What `escapeChar` writes. -/
inductive Escaped (c : Char) : List Char → Prop where
  | short (x : Char) (hx : ∀ s, unescapeTail (x :: s) = some (c, s)) : Escaped c ['\\', x]
  | plain (hquote : c ≠ '"') (hbackslash : c ≠ '\\') : Escaped c [c]
  | unit (hn : c.toNat < 0x10000) : Escaped c ('\\' :: 'u' :: hex4 c.toNat)
  | pair (hn : ¬c.toNat < 0x10000) :
    Escaped c ('\\' :: 'u' :: (hex4 (0xd800 + (c.toNat - 0x10000) / 0x400) ++
      '\\' :: 'u' :: hex4 (0xdc00 + (c.toNat - 0x10000) % 0x400)))

theorem escaped (c : Char) : Escaped c (escapeChar c) := by
  have hshort : ∀ x : Char, (∀ s, unescapeTail (x :: s) = some (Char.ofNat c.toNat, s)) →
      Escaped c ['\\', x] := by
    intro x hx
    rw [Char.ofNat_toNat] at hx
    exact .short x hx
  -- one test of `escapeChar` after the other
  rw [escapeChar]
  by_cases hquote : c = '"'
  · rw [if_pos hquote]
    exact .short _ fun _ => by rw [hquote]; rfl
  rw [if_neg hquote]
  by_cases hbackslash : c = '\\'
  · rw [if_pos hbackslash]
    exact .short _ fun _ => by rw [hbackslash]; rfl
  rw [if_neg hbackslash]
  by_cases hnewline : c = '\n'
  · rw [if_pos hnewline]
    exact .short _ fun _ => by rw [hnewline]; rfl
  rw [if_neg hnewline]
  by_cases hreturn : c = '\r'
  · rw [if_pos hreturn]
    exact .short _ fun _ => by rw [hreturn]; rfl
  rw [if_neg hreturn]
  by_cases htab : c = '\t'
  · rw [if_pos htab]
    exact .short _ fun _ => by rw [htab]; rfl
  rw [if_neg htab]
  by_cases hbackspace : c.toNat = 0x08
  · rw [if_pos hbackspace]
    exact hshort _ fun _ => by rw [hbackspace]; rfl
  rw [if_neg hbackspace]
  by_cases hfeed : c.toNat = 0x0c
  · rw [if_pos hfeed]
    exact hshort _ fun _ => by rw [hfeed]; rfl
  rw [if_neg hfeed]
  by_cases hprintable : 0x20 ≤ c.toNat ∧ c.toNat ≤ 0x7e
  · rw [if_pos hprintable]
    exact .plain hquote hbackslash
  rw [if_neg hprintable]
  by_cases hn : c.toNat < 0x10000
  · rw [if_pos hn]
    exact .unit hn
  · rw [if_neg hn]
    exact .pair hn

theorem Escaped.unescape {c : Char} {e : List Char} (h : Escaped c e) (s : List Char) :
    unescape (e ++ s) = some (c, s) := by
  have hc : Char.ofNat c.toNat = c := Char.ofNat_toNat c
  have hbounds := scalar_bounds c
  cases h with
  | short x hx => exact hx s
  | plain _ hbackslash => exact if_neg hbackslash
  | unit hn =>
    -- the code unit is a character, so it is read as one
    obtain ⟨a, b, d, e, hhex, hval⟩ := unhex4_hex4 hn s
    have hunit : unhex4 a b d e < 0xd800 ∨ 0xe000 ≤ unhex4 a b d e := by
      rw [hval]
      exact hbounds.imp_right And.left
    rw [List.cons_append, List.cons_append, unescape_units, hhex, unescapeUnits, if_pos hunit, hval,
      hc]
  | pair hn =>
    -- neither half is a character, so the first one is read with the second
    obtain ⟨a, b, d, e, hhex, hval⟩ := unhex4_hex4 (n := 0xd800 + (c.toNat - 0x10000) / 0x400)
      (by omega) ('\\' :: 'u' :: (hex4 (0xdc00 + (c.toNat - 0x10000) % 0x400) ++ s))
    obtain ⟨a', b', d', e', hhex', hval'⟩ :=
      unhex4_hex4 (n := 0xdc00 + (c.toNat - 0x10000) % 0x400) (by omega) s
    have hunit : ¬(unhex4 a b d e < 0xd800 ∨ 0xe000 ≤ unhex4 a b d e) := by
      rw [hval]
      omega
    have hpair : 0x10000 + (unhex4 a b d e - 0xd800) * 0x400 + (unhex4 a' b' d' e' - 0xdc00) =
        c.toNat := by
      rw [hval, hval']
      omega
    rw [List.cons_append, List.cons_append, unescape_units, List.append_assoc, List.cons_append,
      List.cons_append, hhex, unescapeUnits, if_neg hunit, hhex', unescapeLow, hpair, hc]

theorem Escaped.head {c : Char} {e : List Char} (h : Escaped c e) :
    ∃ d l, e = d :: l ∧ True ∧ ¬d = '"' := by
  cases h with
  | plain hquote _ => exact ⟨_, _, rfl, trivial, hquote⟩
  | short | unit | pair => exact ⟨_, _, rfl, trivial, by decide⟩

/-! ## The JSON of a row determines the row -/

/-- What follows an element of an array. -/
def AfterItem (c : Char) : Prop := c = ',' ∨ c = ']'

theorem decodes_escapeChar : Decodes (fun _ => True) escapeChar :=
  Decodes.ofDecoder unescape fun c s _ => (escaped c).unescape s

theorem decodes_jsonString {p : Char → Prop} : Decodes p jsonString := by
  have hchars : Decodes (fun c => c = '"') (List.flatMap escapeChar) :=
    -- no escaped character begins with the quote that ends the string
    decodes_escapeChar.flatMap (fun _ _ => trivial) fun c => (escaped c).head
  exact (hchars.terminated rfl).prepend ['"']

theorem jsonInt_chars (n : Int) : ∀ c ∈ jsonInt n, c = '-' ∨ c.isDigit = true := by
  have hdigits : ∀ c ∈ Nat.toDigits 10 n.natAbs, c.isDigit = true :=
    fun c hc => Nat.isDigit_of_mem_toDigits (by decide) (by decide) hc
  intro c hc
  unfold jsonInt at hc
  split at hc
  · rcases List.mem_cons.mp hc with rfl | hc
    · exact .inl rfl
    · exact .inr (hdigits c hc)
  · exact .inr (hdigits c hc)

theorem jsonInt_injective : Function.Injective jsonInt := by
  have hdigits : ∀ m n : Nat, Nat.toDigits 10 m = Nat.toDigits 10 n → m = n := by
    intro m n h
    rw [← Nat.ofDigitChars_ten_toDigits (n := m), h, Nat.ofDigitChars_ten_toDigits]
  have hminus : ∀ n : Nat, ∀ l, Nat.toDigits 10 n ≠ '-' :: l := by
    intro n l h
    have hdigit := Nat.isDigit_of_mem_toDigits (b := 10) (n := n) (c := '-') (by decide) (by decide)
      (by rw [h]; exact .head l)
    exact absurd hdigit (by decide)
  intro m n h
  unfold jsonInt at h
  split at h <;> split at h
  · have habs := hdigits _ _ (List.tail_eq_of_cons_eq h)
    omega
  · exact absurd h.symm (hminus _ _)
  · exact absurd h (hminus _ _)
  · have habs := hdigits _ _ h
    omega

theorem decodes_jsonInt : Decodes AfterItem jsonInt := by
  refine Decodes.span jsonInt_injective fun n c hc hafter => ?_
  rcases jsonInt_chars n c hc with rfl | hdigit
  · exact absurd hafter (by unfold AfterItem; decide)
  · rcases hafter with rfl | rfl
    · exact absurd hdigit (by decide)
    · exact absurd hdigit (by decide)

theorem hexByte_injective : Function.Injective hexByte := by
  intro a b h
  have hdigit : ∀ d e : Nat, d < 16 → e < 16 → d.digitChar = e.digitChar → d = e := by
    intro d e hd he heq
    rw [← hexVal_digitChar d hd, heq, hexVal_digitChar e he]
  have ha := a.toNat_lt
  have hb := b.toNat_lt
  simp only [hexByte, List.cons.injEq, and_true] at h
  have hhigh := hdigit _ _ (by omega) (by omega) h.1
  have hlow := hdigit _ _ (by omega) (by omega) h.2
  exact UInt8.toNat.inj (by omega)

theorem hex_injective : Function.Injective (List.flatMap hexByte) := by
  have hbyte : Decodes (fun _ => True) hexByte :=
    Decodes.ofLength (n := 2) (fun _ => rfl) hexByte_injective
  have hbytes : Decodes (fun _ => False) (List.flatMap hexByte) :=
    hbyte.flatMap (fun _ _ => trivial) fun b => ⟨_, _, rfl, trivial, fun h => h⟩
  exact hbytes.injective

/-- The type of a value, as the first character of its text tells it. -/
def SqlValue.kind : SqlValue → Nat
  | .null => 0
  | .integer _ => 1
  | .text _ => 2
  | .blob _ => 3

/-- What the first character of a value says about its type. -/
def kindOf (c : Char) : Nat :=
  if c = 'n' then 0 else if c = '"' then 2 else if c = '{' then 3 else if c = ']' then 4 else 1

theorem json_head (v : SqlValue) : ∃ c l, v.json = c :: l ∧ kindOf c = v.kind := by
  cases v with
  | null => exact ⟨_, _, rfl, rfl⟩
  | text s => exact ⟨_, _, rfl, rfl⟩
  | blob bytes => exact ⟨_, _, rfl, rfl⟩
  | integer n =>
    have hne : jsonInt n ≠ [] := by
      unfold jsonInt
      split
      · exact List.cons_ne_nil _ _
      · exact Nat.toDigits_ne_nil
    obtain ⟨c, l, hcl⟩ := List.exists_cons_of_ne_nil hne
    refine ⟨c, l, hcl, ?_⟩
    rcases jsonInt_chars n c (by rw [hcl]; exact .head l) with rfl | hdigit
    · rfl
    · -- a digit is none of the other characters
      have hother : ∀ d : Char, d.isDigit = false → c ≠ d := by
        rintro d hd rfl
        rw [hdigit] at hd
        cases hd
      simp [kindOf, SqlValue.kind, hother 'n' rfl, hother '"' rfl, hother '{' rfl, hother ']' rfl]

theorem decodes_blob {p : Char → Prop} : Decodes p fun bytes => (SqlValue.blob bytes).json := by
  have hhex : Decodes (fun _ => True) fun bytes : List UInt8 =>
      jsonString (bytes.flatMap hexByte) := decodes_jsonString.comp hex_injective
  have hvalue : Decodes p fun bytes : List UInt8 => jsonString (bytes.flatMap hexByte) ++ ['}'] :=
    hhex.terminated trivial
  have hname : Decodes p fun bytes : List UInt8 =>
      ('{' :: jsonString ['b', 'y', 't', 'e', 's'] ++ [':']) ++
        (jsonString (bytes.flatMap hexByte) ++ ['}']) := hvalue.prepend _
  intro a b s t hs ht heq
  refine hname hs ht ?_
  simpa [SqlValue.json] using heq

theorem decodes_json : Decodes AfterItem SqlValue.json := by
  intro a b s t hs ht heq
  have hkind : a.kind = b.kind := kind_eq json_head heq
  cases a with
  | null =>
    cases b with
    | null => exact ⟨rfl, List.append_cancel_left heq⟩
    | integer | text | blob => cases hkind
  | integer m =>
    cases b with
    | integer n =>
      obtain ⟨rfl, hst⟩ := decodes_jsonInt hs ht heq
      exact ⟨rfl, hst⟩
    | null | text | blob => cases hkind
  | text m =>
    cases b with
    | text n =>
      obtain ⟨hmn, hst⟩ := decodes_jsonString hs ht heq
      exact ⟨congrArg SqlValue.text (String.toList_inj.mp hmn), hst⟩
    | null | integer | blob => cases hkind
  | blob m =>
    cases b with
    | blob n =>
      obtain ⟨rfl, hst⟩ := decodes_blob hs ht heq
      exact ⟨rfl, hst⟩
    | null | integer | text => cases hkind

/-- No value begins with the bracket that ends the array. -/
theorem json_head_ne (v : SqlValue) : ∃ c l, v.json = c :: l ∧ c ≠ ']' := by
  obtain ⟨c, l, hcl, hkind⟩ := json_head v
  refine ⟨c, l, hcl, ?_⟩
  rintro rfl
  cases v with
  | null | integer | text | blob => cases hkind

theorem dumps_injective : Function.Injective dumps := by
  have hitems : Decodes (fun c => c = ']') (separated ',' SqlValue.json) :=
    decodes_json.separated (.inl rfl) (fun _ hc => .inr hc) (by decide) json_head_ne
  have harray : Decodes (fun _ => False) fun row =>
      ['['] ++ (separated ',' SqlValue.json row ++ [']']) := (hitems.terminated rfl).prepend ['[']
  intro row row' h
  exact harray.injective (String.ofList_injective h)

/-! ## The stream determines the rows -/

theorem encode_injective : Function.Injective encode := by
  intro s t h
  have hdata : s.toUTF8.data = t.toUTF8.data := Array.toList_inj.mp h
  have hbytes : s.toUTF8 = t.toUTF8 := ByteArray.ext hdata
  exact String.toByteArray_inj.mp hbytes

/-- The bytes of a row, of which the length fits. -/
def framed (row : List SqlValue) : List UInt8 :=
  bigEndian 8 (encode (dumps row)).length ++ encode (dumps row)

theorem rowBytes_eq_ok {row : List SqlValue} {bytes : List UInt8} :
    rowBytes row = .ok bytes ↔ (encode (dumps row)).length < 2 ^ 64 ∧ bytes = framed row := by
  unfold rowBytes toBytes8 framed
  simp only [bind_eq_ok, raiseIf_eq_ok, pure_eq_ok, exists_const, not_le]
  constructor
  · rintro ⟨size, ⟨hlength, rfl⟩, rfl⟩
    exact ⟨hlength, rfl⟩
  · rintro ⟨hlength, rfl⟩
    exact ⟨_, ⟨hlength, rfl⟩, rfl⟩

theorem fingerprintBytes_ok {rows : List (List SqlValue)} {bytes : List UInt8}
    (h : fingerprintBytes rows = .ok bytes) :
    (∀ row ∈ rows, (encode (dumps row)).length < 256 ^ 8) ∧ bytes = rows.flatMap framed := by
  unfold fingerprintBytes at h
  obtain ⟨chunks, hchunks, hbytes⟩ := bind_eq_ok.mp h
  simp only [mapM_eq_ok, rowBytes_eq_ok] at hchunks
  obtain ⟨hlength, hflat⟩ := flatten_of_forall₂ hchunks
  exact ⟨hlength, (pure_eq_ok.mp hbytes).trans hflat⟩

/-- The rows of which the length fits. -/
abbrev ShortRow := {row : List SqlValue // (encode (dumps row)).length < 256 ^ 8}

theorem framed_injective :
    Function.Injective (List.flatMap fun row : ShortRow => framed row.1) := by
  have htext : Function.Injective fun row : ShortRow =>
      (⟨encode (dumps row.1), row.2⟩ : {x : List UInt8 // x.length < 256 ^ 8}) := by
    intro row row' h
    exact Subtype.ext (dumps_injective (encode_injective (congrArg Subtype.val h)))
  have hsized : Decodes (fun _ => True) fun x : {x : List UInt8 // x.length < 256 ^ 8} =>
      bigEndian 8 x.1.length ++ x.1 :=
    Decodes.framed (length_bigEndian 8) fun _ hl _ hm => bigEndian_inj hl hm
  have hcomp := hsized.comp htext
  have hframe : Decodes (fun _ => True) fun row : ShortRow => framed row.1 := hcomp
  have hstream : Decodes (fun _ => False) (List.flatMap fun row : ShortRow => framed row.1) :=
    hframe.flatMap (fun _ _ => trivial) fun row => ⟨_, _, rfl, trivial, fun h => h⟩
  exact hstream.injective

theorem fingerprintBytes_injective {rows rows' : List (List SqlValue)} {bytes : List UInt8}
    (h : fingerprintBytes rows = .ok bytes) (h' : fingerprintBytes rows' = .ok bytes) :
    rows = rows' := by
  obtain ⟨hlength, hbytes⟩ := fingerprintBytes_ok h
  obtain ⟨hlength', hbytes'⟩ := fingerprintBytes_ok h'
  lift rows to List ShortRow using hlength
  lift rows' to List ShortRow using hlength'
  have heq : rows = rows' := by
    refine framed_injective ?_
    rw [List.flatMap_map] at hbytes hbytes'
    exact hbytes.symm.trans hbytes'
  rw [heq]

/-- Two texts with one hash. -/
def Collision (hash : List UInt8 → String) (x y : List UInt8) : Prop := x ≠ y ∧ hash x = hash y

/-- Two lists of rows have one stream exactly when they are one list; so, unless the two
streams are a collision of the hash, one fingerprint means one list of rows. -/
theorem fingerprint_stream {rows rows' : List (List SqlValue)} {bytes bytes' : List UInt8}
    (h : fingerprintBytes rows = .ok bytes) (h' : fingerprintBytes rows' = .ok bytes') :
    (bytes = bytes' ↔ rows = rows') ∧
      ∀ sha256 : List UInt8 → String, sha256 bytes = sha256 bytes' →
        rows = rows' ∨ Collision sha256 bytes bytes' := by
  have hiff : bytes = bytes' ↔ rows = rows' := by
    constructor
    · rintro rfl
      exact fingerprintBytes_injective h h'
    · rintro rfl
      rw [h] at h'
      exact Except.ok.inj h'
  refine ⟨hiff, fun sha256 hhash => ?_⟩
  by_cases hbytes : bytes = bytes'
  · exact .inl (hiff.mp hbytes)
  · exact .inr ⟨hbytes, hhash⟩

/-- A number and the text of its digits have different streams. -/
theorem fingerprint_stream_types :
    ([0, 0, 0, 0, 0, 0, 0, 3, 91, 49, 93] : List UInt8) = [0, 0, 0, 0, 0, 0, 0, 5, 91, 34, 49, 34, 93] ↔
      [[SqlValue.integer 1]] = [[SqlValue.text "1"]] := by
  have h : fingerprintBytes [[.integer 1]] = .ok [0, 0, 0, 0, 0, 0, 0, 3, 91, 49, 93] := by rfl
  have h' : fingerprintBytes [[.text "1"]] = .ok [0, 0, 0, 0, 0, 0, 0, 5, 91, 34, 49, 34, 93] := by rfl
  exact (fingerprint_stream h h').1

/-! ## The rows of a file -/

/-- A column that may be NULL. -/
def SqlValue.ofText : Option String → SqlValue
  | none => .null
  | some s => .text s

/-- A column that may be NULL. -/
def SqlValue.ofInteger : Option Int → SqlValue
  | none => .null
  | some n => .integer n

/-- The columns of a row but `call_seq`, in the order of the table. -/
def FileRow.values (hasEligible : Bool) (r : FileRow) : List SqlValue :=
  [.ofText r.eventId, .text r.topic, .ofText r.msgKey, .blob r.payload, .text r.state,
    .integer r.attempts, .integer r.nextAttemptAtMs, .ofText r.lastError, .integer r.createdAtMs,
    .integer r.updatedAtMs, .ofText r.callUuid] ++
  if hasEligible then [.ofInteger r.eligibleAtMs] else []

/-- The rows `fingerprint` reads. -/
def FileTable.fingerprintRows (t : FileTable) : List FileRow :=
  (t.rows.map FileRow.legacy).insertionSort fun r q => idLe r.eventId q.eventId = true

theorem fingerprint_run {digest : List FileRow → String} {f : DbFile} {t : FileTable}
    (ht : f.outbox = some t) :
    (fingerprint digest none).run f = .ok (digest t.fingerprintRows) f := by
  rw [fingerprint, run_statement_ok]
  refine ⟨rfl, ?_⟩
  simp only [EStateM.run_bind, EStateM.run_get, ht]
  rfl

theorem ofText_injective : Function.Injective SqlValue.ofText := by
  intro a b h
  cases a <;> cases b <;> simp_all [SqlValue.ofText]

theorem ofInteger_injective : Function.Injective SqlValue.ofInteger := by
  intro a b h
  cases a <;> cases b <;> simp_all [SqlValue.ofInteger]

/-- A legacy row of a table is determined by its values. -/
theorem values_injective {hasEligible : Bool} {r q : FileRow} (hr : r.callSeq = none)
    (hq : q.callSeq = none) (hre : hasEligible = false → r.eligibleAtMs = none)
    (hqe : hasEligible = false → q.eligibleAtMs = none)
    (h : r.values hasEligible = q.values hasEligible) : r = q := by
  obtain ⟨hfixed, hlast⟩ := List.append_inj h rfl
  have heligible : r.eligibleAtMs = q.eligibleAtMs := by
    cases hasEligible with
    | false => rw [hre rfl, hqe rfl]
    | true => exact ofInteger_injective (List.singleton_inj.mp hlast)
  simp only [List.cons.injEq, ofText_injective.eq_iff, SqlValue.text.injEq, SqlValue.blob.injEq,
    SqlValue.integer.injEq, and_true] at hfixed
  obtain ⟨hid, htopic, hkey, hpayload, hstate, hattempts, hnext, herror, hcreated, hupdated,
    hcall⟩ := hfixed
  cases r
  cases q
  simp only at *
  subst_vars
  rfl

theorem map_values_injective {hasEligible : Bool} {rs qs : List FileRow}
    (hrs : ∀ r ∈ rs, r.callSeq = none ∧ (hasEligible = false → r.eligibleAtMs = none))
    (hqs : ∀ q ∈ qs, q.callSeq = none ∧ (hasEligible = false → q.eligibleAtMs = none))
    (h : rs.map (FileRow.values hasEligible) = qs.map (FileRow.values hasEligible)) : rs = qs := by
  induction rs generalizing qs with
  | nil =>
    cases qs with
    | nil => rfl
    | cons q qs => cases h
  | cons r rs ih =>
    cases qs with
    | nil => cases h
    | cons q qs =>
      rw [List.forall_mem_cons] at hrs hqs
      obtain ⟨hhead, htail⟩ := List.cons_eq_cons.mp h
      rw [values_injective hrs.1.1 hqs.1.1 hrs.1.2 hqs.1.2 hhead, ih hrs.2 hqs.2 htail]

theorem FileTable.mem_fingerprintRows {t : FileTable} {r : FileRow} (hr : r ∈ t.fingerprintRows) :
    r.callSeq = none ∧ (t.hasEligible = false → r.eligibleAtMs = none) := by
  obtain ⟨q, hq, rfl⟩ := List.mem_map.mp ((List.mem_insertionSort _).mp hr)
  exact ⟨rfl, fun hno => t.eligible_null hno q hq⟩

theorem FileTable.fingerprintRows_perm (t : FileTable) :
    t.fingerprintRows.Perm (t.rows.map FileRow.legacy) :=
  List.perm_insertionSort (fun r q : FileRow => idLe r.eventId q.eventId = true) _

/-- One fingerprint of two tables with the same columns: no legacy field of any row was
changed, and no row was added or dropped, unless the two streams are a collision. -/
theorem legacy_unchanged {t t' : FileTable} (hcolumns : t.hasEligible = t'.hasEligible)
    {bytes bytes' : List UInt8} {sha256 : List UInt8 → String}
    (h : fingerprintBytes (t.fingerprintRows.map (FileRow.values t.hasEligible)) = .ok bytes)
    (h' : fingerprintBytes (t'.fingerprintRows.map (FileRow.values t'.hasEligible)) = .ok bytes')
    (hhash : sha256 bytes = sha256 bytes') :
    (t.rows.map FileRow.legacy).Perm (t'.rows.map FileRow.legacy) ∨
      Collision sha256 bytes bytes' := by
  by_cases hbytes : bytes = bytes'
  · subst hbytes
    have hvalues := fingerprintBytes_injective h h'
    rw [hcolumns] at hvalues
    have hrows : t.fingerprintRows = t'.fingerprintRows :=
      map_values_injective (fun r hr => hcolumns ▸ t.mem_fingerprintRows hr)
        (fun r hr => t'.mem_fingerprintRows hr) hvalues
    have hperm := t'.fingerprintRows_perm
    rw [← hrows] at hperm
    exact .inl (t.fingerprintRows_perm.symm.trans hperm)
  · exact .inr ⟨hbytes, hhash⟩

end EventKafka
