import Mathlib.Data.Finset.Sort
import Mathlib.Data.String.Basic
import EventKafka.Lib.Checks
import EventKafka.Verifier.Rows

/-! # The evidence the acceptance verifier reads

An evidence set is the parsed contents of the files of a run directory: the lines of a
text file, the records the CSV reader yields, the value of `recovery.json`. This module
has the readers of `verify_event_ids.py` (`ids`, `unique`, `rows`, `number`) and the parts
of Python they stand on: `str.strip`, `int` of a string, `csv.DictReader`, and the
subscription and equality of JSON values.

An error is the text of the exception, and `main` turns each into exit code 3.
-/

namespace EventKafka

open Checks

/-! ## Strings -/

/-- Drop the characters `p` accepts from both ends. -/
def stripBy (p : Char → Bool) (s : List Char) : List Char :=
  ((s.dropWhile p).reverse.dropWhile p).reverse

/-- `str.strip`. -/
def strip (s : String) : String := String.ofList (stripBy isSpace s.toList)

/-- The zeros of the Unicode decimal digits; each is followed by its nine others. -/
def decimalZeros : List Nat :=
  [0x30, 0x660, 0x6f0, 0x7c0, 0x966, 0x9e6, 0xa66, 0xae6, 0xb66, 0xbe6, 0xc66, 0xce6, 0xd66, 0xde6,
    0xe50, 0xed0, 0xf20, 0x1040, 0x1090, 0x17e0, 0x1810, 0x1946, 0x19d0, 0x1a80, 0x1a90, 0x1b50,
    0x1bb0, 0x1c40, 0x1c50, 0xa620, 0xa8d0, 0xa900, 0xa9d0, 0xa9f0, 0xaa50, 0xabf0, 0xff10, 0x104a0,
    0x10d30, 0x11066, 0x110f0, 0x11136, 0x111d0, 0x112f0, 0x11450, 0x114d0, 0x11650, 0x116c0,
    0x11730, 0x118e0, 0x11950, 0x11c50, 0x11d50, 0x11da0, 0x16a60, 0x16ac0, 0x16b50, 0x1d7ce,
    0x1d7d8, 0x1d7e2, 0x1d7ec, 0x1d7f6, 0x1e140, 0x1e2f0, 0x1e950, 0x1fbf0]

/-- The value of a decimal digit. -/
def decimal? (c : Char) : Option Nat :=
  (decimalZeros.find? fun d => d ≤ c.toNat && c.toNat < d + 10).map (c.toNat - ·)

/-- What `int` makes of a string before it reads it: outside ASCII a space becomes
`' '`, a decimal digit its ASCII digit and anything else `'?'`. -/
def toAscii (s : List Char) : List Char :=
  if s.all fun c => c.toNat < 128 then s
  else s.map fun c =>
    if c.toNat < 127 then c
    else if isSpace c then ' '
    else match decimal? c with
      | some d => Char.ofNat (48 + d)
      | none => '?'

/-- `Py_ISSPACE`: unlike `isSpace`, without the separators 28 to 31. -/
def isAsciiSpace (c : Char) : Bool := (9 ≤ c.toNat && c.toNat ≤ 13) || c = ' '

/-- Decimal digits, with single underscores between them. -/
def decimalDigits : List Char → Option (List Nat)
  | [] => none
  | [c] => if c.isDigit then some [c.toNat - 48] else none
  | c :: '_' :: rest =>
    if c.isDigit then (decimalDigits rest).map ((c.toNat - 48) :: ·) else none
  | c :: rest => if c.isDigit then (decimalDigits rest).map ((c.toNat - 48) :: ·) else none

/-- `sys.int_info.default_max_str_digits`. -/
def maxStrDigits : Nat := 4300

/-- `int` on a string; `none` is the `ValueError`. -/
def pyInt (s : List Char) : Option Int :=
  let body := stripBy isAsciiSpace (toAscii s)
  let digits := match body with
    | '-' :: rest => decimalDigits rest
    | '+' :: rest => decimalDigits rest
    | rest => decimalDigits rest
  match digits with
  | none => none
  | some ds =>
    if maxStrDigits < ds.length then none
    else
      let magnitude : Nat := ds.foldl (fun n d => 10 * n + d) 0
      some (if body.head? = some '-' then -(magnitude : Int) else magnitude)

/-! ## JSON -/

/-- A character of a JSON string: `\uD800` alone is a surrogate, which is no `Char`. -/
inductive CodePoint where
  | scalar (c : Char)
  | surrogate (n : Fin 2048)
deriving DecidableEq, Repr

/-- A `str` that was read from JSON. -/
abbrev JsonText := List CodePoint

/-- The `str` of an ordinary string. -/
def jsonText (s : String) : JsonText := s.toList.map .scalar

/-- The characters of a `str` without surrogates. -/
def JsonText.chars? (s : JsonText) : Option (List Char) :=
  s.mapM fun
    | .scalar c => some c
    | .surrogate _ => none

/-- `not s.strip()`. -/
def JsonText.blank (s : JsonText) : Bool :=
  s.all fun
    | .scalar c => isSpace c
    | .surrogate _ => false

/-- A `float`: a rational, or `Infinity`, `-Infinity` and `NaN`, which `json.loads` reads. -/
inductive JsonFloat where
  | finite (q : Rat)
  | infinity (negative : Bool)
  | nan
deriving DecidableEq, Repr

/-- A value `json.loads` returns. The keys of an object are distinct: of a repeated key
the last member counts. -/
inductive Json where
  | null
  | bool (b : Bool)
  | int (n : Int)
  | float (x : JsonFloat)
  | str (s : JsonText)
  | arr (items : List Json)
  | obj (members : List (JsonText × Json))

/-- A `bool` is an `int`, and an `int` compares with a `float` by its value. -/
def Json.numeric? : Json → Option JsonFloat
  | .bool b => some (.finite (if b then 1 else 0))
  | .int n => some (.finite n)
  | .float x => some x
  | _ => none

mutual

/-- `==` on values inside a container, where a value equals itself even as `NaN`;
`json.loads` returns one object for every `NaN`. -/
def Json.eq : Json → Json → Bool
  | .null, .null => true
  | .str s, .str t => s = t
  | .arr xs, .arr ys => itemsEq xs ys
  | .obj xs, .obj ys => xs.length == ys.length && membersIn xs ys
  | a, b =>
    match a.numeric?, b.numeric? with
    | some x, some y => x = y
    | _, _ => false

/-- Item by item. -/
def itemsEq : List Json → List Json → Bool
  | [], [] => true
  | x :: xs, y :: ys => x.eq y && itemsEq xs ys
  | _, _ => false

/-- Every member of the first object is one of the second. -/
def membersIn : List (JsonText × Json) → List (JsonText × Json) → Bool
  | [], _ => true
  | (key, x) :: xs, ys =>
    (match ys.lookup key with
      | some y => x.eq y
      | none => false) && membersIn xs ys

end

/-- `value.get(key)` on a `dict`; `None` for any other value. -/
def Json.member? (value : Json) (key : String) : Option Json :=
  match value with
  | .obj members => members.lookup (jsonText key)
  | _ => none

/-- The `TypeError` of `value[key]` where `value` is no `dict`. -/
def Json.notSubscriptable : Json → String
  | .arr _ => "list indices must be integers or slices, not str"
  | .str _ => "string indices must be integers, not 'str'"
  | .bool _ => "'bool' object is not subscriptable"
  | .int _ => "'int' object is not subscriptable"
  | .float _ => "'float' object is not subscriptable"
  | _ => "'NoneType' object is not subscriptable"

/-- `value[key]`. -/
def Json.item (value : Json) (key : String) : Except String Json :=
  match value with
  | .obj members =>
    match members.lookup (jsonText key) with
    | some member => .ok member
    | none => .error ("'" ++ key ++ "'")
  | _ => .error value.notSubscriptable

/-- `type(value) is int`. -/
def Json.int? : Json → Option Int
  | .int n => some n
  | _ => none

/-- `isinstance(value, str)`. -/
def Json.str? : Json → Option JsonText
  | .str s => some s
  | _ => none

/-! ## Files -/

/-- A file of the run directory: it is not there, reading it raises, or it was read. -/
inductive Artifact (α : Type) where
  | missing
  | damaged (error : String)
  | read (contents : α)

/-- `open` and read. -/
def Artifact.load {α : Type} (file : Artifact α) (name : String) : Except String α :=
  match file with
  | .missing => .error ("[Errno 2] No such file or directory: '" ++ name ++ "'")
  | .damaged error => .error error
  | .read contents => .ok contents

/-- The lines of a text file. -/
abbrev TextFile := Artifact (List String)

/-- The records of a CSV file; a blank line is an empty record. -/
abbrev CsvFile := Artifact (List (List String))

/-- A row of a `csv.DictReader`: its dictionary pairs the header with the record. -/
structure Record where
  header : List String
  fields : List String
deriving DecidableEq, Repr

/-- `row.get(column)`: a record that is too short leaves `None`. -/
def Record.get? (row : Record) (column : String) : Option String :=
  (row.header.zip row.fields).lookup column

/-- `row[column]` of a column that is there. -/
def Record.get (row : Record) (column : String) : String := (row.get? column).getD ""

/-- `None in row`: the record has more fields than the header. -/
def Record.overlong (row : Record) : Prop := row.header.length < row.fields.length

instance (row : Record) : Decidable row.overlong := Nat.decLt _ _

/-! ## The readers -/

/-- `ids`. -/
def ids (file : TextFile) (name : String) (required : Bool) : Except String (List String) :=
  match file with
  | .missing => if required then .error ("missing " ++ name) else .ok []
  | .damaged error => .error error
  | .read lines => .ok ((lines.map strip).filter fun s => s ≠ "")

/-- `unique`. -/
def unique (values : List String) (name : String) : Except String (Finset String) := do
  raiseIf (values.length ≠ values.toFinset.card) ("duplicate IDs in " ++ name)
  return values.toFinset

/-- `rows`. -/
def rows (file : CsvFile) (name : String) (columns : List String) (uniqueIds : Bool) :
    Except String (List Record) := do
  let records ← file.load name
  let fieldnames := records.headD []
  raiseIf (fieldnames.length ≠ fieldnames.toFinset.card) (name ++ ": duplicate CSV column")
  raiseIf (¬ columns ⊆ fieldnames)
    (name ++ ": required columns " ++ ",".intercalate columns)
  let result := (records.tail.filter fun record => record ≠ []).map (Record.mk fieldnames)
  raiseIf (∃ row ∈ result, row.overlong ∨ ∃ c ∈ columns, row.get? c = none)
    (name ++ ": malformed CSV row")
  raiseIf (∃ row ∈ result, blank (row.get "event_id")) (name ++ ": empty event_id")
  let _ ← if uniqueIds then unique (result.map (Record.get · "event_id")) name else pure ∅
  return result

/-- `number`, on a column of a row. -/
def Record.number (row : Record) (column : String) : Except String Int :=
  match pyInt (row.get column).toList with
  | none => .error ("invalid integer: " ++ column)
  | some n => EventKafka.number n column

/-- `number`, on a JSON value. -/
def Json.number (value : Json) (field : String) : Except String Int :=
  match value with
  | .int n => EventKafka.number n field
  | .str s =>
    match s.chars?.bind pyInt with
    | none => .error ("invalid integer: " ++ field)
    | some n => EventKafka.number n field
  | _ => .error ("invalid integer type: " ++ field)

end EventKafka
