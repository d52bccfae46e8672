import Elucid.SpoolModel

/-!
# The record parser

`JsonParser` of the ingestion crate walks the bytes of one record and builds a
`serde_json` value. It finds the ends of strings and numbers itself and hands their text
to `serde_json`, so what a string literal or a number may be is a parameter
(`SerdeJson`). The parser state is the rest of the record.

The text of a Rust `String` is the list of its UTF-8 bytes (`Text`), which `str` compares
in that order.
-/

namespace Elucid

open BigEndian

/-- A Rust `String`, as its bytes. -/
abbrev Text := Bytes

/-- The bytes of a literal. -/
def Text.ofString (s : String) : Text := s.toList.map fun c => UInt8.ofNat c.toNat

/-! ## UTF-8 -/

/-- `bytes` starts with `count` continuation bytes, the first of them between `low` and
`high`. The rest behind them. -/
def continuation (low high : UInt8) : Nat → Bytes → Option Bytes
  | 0, bytes => some bytes
  | count + 1, byte :: rest =>
    if low ≤ byte ∧ byte ≤ high then continuation 0x80 0xBF count rest else none
  | _ + 1, [] => none

/-- The rest behind the first character. -/
def firstCharacter : Bytes → Option Bytes
  | [] => none
  | byte :: rest =>
    if byte ≤ 0x7F then some rest
    else if 0xC2 ≤ byte ∧ byte ≤ 0xDF then continuation 0x80 0xBF 1 rest
    else if byte = 0xE0 then continuation 0xA0 0xBF 2 rest
    else if byte = 0xED then continuation 0x80 0x9F 2 rest
    else if 0xE1 ≤ byte ∧ byte ≤ 0xEF then continuation 0x80 0xBF 2 rest
    else if byte = 0xF0 then continuation 0x90 0xBF 3 rest
    else if 0xF1 ≤ byte ∧ byte ≤ 0xF3 then continuation 0x80 0xBF 3 rest
    else if byte = 0xF4 then continuation 0x80 0x8F 3 rest
    else none

/-- `bytes` is at most `count` characters. -/
def isUtf8Within : Nat → Bytes → Bool
  | _, [] => true
  | 0, _ :: _ => false
  | count + 1, bytes =>
    match firstCharacter bytes with
    | some rest => isUtf8Within count rest
    | none => false

/-- `std::str::from_utf8` succeeds. -/
def isUtf8 (bytes : Bytes) : Bool := isUtf8Within bytes.length bytes

/-! ## Values -/

/-- `serde_json::Value`. A number keeps its text, and an object is in the order of its
keys. -/
inductive Value
  | null
  | bool (value : Bool)
  | number (text : Text)
  | string (value : Text)
  | array (values : List Value)
  | object (entries : List (Text × Value))

/-- `serde_json`, as far as the records need it. -/
class SerdeJson where
  /-- The string of a literal, from its opening quote to its closing one. -/
  decodeString : Bytes → Option Text
  /-- `Number::from_str` : the text that the number keeps. -/
  decodeNumber : Bytes → Option Text
  /-- The literal that is written for a string. -/
  encodeString : Text → Bytes

/-- `Map::get`. -/
def lookupEntry (key : Text) : List (Text × Value) → Option Value
  | [] => none
  | (k, value) :: rest => if k = key then some value else lookupEntry key rest

/-- `str` comparison. -/
def textLt : Text → Text → Bool
  | _, [] => false
  | [], _ :: _ => true
  | a :: as, b :: bs => a < b || a == b && textLt as bs

theorem textLt_iff_lt (a b : Text) : textLt a b = true ↔ a < b := by
  fun_induction textLt a b with
  | case1 a => simp
  | case2 => simp
  | case3 a as b bs ih => simp [ih, List.cons_lt_cons_iff]

theorem textLt_eq_false_iff (a b : Text) : textLt a b = false ↔ b ≤ a := by
  rw [← List.not_lt, ← textLt_iff_lt, Bool.not_eq_true]

/-- `Map::insert` of a new key. -/
def insertEntry (key : Text) (value : Value) : List (Text × Value) → List (Text × Value)
  | [] => [(key, value)]
  | (k, v) :: rest =>
    if textLt key k then (key, value) :: (k, v) :: rest else (k, v) :: insertEntry key value rest

/-! ## Parser -/

namespace JsonParser

def maximumJsonContainerDepth : Nat := 128

def isJsonWhitespace (byte : UInt8) : Bool :=
  byte == 0x20 || byte == 0x09 || byte == 0x0D || byte == 0x0A

def isValueDelimiter (byte : UInt8) : Bool :=
  isJsonWhitespace byte || byte == 0x2C || byte == 0x5D || byte == 0x7D

def skipWhitespace (bytes : Bytes) : Bytes := bytes.dropWhile isJsonWhitespace

/-- `consume_if` : the rest behind `expected`. -/
def consumeIf (expected : UInt8) : Bytes → Option Bytes
  | [] => none
  | byte :: rest => if byte = expected then some rest else none

def consumeLiteral : Bytes → Bytes → Option Bytes
  | [], bytes => some bytes
  | expected :: literal, bytes => (consumeIf expected bytes).bind (consumeLiteral literal)

def nextDepth (depth : Nat) : Option Nat :=
  if depth + 1 ≤ maximumJsonContainerDepth then some (depth + 1) else none

/-- The loop of `parse_string` behind the opening quote : the text up to the closing quote,
and the rest. -/
def scanString : Bool → Bytes → Option (Bytes × Bytes)
  | _, [] => none
  | true, byte :: rest => (scanString false rest).map fun (text, rest) => (byte :: text, rest)
  | false, byte :: rest =>
    if byte = 0x22 then some ([byte], rest)
    else (scanString (byte == 0x5C) rest).map fun (text, rest) => (byte :: text, rest)

section

variable [SerdeJson]

def parseString (bytes : Bytes) : Option (Text × Bytes) := do
  let behindQuote ← consumeIf 0x22 bytes
  let (text, rest) ← scanString false behindQuote
  let value ← SerdeJson.decodeString (0x22 :: text)
  return (value, rest)

def parseNumber (bytes : Bytes) : Option (Text × Bytes) :=
  let text := bytes.takeWhile fun byte => !isValueDelimiter byte
  if isUtf8 text then
    (SerdeJson.decodeNumber text).map fun number => (number, bytes.drop text.length)
  else none

mutual

/-- `parse_value`. Every call with one less `fuel` is behind at least one more byte, or is
the first one of its loop. -/
def parseValue : Nat → Nat → Bytes → Option (Value × Bytes)
  | 0, _, _ => none
  | fuel + 1, depth, bytes =>
    let bytes := skipWhitespace bytes
    match bytes with
    | [] => none
    | byte :: rest =>
      if byte = 0x6E then (consumeLiteral (Text.ofString "null") bytes).map (.null, ·)
      else if byte = 0x74 then (consumeLiteral (Text.ofString "true") bytes).map (.bool true, ·)
      else if byte = 0x66 then (consumeLiteral (Text.ofString "false") bytes).map (.bool false, ·)
      else if byte = 0x22 then (parseString bytes).map fun (value, rest) => (.string value, rest)
      else if byte = 0x5B then do
        let childDepth ← nextDepth depth
        let rest := skipWhitespace rest
        match consumeIf 0x5D rest with
        | some rest => some (.array [], rest)
        | none => parseElements fuel childDepth [] rest
      else if byte = 0x7B then do
        let childDepth ← nextDepth depth
        let rest := skipWhitespace rest
        match consumeIf 0x7D rest with
        | some rest => some (.object [], rest)
        | none => parseEntries fuel childDepth [] rest
      else if byte = 0x2D ∨ 0x30 ≤ byte ∧ byte ≤ 0x39 then
        (parseNumber bytes).map fun (number, rest) => (.number number, rest)
      else none

/-- The loop of `parse_array`. -/
def parseElements : Nat → Nat → List Value → Bytes → Option (Value × Bytes)
  | 0, _, _, _ => none
  | fuel + 1, childDepth, values, bytes => do
    let (value, rest) ← parseValue fuel childDepth bytes
    let values := values ++ [value]
    let rest := skipWhitespace rest
    match consumeIf 0x5D rest with
    | some rest => some (.array values, rest)
    | none =>
      let rest ← consumeIf 0x2C rest
      parseElements fuel childDepth values rest

/-- The loop of `parse_map`. -/
def parseEntries : Nat → Nat → List (Text × Value) → Bytes → Option (Value × Bytes)
  | 0, _, _, _ => none
  | fuel + 1, childDepth, entries, bytes => do
    let (key, rest) ← parseString (skipWhitespace bytes)
    if (lookupEntry key entries).isSome then none
    else
      let rest ← consumeIf 0x3A (skipWhitespace rest)
      let (value, rest) ← parseValue fuel childDepth rest
      let entries := insertEntry key value entries
      let rest := skipWhitespace rest
      match consumeIf 0x7D rest with
      | some rest => some (.object entries, rest)
      | none =>
        let rest ← consumeIf 0x2C rest
        parseEntries fuel childDepth entries rest

end

/-- `JsonParser::parse_object`. -/
def parseObject (bytes : Bytes) : Option (List (Text × Value)) := do
  let (value, rest) ← parseValue (2 * bytes.length + 1) 0 (skipWhitespace bytes)
  if skipWhitespace rest = [] then
    match value with
    | .object entries => some entries
    | _ => none
  else none

end

end JsonParser

/-! ## Concrete values -/

/-- `serde_json` on strings without escapes. -/
@[reducible] def SerdeJson.plain : SerdeJson where
  decodeString bytes := some (bytes.drop 1).dropLast
  decodeNumber := some
  encodeString text := [0x22] ++ text ++ [0x22]

end Elucid
