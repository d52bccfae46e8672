import Elucid.JsonGrammar
import Elucid.Remainder
import Mathlib.Data.List.DropRight
import Mathlib.Data.List.TakeWhile

/-!
# The record parser against the grammar

`JsonParser` finds where strings and numbers end by itself, and asks `serde_json` what they are.
`SerdeJson.Faithful` is what is assumed of it, on the slices that the parser hands over : a
quoted slice is decoded as the grammar says, and a number is accepted by the grammar and keeps
its text.

Each function of the parser reads what the grammar derives and leaves what is behind it
(`parseValue_sound`, `parseValue_complete`). What stands behind a number has to be checked, since
the parser takes everything up to a delimiter. `parseObject_eq_some_iff` : the parser accepts
exactly the objects of the grammar, with at most 128 levels of containers, and the fuel of the
model never runs out.
-/

namespace Elucid

open BigEndian Rfc8259 List

/-! ## Whitespace and literals -/

namespace JsonParser

theorem isJsonWhitespace_iff {byte : UInt8} :
    isJsonWhitespace byte = true ↔ byte = 0x20 ∨ byte = 0x09 ∨ byte = 0x0A ∨ byte = 0x0D := by
  simp only [isJsonWhitespace, Bool.or_eq_true, beq_iff_eq]
  tauto

theorem skipWhitespace_append {before : Bytes} (h : IsWhitespace before) (rest : Bytes) :
    skipWhitespace (before ++ rest) = skipWhitespace rest :=
  dropWhile_append_of_pos fun byte hbyte => isJsonWhitespace_iff.mpr (h byte hbyte)

/-- The first byte, if there is one, is not whitespace. -/
def Unspaced (bytes : Bytes) : Prop := ∀ byte ∈ bytes.head?, isJsonWhitespace byte = false

theorem skipWhitespace_of_unspaced {bytes : Bytes} (h : Unspaced bytes) :
    skipWhitespace bytes = bytes := by
  cases bytes with
  | nil => rfl
  | cons byte bytes => exact dropWhile_cons_of_neg (by simp [h byte rfl])

theorem skipWhitespace_eq {before rest : Bytes} (h : IsWhitespace before) (hrest : Unspaced rest) :
    skipWhitespace (before ++ rest) = rest :=
  (skipWhitespace_append h rest).trans (skipWhitespace_of_unspaced hrest)

theorem skipWhitespace_skipWhitespace (bytes : Bytes) :
    skipWhitespace (skipWhitespace bytes) = skipWhitespace bytes :=
  dropWhile_idempotent ..

/-- Whitespace is skipped to its end. -/
theorem exists_skipWhitespace (bytes : Bytes) :
    ∃ before, IsWhitespace before ∧ bytes = before ++ skipWhitespace bytes := by
  refine ⟨bytes.takeWhile isJsonWhitespace, fun byte hbyte => ?_,
    (takeWhile_append_dropWhile).symm⟩
  exact isJsonWhitespace_iff.mp (mem_takeWhile_imp hbyte)

theorem consumeIf_eq_some {expected : UInt8} {bytes rest : Bytes} :
    consumeIf expected bytes = some rest ↔ bytes = expected :: rest := by
  cases bytes with
  | nil => simp [consumeIf]
  | cons byte bytes =>
    rw [consumeIf]
    split
    · rename_i heq
      simp [heq]
    · rename_i hne
      simp [hne]

theorem consumeLiteral_eq_some {literal bytes rest : Bytes} :
    consumeLiteral literal bytes = some rest ↔ bytes = literal ++ rest := by
  induction literal generalizing bytes with
  | nil => simp [consumeLiteral]
  | cons expected literal ih =>
    rw [consumeLiteral, Option.bind_eq_some_iff]
    constructor
    · rintro ⟨behind, hbehind, h⟩
      rw [consumeIf_eq_some.mp hbehind, ih.mp h]
      rfl
    · rintro rfl
      exact ⟨literal ++ rest, consumeIf_eq_some.mpr rfl, ih.mpr rfl⟩

/-! ## Strings -/

theorem scanString_cons (escaped : Bool) (byte : UInt8) (rest : Bytes) :
    scanString escaped (byte :: rest) =
      if escaped = false ∧ byte = 0x22 then some ([byte], rest)
      else (scanString (!escaped && byte == 0x5C) rest).map fun scanned =>
        (byte :: scanned.1, scanned.2) := by
  cases escaped with
  | true => rw [scanString, if_neg (by simp)]; rfl
  | false =>
    rw [scanString]
    split
    · rw [if_pos ⟨rfl, ‹_›⟩]
    · rw [if_neg (fun h => absurd h.2 ‹_›)]; rfl

/-- A scan stops at its quote, and does not look behind it. -/
theorem scanString_eq_some {escaped : Bool} {bytes text rest : Bytes}
    (h : scanString escaped bytes = some (text, rest)) :
    bytes = text ++ rest ∧ ∀ more, scanString escaped (text ++ more) = some (text, more) := by
  induction bytes generalizing escaped text with
  | nil => cases h
  | cons byte bytes ih =>
    rw [scanString_cons] at h
    split at h
    · rename_i hquote
      cases h
      exact ⟨rfl, fun more => (scanString_cons ..).trans (if_pos hquote)⟩
    · rename_i hquote
      obtain ⟨scanned, hscanned, heq⟩ := Option.map_eq_some_iff.mp h
      cases heq
      obtain ⟨hbytes, hmore⟩ := ih hscanned
      refine ⟨by rw [hbytes]; rfl, fun more => ?_⟩
      rw [cons_append, scanString_cons, if_neg hquote, hmore]
      rfl

/-- Bytes that are no quote and no escape are scanned over. -/
theorem scanString_plain {text : Bytes} (h : ∀ byte ∈ text, byte ≠ 0x22 ∧ byte ≠ 0x5C)
    (rest : Bytes) :
    scanString false (text ++ rest) =
      (scanString false rest).map fun scanned => (text ++ scanned.1, scanned.2) := by
  induction text with
  | nil => simp
  | cons byte text ih =>
    obtain ⟨hbyte, htext⟩ := forall_mem_cons.mp h
    have hescape : (byte == 0x5C) = false := beq_false_of_ne hbyte.2
    rw [cons_append, scanString_cons, if_neg (fun heq => hbyte.1 heq.2), hescape,
      Bool.and_false, ih htext, Option.map_map]
    rfl

/-- An escape and the byte behind it are scanned over. -/
theorem scanString_escape (byte : UInt8) (rest : Bytes) :
    scanString false (0x5C :: byte :: rest) =
      (scanString false rest).map fun scanned => (0x5C :: byte :: scanned.1, scanned.2) := by
  rw [scanString_cons, if_neg (by decide)]
  change (scanString true (byte :: rest)).map _ = _
  rw [scanString_cons, if_neg (by simp), Option.map_map]
  rfl

theorem hexDigitValue_ne {byte : UInt8} {value : Nat} (h : hexDigitValue byte = some value) :
    byte ≠ 0x22 ∧ byte ≠ 0x5C := by
  constructor
  · rintro rfl
    cases h
  · rintro rfl
    cases h

theorem codeUnit_ne {digits : Bytes} {unit : Nat} (h : codeUnit digits = some unit) :
    ∀ byte ∈ digits, byte ≠ 0x22 ∧ byte ≠ 0x5C := fun byte hbyte => by
  obtain ⟨_, hvalue⟩ := (codeUnit_eq_some h).2 byte hbyte
  exact hexDigitValue_ne hvalue

/-- The characters of the grammar are scanned over. -/
theorem scanString_char {text : Bytes} {c : Char} (h : IsChar text c) (rest : Bytes) :
    scanString false (text ++ rest) =
      (scanString false rest).map fun scanned => (text ++ scanned.1, scanned.2) := by
  cases h with
  | unescaped hcontrol hquote hescape =>
    refine scanString_plain (fun byte hbyte => ?_) rest
    have hnat := mem_encodeChar hbyte
    constructor
    · rintro rfl
      exact hnat.elim (fun heq => hquote heq.symm) (by decide)
    · rintro rfl
      exact hnat.elim (fun heq => hescape heq.symm) (by decide)
  | escape _ => exact scanString_escape _ rest
  | unicode hunit =>
    change scanString false (0x5C :: 0x75 :: (_ ++ rest)) = _
    rw [scanString_escape, scanString_plain (codeUnit_ne hunit), Option.map_map]
    rfl
  | @pair high low _ _ _ _ _ hhigh hlow _ =>
    have htext : 0x5C :: 0x75 :: (high ++ 0x5C :: 0x75 :: low) ++ rest =
        0x5C :: 0x75 :: (high ++ 0x5C :: 0x75 :: (low ++ rest)) := by simp
    rw [htext, scanString_escape, scanString_plain (codeUnit_ne hhigh), scanString_escape,
      scanString_plain (codeUnit_ne hlow), Option.map_map, Option.map_map, Option.map_map]
    simp [Function.comp_def]

/-- A string is scanned to its closing quote. -/
theorem scanString_chars {body : Bytes} {chars : List Char} (h : IsChars body chars)
    (rest : Bytes) :
    scanString false (body ++ 0x22 :: rest) = some (body ++ [0x22], rest) := by
  induction h with
  | nil => rfl
  | cons hchar _ ih =>
    rw [append_assoc, scanString_char hchar, ih]
    simp

end JsonParser

/-! ## What is assumed of the crate -/

/-- `serde_json` follows the grammar, on the slices that the parser finds. -/
structure SerdeJson.Faithful [SerdeJson] : Prop where
  /-- A slice from a quote to the first quote that is not escaped. -/
  decodeString : ∀ body, JsonParser.scanString false body = some (body, []) → ∀ text,
    SerdeJson.decodeString (0x22 :: body) = some text ↔ IsString (0x22 :: body) text
  /-- `Number::from_str` accepts `number`, and keeps the text. -/
  decodeNumber : ∀ text kept, SerdeJson.decodeNumber text = some kept ↔
    kept = text ∧ ∃ n : JsonNumber, n.text = text

namespace JsonParser

section Parser

variable {nesting : Nat} {text : Bytes} {value : Value} {byte : UInt8} {bytes rest : Bytes}
  {entries : List (Text × Value)}

/-! ## Texts of the grammar -/

/-- What stands behind a number : a delimiter, or nothing. -/
def Delimited (rest : Bytes) : Prop := ∀ byte ∈ rest.head?, isValueDelimiter byte = true

theorem isDigit_plain (h : isDigit byte = true) :
    byte ≤ 0x7F ∧ isValueDelimiter byte = false := by
  refine ⟨UInt8.le_trans (isDigit_iff.mp h).2 (by decide), ?_⟩
  rw [Bool.eq_false_iff]
  intro hdelimiter
  simp only [isValueDelimiter, Bool.or_eq_true, isJsonWhitespace_iff, beq_iff_eq] at hdelimiter
  rcases hdelimiter with (((rfl | rfl | rfl | rfl) | rfl) | rfl) | rfl <;> exact absurd h (by decide)

/-- The bytes of a number are ASCII, and no delimiters. -/
theorem mem_numberText {n : JsonNumber} (h : byte ∈ n.text) :
    byte ≤ 0x7F ∧ isValueDelimiter byte = false := by
  have hdigits {digits : Text} (hall : digits.all isDigit = true) (hmem : byte ∈ digits) :=
    isDigit_plain (all_eq_true.mp hall byte hmem)
  have hone {other : UInt8} (hplain : other ≤ 0x7F ∧ isValueDelimiter other = false)
      (heq : byte = other) : byte ≤ 0x7F ∧ isValueDelimiter byte = false := heq ▸ hplain
  rcases mem_append.mp h with h | h
  · split at h
    · exact hone (by decide) (mem_singleton.mp h)
    · cases h
  rcases mem_append.mp h with h | h
  · exact hdigits n.integer_all h
  rcases mem_append.mp h with h | h
  · unfold JsonNumber.fractionText at h
    split at h
    · cases h
    rcases mem_cons.mp h with h | h
    · exact hone (by decide) h
    · exact hdigits n.fraction_all h
  · cases hexponent : n.exponent with
    | none =>
      rw [hexponent] at h
      cases h
    | some exponent =>
      rw [hexponent] at h
      rcases mem_cons.mp h with h | h
      · split at h
        · exact hone (by decide) h
        · exact hone (by decide) h
      rcases mem_append.mp h with h | h
      · unfold NumberExponent.signText at h
        split at h
        · cases h
        · exact hone (by decide) (mem_singleton.mp h)
        · exact hone (by decide) (mem_singleton.mp h)
      · exact hdigits exponent.digits_all h

/-- A delimiter stands behind a value that is a number. -/
def Behind (value : Value) (rest : Bytes) : Prop := ∀ text, value = .number text → Delimited rest

theorem lookupEntry_insertEntry {name key : Text} :
    lookupEntry name (insertEntry key value entries) = none ↔
      key ≠ name ∧ lookupEntry name entries = none := by
  rw [lookupEntry_eq_none_iff, lookupEntry_eq_none_iff]
  constructor
  · intro h
    exact ⟨h (key, value) (mem_insertEntry.mpr (.inl rfl)),
      fun entry hentry => h entry (mem_insertEntry.mpr (.inr hentry))⟩
  · rintro ⟨hkey, hentries⟩ entry hentry
    rcases mem_insertEntry.mp hentry with rfl | hentry
    · exact hkey
    · exact hentries entry hentry

/-- A container takes one of the levels that are left. -/
theorem exists_of_nextDepth {depth childDepth : Nat}
    (hdepth : depth + nesting = maximumJsonContainerDepth) (h : nextDepth depth = some childDepth) :
    ∃ child, nesting = child + 1 ∧ childDepth + child = maximumJsonContainerDepth := by
  unfold nextDepth at h
  split at h
  · cases h
    exact ⟨nesting - 1, by omega, by omega⟩
  · cases h

theorem nextDepth_of_lt {depth child : Nat} (h : depth + (child + 1) = maximumJsonContainerDepth) :
    nextDepth depth = some (depth + 1) := if_pos (by omega)

/-- The entries behind some members. -/
def insertMembers (entries members : List (Text × Value)) : List (Text × Value) :=
  members.foldl (fun entries member => insertEntry member.1 member.2 entries) entries

/-- A number starts with a sign or a digit. -/
theorem exists_cons_of_number (n : JsonNumber) :
    ∃ byte tail, n.text = byte :: tail ∧ (byte = 0x2D ∨ 0x30 ≤ byte ∧ byte ≤ 0x39) := by
  obtain ⟨digit, rest, hinteger, hdigit⟩ := n.exists_integer_eq
  rw [JsonNumber.text, hinteger]
  cases n.negative with
  | true => exact ⟨0x2D, _, rfl, .inl rfl⟩
  | false => exact ⟨digit, _, rfl, .inr (isDigit_iff.mp hdigit)⟩

/-- A value starts with no delimiter. -/
theorem exists_cons_of_isValue (h : IsValue nesting text value) :
    ∃ byte tail, text = byte :: tail ∧ isValueDelimiter byte = false := by
  cases h with
  | null | true | false => exact ⟨_, _, rfl, by decide⟩
  | number n =>
    obtain ⟨byte, tail, htext, -⟩ := exists_cons_of_number n
    exact ⟨byte, tail, htext, (mem_numberText (htext ▸ mem_cons_self)).2⟩
  | string hstring =>
    obtain ⟨body, chars, rfl, -⟩ := hstring
    exact ⟨_, _, rfl, by decide⟩
  | emptyArray _ => exact ⟨_, _, rfl, by decide⟩
  | array _ => exact ⟨_, _, rfl, by decide⟩
  | emptyObject _ => exact ⟨_, _, rfl, by decide⟩
  | object _ _ => exact ⟨_, _, rfl, by decide⟩

theorem unspaced_cons (h : isJsonWhitespace byte = false) (rest : Bytes) :
    Unspaced (byte :: rest) := by
  intro other hother
  obtain rfl := Option.some.inj hother
  exact h

theorem unspaced_of_isValue (h : IsValue nesting text value) (rest : Bytes) :
    Unspaced (text ++ rest) := by
  obtain ⟨byte, tail, rfl, hbyte⟩ := exists_cons_of_isValue h
  simp only [isValueDelimiter, Bool.or_eq_false_iff] at hbyte
  exact unspaced_cons hbyte.1.1.1 _

/-- Whitespace up to a delimiter delimits. -/
theorem delimited_append {space : Bytes} (hspace : IsWhitespace space)
    (hbyte : isValueDelimiter byte = true) (rest : Bytes) : Delimited (space ++ byte :: rest) := by
  intro first hfirst
  cases space with
  | nil =>
    obtain rfl := Option.some.inj hfirst
    exact hbyte
  | cons other space =>
    obtain rfl := Option.some.inj hfirst
    simp [isValueDelimiter, isJsonWhitespace_iff.mpr (hspace other mem_cons_self)]

theorem consumeIf_eq_none {expected : UInt8} (h : byte ≠ expected) (rest : Bytes) :
    consumeIf expected (byte :: rest) = none := if_neg h

/-- An array is not closed before its first element. -/
theorem consumeIf_of_isElements {values : List Value} (h : IsElements nesting text values)
    (rest : Bytes) : consumeIf 0x5D (skipWhitespace (text ++ rest)) = none := by
  have helement {text rest : Bytes} {value : Value} (h : IsElement nesting text value) :
      consumeIf 0x5D (skipWhitespace (text ++ rest)) = none := by
    obtain @⟨_, before, text, after, _, hbefore, hvalue, hafter⟩ := h
    rw [append_assoc, append_assoc,
      skipWhitespace_eq hbefore (unspaced_of_isValue hvalue _)]
    obtain ⟨byte, tail, rfl, hbyte⟩ := exists_cons_of_isValue hvalue
    exact consumeIf_eq_none (fun heq => by rw [heq] at hbyte; cases hbyte) _
  cases h with
  | last h => exact helement h
  | cons h _ =>
    rw [append_assoc]
    exact helement h

/-- An object is not closed before its first member. -/
theorem consumeIf_of_isMembers {members : List (Text × Value)} (h : IsMembers nesting text members)
    (rest : Bytes) : consumeIf 0x7D (skipWhitespace (text ++ rest)) = none := by
  have hmember {text rest : Bytes} {member : Text × Value} (h : IsMember nesting text member) :
      consumeIf 0x7D (skipWhitespace (text ++ rest)) = none := by
    obtain ⟨hbefore, ⟨body, chars, rfl, -⟩, -, -⟩ := h
    simp only [append_assoc, cons_append]
    rw [skipWhitespace_eq hbefore (unspaced_cons (by decide) _)]
    exact consumeIf_eq_none (by decide) _
  cases h with
  | last h => exact hmember h
  | cons h _ =>
    rw [append_assoc]
    exact hmember h

mutual

/-- The texts of the grammar are UTF-8. -/
theorem isUtf8_of_isValue {nesting : Nat} {text : Bytes} {value : Value} :
    IsValue nesting text value → isUtf8 text = true
  | .null => by decide
  | .true => by decide
  | .false => by decide
  | .number n => isUtf8_of_ascii fun byte hbyte => (mem_numberText hbyte).1
  | .string hstring => isUtf8_of_isString hstring
  | .emptyArray hspace =>
    isUtf8_cons (by decide) (isUtf8_append (isUtf8_of_isWhitespace hspace) (by decide))
  | .array helements =>
    isUtf8_cons (by decide) (isUtf8_append (isUtf8_of_isElements helements) (by decide))
  | .emptyObject hspace =>
    isUtf8_cons (by decide) (isUtf8_append (isUtf8_of_isWhitespace hspace) (by decide))
  | .object hmembers _ =>
    isUtf8_cons (by decide) (isUtf8_append (isUtf8_of_isMembers hmembers) (by decide))

theorem isUtf8_of_isElement {nesting : Nat} {text : Bytes} {value : Value} :
    IsElement nesting text value → isUtf8 text = true
  | .mk hbefore hvalue hafter =>
    isUtf8_append (isUtf8_of_isWhitespace hbefore)
      (isUtf8_append (isUtf8_of_isValue hvalue) (isUtf8_of_isWhitespace hafter))

theorem isUtf8_of_isElements {nesting : Nat} {text : Bytes} {values : List Value} :
    IsElements nesting text values → isUtf8 text = true
  | .last helement => isUtf8_of_isElement helement
  | .cons helement helements =>
    isUtf8_append (isUtf8_of_isElement helement)
      (isUtf8_cons (by decide) (isUtf8_of_isElements helements))

theorem isUtf8_of_isMember {nesting : Nat} {text : Bytes} {member : Text × Value} :
    IsMember nesting text member → isUtf8 text = true
  | .mk hbefore hname hbetween helement =>
    isUtf8_append (isUtf8_of_isWhitespace hbefore) (isUtf8_append (isUtf8_of_isString hname)
      (isUtf8_append (isUtf8_of_isWhitespace hbetween)
        (isUtf8_cons (by decide) (isUtf8_of_isElement helement))))

theorem isUtf8_of_isMembers {nesting : Nat} {text : Bytes} {members : List (Text × Value)} :
    IsMembers nesting text members → isUtf8 text = true
  | .last hmember => isUtf8_of_isMember hmember
  | .cons hmember hmembers =>
    isUtf8_append (isUtf8_of_isMember hmember)
      (isUtf8_cons (by decide) (isUtf8_of_isMembers hmembers))

end

/-! ## Strings and numbers -/

variable [SerdeJson]

/-- A string of the grammar is read, and nothing else. -/
theorem parseString_eq_some (hserde : SerdeJson.Faithful) {text : Text} :
    parseString bytes = some (text, rest) ↔
      ∃ literal, bytes = literal ++ rest ∧ IsString literal text := by
  constructor
  · intro h
    obtain ⟨behind, hbehind, h⟩ := Option.bind_eq_some_iff.mp h
    obtain ⟨⟨body, rest'⟩, hscan, h⟩ := Option.bind_eq_some_iff.mp h
    obtain ⟨value, hvalue, h⟩ := Option.bind_eq_some_iff.mp h
    cases h
    obtain ⟨hbody, hmore⟩ := scanString_eq_some hscan
    have hself := hmore []
    rw [append_nil] at hself
    refine ⟨0x22 :: body, ?_, (hserde.decodeString body hself text).mp hvalue⟩
    rw [consumeIf_eq_some.mp hbehind, hbody]
    rfl
  · rintro ⟨literal, rfl, hliteral⟩
    obtain ⟨body, chars, rfl, hchars, -⟩ := id hliteral
    have hscan := scanString_chars hchars rest
    have hself := scanString_chars hchars []
    unfold parseString
    refine Option.bind_eq_some_iff.mpr ⟨body ++ 0x22 :: rest, ?_, ?_⟩
    · rw [consumeIf_eq_some]
      simp
    refine Option.bind_eq_some_iff.mpr ⟨(body ++ [0x22], rest), hscan, ?_⟩
    exact Option.bind_eq_some_iff.mpr
      ⟨text, (hserde.decodeString _ hself text).mpr hliteral, rfl⟩

/-- A number of the grammar is read if a delimiter stands behind it. -/
theorem parseNumber_eq_some (hserde : SerdeJson.Faithful) {text : Text} :
    parseNumber bytes = some (text, rest) ↔
      ∃ n : JsonNumber, bytes = n.text ++ rest ∧ text = n.text ∧ Delimited rest := by
  have hdrop : bytes.drop (bytes.takeWhile fun byte => !isValueDelimiter byte).length =
      bytes.dropWhile fun byte => !isValueDelimiter byte := by
    conv_lhs => enter [2]; rw [← @takeWhile_append_dropWhile _ (!isValueDelimiter ·) bytes]
    exact drop_left
  constructor
  · intro h
    unfold parseNumber at h
    dsimp only at h
    split at h
    · obtain ⟨kept, hkept, h⟩ := Option.map_eq_some_iff.mp h
      cases h
      obtain ⟨rfl, n, hn⟩ := (hserde.decodeNumber _ _).mp hkept
      refine ⟨n, ?_, hn.symm, fun byte hbyte => ?_⟩
      · rw [hn, hdrop, takeWhile_append_dropWhile]
      · rw [hdrop] at hbyte
        have := head?_dropWhile_not (!isValueDelimiter ·) bytes
        rw [Option.mem_def.mp hbyte] at this
        simpa using this
    · cases h
  · rintro ⟨n, rfl, rfl, hrest⟩
    have htake : (n.text ++ rest).takeWhile (fun byte => !isValueDelimiter byte) = n.text := by
      rw [takeWhile_append_of_pos fun byte hbyte => by simp [(mem_numberText hbyte).2]]
      cases rest with
      | nil => simp
      | cons byte rest => simp [hrest byte rfl]
    unfold parseNumber
    dsimp only
    rw [htake, if_pos (isUtf8_of_ascii fun byte hbyte => (mem_numberText hbyte).1),
      (hserde.decodeNumber n.text n.text).mpr ⟨rfl, n, rfl⟩, drop_left]
    rfl

/-! ## Soundness -/

mutual

/-- What is read as a value is one of the grammar. -/
theorem parseValue_sound (hserde : SerdeJson.Faithful) :
    ∀ {fuel depth nesting : Nat} {bytes rest : Bytes} {value : Value},
      depth + nesting = maximumJsonContainerDepth →
      parseValue fuel depth bytes = some (value, rest) →
      ∃ before text, bytes = before ++ (text ++ rest) ∧ IsWhitespace before ∧
        IsValue nesting text value ∧ Behind value rest
  | 0, _, _, _, _, _, _, h => by cases h
  | fuel + 1, depth, nesting, bytes, rest, value, hdepth, h => by
    obtain ⟨before, hbefore, hbytes⟩ := exists_skipWhitespace bytes
    -- the text behind the whitespace is enough
    suffices hvalue : ∃ text, skipWhitespace bytes = text ++ rest ∧ IsValue nesting text value ∧
        Behind value rest by
      obtain ⟨text, htext, hvalue, hbehind⟩ := hvalue
      exact ⟨before, text, htext ▸ hbytes, hbefore, hvalue, hbehind⟩
    rw [parseValue] at h
    generalize skipWhitespace bytes = trimmed at *
    cases trimmed with
    | nil => cases h
    | cons byte tail =>
      dsimp only at h
      split at h
      · obtain ⟨_, hliteral, heq⟩ := Option.map_eq_some_iff.mp h
        cases heq
        exact ⟨_, consumeLiteral_eq_some.mp hliteral, .null, fun _ heq => by cases heq⟩
      split at h
      · obtain ⟨_, hliteral, heq⟩ := Option.map_eq_some_iff.mp h
        cases heq
        exact ⟨_, consumeLiteral_eq_some.mp hliteral, .true, fun _ heq => by cases heq⟩
      split at h
      · obtain ⟨_, hliteral, heq⟩ := Option.map_eq_some_iff.mp h
        cases heq
        exact ⟨_, consumeLiteral_eq_some.mp hliteral, .false, fun _ heq => by cases heq⟩
      split at h
      · obtain ⟨⟨text, _⟩, hstring, heq⟩ := Option.map_eq_some_iff.mp h
        cases heq
        obtain ⟨literal, hliteral, hvalue⟩ := (parseString_eq_some hserde).mp hstring
        exact ⟨literal, hliteral, .string hvalue, fun _ heq => by cases heq⟩
      split at h
      · rename_i hbyte
        subst hbyte
        obtain ⟨childDepth, hnext, hread⟩ := Option.bind_eq_some_iff.mp h
        obtain ⟨child, rfl, hchild⟩ := exists_of_nextDepth hdepth hnext
        obtain ⟨space, hspace, htail⟩ := exists_skipWhitespace tail
        split at hread
        · rename_i hclose
          cases hread
          rw [consumeIf_eq_some.mp hclose] at htail
          exact ⟨_, by rw [htail]; simp, .emptyArray hspace, fun _ heq => by cases heq⟩
        · obtain ⟨text, more, htext, hmore, rfl⟩ := parseElements_sound hserde hchild hread
          rw [htext] at htail
          exact ⟨_, by rw [htail]; simp, .array (hmore.space_append hspace),
            fun _ heq => by cases heq⟩
      split at h
      · rename_i hbyte
        subst hbyte
        obtain ⟨childDepth, hnext, hread⟩ := Option.bind_eq_some_iff.mp h
        obtain ⟨child, rfl, hchild⟩ := exists_of_nextDepth hdepth hnext
        obtain ⟨space, hspace, htail⟩ := exists_skipWhitespace tail
        split at hread
        · rename_i hclose
          cases hread
          rw [consumeIf_eq_some.mp hclose] at htail
          exact ⟨_, by rw [htail]; simp, .emptyObject hspace, fun _ heq => by cases heq⟩
        · obtain ⟨text, members, htext, hmembers, hnodup, -, rfl⟩ :=
            parseEntries_sound hserde hchild hread
          rw [htext] at htail
          exact ⟨_, by rw [htail]; simp, .object (hmembers.space_append hspace) hnodup,
            fun _ heq => by cases heq⟩
      split at h
      · obtain ⟨⟨text, _⟩, hnumber, heq⟩ := Option.map_eq_some_iff.mp h
        cases heq
        obtain ⟨n, htext, rfl, hdelimited⟩ := (parseNumber_eq_some hserde).mp hnumber
        exact ⟨n.text, htext, .number n, fun _ _ => hdelimited⟩
      · cases h

/-- Elements up to the closing bracket. -/
theorem parseElements_sound (hserde : SerdeJson.Faithful) :
    ∀ {fuel depth nesting : Nat} {values : List Value} {bytes rest : Bytes} {value : Value},
      depth + nesting = maximumJsonContainerDepth →
      parseElements fuel depth values bytes = some (value, rest) →
      ∃ text more, bytes = text ++ 0x5D :: rest ∧ IsElements nesting text more ∧
        value = .array (values ++ more)
  | 0, _, _, _, _, _, _, _, h => by cases h
  | fuel + 1, depth, nesting, values, bytes, rest, value, hdepth, h => by
    rw [parseElements] at h
    obtain ⟨⟨element, behind⟩, helement, h⟩ := Option.bind_eq_some_iff.mp h
    obtain ⟨before, text, hbytes, hbefore, hvalue, -⟩ := parseValue_sound hserde hdepth helement
    obtain ⟨after, hafter, hbehind⟩ := exists_skipWhitespace behind
    dsimp only at h
    split at h
    · rename_i hclose
      cases h
      rw [consumeIf_eq_some.mp hclose] at hbehind
      exact ⟨_, [element], by rw [hbytes, hbehind]; simp, .last ⟨hbefore, hvalue, hafter⟩, rfl⟩
    · obtain ⟨next, hcomma, h⟩ := Option.bind_eq_some_iff.mp h
      obtain ⟨later, more, hnext, hlater, rfl⟩ := parseElements_sound hserde hdepth h
      rw [consumeIf_eq_some.mp hcomma, hnext] at hbehind
      exact ⟨_, element :: more, by rw [hbytes, hbehind]; simp,
        .cons ⟨hbefore, hvalue, hafter⟩ hlater, by simp⟩

/-- Members up to the closing brace, with names that are new. -/
theorem parseEntries_sound (hserde : SerdeJson.Faithful) :
    ∀ {fuel depth nesting : Nat} {entries : List (Text × Value)} {bytes rest : Bytes}
      {value : Value}, depth + nesting = maximumJsonContainerDepth →
      parseEntries fuel depth entries bytes = some (value, rest) →
      ∃ text members, bytes = text ++ 0x7D :: rest ∧ IsMembers nesting text members ∧
        (members.map Prod.fst).Nodup ∧
        (∀ name ∈ members.map Prod.fst, lookupEntry name entries = none) ∧
        value = .object (insertMembers entries members)
  | 0, _, _, _, _, _, _, _, h => by cases h
  | fuel + 1, depth, nesting, entries, bytes, rest, value, hdepth, h => by
    rw [parseEntries] at h
    obtain ⟨⟨name, behindName⟩, hname, h⟩ := Option.bind_eq_some_iff.mp h
    obtain ⟨before, hbefore, hbytes⟩ := exists_skipWhitespace bytes
    obtain ⟨literal, hliteral, hstring⟩ := (parseString_eq_some hserde).mp hname
    dsimp only at h
    split at h
    · cases h
    rename_i hnew
    rw [Option.not_isSome_iff_eq_none] at hnew
    obtain ⟨behindColon, hcolon, h⟩ := Option.bind_eq_some_iff.mp h
    obtain ⟨between, hbetween, hbehindName⟩ := exists_skipWhitespace behindName
    rw [consumeIf_eq_some.mp hcolon] at hbehindName
    obtain ⟨⟨element, behind⟩, helement, h⟩ := Option.bind_eq_some_iff.mp h
    obtain ⟨spaced, text, hcolonRest, hspaced, hvalue, -⟩ :=
      parseValue_sound hserde hdepth helement
    obtain ⟨after, hafter, hbehind⟩ := exists_skipWhitespace behind
    have hmember : IsMember nesting (before ++ (literal ++ (between ++ 0x3A ::
        (spaced ++ (text ++ after))))) (name, element) :=
      ⟨hbefore, hstring, hbetween, ⟨hspaced, hvalue, hafter⟩⟩
    rw [hliteral, hbehindName, hcolonRest] at hbytes
    dsimp only at h
    split at h
    · rename_i hclose
      cases h
      rw [consumeIf_eq_some.mp hclose] at hbehind
      exact ⟨_, [(name, element)], by rw [hbytes, hbehind]; simp, .last hmember, by simp,
        by simpa using hnew, rfl⟩
    · obtain ⟨next, hcomma, h⟩ := Option.bind_eq_some_iff.mp h
      obtain ⟨later, members, hnext, hlater, hnodup, hnone, rfl⟩ :=
        parseEntries_sound hserde hdepth h
      rw [consumeIf_eq_some.mp hcomma, hnext] at hbehind
      have hnames : ∀ other ∈ members.map Prod.fst,
          name ≠ other ∧ lookupEntry other entries = none := fun other hother =>
        lookupEntry_insertEntry.mp (hnone other hother)
      refine ⟨_, (name, element) :: members, by rw [hbytes, hbehind]; simp, .cons hmember hlater,
        ?_, ?_, rfl⟩
      · exact nodup_cons.mpr ⟨fun hmem => (hnames name hmem).1 rfl, hnodup⟩
      · exact forall_mem_cons.mpr ⟨hnew, fun other hother => (hnames other hother).2⟩

end

/-! ## Completeness -/

theorem parseValue_skipWhitespace (fuel depth : Nat) (bytes : Bytes) :
    parseValue fuel depth (skipWhitespace bytes) = parseValue fuel depth bytes := by
  cases fuel with
  | zero => rw [parseValue, parseValue]
  | succ fuel => rw [parseValue, parseValue, skipWhitespace_skipWhitespace]

theorem parseElements_skipWhitespace (fuel depth : Nat) (values : List Value) (bytes : Bytes) :
    parseElements fuel depth values (skipWhitespace bytes) =
      parseElements fuel depth values bytes := by
  cases fuel with
  | zero => rw [parseElements, parseElements]
  | succ fuel => rw [parseElements, parseElements, parseValue_skipWhitespace]

theorem parseEntries_skipWhitespace (fuel depth : Nat) (bytes : Bytes) :
    parseEntries fuel depth entries (skipWhitespace bytes) = parseEntries fuel depth entries bytes := by
  cases fuel with
  | zero => rw [parseEntries, parseEntries]
  | succ fuel => rw [parseEntries, parseEntries, skipWhitespace_skipWhitespace]

/-- A name is read behind whitespace. -/
theorem parseString_skipWhitespace (hserde : SerdeJson.Faithful) {before literal : Bytes} {name : Text}
    (hbefore : IsWhitespace before) (hname : IsString literal name) (rest : Bytes) :
    parseString (skipWhitespace (before ++ (literal ++ rest))) = some (name, rest) := by
  have hunspaced : Unspaced (literal ++ rest) := by
    obtain ⟨body, chars, rfl, -⟩ := hname
    exact unspaced_cons (by decide) _
  rw [skipWhitespace_eq hbefore hunspaced]
  exact (parseString_eq_some hserde).mpr ⟨literal, rfl, hname⟩

section Parts

variable (byte) {fuel depth : Nat}
  (hread : ∀ {before text rest : Bytes} {value : Value}, 2 * text.length ≤ fuel →
    IsWhitespace before → IsValue nesting text value → Behind value rest →
    parseValue fuel depth (before ++ (text ++ rest)) = some (value, rest))
  (hbyte : isValueDelimiter byte = true ∧ isJsonWhitespace byte = false) (rest : Bytes)

include hread hbyte

/-- An element is read up to what separates it from the next one. -/
theorem exists_parseValue (h : IsElement nesting text value) (hfuel : 2 * text.length ≤ fuel) :
    ∃ behind, parseValue fuel depth (text ++ byte :: rest) = some (value, behind) ∧
      skipWhitespace behind = byte :: rest := by
  obtain @⟨_, before, text, after, _, hbefore, hvalue, hafter⟩ := h
  simp only [length_append] at hfuel
  refine ⟨after ++ byte :: rest, ?_, skipWhitespace_eq hafter (unspaced_cons hbyte.2 rest)⟩
  rw [append_assoc, append_assoc]
  exact hread (by omega) hbefore hvalue fun _ _ => delimited_append hafter hbyte.1 rest

/-- A member is read up to what separates it from the next one. -/
theorem exists_parseMember (hserde : SerdeJson.Faithful) {name : Text}
    (h : IsMember nesting text (name, value)) (hfuel : 2 * text.length ≤ fuel) :
    ∃ behindName behindColon behind,
      parseString (skipWhitespace (text ++ byte :: rest)) = some (name, behindName) ∧
      consumeIf 0x3A (skipWhitespace behindName) = some behindColon ∧
      parseValue fuel depth behindColon = some (value, behind) ∧
      skipWhitespace behind = byte :: rest := by
  obtain @⟨_, before, literal, between, text, _, _, hbefore, hname, hbetween, helement⟩ := h
  simp only [length_append, length_cons] at hfuel
  obtain ⟨behind, hvalue, hbehind⟩ := exists_parseValue byte hread hbyte rest helement (by omega)
  refine ⟨between ++ 0x3A :: (text ++ byte :: rest), text ++ byte :: rest, behind, ?_, ?_, hvalue,
    hbehind⟩
  · simp only [append_assoc, cons_append]
    exact parseString_skipWhitespace hserde hbefore hname _
  · rw [skipWhitespace_eq hbetween (unspaced_cons (by decide) _)]
    exact consumeIf_eq_some.mpr rfl

end Parts

mutual

/-- A value of the grammar is read, with fuel for twice the length of its text. -/
theorem parseValue_complete (hserde : SerdeJson.Faithful) :
    ∀ {fuel depth nesting : Nat} {before text rest : Bytes} {value : Value},
      depth + nesting = maximumJsonContainerDepth → 2 * text.length ≤ fuel →
      IsWhitespace before → IsValue nesting text value → Behind value rest →
      parseValue fuel depth (before ++ (text ++ rest)) = some (value, rest)
  | 0, _, _, _, _, _, _, _, hfuel, _, hvalue, _ => by
    obtain ⟨byte, tail, rfl, -⟩ := exists_cons_of_isValue hvalue
    simp at hfuel
  | fuel + 1, depth, nesting, before, text, rest, value, hdepth, hfuel, hbefore, hvalue, hbehind => by
    rw [parseValue, skipWhitespace_eq hbefore (unspaced_of_isValue hvalue rest)]
    cases hvalue with
    | null | true | false => rfl
    | number n =>
      have hread : parseNumber (n.text ++ rest) = some (n.text, rest) :=
        (parseNumber_eq_some hserde).mpr ⟨n, rfl, rfl, hbehind _ rfl⟩
      obtain ⟨byte, tail, htext, hbyte⟩ := exists_cons_of_number n
      have hne (other : UInt8) (hother : ¬(other = 0x2D ∨ 0x30 ≤ other ∧ other ≤ 0x39)) :
          byte ≠ other := fun heq => hother (heq ▸ hbyte)
      rw [htext, cons_append] at hread ⊢
      dsimp only
      rw [if_neg (hne _ (by decide)), if_neg (hne _ (by decide)), if_neg (hne _ (by decide)),
        if_neg (hne _ (by decide)), if_neg (hne _ (by decide)), if_neg (hne _ (by decide)),
        if_pos hbyte, hread]
      rfl
    | @string _ _ decoded hstring =>
      have hread : parseString (text ++ rest) = some (decoded, rest) :=
        (parseString_eq_some hserde).mpr ⟨text, rfl, hstring⟩
      obtain ⟨body, chars, rfl, -⟩ := hstring
      exact Option.map_eq_some_iff.mpr ⟨_, hread, rfl⟩
    | @emptyArray child space hspace =>
      have hclose : skipWhitespace (space ++ [0x5D] ++ rest) = 0x5D :: rest := by
        rw [append_assoc]
        exact skipWhitespace_eq hspace (unspaced_cons (by decide) _)
      rw [cons_append]
      dsimp only
      rw [if_neg (by decide), if_neg (by decide), if_neg (by decide), if_neg (by decide),
        if_pos rfl, nextDepth_of_lt hdepth, hclose]
      rfl
    | @array child text values helements =>
      have hchild : depth + 1 + child = maximumJsonContainerDepth := by omega
      simp only [length_cons, length_append, length_nil] at hfuel
      have hread := @parseElements_complete hserde fuel (depth + 1) child [] values text hchild
        (by omega) helements rest
      rw [cons_append, append_assoc, singleton_append]
      dsimp only
      rw [if_neg (by decide), if_neg (by decide), if_neg (by decide), if_neg (by decide),
        if_pos rfl, nextDepth_of_lt hdepth, consumeIf_of_isElements helements]
      exact (parseElements_skipWhitespace ..).trans hread
    | @emptyObject child space hspace =>
      have hclose : skipWhitespace (space ++ [0x7D] ++ rest) = 0x7D :: rest := by
        rw [append_assoc]
        exact skipWhitespace_eq hspace (unspaced_cons (by decide) _)
      rw [cons_append]
      dsimp only
      rw [if_neg (by decide), if_neg (by decide), if_neg (by decide), if_neg (by decide),
        if_neg (by decide), if_pos rfl, nextDepth_of_lt hdepth, hclose]
      rfl
    | @object child text members hmembers hnodup =>
      have hchild : depth + 1 + child = maximumJsonContainerDepth := by omega
      simp only [length_cons, length_append, length_nil] at hfuel
      have hread := @parseEntries_complete hserde fuel (depth + 1) child [] members text hchild
        (by omega) hmembers hnodup (fun _ _ => rfl) rest
      rw [cons_append, append_assoc, singleton_append]
      dsimp only
      rw [if_neg (by decide), if_neg (by decide), if_neg (by decide), if_neg (by decide),
        if_neg (by decide), if_pos rfl, nextDepth_of_lt hdepth, consumeIf_of_isMembers hmembers]
      exact (parseEntries_skipWhitespace ..).trans hread

/-- All elements are read. -/
theorem parseElements_complete (hserde : SerdeJson.Faithful) :
    ∀ {fuel depth nesting : Nat} {values more : List Value} {text : Bytes},
      depth + nesting = maximumJsonContainerDepth → 2 * text.length + 1 ≤ fuel →
      IsElements nesting text more → ∀ rest,
      parseElements fuel depth values (text ++ 0x5D :: rest) = some (.array (values ++ more), rest)
  | 0, _, _, _, _, _, _, hfuel, _, _ => by omega
  | fuel + 1, depth, nesting, values, more, text, hdepth, hfuel, h, rest => by
    have hvalue {before text rest : Bytes} {value : Value} :=
      @parseValue_complete hserde fuel depth nesting before text rest value hdepth
    rw [parseElements]
    cases h with
    | @last _ _ value helement =>
      obtain ⟨behind, hread, hbehind⟩ := exists_parseValue 0x5D hvalue (by decide) rest helement
        (by omega)
      refine Option.bind_eq_some_iff.mpr ⟨_, hread, ?_⟩
      dsimp only
      rw [hbehind]
      rfl
    | @cons _ text later value more helement hmore =>
      simp only [length_append, length_cons] at hfuel
      obtain ⟨behind, hread, hbehind⟩ := exists_parseValue 0x2C hvalue (by decide)
        (later ++ 0x5D :: rest) helement (by omega)
      have hlater := @parseElements_complete hserde fuel depth nesting (values ++ [value]) more later
        hdepth (by omega) hmore rest
      rw [append_assoc, cons_append]
      refine Option.bind_eq_some_iff.mpr ⟨_, hread, ?_⟩
      dsimp only
      rw [hbehind, consumeIf_eq_none (by decide)]
      rw [append_assoc, singleton_append] at hlater
      exact hlater

/-- All members with different names are read. -/
theorem parseEntries_complete (hserde : SerdeJson.Faithful) :
    ∀ {fuel depth nesting : Nat} {entries members : List (Text × Value)} {text : Bytes},
      depth + nesting = maximumJsonContainerDepth → 2 * text.length + 1 ≤ fuel →
      IsMembers nesting text members → (members.map Prod.fst).Nodup →
      (∀ name ∈ members.map Prod.fst, lookupEntry name entries = none) → ∀ rest,
      parseEntries fuel depth entries (text ++ 0x7D :: rest) =
        some (.object (insertMembers entries members), rest)
  | 0, _, _, _, _, _, _, hfuel, _, _, _, _ => by omega
  | fuel + 1, depth, nesting, entries, members, text, hdepth, hfuel, h, hnodup, hnone, rest => by
    have hvalue {before text rest : Bytes} {value : Value} :=
      @parseValue_complete hserde fuel depth nesting before text rest value hdepth
    rw [parseEntries]
    cases h with
    | @last _ _ member hmember =>
      obtain ⟨behindName, behindColon, behind, hname, hcolon, hread, hbehind⟩ := exists_parseMember
        0x7D hvalue (by decide) rest hserde hmember (by omega)
      refine Option.bind_eq_some_iff.mpr ⟨_, hname, ?_⟩
      dsimp only
      rw [if_neg (by rw [hnone member.1 (by simp)]; simp)]
      refine Option.bind_eq_some_iff.mpr ⟨_, hcolon, Option.bind_eq_some_iff.mpr ⟨_, hread, ?_⟩⟩
      dsimp only
      rw [hbehind]
      rfl
    | @cons _ text later member members hmember hmembers =>
      simp only [length_append, length_cons] at hfuel
      obtain ⟨behindName, behindColon, behind, hname, hcolon, hread, hbehind⟩ := exists_parseMember
        0x2C hvalue (by decide) (later ++ 0x7D :: rest) hserde hmember (by omega)
      obtain ⟨hnew, hnodup⟩ := nodup_cons.mp hnodup
      obtain ⟨hname', hnone⟩ := forall_mem_cons.mp hnone
      have hlater := @parseEntries_complete hserde fuel depth nesting
        (insertEntry member.1 member.2 entries) members later hdepth (by omega) hmembers hnodup
        (fun other hother => lookupEntry_insertEntry.mpr
          ⟨fun heq => hnew (heq ▸ hother), hnone other hother⟩) rest
      rw [append_assoc, cons_append]
      refine Option.bind_eq_some_iff.mpr ⟨_, hname, ?_⟩
      dsimp only
      rw [if_neg (by rw [hname']; simp)]
      refine Option.bind_eq_some_iff.mpr ⟨_, hcolon, Option.bind_eq_some_iff.mpr ⟨_, hread, ?_⟩⟩
      dsimp only
      rw [hbehind, consumeIf_eq_none (by decide)]
      exact hlater

end

/-! ## Objects -/

/-- With enough fuel, what is read does not depend on it. -/
theorem parseValue_eq_some_iff (hserde : SerdeJson.Faithful) {fuel : Nat}
    (hfuel : 2 * bytes.length + 1 ≤ fuel) :
    parseValue fuel 0 bytes = some (value, rest) ↔
      ∃ before text, bytes = before ++ (text ++ rest) ∧ IsWhitespace before ∧
        IsValue maximumJsonContainerDepth text value ∧ Behind value rest := by
  constructor
  · exact parseValue_sound hserde (Nat.zero_add _)
  · rintro ⟨before, text, rfl, hbefore, hvalue, hbehind⟩
    simp only [length_append] at hfuel
    exact parseValue_complete hserde (Nat.zero_add _) (by omega) hbefore hvalue hbehind

/-- What is parsed is an object of the grammar. -/
theorem parseObject_sound (hserde : SerdeJson.Faithful) {record : Bytes}
    (h : parseObject record = some entries) :
    IsObjectText 128 record entries := by
  obtain ⟨⟨value, rest⟩, hread, h⟩ := Option.bind_eq_some_iff.mp h
  dsimp only at h
  split at h
  · rename_i hend
    cases value with
    | object other =>
      obtain rfl : other = entries := Option.some.inj h
      obtain ⟨front, hfront, hrecord⟩ := exists_skipWhitespace record
      obtain ⟨after, hafter, hrest⟩ := exists_skipWhitespace rest
      obtain ⟨before, text, htext, hbefore, hvalue, -⟩ :=
        parseValue_sound hserde (Nat.zero_add maximumJsonContainerDepth) hread
      rw [hend, append_nil] at hrest
      rw [hrecord, htext, hrest, ← append_assoc]
      exact ⟨hfront.append hbefore, hvalue, hafter⟩
    | _ => cases h
  · cases h

/-- An object of the grammar is parsed. -/
theorem parseObject_complete (hserde : SerdeJson.Faithful) {record : Bytes}
    {entries : List (Text × Value)} (h : IsObjectText 128 record entries) :
    parseObject record = some entries := by
  obtain @⟨_, before, text, after, _, hbefore, hvalue, hafter⟩ := h
  have hfuel : 2 * text.length ≤ 2 * (before ++ (text ++ after)).length + 1 := by
    simp only [length_append]
    omega
  have hread := @parseValue_complete _ hserde _ 0 _ [] _ after _
    (Nat.zero_add maximumJsonContainerDepth) hfuel (by simp [IsWhitespace]) hvalue
    fun _ heq => by cases heq
  have hend : skipWhitespace after = [] := by
    have hskip := skipWhitespace_append hafter []
    rwa [append_nil] at hskip
  unfold parseObject
  rw [skipWhitespace_eq hbefore (unspaced_of_isValue hvalue after)]
  refine Option.bind_eq_some_iff.mpr ⟨_, hread, ?_⟩
  dsimp only
  rw [if_pos hend]

/-- For every record : an object is parsed exactly if the record is valid UTF-8 and an object of
the grammar between whitespace, with at most 128 levels of containers, strings that denote scalar
values, and names that differ in every object, and it is what the grammar says. The bytes behind
what is read are the last ones of the record, and more fuel changes nothing. -/
theorem parseObject_eq_some_iff (hserde : SerdeJson.Faithful) (record : Bytes) :
    (∀ entries, parseObject record = some entries ↔
      isUtf8 record = true ∧ IsObjectText 128 record entries) ∧
    (∀ fuel depth value rest, depth ≤ maximumJsonContainerDepth →
      parseValue fuel depth record = some (value, rest) → rest <:+ record) ∧
    ∀ fuel ≥ 2 * record.length + 1,
      parseValue fuel 0 record = parseValue (2 * record.length + 1) 0 record := by
  refine ⟨fun entries => ⟨fun h => ?_, fun h => parseObject_complete hserde h.2⟩,
    fun fuel depth value rest hdepth h => ?_, fun fuel hfuel => ?_⟩
  · have htext := parseObject_sound hserde h
    exact ⟨isUtf8_of_isElement htext, htext⟩
  · obtain ⟨before, text, rfl, -⟩ :=
      parseValue_sound hserde (Nat.add_sub_of_le hdepth) h
    exact ⟨before ++ text, by simp⟩
  · refine Option.ext fun read => ?_
    obtain ⟨value, rest⟩ := read
    rw [parseValue_eq_some_iff hserde hfuel, parseValue_eq_some_iff hserde le_rfl]

end Parser

end JsonParser

/-! ## A faithful crate -/

section Sample

open Classical in
/-- `serde_json`, as far as the grammar says it. -/
@[reducible] noncomputable def SerdeJson.strict : SerdeJson where
  decodeString literal := if h : ∃ text, IsString literal text then some h.choose else none
  decodeNumber text := if ∃ n : JsonNumber, n.text = text then some text else none
  encodeString text := [0x22] ++ text ++ [0x22]

attribute [local instance] SerdeJson.strict

/-- A decoder of the grammar is faithful. -/
theorem SerdeJson.faithful_strict : SerdeJson.Faithful where
  decodeString body _ text := by
    by_cases h : ∃ text, IsString (0x22 :: body) text
    · have hdecode : SerdeJson.decodeString (0x22 :: body) = some h.choose := dif_pos h
      rw [hdecode]
      exact ⟨fun heq => Option.some.inj heq ▸ h.choose_spec,
        fun htext => congrArg some (isString_unique h.choose_spec htext)⟩
    · have hdecode : SerdeJson.decodeString (0x22 :: body) = none := dif_neg h
      rw [hdecode]
      exact ⟨fun heq => (by cases heq), fun htext => absurd ⟨text, htext⟩ h⟩
  decodeNumber text kept := by
    by_cases h : ∃ n : JsonNumber, n.text = text
    · have hdecode : SerdeJson.decodeNumber text = some text := if_pos h
      rw [hdecode]
      exact ⟨fun heq => ⟨(Option.some.inj heq).symm, h⟩, fun heq => by rw [heq.1]⟩
    · have hdecode : SerdeJson.decodeNumber text = none := if_neg h
      rw [hdecode]
      exact ⟨fun heq => (by cases heq), fun heq => absurd heq.2 h⟩

theorem all_isDigit_nil : ([] : Text).all isDigit = true := rfl

/-- `0`. -/
def JsonNumber.zero : JsonNumber where
  negative := false
  integer := [0x30]
  fraction := []
  exponent := none
  integer_ne_nil := cons_ne_nil _ _
  integer_all := rfl
  integer_head _ := rfl
  fraction_all := all_isDigit_nil

/-- `{"\u0061":[0]}`, behind a blank. -/
def escapedRecord : Bytes :=
  [0x20, 0x7B, 0x22, 0x5C, 0x75, 0x30, 0x30, 0x36, 0x31, 0x22, 0x3A, 0x5B, 0x30, 0x5D, 0x7D]

theorem isObjectText_escapedRecord :
    IsObjectText 128 escapedRecord [([0x61], .array [.number [0x30]])] := by
  have hspace : IsWhitespace [] := by simp [IsWhitespace]
  have hblank : IsWhitespace [0x20] := by simp [IsWhitespace]
  have hname : IsString [0x22, 0x5C, 0x75, 0x30, 0x30, 0x36, 0x31, 0x22] [0x61] := by
    refine ⟨[0x5C, 0x75, 0x30, 0x30, 0x36, 0x31], [Char.ofNat 0x61], rfl, ?_, by decide⟩
    exact .cons (.unicode (by decide : codeUnit [0x30, 0x30, 0x36, 0x31] = _)) .nil
  have hzero : IsElement 126 [0x30] (.number [0x30]) :=
    .mk hspace (.number JsonNumber.zero) hspace
  have harray : IsElement 127 [0x5B, 0x30, 0x5D] (.array [.number [0x30]]) :=
    .mk hspace (.array (.last hzero)) hspace
  exact .mk hblank (.object (.last (.mk hspace hname hspace harray)) (by simp)) hspace

/-- The name is read behind its escape. -/
theorem parseObject_escapedRecord :
    JsonParser.parseObject escapedRecord = some [([0x61], .array [.number [0x30]])] :=
  ((JsonParser.parseObject_eq_some_iff SerdeJson.faithful_strict escapedRecord).1 _).mpr
    ⟨by decide, isObjectText_escapedRecord⟩

end Sample

end Elucid
