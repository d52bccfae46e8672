import Elucid.NumberText
import Elucid.Utf8

/-!
# The JSON grammar

RFC 8259, as relations between texts and what they denote. A string denotes Unicode scalar
values, so an escape of a lone surrogate denotes nothing, and a number denotes its text. A value
is related with a bound on the nesting of its containers, and an object only if its members have
different names, which is what a map with its members can keep. Names are compared behind their
escapes.
-/

namespace Elucid

open BigEndian List

namespace Rfc8259

variable {c : Char} {unit : Nat} {literal : Bytes} {digits : Bytes} {byte : UInt8}

/-- `ws`. -/
def IsWhitespace (text : Bytes) : Prop :=
  ∀ byte ∈ text, byte = 0x20 ∨ byte = 0x09 ∨ byte = 0x0A ∨ byte = 0x0D

/-! ## Strings -/

/-- The value of `HEXDIG`. -/
def hexDigitValue (byte : UInt8) : Option Nat :=
  if 0x30 ≤ byte ∧ byte ≤ 0x39 then some (byte.toNat - 0x30)
  else if 0x41 ≤ byte ∧ byte ≤ 0x46 then some (byte.toNat - 0x41 + 10)
  else if 0x61 ≤ byte ∧ byte ≤ 0x66 then some (byte.toNat - 0x61 + 10)
  else none

/-- The value of `4HEXDIG`. -/
def codeUnit : Bytes → Option Nat
  | [a, b, c, d] => do
    let a ← hexDigitValue a
    let b ← hexDigitValue b
    let c ← hexDigitValue c
    let d ← hexDigitValue d
    return ((a * 16 + b) * 16 + c) * 16 + d
  | _ => none

/-- The escapes of two characters, by the second. -/
def shortEscape (byte : UInt8) : Option Char :=
  if byte = 0x22 ∨ byte = 0x5C ∨ byte = 0x2F then some (Char.ofNat byte.toNat)
  else if byte = 0x62 then some (Char.ofNat 0x08)
  else if byte = 0x66 then some (Char.ofNat 0x0C)
  else if byte = 0x6E then some (Char.ofNat 0x0A)
  else if byte = 0x72 then some (Char.ofNat 0x0D)
  else if byte = 0x74 then some (Char.ofNat 0x09)
  else none

/-- `char`, and the scalar value that it denotes. -/
inductive IsChar : Bytes → Char → Prop
  | unescaped {c : Char} : 0x20 ≤ c.toNat → c.toNat ≠ 0x22 → c.toNat ≠ 0x5C →
    IsChar (encodeChar c) c
  | escape {byte : UInt8} {c : Char} : shortEscape byte = some c → IsChar [0x5C, byte] c
  | unicode {digits : Bytes} {c : Char} : codeUnit digits = some c.toNat →
    IsChar (0x5C :: 0x75 :: digits) c
  | pair {high low : Bytes} {first second : Nat} {c : Char} : first < 0x400 → second < 0x400 →
    codeUnit high = some (0xD800 + first) → codeUnit low = some (0xDC00 + second) →
    c.toNat = 0x10000 + first * 0x400 + second →
    IsChar (0x5C :: 0x75 :: (high ++ 0x5C :: 0x75 :: low)) c

/-- The characters of a string. -/
inductive IsChars : Bytes → List Char → Prop
  | nil : IsChars [] []
  | cons {text rest : Bytes} {c : Char} {chars : List Char} : IsChar text c → IsChars rest chars →
    IsChars (text ++ rest) (c :: chars)

/-- `string`, and the UTF-8 text of its scalar values. -/
def IsString (literal : Bytes) (text : Text) : Prop :=
  ∃ body chars, literal = 0x22 :: (body ++ [0x22]) ∧ IsChars body chars ∧
    text = chars.flatMap encodeChar

/-! ## Values -/

/-- The object with some members, in the order of their names. -/
def objectOf (members : List (Text × Value)) : List (Text × Value) :=
  members.foldl (fun entries member => insertEntry member.1 member.2 entries) []

mutual

/-- `value`, with so many levels of containers. -/
inductive IsValue : Nat → Bytes → Value → Prop
  | null {nesting : Nat} : IsValue nesting (Text.ofString "null") .null
  | true {nesting : Nat} : IsValue nesting (Text.ofString "true") (.bool true)
  | false {nesting : Nat} : IsValue nesting (Text.ofString "false") (.bool false)
  | number {nesting : Nat} (n : JsonNumber) : IsValue nesting n.text (.number n.text)
  | string {nesting : Nat} {literal : Bytes} {text : Text} : IsString literal text →
    IsValue nesting literal (.string text)
  | emptyArray {nesting : Nat} {space : Bytes} : IsWhitespace space →
    IsValue (nesting + 1) (0x5B :: (space ++ [0x5D])) (.array [])
  | array {nesting : Nat} {text : Bytes} {values : List Value} : IsElements nesting text values →
    IsValue (nesting + 1) (0x5B :: (text ++ [0x5D])) (.array values)
  | emptyObject {nesting : Nat} {space : Bytes} : IsWhitespace space →
    IsValue (nesting + 1) (0x7B :: (space ++ [0x7D])) (.object [])
  | object {nesting : Nat} {text : Bytes} {members : List (Text × Value)} :
    IsMembers nesting text members → (members.map Prod.fst).Nodup →
    IsValue (nesting + 1) (0x7B :: (text ++ [0x7D])) (.object (objectOf members))

/-- A value between whitespace. -/
inductive IsElement : Nat → Bytes → Value → Prop
  | mk {nesting : Nat} {before text after : Bytes} {value : Value} : IsWhitespace before →
    IsValue nesting text value → IsWhitespace after →
    IsElement nesting (before ++ (text ++ after)) value

/-- Values between commas. -/
inductive IsElements : Nat → Bytes → List Value → Prop
  | last {nesting : Nat} {text : Bytes} {value : Value} : IsElement nesting text value →
    IsElements nesting text [value]
  | cons {nesting : Nat} {text rest : Bytes} {value : Value} {values : List Value} :
    IsElement nesting text value → IsElements nesting rest values →
    IsElements nesting (text ++ 0x2C :: rest) (value :: values)

/-- `member`, between whitespace. -/
inductive IsMember : Nat → Bytes → Text × Value → Prop
  | mk {nesting : Nat} {before literal between text : Bytes} {name : Text} {value : Value} :
    IsWhitespace before → IsString literal name → IsWhitespace between →
    IsElement nesting text value →
    IsMember nesting (before ++ (literal ++ (between ++ 0x3A :: text))) (name, value)

/-- Members between commas. -/
inductive IsMembers : Nat → Bytes → List (Text × Value) → Prop
  | last {nesting : Nat} {text : Bytes} {member : Text × Value} : IsMember nesting text member →
    IsMembers nesting text [member]
  | cons {nesting : Nat} {text rest : Bytes} {member : Text × Value}
    {members : List (Text × Value)} : IsMember nesting text member →
    IsMembers nesting rest members → IsMembers nesting (text ++ 0x2C :: rest) (member :: members)

end

/-- `JSON-text`, for an object. -/
def IsObjectText (nesting : Nat) (text : Bytes) (entries : List (Text × Value)) : Prop :=
  IsElement nesting text (.object entries)

/-! ## Whitespace in front -/

theorem IsWhitespace.append {front back : Bytes} (hfront : IsWhitespace front)
    (hback : IsWhitespace back) : IsWhitespace (front ++ back) := fun byte hbyte =>
  (mem_append.mp hbyte).elim (hfront byte) (hback byte)

variable {nesting : Nat} {space text : Bytes}

theorem IsElement.space_append {value : Value} (hspace : IsWhitespace space)
    (h : IsElement nesting text value) : IsElement nesting (space ++ text) value := by
  obtain ⟨hbefore, hvalue, hafter⟩ := h
  rw [← append_assoc]
  exact ⟨hspace.append hbefore, hvalue, hafter⟩

theorem IsElements.space_append {values : List Value} (hspace : IsWhitespace space)
    (h : IsElements nesting text values) : IsElements nesting (space ++ text) values := by
  cases h with
  | last helement => exact .last (helement.space_append hspace)
  | cons helement hrest =>
    rw [← append_assoc]
    exact .cons (helement.space_append hspace) hrest

theorem IsMember.space_append {member : Text × Value} (hspace : IsWhitespace space)
    (h : IsMember nesting text member) : IsMember nesting (space ++ text) member := by
  obtain ⟨hbefore, hname, hbetween, helement⟩ := h
  rw [← append_assoc]
  exact ⟨hspace.append hbefore, hname, hbetween, helement⟩

theorem IsMembers.space_append {members : List (Text × Value)} (hspace : IsWhitespace space)
    (h : IsMembers nesting text members) : IsMembers nesting (space ++ text) members := by
  cases h with
  | last hmember => exact .last (hmember.space_append hspace)
  | cons hmember hrest =>
    rw [← append_assoc]
    exact .cons (hmember.space_append hspace) hrest

/-! ## Nesting -/

mutual

theorem IsValue.mono {nesting more : Nat} (hle : nesting ≤ more) {text : Bytes} {value : Value} :
    IsValue nesting text value → IsValue more text value
  | .null => .null
  | .true => .true
  | .false => .false
  | .number n => .number n
  | .string hstring => .string hstring
  | .emptyArray hspace => by
    obtain ⟨more, rfl⟩ := Nat.exists_eq_add_one_of_ne_zero (by omega : more ≠ 0)
    exact .emptyArray hspace
  | .array helements => by
    obtain ⟨more, rfl⟩ := Nat.exists_eq_add_one_of_ne_zero (by omega : more ≠ 0)
    exact .array (helements.mono (Nat.le_of_succ_le_succ hle))
  | .emptyObject hspace => by
    obtain ⟨more, rfl⟩ := Nat.exists_eq_add_one_of_ne_zero (by omega : more ≠ 0)
    exact .emptyObject hspace
  | .object hmembers hnodup => by
    obtain ⟨more, rfl⟩ := Nat.exists_eq_add_one_of_ne_zero (by omega : more ≠ 0)
    exact .object (hmembers.mono (Nat.le_of_succ_le_succ hle)) hnodup

theorem IsElement.mono {nesting more : Nat} (hle : nesting ≤ more) {text : Bytes} {value : Value} :
    IsElement nesting text value → IsElement more text value
  | .mk hbefore hvalue hafter => .mk hbefore (hvalue.mono hle) hafter

theorem IsElements.mono {nesting more : Nat} (hle : nesting ≤ more) {text : Bytes}
    {values : List Value} : IsElements nesting text values → IsElements more text values
  | .last helement => .last (helement.mono hle)
  | .cons helement helements => .cons (helement.mono hle) (helements.mono hle)

theorem IsMember.mono {nesting more : Nat} (hle : nesting ≤ more) {text : Bytes}
    {member : Text × Value} : IsMember nesting text member → IsMember more text member
  | .mk hbefore hname hbetween helement => .mk hbefore hname hbetween (helement.mono hle)

theorem IsMembers.mono {nesting more : Nat} (hle : nesting ≤ more) {text : Bytes}
    {members : List (Text × Value)} : IsMembers nesting text members → IsMembers more text members
  | .last hmember => .last (hmember.mono hle)
  | .cons hmember hmembers => .cons (hmember.mono hle) (hmembers.mono hle)

end

/-! ## Texts are UTF-8 -/

omit nesting space text in
theorem isUtf8_of_isWhitespace {text : Bytes} (h : IsWhitespace text) : isUtf8 text = true :=
  isUtf8_of_ascii fun byte hbyte => by
    rcases h byte hbyte with rfl | rfl | rfl | rfl <;> decide

theorem hexDigitValue_le {value : Nat} (h : hexDigitValue byte = some value) :
    byte ≤ 0x7F := by
  unfold hexDigitValue at h
  split at h
  · exact UInt8.le_trans (And.right ‹_›) (by decide)
  split at h
  · exact UInt8.le_trans (And.right ‹_›) (by decide)
  split at h
  · exact UInt8.le_trans (And.right ‹_›) (by decide)
  · cases h

/-- Four digits, each of them one. -/
theorem codeUnit_eq_some (h : codeUnit digits = some unit) :
    digits.length = 4 ∧ ∀ byte ∈ digits, ∃ value, hexDigitValue byte = some value := by
  unfold codeUnit at h
  split at h
  · obtain ⟨_, ha, h⟩ := Option.bind_eq_some_iff.mp h
    obtain ⟨_, hb, h⟩ := Option.bind_eq_some_iff.mp h
    obtain ⟨_, hc, h⟩ := Option.bind_eq_some_iff.mp h
    obtain ⟨_, hd, -⟩ := Option.bind_eq_some_iff.mp h
    refine ⟨rfl, ?_⟩
    simp only [forall_mem_cons]
    exact ⟨⟨_, ha⟩, ⟨_, hb⟩, ⟨_, hc⟩, ⟨_, hd⟩, by simp⟩
  · cases h

theorem isUtf8_of_codeUnit (h : codeUnit digits = some unit) :
    isUtf8 digits = true :=
  isUtf8_of_ascii fun byte hbyte => by
    obtain ⟨_, hvalue⟩ := (codeUnit_eq_some h).2 byte hbyte
    exact hexDigitValue_le hvalue

theorem shortEscape_le (h : shortEscape byte = some c) :
    byte ≤ 0x7F := by
  unfold shortEscape at h
  split at h
  · rename_i hbyte
    rcases hbyte with rfl | rfl | rfl <;> decide
  split_ifs at h
  all_goals
    subst_vars
    decide

/-- A character is UTF-8, escaped or not. -/
theorem isUtf8_of_isChar (h : IsChar text c) : isUtf8 text = true := by
  cases h with
  | unescaped _ _ _ =>
    exact isUtf8_iff.mpr ⟨[encodeChar c], by simp, by
      simpa using isCharacter_of_valid (firstCharacter_encodeChar c)⟩
  | escape hescape =>
    refine isUtf8_of_ascii ?_
    simp only [forall_mem_cons]
    exact ⟨by decide, shortEscape_le hescape, by simp⟩
  | unicode hunit =>
    exact isUtf8_cons (by decide) (isUtf8_cons (by decide) (isUtf8_of_codeUnit hunit))
  | pair _ _ hhigh hlow _ =>
    have hlow := isUtf8_cons (by decide : (0x5C : UInt8) ≤ 0x7F)
      (isUtf8_cons (by decide : (0x75 : UInt8) ≤ 0x7F) (isUtf8_of_codeUnit hlow))
    exact isUtf8_cons (by decide)
      (isUtf8_cons (by decide) (isUtf8_append (isUtf8_of_codeUnit hhigh) hlow))

theorem isUtf8_of_isString {text : Text} (h : IsString literal text) :
    isUtf8 literal = true := by
  obtain ⟨body, chars, rfl, hchars, -⟩ := h
  have hbody : isUtf8 body = true := by
    induction hchars with
    | nil => rfl
    | cons hchar _ ih => exact isUtf8_append (isUtf8_of_isChar hchar) ih
  exact isUtf8_cons (by decide) (isUtf8_append hbody (by decide))

/-! ## A string denotes one text -/

/-- No unescaped character starts with a backslash. -/
theorem encodeChar_ne_escape (h : c.toNat ≠ 0x5C) (rest tail : Bytes) :
    encodeChar c ++ rest ≠ 0x5C :: tail := by
  intro heq
  obtain ⟨byte, bytes, hbytes⟩ := exists_cons_of_ne_nil (encodeChar_ne_nil c)
  rw [hbytes] at heq
  obtain rfl := (List.cons.inj heq).1
  have hmem : (0x5C : UInt8) ∈ encodeChar c := hbytes ▸ mem_cons_self
  rcases mem_encodeChar hmem with hnat | hnat
  · exact h hnat.symm
  · exact absurd hnat (by decide)

theorem ne_surrogate (c : Char) (hunit : unit < 0x800) : c.toNat ≠ 0xD800 + unit := by
  have hvalid : c.toNat < 0xD800 ∨ 0xDFFF < c.toNat ∧ c.toNat < 0x110000 := c.valid
  omega

/-- Four digits at the front are those of one code unit. -/
theorem codeUnit_unique {digits' rest rest' : Bytes} {unit' : Nat} (h : codeUnit digits = some unit)
    (h' : codeUnit digits' = some unit') (heq : digits ++ rest = digits' ++ rest') :
    digits = digits' ∧ unit = unit' ∧ rest = rest' := by
  obtain ⟨rfl, hrest⟩ := append_inj heq
    ((codeUnit_eq_some h).1.trans (codeUnit_eq_some h').1.symm)
  exact ⟨rfl, Option.some.inj (h.symm.trans h'), hrest⟩

/-- A text starts with one character at most. -/
theorem isChar_unique {text' rest rest' : Bytes} {c' : Char} (h : IsChar text c)
    (h' : IsChar text' c') (heq : text ++ rest = text' ++ rest') : c = c' ∧ rest = rest' := by
  cases h with
  | unescaped _ _ hescape =>
    cases h' with
    | unescaped _ _ _ =>
      obtain rfl := encodeChar_unique heq
      exact ⟨rfl, append_cancel_left heq⟩
    | escape _ => exact absurd heq (encodeChar_ne_escape hescape _ _)
    | unicode _ => exact absurd heq (encodeChar_ne_escape hescape _ _)
    | pair _ _ _ _ _ => exact absurd heq (encodeChar_ne_escape hescape _ _)
  | escape hshort =>
    cases h' with
    | unescaped _ _ hescape => exact absurd heq.symm (encodeChar_ne_escape hescape _ _)
    | escape hshort' =>
      obtain ⟨rfl, hrest⟩ := List.cons.inj (List.cons.inj heq).2
      exact ⟨Option.some.inj (hshort.symm.trans hshort'), hrest⟩
    | unicode _ =>
      obtain ⟨rfl, -⟩ := List.cons.inj (List.cons.inj heq).2
      cases hshort
    | pair _ _ _ _ _ =>
      obtain ⟨rfl, -⟩ := List.cons.inj (List.cons.inj heq).2
      cases hshort
  | unicode hunit =>
    cases h' with
    | unescaped _ _ hescape => exact absurd heq.symm (encodeChar_ne_escape hescape _ _)
    | escape hshort =>
      obtain ⟨rfl, -⟩ := List.cons.inj (List.cons.inj heq).2
      cases hshort
    | unicode hunit' =>
      obtain ⟨-, hnat, hrest⟩ :=
        codeUnit_unique hunit hunit' (List.cons.inj (List.cons.inj heq).2).2
      exact ⟨Char.toNat_inj.mp hnat, hrest⟩
    | pair hfirst _ hhigh _ _ =>
      simp only [cons_append, append_assoc, List.cons.injEq, true_and] at heq
      obtain ⟨-, hnat, -⟩ := codeUnit_unique hunit hhigh heq
      exact absurd hnat (ne_surrogate c (by omega))
  | pair hfirst hsecond hhigh hlow hc =>
    cases h' with
    | unescaped _ _ hescape => exact absurd heq.symm (encodeChar_ne_escape hescape _ _)
    | escape hshort =>
      obtain ⟨rfl, -⟩ := List.cons.inj (List.cons.inj heq).2
      cases hshort
    | unicode hunit =>
      simp only [cons_append, append_assoc, List.cons.injEq, true_and] at heq
      obtain ⟨-, hnat, -⟩ := codeUnit_unique hhigh hunit heq
      exact absurd hnat.symm (ne_surrogate c' (by omega))
    | pair hfirst' hsecond' hhigh' hlow' hc' =>
      simp only [cons_append, append_assoc, List.cons.injEq, true_and] at heq
      obtain ⟨-, hnat, heq⟩ := codeUnit_unique hhigh hhigh' heq
      simp only [List.cons.injEq, true_and] at heq
      obtain ⟨-, hnat', hrest⟩ := codeUnit_unique hlow hlow' heq
      exact ⟨Char.toNat_inj.mp (by omega), hrest⟩

theorem isChar_ne_nil (h : IsChar text c) : text ≠ [] := by
  cases h with
  | unescaped _ _ _ => exact encodeChar_ne_nil c
  | escape _ => exact cons_ne_nil _ _
  | unicode _ => exact cons_ne_nil _ _
  | pair _ _ _ _ _ => exact cons_ne_nil _ _

theorem isChars_unique {chars chars' : List Char} (h : IsChars text chars)
    (h' : IsChars text chars') : chars = chars' := by
  induction h generalizing chars' with
  | nil =>
    generalize hnil : ([] : Bytes) = text at h'
    cases h' with
    | nil => rfl
    | cons hchar _ => exact absurd (append_eq_nil_iff.mp hnil.symm).1 (isChar_ne_nil hchar)
  | @cons text rest c chars hchar _ ih =>
    generalize heq : text ++ rest = whole at h'
    cases h' with
    | nil => exact absurd (append_eq_nil_iff.mp heq).1 (isChar_ne_nil hchar)
    | cons hchar' hrest' =>
      obtain ⟨rfl, rfl⟩ := isChar_unique hchar hchar' heq
      rw [ih hrest']

/-- A literal is read in one way. -/
theorem isString_unique {text text' : Text} (h : IsString literal text)
    (h' : IsString literal text') : text = text' := by
  obtain ⟨body, chars, rfl, hchars, rfl⟩ := h
  obtain ⟨body', chars', heq, hchars', rfl⟩ := h'
  obtain rfl := append_cancel_right (List.cons.inj heq).2
  rw [isChars_unique hchars hchars']

end Rfc8259

end Elucid
