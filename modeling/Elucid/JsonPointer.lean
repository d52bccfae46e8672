import Elucid.CatalogSchema
import Elucid.Lines

/-!
# Texts of JSON pointers

A pointer is a list of tokens, and its text has a slash before each token, with `~0` for a tilde
and `~1` for a slash in it. `JsonPointer.parse` splits a text at its slashes and decodes the
parts.

`jsonPointer_canonical` : every pointer is parsed from its text, the texts that are parsed are
those of RFC 6901 (`IsPointerText`), and a parsed text is the text of its pointer.
-/

namespace Elucid

open List

namespace Catalog

variable {tokenIndex byteOffset : Nat} {parts : List Text} {value : Text} {text : Text}

/-- A byte of a token in a pointer. -/
def escapeByte (byte : UInt8) : Text :=
  if byte = 0x7E then [0x7E, 0x30] else if byte = 0x2F then [0x7E, 0x31] else [byte]

/-- `Display` of a `JsonPointer`. -/
def pointerText (pointer : JsonPointer) : Text :=
  pointer.tokens.flatMap fun token => 0x2F :: token.flatMap escapeByte

/-! ## Parsing -/

/-- `CatalogModelError`, for the text of a pointer. -/
inductive PointerError
  | jsonPointerMustStartWithSlash
  | invalidJsonPointerEscape (tokenIndex byteOffset : Nat)
  deriving DecidableEq, Repr

/-- `decode_token`, from a byte offset on. Only ASCII characters are told apart. -/
def decodeToken (tokenIndex byteOffset : Nat) : Text → Except PointerError Text
  | [] => .ok []
  | character :: rest =>
    if character ≠ 0x7E then do
      return character :: (← decodeToken tokenIndex (byteOffset + 1) rest)
    else
      match rest with
      | [] => .error (.invalidJsonPointerEscape tokenIndex byteOffset)
      | escaped :: rest =>
        if escaped = 0x30 then do
          return 0x7E :: (← decodeToken tokenIndex (byteOffset + 2) rest)
        else if escaped = 0x31 then do
          return 0x2F :: (← decodeToken tokenIndex (byteOffset + 2) rest)
        else .error (.invalidJsonPointerEscape tokenIndex byteOffset)

/-- The tokens of the parts of a text, from an index on. -/
def decodeTokens (tokenIndex : Nat) : List Text → Except PointerError (List Text)
  | [] => .ok []
  | token :: rest => do
    let decoded ← decodeToken tokenIndex 0 token
    let others ← decodeTokens (tokenIndex + 1) rest
    return decoded :: others

/-- `JsonPointer::parse`. -/
def parsePointer : Text → Except PointerError JsonPointer
  | [] => .ok ⟨[]⟩
  | first :: encodedTokens =>
    if first = 0x2F then do
      return ⟨← decodeTokens 0 (encodedTokens.splitOn 0x2F)⟩
    else .error .jsonPointerMustStartWithSlash

/-! ## Escapes -/

/-- Every tilde is followed by `0` or `1`. -/
def TildesEscaped (text : Text) : Prop :=
  ∀ front rest, text = front ++ 0x7E :: rest → rest.head? = some 0x30 ∨ rest.head? = some 0x31

/-- A pointer of RFC 6901 : empty, or a text that starts with a slash and has no other tildes
than those of the escapes. -/
def IsPointerText (text : Text) : Prop :=
  (text = [] ∨ text.head? = some 0x2F) ∧ TildesEscaped text

theorem tildesEscaped_nil : TildesEscaped [] := fun front rest h => by simp at h

theorem tildesEscaped_cons {byte : UInt8} :
    TildesEscaped (byte :: text) ↔
      (byte = 0x7E → text.head? = some 0x30 ∨ text.head? = some 0x31) ∧ TildesEscaped text := by
  constructor
  · refine fun h => ⟨?_, fun front rest htext => h (byte :: front) rest (by rw [htext]; rfl)⟩
    rintro rfl
    exact h [] text rfl
  · rintro ⟨hfirst, hrest⟩ front rest htext
    cases front with
    | nil =>
      obtain ⟨rfl, rfl⟩ := List.cons.inj htext
      exact hfirst rfl
    | cons other front => exact hrest front rest (List.cons.inj htext).2

/-- A slash stands behind no escape. -/
theorem tildesEscaped_append_slash {rest : Text} :
    TildesEscaped (text ++ 0x2F :: rest) ↔ TildesEscaped text ∧ TildesEscaped rest := by
  induction text with
  | nil => simp [tildesEscaped_cons, tildesEscaped_nil]
  | cons byte text ih =>
    rw [cons_append, tildesEscaped_cons, tildesEscaped_cons, ih, and_assoc]
    cases text <;> simp

theorem tildesEscaped_intercalate :
    TildesEscaped ([0x2F].intercalate parts) ↔ ∀ part ∈ parts, TildesEscaped part := by
  induction parts with
  | nil => simp [tildesEscaped_nil]
  | cons part parts ih =>
    cases parts with
    | nil => simp
    | cons next parts =>
      rw [intercalate_cons_of_ne_nil (cons_ne_nil _ _), forall_mem_cons, ← ih,
        ← tildesEscaped_append_slash, append_assoc]
      rfl

/-! ## Tokens -/

section Token

variable (tokenIndex byteOffset : Nat) (rest : Text)

theorem decodeToken_cons {character : UInt8} (h : character ≠ 0x7E) :
    decodeToken tokenIndex byteOffset (character :: rest) =
      (decodeToken tokenIndex (byteOffset + 1) rest).map (character :: ·) := by
  rw [decodeToken.eq_def]
  exact if_pos h

theorem decodeToken_tilde :
    decodeToken tokenIndex byteOffset (0x7E :: 0x30 :: rest) =
      (decodeToken tokenIndex (byteOffset + 2) rest).map (0x7E :: ·) := by
  rw [decodeToken.eq_def]
  rfl

theorem decodeToken_slash :
    decodeToken tokenIndex byteOffset (0x7E :: 0x31 :: rest) =
      (decodeToken tokenIndex (byteOffset + 2) rest).map (0x2F :: ·) := by
  rw [decodeToken.eq_def]
  rfl

end Token

/-- A token is decoded from its text. -/
theorem decodeToken_flatMap_escapeByte (tokenIndex byteOffset : Nat) (token : Text) :
    decodeToken tokenIndex byteOffset (token.flatMap escapeByte) = .ok token := by
  induction token generalizing byteOffset with
  | nil => rfl
  | cons byte token ih =>
    rw [flatMap_cons, escapeByte]
    split
    · rename_i heq
      subst heq
      rw [cons_append, cons_append, nil_append, decodeToken_tilde, ih]
      rfl
    split
    · rename_i heq
      subst heq
      rw [cons_append, cons_append, nil_append, decodeToken_slash, ih]
      rfl
    · rename_i htilde _
      rw [cons_append, nil_append, decodeToken_cons _ _ _ htilde, ih]
      rfl

/-- A text without slashes that decodes is the text of its token. -/
theorem flatMap_escapeByte_of_decodeToken {token : Text} (hslash : 0x2F ∉ text)
    (h : decodeToken tokenIndex byteOffset text = .ok token) :
    token.flatMap escapeByte = text := by
  fun_induction decodeToken tokenIndex byteOffset text generalizing token with
  | case1 byteOffset =>
    cases h
    rfl
  | case2 byteOffset character rest htilde ih =>
    obtain ⟨decoded, hdecoded, h⟩ := bind_eq_ok.mp h
    cases h
    have hfirst := ne_of_not_mem_cons hslash
    rw [flatMap_cons, ih (not_mem_of_not_mem_cons hslash) hdecoded, escapeByte,
      if_neg htilde, if_neg hfirst.symm]
    rfl
  | case3 => cases h
  | case4 byteOffset character htilde rest ih =>
    obtain ⟨decoded, hdecoded, h⟩ := bind_eq_ok.mp h
    cases h
    have hrest := not_mem_of_not_mem_cons (not_mem_of_not_mem_cons hslash)
    rw [flatMap_cons, ih hrest hdecoded, not_not.mp htilde]
    rfl
  | case5 byteOffset character htilde rest hne ih =>
    obtain ⟨decoded, hdecoded, h⟩ := bind_eq_ok.mp h
    cases h
    have hrest := not_mem_of_not_mem_cons (not_mem_of_not_mem_cons hslash)
    rw [flatMap_cons, ih hrest hdecoded, not_not.mp htilde]
    rfl
  | case6 => cases h

/-- The texts that decode. -/
theorem exists_decodeToken_iff :
    (∃ token, decodeToken tokenIndex byteOffset text = .ok token) ↔ TildesEscaped text := by
  have hmap {x : Except PointerError Text} (byte : UInt8) :
      (∃ token, x.map (byte :: ·) = .ok token) ↔ ∃ token, x = .ok token := by
    cases x <;> simp [Except.map]
  fun_induction decodeToken tokenIndex byteOffset text with
  | case1 byteOffset => simp [tildesEscaped_nil]
  | case2 byteOffset character rest htilde ih =>
    refine (hmap character).trans (Iff.trans ih ?_)
    simp [tildesEscaped_cons, htilde]
  | case3 byteOffset character htilde =>
    simp [tildesEscaped_cons, not_not.mp htilde]
  | case4 byteOffset character htilde rest ih =>
    refine (hmap 0x7E).trans (Iff.trans ih ?_)
    simp [tildesEscaped_cons]
  | case5 byteOffset character htilde rest hne ih =>
    refine (hmap 0x2F).trans (Iff.trans ih ?_)
    simp [tildesEscaped_cons]
  | case6 byteOffset character htilde escaped rest hzero hone =>
    simp [tildesEscaped_cons, not_not.mp htilde, hzero, hone]

/-! ## Pointers -/

theorem decodeTokens_map_flatMap_escapeByte (tokenIndex : Nat) (tokens : List Text) :
    decodeTokens tokenIndex (tokens.map fun token => token.flatMap escapeByte) = .ok tokens := by
  induction tokens generalizing tokenIndex with
  | nil => rfl
  | cons token tokens ih =>
    rw [map_cons, decodeTokens, decodeToken_flatMap_escapeByte, ok_bind, ih]
    rfl

theorem map_flatMap_escapeByte_of_decodeTokens {tokens : List Text}
    (hslash : ∀ part ∈ parts, 0x2F ∉ part) (h : decodeTokens tokenIndex parts = .ok tokens) :
    tokens.map (fun token => token.flatMap escapeByte) = parts := by
  induction parts generalizing tokenIndex tokens with
  | nil =>
    cases h
    rfl
  | cons part parts ih =>
    obtain ⟨hfirst, hrest⟩ := forall_mem_cons.mp hslash
    obtain ⟨decoded, hdecoded, h⟩ := bind_eq_ok.mp h
    obtain ⟨others, hothers, h⟩ := bind_eq_ok.mp h
    cases h
    rw [map_cons, flatMap_escapeByte_of_decodeToken hfirst hdecoded, ih hrest hothers]

theorem exists_decodeTokens_iff :
    (∃ tokens, decodeTokens tokenIndex parts = .ok tokens) ↔
      ∀ part ∈ parts, TildesEscaped part := by
  induction parts generalizing tokenIndex with
  | nil => simp [decodeTokens]
  | cons part parts ih =>
    rw [forall_mem_cons, ← ih, ← exists_decodeToken_iff]
    constructor
    · rintro ⟨tokens, h⟩
      obtain ⟨decoded, hdecoded, h⟩ := bind_eq_ok.mp h
      obtain ⟨others, hothers, -⟩ := bind_eq_ok.mp h
      exact ⟨⟨decoded, hdecoded⟩, others, hothers⟩
    · rintro ⟨⟨decoded, hdecoded⟩, others, hothers⟩
      refine ⟨decoded :: others, ?_⟩
      rw [decodeTokens, hdecoded, ok_bind, hothers]
      rfl

/-- The text of a pointer with a token is a slash and the tokens between slashes. -/
theorem pointerText_of_ne_nil {tokens : List Text} (h : tokens ≠ []) :
    pointerText ⟨tokens⟩ =
      0x2F :: [0x2F].intercalate (tokens.map fun token => token.flatMap escapeByte) := by
  rw [pointerText]
  induction tokens with
  | nil => exact absurd rfl h
  | cons token tokens ih =>
    cases tokens with
    | nil => simp
    | cons next tokens =>
      have hrest := ih (cons_ne_nil _ _)
      simp only [map_cons] at hrest ⊢
      rw [flatMap_cons, hrest, intercalate_cons_of_ne_nil (cons_ne_nil _ _)]
      simp

theorem not_mem_flatMap_escapeByte (token : Text) : 0x2F ∉ token.flatMap escapeByte := by
  rw [mem_flatMap]
  rintro ⟨byte, -, hbyte⟩
  unfold escapeByte at hbyte
  split_ifs at hbyte with htilde hslash
  · revert hbyte
    decide
  · revert hbyte
    decide
  · exact hslash (mem_singleton.mp hbyte).symm

/-- A pointer is parsed from its text. -/
theorem parsePointer_pointerText (pointer : JsonPointer) :
    parsePointer (pointerText pointer) = .ok pointer := by
  obtain ⟨tokens⟩ := pointer
  by_cases h : tokens = []
  · rw [h]
    rfl
  · have hsplit : List.splitOn 0x2F ([0x2F].intercalate
        (tokens.map fun token => token.flatMap escapeByte)) =
        tokens.map fun token => token.flatMap escapeByte := by
      refine splitOn_intercalate _ (fun part hpart => ?_) (by simpa using h)
      obtain ⟨token, -, rfl⟩ := mem_map.mp hpart
      exact not_mem_flatMap_escapeByte token
    rw [pointerText_of_ne_nil h, parsePointer, if_pos rfl, hsplit,
      decodeTokens_map_flatMap_escapeByte]
    rfl

theorem exists_parsePointer_iff :
    (∃ pointer, parsePointer value = .ok pointer) ↔ IsPointerText value := by
  cases value with
  | nil => simp [parsePointer, IsPointerText, tildesEscaped_nil]
  | cons first encodedTokens =>
    by_cases h : first = 0x2F
    · subst h
      have hparts : (∀ part ∈ encodedTokens.splitOn 0x2F, TildesEscaped part) ↔
          TildesEscaped encodedTokens := by
        rw [← tildesEscaped_intercalate, intercalate_splitOn]
      have hbind : (∃ pointer, parsePointer (0x2F :: encodedTokens) = .ok pointer) ↔
          ∃ tokens, decodeTokens 0 (encodedTokens.splitOn 0x2F) = .ok tokens := by
        rw [parsePointer, if_pos rfl]
        cases decodeTokens 0 (encodedTokens.splitOn 0x2F) with
        | error error => simp
        | ok tokens => simp [ok_bind, pure, Except.pure]
      rw [hbind, exists_decodeTokens_iff, hparts, IsPointerText, tildesEscaped_cons]
      simp
    · simp [parsePointer, IsPointerText, h]

/-- A parsed text is the text of its pointer. -/
theorem pointerText_of_parsePointer {pointer : JsonPointer} (h : parsePointer value = .ok pointer) :
    pointerText pointer = value := by
  cases value with
  | nil =>
    cases h
    rfl
  | cons first encodedTokens =>
    rw [parsePointer] at h
    split at h
    · rename_i hfirst
      subst hfirst
      obtain ⟨tokens, htokens, h⟩ := bind_eq_ok.mp h
      cases h
      have htexts := map_flatMap_escapeByte_of_decodeTokens
        (fun part hpart => Lines.not_mem_of_mem_splitOn hpart) htokens
      have hne : tokens ≠ [] := by
        rintro rfl
        exact splitOn_ne_nil _ _ htexts.symm
      rw [pointerText_of_ne_nil hne, htexts, intercalate_splitOn]
    · cases h

/-- Pointers and their texts are the same thing. -/
theorem jsonPointer_canonical :
    (∀ pointer, parsePointer (pointerText pointer) = .ok pointer) ∧
      (∀ value, (∃ pointer, parsePointer value = .ok pointer) ↔ IsPointerText value) ∧
      ∀ value pointer, parsePointer value = .ok pointer → pointerText pointer = value :=
  ⟨parsePointer_pointerText, fun _ => exists_parsePointer_iff,
    fun _ _ => pointerText_of_parsePointer⟩

/-- A token with both characters that are escaped. -/
theorem jsonPointer_canonical_escapes :
    parsePointer (Text.ofString "/a~1b~0") = .ok ⟨[Text.ofString "a/b~"]⟩ ∧
      pointerText ⟨[Text.ofString "a/b~"]⟩ = Text.ofString "/a~1b~0" := by
  have htext : pointerText ⟨[Text.ofString "a/b~"]⟩ = Text.ofString "/a~1b~0" := by decide
  have hparse : parsePointer (Text.ofString "/a~1b~0") = .ok ⟨[Text.ofString "a/b~"]⟩ :=
    htext ▸ jsonPointer_canonical.1 _
  exact ⟨hparse, jsonPointer_canonical.2.2 _ _ hparse⟩

end Catalog

end Elucid
