import Spdz.Proofs.Config.Reading

/-!
# Writing values

Every value has a text.  One is written here: the tokens one after the other, with the same blanks
around all of them.

* `Json.text` — a text of the value.
* **`Json.isWrittenAs_text`** — it writes the value.
-/

namespace Spdz.Config

/-! ## Bytes and characters -/

/-- The bytes of text without any other characters than those of seven bits. -/
theorem flatMap_utf8EncodeChar_ofUInt8 {bytes : Bytes} (ascii : ∀ byte ∈ bytes, byte < 0x80) :
    (bytes.map Char.ofUInt8).flatMap String.utf8EncodeChar = bytes := by
  induction bytes with
  | nil => rfl
  | cons byte bytes ih =>
    have small := UInt8.lt_iff_toNat_lt.mp (ascii byte List.mem_cons_self)
    have value : (Char.ofUInt8 byte).val.toNat = byte.toNat := UInt8.toNat_toUInt32 byte
    change byte.toNat < 128 at small
    have single : String.utf8EncodeChar (Char.ofUInt8 byte) = [byte] := by
      simp only [String.utf8EncodeChar, value]
      rw [if_pos (by omega), UInt8.ofNat_toNat]
    rw [List.map_cons, List.flatMap_cons, single, ih fun other among =>
      ascii other (List.mem_cons_of_mem _ among)]
    rfl

/-- A character as it may stand inside a string. -/
def spell (c : Char) : List Char :=
  if c = '"' ∨ c = '\\' then ['\\', c]
  else if c.toNat < 0x20 then
    ['\\', 'u', '0', '0', (c.toNat / 0x10).digitChar, (c.toNat % 0x10).digitChar]
  else [c]

/-- The characters of a token. -/
def Token.chars : Token → List Char
  | sign symbol => [symbol]
  | word letters => letters
  | string text => '"' :: text.toList.flatMap spell ++ ['"']
  | number numeral => numeral.shown.map Char.ofUInt8

/-- A hexadecimal digit is one byte. -/
theorem utf8EncodeChar_digitChar {digit : Nat} (small : digit < 0x10) :
    String.utf8EncodeChar digit.digitChar = [digit.digitChar.toUInt8] := by
  interval_cases digit <;> rfl

/-- The number of a control character has two zeros before two other digits. -/
theorem isHexUnit_of_lt {n : Nat} (control : n < 0x20) :
    IsHexUnit n 0x30 0x30 (n / 0x10).digitChar.toUInt8 (n % 0x10).digitChar.toUInt8 := by
  have first : n / 0x1000 = 0 := by omega
  have second : n / 0x100 % 0x10 = 0 := by omega
  have third : n / 0x10 % 0x10 = n / 0x10 := by omega
  refine ⟨?_, ?_, ?_, .inl rfl⟩
  · rw [first]
    exact .inl rfl
  · rw [second]
    exact .inl rfl
  · rw [third]
    exact .inl rfl

/-- A character is spelled in front of others. -/
theorem spells_spell {c : Char} {chars : List Char} {bytes : Bytes} (later : Spells chars bytes) :
    Spells (c :: chars) ((spell c).flatMap String.utf8EncodeChar ++ bytes) := by
  rw [spell]
  split_ifs with special control
  · rcases special with rfl | rfl
    · exact .escape (by decide : ('"', '"') ∈ escapes) later
    · exact .escape (by decide : ('\\', '\\') ∈ escapes) later
  · have high := utf8EncodeChar_digitChar (by omega : c.toNat / 0x10 < 0x10)
    have low := utf8EncodeChar_digitChar (by omega : c.toNat % 0x10 < 0x10)
    simp only [List.flatMap_cons, List.flatMap_nil, high, low]
    exact .unit (by omega) (isHexUnit_of_lt control) later
  · rw [not_or] at special
    rw [List.flatMap_cons, List.flatMap_nil, List.append_nil]
    exact .plain (Nat.not_lt.mp control) special.1 special.2 later

/-- A string is spelled by its characters one after the other. -/
theorem spells_flatMap_spell (chars : List Char) :
    Spells chars ((chars.flatMap spell).flatMap String.utf8EncodeChar) := by
  induction chars with
  | nil => exact .nil
  | cons c chars ih =>
    rw [List.flatMap_cons, List.flatMap_append]
    exact spells_spell ih

/-! ## Numbers are written in characters of seven bits -/

/-- A digit is a byte of seven bits. -/
theorem ascii_digitByte {digit : Nat} (small : digit < 10) : digitByte digit < 0x80 := by
  interval_cases digit <;> decide

theorem Figures.ascii (figures : Figures) : ∀ byte ∈ figures.shown, byte < 0x80 := by
  intro byte present
  obtain ⟨digit, -, rfl⟩ := List.mem_map.mp present
  exact ascii_digitByte digit.isLt

theorem Exponent.ascii (exponent : Exponent) : ∀ byte ∈ exponent.shown, byte < 0x80 := by
  obtain ⟨capital, sign, figures⟩ := exponent
  refine List.forall_mem_cons.mpr ⟨?_, fun byte present => ?_⟩
  · dsimp only
    split <;> decide
  rcases List.mem_append.mp present with signed | figure
  · rcases sign with _ | _ | _
    · exact absurd signed List.not_mem_nil
    · rw [List.mem_singleton.mp signed]
      decide
    · rw [List.mem_singleton.mp signed]
      decide
  · exact figures.ascii byte figure

theorem Numeral.ascii (numeral : Numeral) : ∀ byte ∈ numeral.shown, byte < 0x80 := by
  obtain ⟨negative, whole, fraction, exponent⟩ := numeral
  intro byte present
  simp only [shown, magnitude, remainder, List.mem_append] at present
  rcases present with sign | digit | point | power
  · cases negative with
    | false => exact absurd sign List.not_mem_nil
    | true =>
      rw [List.mem_singleton.mp sign]
      decide
  · rw [decimal_eq] at digit
    obtain ⟨digit, among, rfl⟩ := List.mem_map.mp digit
    exact ascii_digitByte (lt_of_mem_digitsOf _ _ among)
  · cases fraction with
    | none => exact absurd point List.not_mem_nil
    | some figures =>
      rcases List.mem_cons.mp point with rfl | figure
      · decide
      · exact figures.ascii byte figure
  · cases exponent with
    | none => exact absurd power List.not_mem_nil
    | some exponent => exact exponent.ascii byte power

/-! ## Tokens -/

/-- The token is one of those that values have. -/
def Token.IsKnown : Token → Prop
  | sign symbol => symbol ∈ ['[', ']', '\x7b', '\x7d', ',', ':']
  | word letters => letters ∈ [['n', 'u', 'l', 'l'], ['t', 'r', 'u', 'e'], ['f', 'a', 'l', 's', 'e']]
  | string _ | number _ => True

/-- The characters of a token write it. -/
theorem Token.shows_chars {token : Token} (known : token.IsKnown) :
    token.Shows (token.chars.flatMap String.utf8EncodeChar) := by
  cases token with
  | sign symbol =>
    have written := Token.Shows.sign known
    simp only [IsKnown, List.mem_cons, List.not_mem_nil, or_false] at known
    rcases known with rfl | rfl | rfl | rfl | rfl | rfl <;> exact written
  | word letters =>
    have written := Token.Shows.word known
    simp only [IsKnown, List.mem_cons, List.not_mem_nil, or_false] at known
    rcases known with rfl | rfl | rfl <;> exact written
  | string text =>
    have written := Token.Shows.string (spells_flatMap_spell text.toList)
    simp only [chars, List.cons_append, List.flatMap_cons, List.flatMap_append]
    exact written
  | number numeral =>
    rw [chars, flatMap_utf8EncodeChar_ofUInt8 numeral.ascii]
    exact .number numeral

namespace Json

theorem isKnown_separator (first : Bool) : ∀ token ∈ separator first, token.IsKnown := by
  intro token present
  cases first with
  | true => exact absurd present List.not_mem_nil
  | false =>
    rw [List.mem_singleton.mp present]
    exact (by decide : ',' ∈ ['[', ']', '\x7b', '\x7d', ',', ':'])

theorem isKnown_elementTokens {elements : List Json}
    (each : ∀ element ∈ elements, ∀ token ∈ element.tokens, token.IsKnown) (first : Bool) :
    ∀ token ∈ elementTokens first elements, token.IsKnown := by
  induction elements generalizing first with
  | nil =>
    rw [elementTokens, List.forall_mem_singleton]
    exact (by decide : ']' ∈ ['[', ']', '\x7b', '\x7d', ',', ':'])
  | cons element later ih =>
    obtain ⟨ofElement, ofLater⟩ := List.forall_mem_cons.mp each
    rw [elementTokens, List.forall_mem_append, List.forall_mem_append]
    exact ⟨⟨isKnown_separator first, ofElement⟩, ih ofLater false⟩

theorem isKnown_entryTokens {entries : List (String × Json)}
    (each : ∀ entry ∈ entries, ∀ token ∈ entry.2.tokens, token.IsKnown) (first : Bool) :
    ∀ token ∈ entryTokens first entries, token.IsKnown := by
  induction entries generalizing first with
  | nil =>
    rw [entryTokens, List.forall_mem_singleton]
    exact (by decide : '\x7d' ∈ ['[', ']', '\x7b', '\x7d', ',', ':'])
  | cons entry later ih =>
    obtain ⟨ofEntry, ofLater⟩ := List.forall_mem_cons.mp each
    rw [entryTokens, List.forall_mem_append, List.forall_mem_append, List.forall_mem_append,
      List.forall_mem_singleton, List.forall_mem_cons]
    exact ⟨⟨⟨isKnown_separator first, trivial⟩,
      (by decide : ':' ∈ ['[', ']', '\x7b', '\x7d', ',', ':']), ofEntry⟩, ih ofLater false⟩

/-- Values have known tokens only. -/
theorem isKnown_tokens (value : Json) : ∀ token ∈ value.tokens, token.IsKnown := by
  induction value using inductionOn with
  | null => rw [tokens, List.forall_mem_singleton]; exact List.mem_cons_self
  | boolean value =>
    cases value <;> (rw [tokens, List.forall_mem_singleton]; simp [Token.IsKnown])
  | number numeral => rw [tokens, List.forall_mem_singleton]; trivial
  | string text => rw [tokens, List.forall_mem_singleton]; trivial
  | list elements each =>
    rw [tokens, List.forall_mem_cons]
    exact ⟨List.mem_cons_self, isKnown_elementTokens each true⟩
  | object entries each =>
    rw [tokens, List.forall_mem_cons]
    exact ⟨(by decide : '\x7b' ∈ ['[', ']', '\x7b', '\x7d', ',', ':']), isKnown_entryTokens each true⟩

end Json

/-! ## Texts -/

/-- The bytes of an array from a position on, in order. -/
theorem toList_loop (array : ByteArray) (position : Nat) (taken : Bytes) :
    ByteArray.toList.loop array position taken =
      taken.reverse ++ array.data.toList.drop position := by
  fun_induction ByteArray.toList.loop array position taken with
  | case1 position taken inside ih =>
    have within : position < array.data.toList.length := by simpa using inside
    rw [ih, List.drop_eq_getElem_cons within]
    simp [ByteArray.get!, inside]
  | case2 position taken outside =>
    rw [List.drop_eq_nil_of_le (by simpa using Nat.le_of_not_lt outside), List.append_nil]

/-- The bytes of a text are those of its characters. -/
theorem toList_toUTF8_ofList (chars : List Char) :
    (String.ofList chars).toUTF8.toList = chars.flatMap String.utf8EncodeChar := by
  rw [String.toUTF8_eq_toByteArray, String.toByteArray_ofList, ByteArray.toList, toList_loop,
    List.utf8Encode, List.toList_data_toByteArray]
  rfl

/-- The characters of tokens, with blanks before each of them and at the end, write the tokens. -/
theorem spaced_flatMap {blanks : List Char} (blank : IsBlank (blanks.flatMap String.utf8EncodeChar))
    {tokens : List Token} (known : ∀ token ∈ tokens, token.IsKnown) :
    Spaced tokens ((tokens.flatMap (fun token => blanks ++ token.chars) ++ blanks).flatMap
      String.utf8EncodeChar) := by
  induction tokens with
  | nil => exact .nil blank
  | cons token tokens ih =>
    obtain ⟨ofToken, ofLater⟩ := List.forall_mem_cons.mp known
    have written := Spaced.cons blank (Token.shows_chars ofToken) (ih ofLater)
    simpa only [List.flatMap_cons, List.flatMap_append, List.append_assoc] using written

/-- The value as a text with the given blanks before each token and at the end. -/
def Json.text (blanks : List Char) (value : Json) : String :=
  .ofList (value.tokens.flatMap (fun token => blanks ++ token.chars) ++ blanks)

/-- **Every value has texts**, with any blanks. -/
theorem Json.isWrittenAs_text (blanks : List Char)
    (blank : IsBlank (blanks.flatMap String.utf8EncodeChar)) (value : Json) :
    value.IsWrittenAs (value.text blanks) := by
  rw [IsWrittenAs, text, toList_toUTF8_ofList]
  exact spaced_flatMap blank value.isKnown_tokens

end Spdz.Config
