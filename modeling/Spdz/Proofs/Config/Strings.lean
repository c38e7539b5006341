import Spdz.Proofs.Config.Numerals

/-!
# Reading strings

A string has many spellings, and each is read back as the string.  What a spelling stands for is put
together in bytes, character by character, and is the UTF-8 form of the string in the end.

* `hexUnit?_of_isHexUnit` — four hexadecimal digits are read in either case.
* `stringBody_plain`, `stringBody_escape`, `stringBody_unit`, `stringBody_pair` — what is read for one
  character, in each of the ways to spell it.
* **`string_of_spells`** — a string is read back in every spelling.
* **`skipString_of_spells`** — it is skipped to the same place.
-/

namespace Spdz.Config.Reader

/-! ## Escapes -/

/-- A hexadecimal digit is read in either case. -/
theorem hexValue?_of_isHexDigit {digit : Nat} (small : digit < 0x10) {byte : UInt8}
    (shown : IsHexDigit digit byte) : hexValue? byte = some digit := by
  rcases shown with rfl | rfl <;> interval_cases digit <;> rfl

/-- Four hexadecimal digits are read. -/
theorem hexUnit?_of_isHexUnit {unit : Nat} (small : unit < 0x10000) {a b c d : UInt8}
    (shown : IsHexUnit unit a b c d) : hexUnit? a b c d = some unit := by
  have first := hexValue?_of_isHexDigit (by omega) shown.first
  have second := hexValue?_of_isHexDigit (by omega) shown.second
  have third := hexValue?_of_isHexDigit (by omega) shown.third
  have fourth := hexValue?_of_isHexDigit (by omega) shown.fourth
  rw [hexUnit?, first, second, third, fourth]
  refine congrArg some ?_
  omega

/-! ## What a string stands for -/

/-- The byte stands for itself inside a string. -/
structure IsPlain (byte : UInt8) : Prop where
  unquoted : byte ≠ 0x22
  visible : ¬byte < 0x20
  unescaped : byte ≠ 0x5c

/-- Numbers of bytes that stand for themselves. -/
theorem isPlain_ofNat {n : Nat} (visible : 0x20 ≤ n) (unquoted : n ≠ 0x22) (unescaped : n ≠ 0x5c)
    (small : n < 0x100) : IsPlain (UInt8.ofNat n) := by
  have value : (UInt8.ofNat n).toNat = n := UInt8.toNat_ofNat_of_lt' small
  refine ⟨fun same => unquoted ?_, fun below => ?_, fun same => unescaped ?_⟩
  · rw [← value, same]
    rfl
  · have less := UInt8.lt_iff_toNat_lt.mp below
    rw [value] at less
    exact absurd less (Nat.not_lt.mpr visible)
  · rw [← value, same]
    rfl

/-- A character that stands for itself has no special bytes. -/
theorem isPlain_of_mem_utf8EncodeChar {c : Char} (visible : 0x20 ≤ c.toNat) (unquoted : c ≠ '"')
    (unescaped : c ≠ '\\') {byte : UInt8} (present : byte ∈ String.utf8EncodeChar c) :
    IsPlain byte := by
  have high : ∀ n, 0x80 ≤ n → n < 0x100 → IsPlain (UInt8.ofNat n) := fun n low small =>
    isPlain_ofNat (by omega) (by omega) (by omega) small
  have quoteNumber : c.toNat ≠ 0x22 := fun same => unquoted (Char.toNat_inj.mp same)
  have backslashNumber : c.toNat ≠ 0x5c := fun same => unescaped (Char.toNat_inj.mp same)
  have number : c.val.toNat = c.toNat := rfl
  simp only [String.utf8EncodeChar, number] at present
  split_ifs at present with one two three
  all_goals simp only [List.mem_cons, List.not_mem_nil, or_false] at present
  · rw [present]
    exact isPlain_ofNat visible quoteNumber backslashNumber (by omega)
  · rcases present with rfl | rfl <;> exact high _ (by omega) (by omega)
  · rcases present with rfl | rfl | rfl <;> exact high _ (by omega) (by omega)
  · rcases present with rfl | rfl | rfl | rfl <;> exact high _ (by omega) (by omega)

/-- Bytes that stand for themselves are taken as they are. -/
theorem stringBody_plain {shown : Bytes} (plain : ∀ byte ∈ shown, IsPlain byte) (rest : Bytes) :
    stringBody (shown ++ rest) = stringBody.prepend shown (stringBody rest) := by
  induction shown with
  | nil =>
    rw [List.nil_append, stringBody.prepend]
    rcases stringBody rest with fault | ⟨more, after⟩ <;> rfl
  | cons byte later ih =>
    obtain ⟨unquoted, visible, unescaped⟩ := plain byte List.mem_cons_self
    rw [List.cons_append, stringBody.eq_def]
    dsimp only
    rw [if_neg unquoted, if_neg visible, if_pos unescaped,
      ih fun byte present => plain byte (List.mem_cons_of_mem _ present)]
    rcases stringBody rest with fault | ⟨more, after⟩ <;> rfl

/-- A backslash and a letter stand for a character. -/
theorem stringBody_escape {letter c : Char} (known : (letter, c) ∈ escapes) (rest : Bytes) :
    stringBody (0x5c :: letter.toUInt8 :: rest) =
      stringBody.prepend (String.utf8EncodeChar c) (stringBody rest) := by
  simp only [escapes, List.mem_cons, Prod.mk.injEq, List.not_mem_nil, or_false] at known
  rcases known with ⟨rfl, rfl⟩ | ⟨rfl, rfl⟩ | ⟨rfl, rfl⟩ | ⟨rfl, rfl⟩ | ⟨rfl, rfl⟩ | ⟨rfl, rfl⟩ |
    ⟨rfl, rfl⟩ | ⟨rfl, rfl⟩ <;> rfl

/-- The numbers that characters have. -/
theorem toNat_valid (c : Char) : c.toNat < 0xd800 ∨ 0xdfff < c.toNat ∧ c.toNat < 0x110000 := c.valid

/-- A character is never one half of another one. -/
theorem not_surrogate (c : Char) : isTrailing c.toNat = false ∧ isLeading c.toNat = false := by
  have valid := toNat_valid c
  simp only [isTrailing, isLeading, Bool.and_eq_false_iff, decide_eq_false_iff_not]
  omega

/-- A character is read by its number. -/
theorem stringBody_unit {char : Char} (short : char.toNat < 0x10000) {a b c d : UInt8}
    (shown : IsHexUnit char.toNat a b c d) (rest : Bytes) :
    stringBody (0x5c :: 0x75 :: a :: b :: c :: d :: rest) =
      stringBody.prepend (String.utf8EncodeChar char) (stringBody rest) := by
  obtain ⟨notTrailing, notLeading⟩ := not_surrogate char
  rw [stringBody, if_neg (by decide), if_neg (by decide), if_neg (by decide)]
  rw [hexUnit?_of_isHexUnit short shown]
  dsimp only
  rw [notTrailing, notLeading, if_neg (by decide), if_neg (by decide), codePoint, Char.ofNat_toNat]

/-- The two numbers of a long character tell it. -/
theorem unpair {number : Nat} (long : 0x10000 ≤ number) (below : number < 0x110000) :
    isTrailing (0xd800 + (number - 0x10000) / 0x400) = false ∧
    isLeading (0xd800 + (number - 0x10000) / 0x400) = true ∧
    isTrailing (0xdc00 + (number - 0x10000) % 0x400) = true ∧
    0x10000 + (0xd800 + (number - 0x10000) / 0x400 - 0xd800) * 0x400 +
      (0xdc00 + (number - 0x10000) % 0x400 - 0xdc00) = number := by
  simp only [isTrailing, isLeading, Bool.and_eq_false_iff, Bool.and_eq_true, decide_eq_true_eq,
    decide_eq_false_iff_not]
  omega

/-- A long character is read by two numbers in a row. -/
theorem stringBody_pair {char : Char} (long : 0x10000 ≤ char.toNat) {a b c d e f g h : UInt8}
    (leading : IsHexUnit (0xd800 + (char.toNat - 0x10000) / 0x400) a b c d)
    (trailing : IsHexUnit (0xdc00 + (char.toNat - 0x10000) % 0x400) e f g h) (rest : Bytes) :
    stringBody (0x5c :: 0x75 :: a :: b :: c :: d :: 0x5c :: 0x75 :: e :: f :: g :: h :: rest) =
      stringBody.prepend (String.utf8EncodeChar char) (stringBody rest) := by
  have below : char.toNat < 0x110000 := by
    have valid := toNat_valid char
    omega
  obtain ⟨notTrailing, isLeading, isTrailing, together⟩ := unpair long below
  rw [stringBody, if_neg (by decide), if_neg (by decide), if_neg (by decide)]
  rw [hexUnit?_of_isHexUnit (by omega) leading]
  dsimp only
  rw [notTrailing, if_neg (by decide), if_pos isLeading]
  split
  case h_1 same =>
    simp only [List.cons.injEq, true_and] at same
    obtain ⟨rfl, rfl, rfl, rfl, rfl⟩ := same
    rw [hexUnit?_of_isHexUnit (by omega) trailing]
    dsimp only
    rw [if_pos isTrailing, together, codePoint, Char.ofNat_toNat]
  case h_2 same => exact nomatch same
  case h_3 same => exact nomatch same
  case h_4 other same => exact (other e f g h rest (List.cons.inj (List.cons.inj same).2).2.symm).elim
  case h_5 other _ _ _ => exact (other e f g h rest rfl).elim

/-- The bytes that spell a string are read as the string, up to its closing quotation mark. -/
theorem stringBody_of_spells {chars : List Char} {body : Bytes} (spelled : Spells chars body)
    (rest : Bytes) :
    stringBody (body ++ 0x22 :: rest) = .ok (chars.flatMap String.utf8EncodeChar, rest) := by
  induction spelled with
  | nil => rw [List.nil_append, stringBody.eq_def]; rfl
  | plain visible unquoted unescaped later ih =>
    rw [List.append_assoc, stringBody_plain fun byte present =>
      isPlain_of_mem_utf8EncodeChar visible unquoted unescaped present, ih]
    rfl
  | escape known later ih =>
    simp only [List.cons_append]
    rw [stringBody_escape known, ih]
    rfl
  | unit short digits later ih =>
    simp only [List.cons_append]
    rw [stringBody_unit short digits, ih]
    rfl
  | pair long leading trailing later ih =>
    simp only [List.cons_append]
    rw [stringBody_pair long leading trailing, ih]
    rfl

/-- **A string is read back in every spelling.** -/
theorem string_of_spells {text : String} {body : Bytes} (spelled : Spells text.toList body)
    (rest : Bytes) : string (body ++ 0x22 :: rest) = .ok (text, rest) := by
  have decoded : String.fromUTF8? ⟨(text.toList.flatMap String.utf8EncodeChar).toArray⟩ =
      some text := by
    have encoded : (⟨(text.toList.flatMap String.utf8EncodeChar).toArray⟩ : ByteArray) =
        text.toByteArray := by
      rw [← String.utf8Encode_toList, List.utf8Encode]
      exact ByteArray.ext List.data_toByteArray.symm
    rw [encoded, String.fromUTF8?, dif_pos text.isValidUTF8]
    rfl
  have content := lift_of_ok (stringBody_of_spells spelled rest) (body ++ 0x22 :: rest)
  refine (bind_of_ok rfl).trans ((bind_of_ok content).trans ((bind_of_ok rfl).trans ?_))
  rw [decoded]
  rfl

/-! ## Skipped strings -/

/-- Bytes that stand for themselves are skipped. -/
theorem skipStringBody_plain {shown : Bytes} (plain : ∀ byte ∈ shown, IsPlain byte) (rest : Bytes) :
    skipStringBody (shown ++ rest) = skipStringBody rest := by
  induction shown with
  | nil => rfl
  | cons byte later ih =>
    obtain ⟨unquoted, visible, unescaped⟩ := plain byte List.mem_cons_self
    rw [List.cons_append, skipStringBody.eq_def]
    dsimp only
    rw [if_neg unquoted, if_neg visible, if_pos unescaped,
      ih fun byte present => plain byte (List.mem_cons_of_mem _ present)]

/-- A backslash and a letter are skipped. -/
theorem skipStringBody_escape {letter c : Char} (known : (letter, c) ∈ escapes) (rest : Bytes) :
    skipStringBody (0x5c :: letter.toUInt8 :: rest) = skipStringBody rest := by
  simp only [escapes, List.mem_cons, Prod.mk.injEq, List.not_mem_nil, or_false] at known
  rcases known with ⟨rfl, rfl⟩ | ⟨rfl, rfl⟩ | ⟨rfl, rfl⟩ | ⟨rfl, rfl⟩ | ⟨rfl, rfl⟩ | ⟨rfl, rfl⟩ |
    ⟨rfl, rfl⟩ | ⟨rfl, rfl⟩ <;> rfl

/-- A number of 16 bits is skipped, be it a character or one half of it. -/
theorem skipStringBody_unit {unit : Nat} (short : unit < 0x10000) {a b c d : UInt8}
    (shown : IsHexUnit unit a b c d) (rest : Bytes) :
    skipStringBody (0x5c :: 0x75 :: a :: b :: c :: d :: rest) = skipStringBody rest := by
  rw [skipStringBody, if_neg (by decide), if_neg (by decide), if_neg (by decide),
    hexUnit?_of_isHexUnit short shown]
  rfl

/-- The end of a string does not depend on what the string stands for. -/
theorem skipStringBody_of_spells {chars : List Char} {body : Bytes} (spelled : Spells chars body)
    (rest : Bytes) : skipStringBody (body ++ 0x22 :: rest) = .ok rest := by
  induction spelled with
  | nil => rw [List.nil_append, skipStringBody.eq_def]; rfl
  | plain visible unquoted unescaped later ih =>
    rw [List.append_assoc, skipStringBody_plain fun byte present =>
      isPlain_of_mem_utf8EncodeChar visible unquoted unescaped present, ih]
  | escape known later ih =>
    simp only [List.cons_append]
    rw [skipStringBody_escape known, ih]
  | unit short digits later ih =>
    simp only [List.cons_append]
    rw [skipStringBody_unit short digits, ih]
  | @pair char _ _ _ _ _ _ _ _ _ _ long leading trailing later ih =>
    have valid := toNat_valid char
    simp only [List.cons_append]
    rw [skipStringBody_unit (by omega) leading, skipStringBody_unit (by omega) trailing, ih]

/-- **A string is skipped to its closing quotation mark.** -/
theorem skipString_of_spells {chars : List Char} {body : Bytes} (spelled : Spells chars body)
    (rest : Bytes) : skipString (body ++ 0x22 :: rest) = .ok ((), rest) :=
  bind_of_ok (lift_of_ok (skipStringBody_of_spells spelled rest) (body ++ 0x22 :: rest))

end Spdz.Config.Reader
