import Spdz.Config.Text

/-!
# JSON values and their texts

A value is data, and a text of it is a list of tokens with blanks around them.  A value has many texts:
blanks may stand before and after every token, and most characters of a string may be written in
several ways.

* `Json` — a value, with the members of an object in order and with repetitions.
* `Json.tokens` — the tokens of its texts.
* `Spells`, `Token.Shows` — the bytes that may write a string, and those that may write a token.
* `Spaced` — the bytes of tokens with blanks around them.
* `Json.IsWrittenAs` — that a text is one of the value.
-/

namespace Spdz.Config

/-! ## Numbers -/

/-- A decimal digit as it is written. -/
def digitByte (digit : Nat) : UInt8 := UInt8.ofNat (0x30 + digit)

/-- Decimal digits, of which there is at least one. -/
structure Figures where
  first : Fin 10
  more : List (Fin 10)

/-- The digits as they are written. -/
def Figures.shown (figures : Figures) : Bytes :=
  (figures.first :: figures.more).map fun digit => digitByte digit.val

/-- The exponent of a number, with the sign that is written and with none. -/
structure Exponent where
  capital : Bool
  sign : Option Bool
  figures : Figures

/-- The exponent as it is written. -/
def Exponent.shown (exponent : Exponent) : Bytes :=
  (if exponent.capital then 0x45 else 0x65) ::
    ((exponent.sign.elim [] fun negative => [if negative then 0x2d else 0x2b]) ++
      exponent.figures.shown)

/-- A number in decimal. Its whole part has no superfluous zeros. -/
structure Numeral where
  negative : Bool
  whole : Nat
  fraction : Option Figures
  exponent : Option Exponent

/-- A whole number in decimal. -/
def decimal (n : Nat) : Bytes := (Nat.toDigits 10 n).map Char.toUInt8

namespace Numeral

/-- What stands after the whole part. -/
def remainder (numeral : Numeral) : Bytes :=
  (numeral.fraction.elim [] fun figures => 0x2e :: figures.shown) ++
    numeral.exponent.elim [] Exponent.shown

/-- The number without its sign, as it is written. -/
def magnitude (numeral : Numeral) : Bytes := decimal numeral.whole ++ numeral.remainder

/-- The number as it is written. -/
def shown (numeral : Numeral) : Bytes :=
  (if numeral.negative then [0x2d] else []) ++ numeral.magnitude

/-- Whether neither a fraction nor an exponent follows the whole part. -/
def isPlain (numeral : Numeral) : Bool := numeral.fraction.isNone && numeral.exponent.isNone

/-- An integer, without fraction and exponent. -/
def ofInt (value : Int) : Numeral := ⟨value < 0, value.natAbs, none, none⟩

end Numeral

/-! ## Values -/

/-- A JSON value. -/
inductive Json where
  | null
  | boolean (value : Bool)
  | number (numeral : Numeral)
  | string (text : String)
  | list (elements : List Json)
  | object (entries : List (String × Json))

/-- The parts of a text that are not blank. -/
inductive Token where
  | sign (symbol : Char)
  | word (letters : List Char)
  | string (text : String)
  | number (numeral : Numeral)

namespace Json

/-- An integer. -/
def integer (value : Int) : Json := .number (.ofInt value)

/-- What holds of a value if it holds of the parts of it holds of all values. -/
theorem inductionOn {motive : Json → Prop} (null : motive null)
    (boolean : ∀ value, motive (boolean value)) (number : ∀ numeral, motive (number numeral))
    (string : ∀ text, motive (string text))
    (list : ∀ elements, (∀ element ∈ elements, motive element) → motive (list elements))
    (object : ∀ entries, (∀ entry ∈ entries, motive entry.2) → motive (object entries))
    (value : Json) : motive value :=
  @Json.rec motive (fun elements => ∀ element ∈ elements, motive element)
    (fun entries => ∀ entry ∈ entries, motive entry.2) (fun entry => motive entry.2)
    null boolean number string list object
    (List.forall_mem_nil _) (fun _ _ ofHead ofTail => List.forall_mem_cons.mpr ⟨ofHead, ofTail⟩)
    (List.forall_mem_nil _) (fun _ _ ofHead ofTail => List.forall_mem_cons.mpr ⟨ofHead, ofTail⟩)
    (fun _ _ ofValue => ofValue) value

/-- What stands before an element or a member: a comma, unless it is the first. -/
def separator (first : Bool) : List Token := if first then [] else [.sign ',']

mutual

/-- The tokens of a value. -/
def tokens : Json → List Token
  | null => [.word ['n', 'u', 'l', 'l']]
  | boolean true => [.word ['t', 'r', 'u', 'e']]
  | boolean false => [.word ['f', 'a', 'l', 's', 'e']]
  | number numeral => [.number numeral]
  | string text => [.string text]
  | list elements => .sign '[' :: elementTokens true elements
  | object entries => .sign '\x7b' :: entryTokens true entries

/-- The tokens of elements and of the end of the list. -/
def elementTokens (first : Bool) : List Json → List Token
  | [] => [.sign ']']
  | element :: later => separator first ++ element.tokens ++ elementTokens false later

/-- The tokens of members and of the end of the object. -/
def entryTokens (first : Bool) : List (String × Json) → List Token
  | [] => [.sign '\x7d']
  | (key, value) :: later =>
    separator first ++ [.string key] ++ (.sign ':' :: value.tokens) ++ entryTokens false later

end

end Json

/-! ## Texts -/

/-- The characters that a backslash and a letter stand for. -/
def escapes : List (Char × Char) :=
  [('"', '"'), ('\\', '\\'), ('/', '/'), ('b', '\x08'), ('f', '\x0c'), ('n', '\n'), ('r', '\r'),
    ('t', '\t')]

/-- The byte is the hexadecimal digit, in either case. -/
def IsHexDigit (digit : Nat) (byte : UInt8) : Prop :=
  byte = digit.digitChar.toUInt8 ∨ byte = digit.digitChar.toUpper.toUInt8

/-- The bytes are the four hexadecimal digits of a number of 16 bits. -/
structure IsHexUnit (unit : Nat) (a b c d : UInt8) : Prop where
  first : IsHexDigit (unit / 0x1000) a
  second : IsHexDigit (unit / 0x100 % 0x10) b
  third : IsHexDigit (unit / 0x10 % 0x10) c
  fourth : IsHexDigit (unit % 0x10) d

/-- The bytes spell the characters inside a string. A character stands for itself, after a backslash
for another one, or is given by its number; beyond 16 bits it takes two numbers. -/
inductive Spells : List Char → Bytes → Prop where
  | nil : Spells [] []
  | plain {c : Char} {chars : List Char} {bytes : Bytes} (visible : 0x20 ≤ c.toNat)
      (unquoted : c ≠ '"') (unescaped : c ≠ '\\') (later : Spells chars bytes) :
      Spells (c :: chars) (String.utf8EncodeChar c ++ bytes)
  | escape {c letter : Char} {chars : List Char} {bytes : Bytes} (known : (letter, c) ∈ escapes)
      (later : Spells chars bytes) : Spells (c :: chars) (0x5c :: letter.toUInt8 :: bytes)
  | unit {char : Char} {chars : List Char} {bytes : Bytes} {a b c d : UInt8}
      (short : char.toNat < 0x10000) (digits : IsHexUnit char.toNat a b c d)
      (later : Spells chars bytes) :
      Spells (char :: chars) (0x5c :: 0x75 :: a :: b :: c :: d :: bytes)
  | pair {char : Char} {chars : List Char} {bytes : Bytes} {a b c d e f g h : UInt8}
      (long : 0x10000 ≤ char.toNat)
      (leading : IsHexUnit (0xd800 + (char.toNat - 0x10000) / 0x400) a b c d)
      (trailing : IsHexUnit (0xdc00 + (char.toNat - 0x10000) % 0x400) e f g h)
      (later : Spells chars bytes) :
      Spells (char :: chars)
        (0x5c :: 0x75 :: a :: b :: c :: d :: 0x5c :: 0x75 :: e :: f :: g :: h :: bytes)

/-- The bytes write the token. -/
inductive Token.Shows : Token → Bytes → Prop where
  | sign {symbol : Char} (known : symbol ∈ ['[', ']', '\x7b', '\x7d', ',', ':']) :
      Shows (.sign symbol) [symbol.toUInt8]
  | word {letters : List Char}
      (known : letters ∈ [['n', 'u', 'l', 'l'], ['t', 'r', 'u', 'e'], ['f', 'a', 'l', 's', 'e']]) :
      Shows (.word letters) (letters.map Char.toUInt8)
  | string {text : String} {body : Bytes} (spelled : Spells text.toList body) :
      Shows (.string text) (0x22 :: body ++ [0x22])
  | number (numeral : Numeral) : Shows (.number numeral) numeral.shown

/-- All bytes are blanks. -/
def IsBlank (bytes : Bytes) : Prop := ∀ byte ∈ bytes, Reader.isBlank byte

/-- The bytes write the tokens, with blanks around them. -/
inductive Spaced : List Token → Bytes → Prop where
  | nil {blanks : Bytes} (blank : IsBlank blanks) : Spaced [] blanks
  | cons {token : Token} {tokens : List Token} {blanks shown bytes : Bytes} (blank : IsBlank blanks)
      (written : token.Shows shown) (later : Spaced tokens bytes) :
      Spaced (token :: tokens) (blanks ++ shown ++ bytes)

/-- The text writes the value. -/
def Json.IsWrittenAs (value : Json) (text : String) : Prop :=
  Spaced value.tokens text.toUTF8.toList

end Spdz.Config
