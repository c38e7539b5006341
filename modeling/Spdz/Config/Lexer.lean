import Spdz.Bytes
import Spdz.Config.Fault

/-!
# Words, numbers and strings of a configuration text

A text is read from left to right. A reader takes bytes off the front of what is left of it, or
says what is wrong.

* `Reader` — a step of reading.
* `Reader.string`, `Reader.number`, `Reader.word` — the smallest parts of a JSON text.
* `Reader.reject` — the fault of finding something else than what is wanted.

Numbers without fraction and exponent that fit 64 bits are whole, all others are binary64 numbers.
-/

namespace Spdz.Config

/-- A step of reading: from the rest of the text to a result and the rest that follows it. -/
abbrev Reader := StateT Bytes (Except Fault)

namespace Reader

variable {α : Type}

/-! ## Steps -/

/-- The text breaks the grammar here. -/
def malformed (how : Malformation) : Reader α := throw (.malformed how)

/-- The text ends here, in the middle of something. -/
def truncated (inside : Construct) : Reader α := throw (.truncated inside)

/-- A space, a tabulator or the end of a line. -/
def isBlank (byte : UInt8) : Bool := byte == 0x20 || byte == 0x09 || byte == 0x0a || byte == 0x0d

/-- The byte at the front of the rest as a character, none at the end of the text. -/
def front : Reader (Option Char) := do
  return (← get).head?.map Char.ofUInt8

/-- The byte at the front of the rest after blanks. -/
def peek : Reader (Option Char) := do
  modify (List.dropWhile isBlank)
  front

/-- Take one byte off the rest. -/
def advance : Reader Unit := modify List.tail

/-! ## Words -/

/-- Take the given letters off the rest. -/
def word : (letters : List Char) → Reader Unit
  | [] => pure ()
  | letter :: letters => do
    match ← front with
    | none => truncated .value
    | some found =>
      advance
      if found = letter then word letters else malformed .expectedWord

/-! ## Strings -/

/-- The value of a hexadecimal digit in either case. -/
def hexValue? (byte : UInt8) : Option Nat :=
  if 0x30 ≤ byte ∧ byte ≤ 0x39 then some (byte.toNat - 0x30)
  else if 0x41 ≤ byte ∧ byte ≤ 0x46 then some (byte.toNat - 0x41 + 10)
  else if 0x61 ≤ byte ∧ byte ≤ 0x66 then some (byte.toNat - 0x61 + 10)
  else none

/-- The value of four hexadecimal digits. -/
def hexUnit? (a b c d : UInt8) : Option Nat := do
  let a ← hexValue? a
  let b ← hexValue? b
  let c ← hexValue? c
  let d ← hexValue? d
  return ((16 * a + b) * 16 + c) * 16 + d

/-- What a single letter after a backslash stands for. -/
def escape? (letter : UInt8) : Option UInt8 :=
  match Char.ofUInt8 letter with
  | '"' => some 0x22
  | '\\' => some 0x5c
  | '/' => some 0x2f
  | 'b' => some 0x08
  | 'f' => some 0x0c
  | 'n' => some 0x0a
  | 'r' => some 0x0d
  | 't' => some 0x09
  | _ => none

/-- The first of the two numbers that write a character beyond 16 bits. -/
def isLeading (unit : Nat) : Bool := 0xd800 ≤ unit && unit ≤ 0xdbff

/-- The second of the two numbers that write a character beyond 16 bits. -/
def isTrailing (unit : Nat) : Bool := 0xdc00 ≤ unit && unit ≤ 0xdfff

/-- The bytes of the character with the given number. -/
def codePoint (number : Nat) : Bytes := String.utf8EncodeChar (Char.ofNat number)

/-- The bytes that a string stands for, up to its closing quotation mark, and the rest. A character
beyond 16 bits is escaped by two numbers in a row. -/
def stringBody : Bytes → Except Fault (Bytes × Bytes)
  | [] => throw (.truncated .string)
  | byte :: rest =>
    if byte = 0x22 then pure ([], rest)
    else if byte < 0x20 then throw (.malformed .controlCharacter)
    else if byte ≠ 0x5c then prepend [byte] (stringBody rest)
    else match rest with
      | [] => throw (.truncated .string)
      | 0x75 :: a :: b :: c :: d :: rest =>
        match hexUnit? a b c d with
        | none => throw (.malformed .invalidEscape)
        | some unit =>
          if isTrailing unit then throw (.malformed .loneSurrogate)
          else if isLeading unit then
            match rest with
            | 0x5c :: 0x75 :: e :: f :: g :: h :: rest =>
              match hexUnit? e f g h with
              | none => throw (.malformed .invalidEscape)
              | some low =>
                if isTrailing low then
                  prepend (codePoint (0x10000 + (unit - 0xd800) * 0x400 + (low - 0xdc00)))
                    (stringBody rest)
                else throw (.malformed .loneSurrogate)
            | [] | [0x5c] | 0x5c :: 0x75 :: _ => throw (.truncated .string)
            | _ => throw (.malformed .cutHexEscape)
          else prepend (codePoint unit) (stringBody rest)
      | 0x75 :: _ => throw (.truncated .string)
      | letter :: rest =>
        match escape? letter with
        | some byte => prepend [byte] (stringBody rest)
        | none => throw (.malformed .invalidEscape)
where
  /-- Put bytes before those that a later part of the string stands for. -/
  prepend (bytes : Bytes) (later : Except Fault (Bytes × Bytes)) : Except Fault (Bytes × Bytes) :=
    later.map fun (more, rest) => (bytes ++ more, rest)

/-- The string whose opening quotation mark was just taken. -/
def string : Reader String := do
  let (content, rest) ← stringBody (← get)
  set rest
  match String.fromUTF8? ⟨content.toArray⟩ with
  | some text => pure text
  | none => malformed .invalidCodePoint

/-! ## Numbers -/

/-- A number of the text. -/
inductive Number where
  | whole (value : Int)
  | decimal (value : Binary64)

/-- The digits at the front of the rest. -/
def digits : Reader (List Nat) := do
  let rest ← get
  let isDigit (byte : UInt8) : Bool := 0x30 ≤ byte && byte ≤ 0x39
  set (rest.dropWhile isDigit)
  return (rest.takeWhile isDigit).map fun byte => byte.toNat - 0x30

/-- There are no digits where there must be some. -/
def missingDigits : Reader α := do
  if (← get).isEmpty then truncated .value else malformed .invalidNumber

/-- Continue a 64-bit number by as many digits as fit: the number, how many digits it took and how
many it left. -/
def accumulate : (significand : Nat) → List Nat → Nat × Nat × Nat
  | significand, [] => (significand, 0, 0)
  | significand, digit :: more =>
    let next := 10 * significand + digit
    if next < UInt64.size then
      let (significand, taken, left) := accumulate next more
      (significand, taken + 1, left)
    else (significand, 0, more.length + 1)

/-- The binary64 number `significand * 10 ^ power`. -/
def scaled (negative : Bool) (significand : Nat) (power : Int) : Reader Number :=
  match (Binary64.round significand 1).bind (·.scaleByTen power) with
  | some value => pure (.decimal (value.signed negative))
  | none => malformed .numberOutOfRange

/-- The number whose exponent begins at the front of the rest. An exponent beyond 31 bits makes
every number too large or zero. -/
def exponent (negative : Bool) (significand : Nat) (power : Int) : Reader Number := do
  advance
  let sign ← front
  if sign = some '+' ∨ sign = some '-' then advance
  let shown ← digits
  if shown.isEmpty then missingDigits
  let value : Nat := shown.foldl (fun value digit => 10 * value + digit) 0
  if 2 * value < UInt32.size then
    scaled negative significand (if sign = some '-' then power - value else power + value)
  else if significand ≠ 0 ∧ sign ≠ some '-' then malformed .numberOutOfRange
  else pure (.decimal (Binary64.zero.signed negative))

/-- The number whose fraction begins at the front of the rest. Digits that no longer fit are left
out. -/
def fraction (negative : Bool) (significand : Nat) (power : Int) : Reader Number := do
  advance
  let shown ← digits
  if shown.isEmpty then missingDigits
  let (significand, taken, _) := accumulate significand shown
  match ← front with
  | some 'e' | some 'E' => exponent negative significand (power - taken)
  | _ => scaled negative significand (power - taken)

/-- A number without fraction and exponent. Zero has a sign only as a binary64 number, and so has
what is below `- 2 ^ 63`. -/
def integer (negative : Bool) (significand : Nat) : Reader Number :=
  if !negative then pure (.whole significand)
  else if significand = 0 ∨ 2 * significand > UInt64.size then scaled true significand 0
  else pure (.whole (-significand))

/-- The number at the front of the rest, its sign already taken. Digits of the whole part that no
longer fit count as zeros. -/
def number (negative : Bool) : Reader Number := do
  let shown ← digits
  match shown with
  | [] => missingDigits
  | 0 :: _ :: _ => malformed .invalidNumber
  | _ =>
    let (significand, _, left) := accumulate 0 shown
    match ← front with
    | some '.' => fraction negative significand left
    | some 'e' | some 'E' => exponent negative significand left
    | _ => if left = 0 then integer negative significand else scaled negative significand left

/-! ## Something else than what is wanted -/

/-- The fault of finding a number. -/
def rejectNumber (number : Number) (expected : Expected) : Reader α :=
  match number with
  | .whole value => throw (.wrongType (.integer value) expected)
  | .decimal value => throw (.wrongType (.decimal value) expected)

/-- The fault of finding what stands at the front of the rest. It is read as far as its words
need. -/
def reject (expected : Expected) : Reader α := do
  match ← front with
  | some 'n' =>
    advance
    word ['u', 'l', 'l']
    throw (.wrongType .null expected)
  | some 't' =>
    advance
    word ['r', 'u', 'e']
    throw (.wrongType (.boolean true) expected)
  | some 'f' =>
    advance
    word ['a', 'l', 's', 'e']
    throw (.wrongType (.boolean false) expected)
  | some '"' =>
    advance
    let text ← string
    throw (.wrongType (.string text) expected)
  | some '[' => throw (.wrongType .list expected)
  | some '\x7b' => throw (.wrongType .object expected)
  | some '-' =>
    advance
    rejectNumber (← number true) expected
  | some c =>
    if c.isDigit then rejectNumber (← number false) expected else malformed .expectedValue
  | none => malformed .expectedValue

end Reader

end Spdz.Config
