import Spdz.Config.Hidden
import Spdz.Number.Binary64

/-!
# What is wrong with a configuration text

A configuration is written as a JSON text. `Fault` lists the ways in which a text fails to be one,
with the words that report each.

* `Fault` — why a text is refused; `Fault.message` says it in words.
* `Fault.nature` — whether the text ends too early, breaks the grammar of JSON, or is sound JSON
  that describes no configuration.
* `Found`, `Expected` — what stands in the text and what should stand there.
-/

namespace Spdz.Config

/-- The coarse kind of a fault. -/
inductive FaultNature where
  | truncated
  | ungrammatical
  | unsuitable
  deriving DecidableEq

/-- What the text ends in the middle of. -/
inductive Construct where
  | value
  | list
  | object
  | string
  deriving DecidableEq

/-- How a text breaks the grammar. -/
inductive Malformation where
  | expectedValue
  | expectedWord
  | expectedColon
  | expectedCommaOrBrace
  | expectedCommaOrBracket
  | keyNotString
  | trailingComma
  | trailingCharacters
  | invalidNumber
  | numberOutOfRange
  | invalidEscape
  | cutHexEscape
  | loneSurrogate
  | controlCharacter
  | invalidCodePoint
  deriving DecidableEq

/-- What stands at a place where something else is wanted. -/
inductive Found where
  | boolean (value : Bool)
  | integer (value : Int)
  | decimal (value : Binary64)
  | string (value : String)
  | null
  | list
  | object
  /-- The bare name of a strategy that needs a content. -/
  | bareStrategy
  deriving DecidableEq

/-- What is wanted at a place. -/
inductive Expected where
  /-- A whole number below `2 ^ 64`. -/
  | count
  /-- A whole number below `2 ^ 32`. -/
  | bitLength
  /-- A whole number below `2 ^ 8`. -/
  | seed
  | config
  /-- No content, written as null. -/
  | nothing
  /-- The content of the simulated strategy. -/
  | simulation
  /-- Some content of the simulated strategy, where only its name stands. -/
  | content
  deriving DecidableEq

/-- Why a text is refused. -/
inductive Fault where
  | truncated (inside : Construct)
  | malformed (how : Malformation)
  | unknownMember (name : String)
  | duplicateMember (name : String)
  | missingMember (name : String)
  | unknownStrategy (name : String)
  | wrongType (found : Found) (expected : Expected)
  | outOfRange (value : Int) (expected : Expected)
  /-- A list of contents that is too short. -/
  | shortList (length : Nat)
  deriving DecidableEq

/-! ## Wording -/

/-- One character inside a quotation. -/
def quoteChar (c : Char) : String :=
  if c = '"' then "\\\""
  else if c = '\\' then "\\\\"
  else if c = '\n' then "\\n"
  else if c = '\r' then "\\r"
  else if c = '\t' then "\\t"
  else if c.toNat = 0 then "\\0"
  else if !isHidden c then String.singleton c
  else "\\u\x7b" ++ String.ofList (Nat.toDigits 16 c.toNat) ++ "\x7d"

/-- A text between quotation marks. -/
def quote (text : String) : String :=
  "\"" ++ String.join (text.toList.map quoteChar) ++ "\""

/-- The construct in words. -/
def Construct.text : Construct → String
  | .value => "a value"
  | .list => "a list"
  | .object => "an object"
  | .string => "a string"

/-- The malformation in words. -/
def Malformation.text : Malformation → String
  | .expectedValue => "expected value"
  | .expectedWord => "expected ident"
  | .expectedColon => "expected `:`"
  | .expectedCommaOrBrace => "expected `,` or `\x7d`"
  | .expectedCommaOrBracket => "expected `,` or `]`"
  | .keyNotString => "key must be a string"
  | .trailingComma => "trailing comma"
  | .trailingCharacters => "trailing characters"
  | .invalidNumber => "invalid number"
  | .numberOutOfRange => "number out of range"
  | .invalidEscape => "invalid escape"
  | .cutHexEscape => "unexpected end of hex escape"
  | .loneSurrogate => "lone leading surrogate in hex escape"
  | .controlCharacter => "control character (\\u0000-\\u001F) found while parsing a string"
  | .invalidCodePoint => "invalid unicode code point"

/-- What stands there, in words. -/
def Found.text : Found → String
  | .boolean value => s!"boolean `{value}`"
  | .integer value => s!"integer `{value}`"
  | .decimal value => s!"floating point `{value.text}`"
  | .string value => "string " ++ quote value
  | .null => "null"
  | .list => "sequence"
  | .object => "map"
  | .bareStrategy => "unit variant"

/-- What is wanted, in words. -/
def Expected.text : Expected → String
  | .count => "usize"
  | .bitLength => "u32"
  | .seed => "u8"
  | .config => "struct SpdzConfig"
  | .nothing => "unit"
  | .simulation => "struct variant PreprocessingStrategy::Fake"
  | .content => "struct variant"

/-- The members that a configuration may have, as a list in words. -/
def memberList : String :=
  "`batch_size`, `exp_pipe_length`, `opened_value_threshold`, `modulus_bit_length`, `preprocessing`"

namespace Fault

/-- The fault in words. -/
def message : Fault → String
  | truncated inside => s!"EOF while parsing {inside.text}"
  | malformed how => how.text
  | unknownMember name => s!"unknown field `{name}`, expected one of {memberList}"
  | duplicateMember name => s!"duplicate field `{name}`"
  | missingMember name => s!"missing field `{name}`"
  | unknownStrategy name => s!"unknown variant `{name}`, expected `fake` or `external`"
  | wrongType found expected => s!"invalid type: {found.text}, expected {expected.text}"
  | outOfRange value expected => s!"invalid value: integer `{value}`, expected {expected.text}"
  | shortList length =>
    s!"invalid length {length}, expected {Expected.simulation.text} with 1 element"

/-- The coarse kind of the fault. -/
def nature : Fault → FaultNature
  | truncated _ => .truncated
  | malformed _ => .ungrammatical
  | _ => .unsuitable

end Fault

end Spdz.Config
