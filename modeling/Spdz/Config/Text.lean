import Spdz.Config.Basic
import Spdz.Config.Lexer

/-!
# Reading a configuration text

A configuration is a JSON object whose members may come in any order and may be left out, or a JSON
list of the same values in a fixed order whose tail may be left out. What is left out has its
default. Unknown members and repeated ones are refused.

* `Member` — the members of a configuration, with the way to read each.
* `Config.ofText`, `Config.load` — a configuration from a text and from the content of a file.

The preprocessing strategy is a name, or an object with the name as its only key. Inside the content
of the simulated strategy unknown members are skipped.
-/

namespace Spdz.Config

namespace Reader

variable {α : Type}

/-! ## Lists and objects -/

/-- Whether a list has another element. At its end the closing bracket is left in place. -/
def hasElement (first : Bool) : Reader Bool := do
  match ← peek with
  | none => truncated .list
  | some ']' => pure false
  | some ',' =>
    if first then pure true
    else
      advance
      match ← peek with
      | none => truncated .value
      | some ']' => malformed .trailingComma
      | some _ => pure true
  | some _ => if first then pure true else malformed .expectedCommaOrBracket

/-- The end of a list that must not go on. -/
def endList : Reader Unit := do
  match ← peek with
  | none => truncated .list
  | some ']' => advance
  | some ',' =>
    advance
    match ← peek with
    | some ']' => malformed .trailingComma
    | _ => malformed .trailingCharacters
  | some _ => malformed .trailingCharacters

/-- The key of the next member of an object, none after its closing brace. -/
def nextKey (first : Bool) : Reader (Option String) := do
  match ← peek with
  | none => truncated .object
  | some '\x7d' =>
    advance
    pure none
  | some '"' =>
    if first then
      advance
      some <$> string
    else malformed .expectedCommaOrBrace
  | some ',' =>
    if first then malformed .keyNotString
    else
      advance
      match ← peek with
      | none => truncated .value
      | some '"' =>
        advance
        some <$> string
      | some '\x7d' => malformed .trailingComma
      | some _ => malformed .keyNotString
  | some _ => if first then malformed .keyNotString else malformed .expectedCommaOrBrace

/-- The colon between a key and its value. -/
def colon : Reader Unit := do
  match ← peek with
  | none => truncated .object
  | some ':' => advance
  | some _ => malformed .expectedColon

/-- The members of an object whose opening brace was just taken. Each key is handed to `read`, which
takes the colon and the value. -/
def members {σ : Type} (read : String → σ → Reader σ) :
    (fuel : Nat) → (first : Bool) → σ → Reader σ
  | 0, _, _ => truncated .object
  | fuel + 1, first, state => do
    match ← nextKey first with
    | none => pure state
    | some key => members read fuel false (← read key state)

/-- The members of an object. A member takes more than one byte, so the rest of the text bounds
their number. -/
def object {σ : Type} (read : String → σ → Reader σ) (start : σ) : Reader σ := do
  advance
  members read ((← get).length + 1) true start

/-! ## Skipped values -/

/-- What encloses a value. -/
inductive Frame where
  | list
  | object

/-- The rest after the closing quotation mark of a string that is not kept. -/
def skipStringBody : Bytes → Except Fault Bytes
  | [] => throw (.truncated .string)
  | byte :: rest =>
    if byte = 0x22 then pure rest
    else if byte < 0x20 then throw (.malformed .controlCharacter)
    else if byte ≠ 0x5c then skipStringBody rest
    else match rest with
      | [] => throw (.truncated .string)
      | 0x75 :: a :: b :: c :: d :: rest =>
        if (hexUnit? a b c d).isSome then skipStringBody rest
        else throw (.malformed .invalidEscape)
      | 0x75 :: _ => throw (.truncated .string)
      | letter :: rest =>
        if (escape? letter).isSome then skipStringBody rest
        else throw (.malformed .invalidEscape)

/-- Skip the string whose opening quotation mark was just taken. -/
def skipString : Reader Unit := do
  set (← skipStringBody (← get))

/-- Skip digits, of which there must be some. -/
def skipDigits : Reader Unit := do
  if (← digits).isEmpty then malformed .invalidNumber

/-- Skip the exponent of a number, if there is one. -/
def skipExponent : Reader Unit := do
  match ← front with
  | some 'e' | some 'E' =>
    advance
    let sign ← front
    if sign = some '+' ∨ sign = some '-' then advance
    skipDigits
  | _ => pure ()

/-- Skip a number whose sign was already taken. -/
def skipNumber : Reader Unit := do
  match ← digits with
  | [] => malformed .invalidNumber
  | 0 :: _ :: _ => malformed .invalidNumber
  | _ =>
    if (← front) = some '.' then
      advance
      skipDigits
    skipExponent

/-- Skip a value, or only the opening of one that holds others. -/
def skipOpening : Reader (Option Frame) := do
  match ← peek with
  | none => truncated .value
  | some '[' =>
    advance
    return some .list
  | some '\x7b' =>
    advance
    return some .object
  | some 'n' =>
    advance
    word ['u', 'l', 'l']
    return none
  | some 't' =>
    advance
    word ['r', 'u', 'e']
    return none
  | some 'f' =>
    advance
    word ['a', 'l', 's', 'e']
    return none
  | some '"' =>
    advance
    skipString
    return none
  | some '-' =>
    advance
    skipNumber
    return none
  | some c =>
    if c.isDigit then
      skipNumber
      return none
    else malformed .expectedValue

/-- Leave the frames that end here: those that remain hold another value. A comma may only follow a
value. -/
def leave : (afterValue : Bool) → List Frame → Reader (List Frame)
  | _, [] => pure []
  | afterValue, frame :: outer => do
    match frame, ← peek with
    | .list, none => truncated .list
    | .object, none => truncated .object
    | .list, some ']' =>
      advance
      leave true outer
    | .object, some '\x7d' =>
      advance
      leave true outer
    | _, some c =>
      if !afterValue then pure (frame :: outer)
      else if c = ',' then
        advance
        pure (frame :: outer)
      else match frame with
        | .list => malformed .expectedCommaOrBracket
        | .object => malformed .expectedCommaOrBrace

/-- Skip a key and its colon. -/
def skipKey : Reader Unit := do
  match ← peek with
  | none => truncated .object
  | some '"' =>
    advance
    skipString
    colon
  | some _ => malformed .keyNotString

/-- Skip values until all frames are left. -/
def skipWithin : (fuel : Nat) → List Frame → Reader Unit
  | 0, _ => truncated .value
  | fuel + 1, frames => do
    let frames ← match ← skipOpening with
      | some frame => leave false (frame :: frames)
      | none => leave true frames
    match frames with
    | [] => pure ()
    | .list :: _ => skipWithin fuel frames
    | .object :: _ =>
      skipKey
      skipWithin fuel frames

/-- Skip a value of any depth. Each part of it takes a byte, so the rest of the text bounds their
number. -/
def skip : Reader Unit := do
  skipWithin ((← get).length + 1) []

/-! ## Numbers and names -/

/-- A whole number below `limit`. -/
def natural (expected : Expected) (limit : Nat) : Reader Nat := do
  match ← peek with
  | none => truncated .value
  | some '-' =>
    advance
    accept (← number true)
  | some c => if c.isDigit then accept (← number false) else reject expected
where
  /-- Whether the number suits. -/
  accept (number : Number) : Reader Nat :=
    match number with
    | .whole value =>
      if 0 ≤ value ∧ value < limit then pure value.toNat
      else throw (.outOfRange value expected)
    | .decimal value => throw (.wrongType (.decimal value) expected)

/-- A whole number, or null for none. -/
def optionalNatural (expected : Expected) (limit : Nat) : Reader (Option Nat) := do
  match ← peek with
  | some 'n' =>
    advance
    word ['u', 'l', 'l']
    return none
  | _ => some <$> natural expected limit

/-- A seed of the simulated strategy. -/
def seed : Reader UInt8 := do
  return UInt8.ofNat (← natural .seed UInt8.size)

/-! ## The preprocessing strategy -/

/-- The content of the simulated strategy as an object: its seed, and whatever else is there. -/
def simulatedMember (key : String) (known : Option UInt8) : Reader (Option UInt8) := do
  if key = "seed" then
    if known.isSome then throw (.duplicateMember key)
    colon
    some <$> seed
  else
    colon
    skip
    return known

/-- The content of the simulated strategy. -/
def simulated : Reader Strategy := do
  match ← peek with
  | none => truncated .value
  | some '[' =>
    advance
    if ← hasElement true then
      let value ← seed
      endList
      return .simulated value
    else throw (.shortList 0)
  | some '\x7b' =>
    match ← object simulatedMember none with
    | some value => return .simulated value
    | none => throw (.missingMember "seed")
  | some _ => reject .simulation

/-- The content of the external strategy, which is none. -/
def external : Reader Strategy := do
  match ← peek with
  | none => truncated .value
  | some 'n' =>
    advance
    word ['u', 'l', 'l']
    return .external
  | some _ => reject .nothing

/-- The name of a strategy, as the key of an object whose opening brace was just taken. -/
def strategyKey : Reader String := do
  match ← peek with
  | none => truncated .object
  | some '"' =>
    advance
    string
  | some '\x7d' => malformed .expectedValue
  | some _ => malformed .keyNotString

/-- The preprocessing strategy. -/
def strategy : Reader Strategy := do
  match ← peek with
  | none => truncated .value
  | some '"' =>
    advance
    match ← string with
    | "fake" => throw (.wrongType .bareStrategy .content)
    | "external" => return .external
    | name => throw (.unknownStrategy name)
  | some '\x7b' =>
    advance
    let chosen ← match ← strategyKey with
      | "fake" =>
        colon
        simulated
      | "external" =>
        colon
        external
      | name => throw (.unknownStrategy name)
    match ← peek with
    | none => truncated .object
    | some '\x7d' =>
      advance
      return chosen
    | some _ => malformed .expectedValue
  | some _ => malformed .expectedValue

end Reader

/-! ## Configurations -/

/-- The members of a configuration. -/
inductive Member where
  | batchSize
  | pipeLength
  | openedThreshold
  | modulusBits
  | strategy
  deriving DecidableEq

namespace Member

/-- All members, in the order of the list form. -/
def all : List Member := [batchSize, pipeLength, openedThreshold, modulusBits, strategy]

/-- The key of a member. -/
def key : Member → String
  | batchSize => "batch_size"
  | pipeLength => "exp_pipe_length"
  | openedThreshold => "opened_value_threshold"
  | modulusBits => "modulus_bit_length"
  | strategy => "preprocessing"

/-- The member with the given key. -/
def ofKey? (key : String) : Option Member := all.find? fun member => member.key = key

open Reader in
/-- Read the value of a member into a configuration. -/
def read (config : Config) : Member → Reader Config
  | batchSize => return { config with batchSize := ← natural .count UInt64.size }
  | pipeLength => return { config with pipeLength := ← natural .count UInt64.size }
  | openedThreshold => return { config with openedThreshold := ← natural .count UInt64.size }
  | modulusBits => return { config with modulusBits := ← optionalNatural .bitLength UInt32.size }
  | strategy => return { config with strategy := ← Reader.strategy }

end Member

namespace Reader

/-- Read one member of the object form. The members seen before are known, so that none comes
twice. -/
def configMember (key : String) (state : List Member × Config) :
    Reader (List Member × Config) := do
  let (seen, config) := state
  match Member.ofKey? key with
  | none => throw (.unknownMember key)
  | some member =>
    if member ∈ seen then throw (.duplicateMember key)
    colon
    return (member :: seen, ← member.read config)

/-- Read the elements of the list form, as far as they go. -/
def configElements : (first : Bool) → List Member → Config → Reader Config
  | _, [], config => pure config
  | first, member :: later, config => do
    if ← hasElement first then configElements false later (← member.read config)
    else pure config

/-- A configuration in either form. -/
def config : Reader Config := do
  match ← peek with
  | none => truncated .value
  | some '[' =>
    advance
    let config ← configElements true Member.all {}
    endList
    return config
  | some '\x7b' => return (← object configMember ([], {})).2
  | some _ => reject .config

/-- A configuration and nothing after it but blanks. -/
def document : Reader Config := do
  let config ← config
  match ← peek with
  | none => return config
  | some _ => malformed .trailingCharacters

end Reader

/-- The configuration that the bytes of a text describe. -/
def ofBytes (bytes : Bytes) : Except ConfigError Config :=
  match Reader.document bytes with
  | .ok (config, _) => .ok config
  | .error fault => .error (.malformed fault)

/-- The configuration that a text describes. -/
def ofText (text : String) : Except ConfigError Config := ofBytes text.toUTF8.toList

/-- The configuration in a file, given its content if there is such a file. -/
def load (content : Option Bytes) : Except ConfigError Config :=
  match content with
  | some bytes => ofBytes bytes
  | none => .error (.unreadable "No such file or directory (os error 2)")

end Spdz.Config
