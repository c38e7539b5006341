import Spdz.Config.Fault
import Spdz.PartyId

/-!
# Configuration of a party

What is fixed before a party talks to anyone: how much preprocessed material it fetches at once,
when it checks opened values, and where the material comes from.

* `Config` — the settings, with the values that hold when nothing is said.
* `Config.validate` — whether they suit a given party of a given field.
* `ConfigError` — why a party cannot be set up.
-/

namespace Spdz

/-- Where preprocessed material comes from. -/
inductive Strategy where
  /-- Every party simulates the dealing of all from one public seed. This protects nothing. -/
  | simulated (seed : UInt8)
  /-- The caller provides a generator. -/
  | external
  deriving DecidableEq

/-- The settings of a party. -/
structure Config where
  /-- Number of items fetched from the generator at a time. -/
  batchSize : Nat := 16
  /-- Number of shares in an exponentiation pipe. -/
  pipeLength : Nat := 200
  /-- Number of pending opened values that forces a check. -/
  openedThreshold : Nat := 10000
  /-- Length that the modulus must have, if given. -/
  modulusBits : Option Nat := none
  strategy : Strategy := .simulated 0
  deriving DecidableEq

/-- Why a party cannot be set up. -/
inductive ConfigError where
  | tooFewParties (parties : Nat)
  | invalidPartyId (party : PartyId) (parties : Nat)
  | zeroBatchSize
  | zeroPipeLength
  | zeroThreshold
  | modulusBits (configured field : Nat)
  | externalStrategy
  | networkMismatch (party : PartyId) (parties : Nat) (networkParty : PartyId)
      (networkParties : Nat)
  /-- The text could not be fetched. -/
  | unreadable (reason : String)
  /-- The text is no configuration. -/
  | malformed (fault : Config.Fault)
  deriving DecidableEq

/-- The reason in words. -/
def ConfigError.message : ConfigError → String
  | .tooFewParties parties => s!"at least two parties are required, got {parties}"
  | .invalidPartyId party parties => s!"party ID {party} is outside 1..={parties}"
  | .zeroBatchSize => "batch size must be positive"
  | .zeroPipeLength => "exponentiation pipe length must be positive"
  | .zeroThreshold => "opened value threshold must be positive"
  | .modulusBits configured field =>
    s!"configured modulus bit length {configured} does not match field with {field} bits"
  | .externalStrategy =>
    "external preprocessing selected, a generator factory must be supplied"
  | .networkMismatch party parties networkParty networkParties =>
    s!"network of party {networkParty} of {networkParties} given to party {party} of {parties}"
  | .unreadable reason => s!"could not read configuration: {reason}"
  | .malformed fault => s!"could not parse configuration: {fault.message}"

namespace Config

/-- Whether the settings suit party `party` of `parties` over a field of `fieldBits` bits. Of
several reasons against it the first in this order is given. -/
def validate (config : Config) (parties : Nat) (party : PartyId) (fieldBits : Nat) :
    Except ConfigError Unit :=
  if parties < 2 then .error (.tooFewParties parties)
  else if party = 0 ∨ party > parties then .error (.invalidPartyId party parties)
  else if config.batchSize = 0 then .error .zeroBatchSize
  else if config.pipeLength = 0 then .error .zeroPipeLength
  else if config.openedThreshold = 0 then .error .zeroThreshold
  else match config.modulusBits with
    | some configured =>
      if configured ≠ fieldBits then .error (.modulusBits configured fieldBits) else .ok ()
    | none => .ok ()

end Config

end Spdz
