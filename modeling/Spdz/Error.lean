import Spdz.Config.Basic
import Spdz.Field.Codec
import Spdz.Network.Call
import Spdz.Preprocessing.Item

/-!
# Errors of an evaluation

Whatever goes wrong ends the computation for the party that notices it. The category of an error
says what to do about it: it tells a peer that provably cheated from one that cannot be reached,
and both from a mistake of the party itself.

* `Error` — what went wrong, `Error.message` in words, `Error.category` by remedy.
-/

namespace Spdz

/-- What to do about an error. -/
inductive Category where
  /-- A peer deviated from the protocol in a way that leaves proof. -/
  | cheating
  /-- A peer could not be reached. -/
  | unreachable
  /-- A message or a call did not fit the protocol. -/
  | violation
  /-- Correlated randomness could not be had. -/
  | preprocessing
  /-- The party itself was set up or used wrongly. -/
  | misconfiguration
  deriving DecidableEq

/-- What went wrong in an evaluation. -/
inductive Error where
  | transport (cause : TransportError)
  | preprocessing (cause : PreprocessingError)
  | config (cause : ConfigError)
  | macCheckFailed
  | broadcastInconsistency
  | commitmentMismatch (party : PartyId)
  | malformedMessage (party : PartyId) (cause : CodecError)
  | invalidRound (protocol : String) (round : Nat)
  /-- A protocol reported completion but has no output. -/
  | unfinished (protocol : String)
  | missingInput (party : PartyId)
  | pipeLength (expected actual : Nat)
  /-- An earlier error ended the evaluation. -/
  | aborted (category : Category) (cause : String)
  /-- More rounds than a machine word counts. -/
  | tooManyRounds
  deriving DecidableEq

namespace Error

/-- The error in words. An error of a lower layer speaks for itself. -/
def message : Error → String
  | transport cause => cause.message
  | preprocessing cause => cause.message
  | config cause => cause.message
  | macCheckFailed => "MAC check failed, opened values were tampered with"
  | broadcastInconsistency => "broadcast digests did not match"
  | commitmentMismatch party => s!"opening of party {party} does not match its commitment"
  | malformedMessage party cause => s!"malformed message from party {party}: {cause.message}"
  | invalidRound protocol round => s!"{protocol} has no round {round}"
  | unfinished protocol => s!"{protocol} reported completion without an output"
  | missingInput party => s!"party {party} provides this input but no value was given"
  | pipeLength expected actual =>
    s!"expected exponentiation pipe of length {expected}, supplier gave {actual}"
  | aborted _ cause => s!"evaluation was aborted by an earlier error: {cause}"
  | tooManyRounds => "evaluation did not end within the rounds that can be counted"

/-- The category of the error. An aborted evaluation keeps the category of its cause. -/
def category : Error → Category
  | transport _ => .unreachable
  | preprocessing _ => .preprocessing
  | config _ | missingInput _ | pipeLength .. => .misconfiguration
  | macCheckFailed | broadcastInconsistency | commitmentMismatch _ => .cheating
  | malformedMessage .. | invalidRound .. | unfinished _ | tooManyRounds => .violation
  | aborted category _ => category

end Error

end Spdz
