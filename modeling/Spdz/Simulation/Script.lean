import Spdz.Commitment
import Spdz.Evaluation.Session
import Spdz.Protocol.Gate

/-!
# Scripts

A script tells one party what to do, step by step, and each step leaves an entry in the party's log.
It may use the session as intended, or split it up and drive protocols and the network by hand, as a
party would that deviates from what was agreed.

* `Blueprint` — a protocol to be built; `ScriptedProtocol`, what is built.
* `Instruction`, `Step` — what a script says.
* `Entry` — what a step leaves in the log.
-/

namespace Spdz

variable {F : FieldSpec}

/-! ## What steps speak about -/

/-- A share that a step needs: a given one, or one kept earlier under a name. -/
inductive Operand (F : FieldSpec) where
  | literal (share : Share F)
  | kept (name : String)

/-- A value that a party contributes. -/
inductive Contribution (F : FieldSpec) where
  /-- Each party has its own, in order of parties. -/
  | each (values : List (Option (Elem F)))
  /-- The same for every party. -/
  | common (value : Option (Elem F))

/-- The value that a party contributes, if it has one. -/
def Contribution.ofParty (party : PartyId) : Contribution F → Option (Elem F)
  | each values => (values[party - 1]?).join
  | common value => value

/-- A message made by hand. -/
inductive Message (F : FieldSpec) where
  | raw (bytes : Bytes)
  | elements (list : List (Elem F))
  /-- The digest of a list of byte strings. -/
  | digest (values : List Bytes)
  /-- The commitment to a value, with randomness from a seed. -/
  | commitment (value : Elem F) (seed : Bytes)
  /-- The opening of that commitment, which may show another value. -/
  | opening (value : Elem F) (seed : Bytes) (forged : Option (Elem F))

/-- The bytes of a message. -/
def Message.bytes : Message F → Bytes
  | raw bytes => bytes
  | elements list => Elem.encodeList list
  | digest values => broadcastDigest values
  | commitment value seed => (Commitment.commit value (ChaCha.ofSeed seed)).1.1.digest
  | opening value seed forged =>
    let opening := (Commitment.commit value (ChaCha.ofSeed seed)).1.2
    { opening with value := forged.getD value }.toBytes

/-! ## Protocols -/

/-- A protocol to be built. -/
inductive Blueprint (F : FieldSpec) where
  | input (inputter : PartyId) (value : Contribution F)
  | checkedInput (inputter : PartyId) (value : Contribution F)
  | multiply (x y : Operand F)
  | openAll (share : Operand F)
  | openTo (share : Operand F) (target : PartyId)
  | element
  | bit
  | pipe (length : Nat)
  | known (value : Elem F)
  /-- Reveal the values that the parties contribute; one that is missing is zero. -/
  | reveal (value : Contribution F)
  | validation (values : List Bytes)
  | macCheck
  /-- Rounds in which nothing happens, at least one, and no result. -/
  | hollow (rounds : Nat)

/-- A protocol of the library, or one that does nothing. -/
inductive ScriptedProtocol (F : FieldSpec) where
  | gate (state : Gate F)
  | hollow (rounds : Nat)

namespace ScriptedProtocol

variable {σ : Type}

/-- A round of the protocol. -/
def evaluate [Supplier F σ] (round : Nat) : Round F σ (ScriptedProtocol F) Status := do
  match ← get with
  | gate state => Round.within (fun _ => state) (fun state _ => gate state) (Gate.evaluate round)
  | hollow rounds => return if round + 1 < rounds then .hasMoreRounds else .isDone

/-- How the protocol is called. -/
def name : ScriptedProtocol F → String
  | gate state => state.name
  | hollow _ => "HollowProtocol"

/-- The result of the protocol, once there is one. -/
def output : ScriptedProtocol F → Option (Output F)
  | gate state => state.output
  | hollow _ => none

instance [Supplier F σ] : Protocol F σ (ScriptedProtocol F) := ⟨evaluate⟩
instance : HasOutput (ScriptedProtocol F) (Output F) := ⟨name, output⟩

end ScriptedProtocol

/-! ## Steps -/

/-- A computation on shares that were kept. -/
inductive Computation (F : FieldSpec) where
  | literal (share : Share F)
  | zero
  | add (x y : String)
  | sub (x y : String)
  | neg (x : String)
  | double (x : String)
  | scale (x : String) (factor : Elem F)
  | ofPublic (value : Elem F)
  | addPublic (x : String) (value : Elem F)

/-- A protocol of a batch, and the name under which to keep its result. -/
structure BatchPart (F : FieldSpec) where
  protocol : Blueprint F
  keepAs : Option String

/-- What a step does. -/
inductive Instruction (F : FieldSpec) where
  | compute (computation : Computation F)
  /-- Call the session's own function for a protocol, if it has one. -/
  | call (protocol : Blueprint F)
  | macCheck
  | checkpoint
  | finish
  | run (protocol : Blueprint F)
  | runAll (protocols : List (BatchPart F))
  /-- Run a batch and show the protocols' results even if it fails. -/
  | batch (protocols : List (BatchPart F))
  | stats
  | aborted
  | keyShare
  | seat
  /-- The openings that no check has covered yet. -/
  | pending
  | drain
  | push (share : Operand F) (value : Elem F)
  /-- Add to the value of a pending opening. -/
  | shift (position : Nat) (change : Elem F)
  | draw (item : Item)
  /-- Take the session apart. -/
  | split
  /-- Start a new session with the parts. -/
  | join
  /-- Evaluate one round of a protocol, which is built when its label is first used. -/
  | evaluate (label : String) (round : Nat) (protocol : Blueprint F)
  | send (peer : PartyId) (message : Message F)
  | sendAll (message : Message F)
  | receive (peer : PartyId)
  | receiveAll

/-- A step of a script. -/
structure Step (F : FieldSpec) where
  instruction : Instruction F
  /-- The name under which to keep a share that results. -/
  keepAs : Option String := none
  /-- The parties that take the step, if not all. -/
  only : Option (List PartyId) := none

/-! ## The log -/

/-- What a step leaves in the log. -/
inductive Entry (F : FieldSpec) where
  /-- The step was not for this party, or there was no session for it. -/
  | skipped
  | unit
  /-- A share was needed that had not been kept. -/
  | unset (name : String)
  | failed (error : Error)
  | callFailed (error : TransportError)
  | drawFailed (error : PreprocessingError)
  | output (output : Output F)
  | outputs (outputs : List (Output F))
  /-- The results of a batch as far as there are any, and the error if it failed. -/
  | batch (outputs : List (Option (Output F))) (failure : Option Error)
  /-- The report of one round, and the result so far. -/
  | evaluated (report : Except Error Status) (output : Option (Output F))
  | stats (stats : Stats)
  | aborted (category : Option Category)
  | element (value : Elem F)
  | seat (seat : Seat)
  | openings (records : List (OpenedValue F))
  | item (item : Item) (value : item.Value F)
  | message (bytes : Bytes)
  | messages (messages : List (PartyId × Bytes))

end Spdz
