import Spdz.Commitment
import Spdz.Protocol.Round

/-!
# Broadcast validation

Nothing stops a party from sending different values to different peers. Afterwards the parties can
find out: each sends a digest of what it received to all others, and compares.

* `BroadcastValidation` — the protocol, over a list of byte strings.
-/

namespace Spdz

variable {F : FieldSpec} {σ : Type}

/-- Check that all parties hold the same list. -/
structure BroadcastValidation where
  values : List Bytes
  /-- The digest that was sent to the others. -/
  digest : Bytes := []
  isDone : Bool := false

namespace BroadcastValidation

/-- Send the digest of the own list, then compare it with those received. -/
def evaluate (round : Nat) : Round F σ BroadcastValidation Status := do
  match round with
  | 0 =>
    let digest := broadcastDigest (← get).values
    modify fun state => { state with digest }
    Round.call (.sendAll digest)
    return .hasMoreRounds
  | 1 =>
    let received ← Round.call .receiveAll
    let digest := (← get).digest
    if received.any fun (_, other) => other ≠ digest then throw .broadcastInconsistency
    modify fun state => { state with isDone := true }
    return .isDone
  | _ => throw (.invalidRound "BroadcastValidationProtocol" round)

instance : Protocol F σ BroadcastValidation := ⟨evaluate⟩
instance : HasOutput BroadcastValidation Unit :=
  ⟨fun _ => "BroadcastValidationProtocol", fun state => if state.isDone then some () else none⟩

end BroadcastValidation

end Spdz
