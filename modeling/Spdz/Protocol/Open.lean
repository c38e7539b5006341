import Spdz.Protocol.Round

/-!
# Opening shares

An opening reveals a shared value by adding up the shares of all parties. The sum is only as good as
what the others sent, so it is recorded and stands until the next check confirms or refutes it.

* `Open` — reveal a value to all parties.
* `OpenTo` — reveal a value to one party, by opening its difference from a mask that this party
  knows.
-/

namespace Spdz

variable {F : FieldSpec} {σ : Type}

/-- Reveal a value to all parties. -/
structure Open (F : FieldSpec) where
  share : Share F
  output : Option (Elem F) := none

namespace Open

/-- Send the share, then add up the shares received. -/
def evaluate (round : Nat) : Round F σ (Open F) Status := do
  let share := (← get).share
  match round with
  | 0 =>
    Round.sendElements [share.value]
    return .hasMoreRounds
  | 1 =>
    let received ← Round.receiveElementsFromAll 1
    let value := sumAt share.value received 0
    Round.record share value
    modify fun state => { state with output := some value }
    return .isDone
  | _ => throw (.invalidRound "OpenProtocol" round)

instance : Protocol F σ (Open F) := ⟨evaluate⟩
instance : HasOutput (Open F) (Elem F) := ⟨fun _ => "OpenProtocol", output⟩

end Open

/-- Reveal a value to one party. -/
structure OpenTo (F : FieldSpec) where
  share : Share F
  target : PartyId
  mask : Option (InputMask F) := none
  /-- The value at the target, nothing elsewhere. -/
  output : Option (Option (Elem F)) := none

namespace OpenTo

/-- Open the masked value to all; the target takes the mask off. -/
def evaluate [Supplier F σ] (round : Nat) : Round F σ (OpenTo F) Status := do
  let state ← get
  match round, state.mask with
  | 0, _ =>
    let mask ← Round.draw (.mask state.target)
    Round.sendElements [(state.share - mask.mask).value]
    set { state with mask := some mask }
    return .hasMoreRounds
  | 1, some mask =>
    let masked := state.share - mask.mask
    let received ← Round.receiveElementsFromAll 1
    let opened := sumAt masked.value received 0
    Round.record masked opened
    let result ←
      if (← Round.party).id = state.target then
        match mask.real with
        | some real => pure (some (opened + real))
        | none => throw (.preprocessing .missingMaskValue)
      else pure none
    set { state with output := some result }
    return .isDone
  | _, _ => throw (.invalidRound "OpenToPartyProtocol" round)

instance [Supplier F σ] : Protocol F σ (OpenTo F) := ⟨evaluate⟩
instance : HasOutput (OpenTo F) (Option (Elem F)) := ⟨fun _ => "OpenToPartyProtocol", output⟩

end OpenTo

end Spdz
