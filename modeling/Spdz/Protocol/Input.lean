import Spdz.Protocol.Broadcast

/-!
# Inputs

A party shares a value of its own by sending everyone its difference from a mask that only this
party knows. Adding the public difference to the shares of the mask gives shares of the value.

* `MaskedInput` — the difference and the mask, common to both protocols.
* `Input` — trusts the inputter to send the same difference to everyone.
* `CheckedInput` — has the parties compare what they received.
-/

namespace Spdz

variable {F : FieldSpec} {σ : Type}

/-! ## The masked value -/

/-- An input on its way: the value at the inputter, and what is known of its masking. -/
structure MaskedInput (F : FieldSpec) where
  input : Option (Elem F)
  inputter : PartyId
  mask : Option (InputMask F) := none
  /-- The input minus the masking value. -/
  masked : Option (Elem F) := none

namespace MaskedInput

/-- Draw the mask; the inputter sends the difference to everyone. -/
def send [Supplier F σ] : Round F σ (MaskedInput F) Unit := do
  let state ← get
  let mask ← Round.draw (.mask state.inputter)
  set { state with mask := some mask }
  if (← Round.party).id = state.inputter then
    match state.input, mask.real with
    | none, _ => throw (.missingInput state.inputter)
    | some _, none => throw (.preprocessing .missingMaskValue)
    | some input, some real =>
      let masked := input - real
      Round.sendElements [masked]
      set { state with mask := some mask, masked := some masked }

/-- The difference, as this party sent it or as the inputter sends it. -/
def receive : Round F σ (MaskedInput F) (Elem F) := do
  let state ← get
  match state.masked with
  | some masked => return masked
  | none =>
    let masked := (← Round.receiveElements state.inputter 1).headD 0
    set { state with masked := some masked }
    return masked

/-- The share of the input, once mask and difference are known. -/
def combine [Supplier F σ] (round : Nat) : Round F σ (MaskedInput F) (Share F) := do
  let state ← get
  match state.mask, state.masked with
  | some mask, some masked =>
    let party ← Round.party
    return mask.mask.addPublic masked party.keyShare party.id
  | _, _ => throw (.invalidRound "InputProtocol" round)

end MaskedInput

/-! ## The protocols -/

/-- Share a value of the inputter, which is trusted to treat all alike. -/
structure Input (F : FieldSpec) where
  state : MaskedInput F
  output : Option (Share F) := none

namespace Input

/-- The protocol for an input. Only the inputter's value counts. -/
def new (input : Option (Elem F)) (inputter : PartyId) : Input F := { state := { input, inputter } }

/-- A round of the masked input within the protocol. -/
def masking {α : Type} (round : Round F σ (MaskedInput F) α) : Round F σ (Input F) α :=
  Round.within state (fun inner outer => { outer with state := inner }) round

/-- Mask and send, then receive and combine. -/
def evaluate [Supplier F σ] (round : Nat) : Round F σ (Input F) Status := do
  match round with
  | 0 =>
    masking MaskedInput.send
    return .hasMoreRounds
  | 1 =>
    discard <| masking MaskedInput.receive
    let share ← masking (MaskedInput.combine round)
    modify fun state => { state with output := some share }
    return .isDone
  | _ => throw (.invalidRound "InputProtocol" round)

instance [Supplier F σ] : Protocol F σ (Input F) := ⟨evaluate⟩
instance : HasOutput (Input F) (Share F) := ⟨fun _ => "InputProtocol", output⟩

end Input

/-- Share a value of the inputter, and find out if it did not treat all alike. -/
structure CheckedInput (F : FieldSpec) where
  state : MaskedInput F
  validation : Option BroadcastValidation := none
  output : Option (Share F) := none

namespace CheckedInput

/-- The protocol for an input. Only the inputter's value counts. -/
def new (input : Option (Elem F)) (inputter : PartyId) : CheckedInput F :=
  { state := { input, inputter } }

/-- A round of the masked input within the protocol. -/
def masking {α : Type} (round : Round F σ (MaskedInput F) α) : Round F σ (CheckedInput F) α :=
  Round.within state (fun inner outer => { outer with state := inner }) round

/-- Mask and send, then receive and exchange digests, then compare and combine. -/
def evaluate [Supplier F σ] (round : Nat) : Round F σ (CheckedInput F) Status := do
  match round with
  | 0 =>
    masking MaskedInput.send
    return .hasMoreRounds
  | 1 =>
    let masked ← masking MaskedInput.receive
    let (_, validation) ←
      Round.apart { values := [masked.encode] } (BroadcastValidation.evaluate 0)
    modify fun state => { state with validation := some validation }
    return .hasMoreRounds
  | 2 =>
    match (← get).validation with
    | none => throw (.invalidRound "MaliciousInputProtocol" round)
    | some validation =>
      discard <| Round.within (fun _ => validation)
        (fun validation state => { state with validation := some validation })
        (BroadcastValidation.evaluate 1)
      let share ← masking (MaskedInput.combine round)
      modify fun state => { state with output := some share }
      return .isDone
  | _ => throw (.invalidRound "MaliciousInputProtocol" round)

instance [Supplier F σ] : Protocol F σ (CheckedInput F) := ⟨evaluate⟩
instance : HasOutput (CheckedInput F) (Share F) := ⟨fun _ => "MaliciousInputProtocol", output⟩

end CheckedInput

end Spdz
