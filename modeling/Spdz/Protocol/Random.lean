import Spdz.Protocol.Round

/-!
# Preprocessed and public values

Protocols of a single round that draw an item or share a public value, without any message.

* `RandomElement`, `RandomBit` — a share of a random element or bit.
* `ExpPipe` — shares of the inverse and of the powers of a random element.
* `KnownValue` — a share of a public constant.
-/

namespace Spdz

variable {F : FieldSpec} {σ : Type}

/-- A share of a random element that no party knows. -/
structure RandomElement (F : FieldSpec) where
  output : Option (Share F) := none

namespace RandomElement

/-- Draw the share. -/
def evaluate [Supplier F σ] (round : Nat) : Round F σ (RandomElement F) Status := do
  if round ≠ 0 then throw (.invalidRound "RandomElementProtocol" round)
  let share ← Round.draw .element
  set (⟨some share⟩ : RandomElement F)
  return .isDone

instance [Supplier F σ] : Protocol F σ (RandomElement F) := ⟨evaluate⟩
instance : HasOutput (RandomElement F) (Share F) := ⟨fun _ => "RandomElementProtocol", output⟩

end RandomElement

/-- A share of a random bit. -/
structure RandomBit (F : FieldSpec) where
  output : Option (Share F) := none

namespace RandomBit

/-- Draw the share. -/
def evaluate [Supplier F σ] (round : Nat) : Round F σ (RandomBit F) Status := do
  if round ≠ 0 then throw (.invalidRound "RandomBitProtocol" round)
  let share ← Round.draw .bit
  set (⟨some share⟩ : RandomBit F)
  return .isDone

instance [Supplier F σ] : Protocol F σ (RandomBit F) := ⟨evaluate⟩
instance : HasOutput (RandomBit F) (Share F) := ⟨fun _ => "RandomBitProtocol", output⟩

end RandomBit

/-- An exponentiation pipe of a given length, which must be the one that the supplier gives. -/
structure ExpPipe (F : FieldSpec) where
  length : Nat
  output : Option (List (Share F)) := none

namespace ExpPipe

/-- Draw the pipe and look at its length. -/
def evaluate [Supplier F σ] (round : Nat) : Round F σ (ExpPipe F) Status := do
  if round ≠ 0 then throw (.invalidRound "ExpPipeProtocol" round)
  let pipe ← Round.draw .pipe
  let expected := (← get).length
  if pipe.length ≠ expected then throw (.pipeLength expected pipe.length)
  modify fun state => { state with output := some pipe }
  return .isDone

instance [Supplier F σ] : Protocol F σ (ExpPipe F) := ⟨evaluate⟩
instance : HasOutput (ExpPipe F) (List (Share F)) := ⟨fun _ => "ExpPipeProtocol", output⟩

end ExpPipe

/-- A share of a public constant. -/
structure KnownValue (F : FieldSpec) where
  value : Elem F
  output : Option (Share F) := none

namespace KnownValue

/-- Share the constant. -/
def evaluate [Supplier F σ] (round : Nat) : Round F σ (KnownValue F) Status := do
  if round ≠ 0 then throw (.invalidRound "KnownValueProtocol" round)
  let party ← Round.party
  modify fun state =>
    { state with output := some (.ofPublic state.value party.keyShare party.id) }
  return .isDone

instance [Supplier F σ] : Protocol F σ (KnownValue F) := ⟨evaluate⟩
instance : HasOutput (KnownValue F) (Share F) := ⟨fun _ => "KnownValueProtocol", output⟩

end KnownValue

end Spdz
