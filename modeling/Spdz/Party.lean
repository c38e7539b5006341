import Spdz.Config.Basic
import Spdz.OpenedValues
import Spdz.Preprocessing.Dealer
import Spdz.Preprocessing.Stock
import Spdz.Random.ChaCha

/-!
# A party's own state

What a party holds throughout a computation: who it is, its settings, its supply of preprocessed
items, the openings that no check has covered yet, and its private randomness. Honest parties use
up the last three in the same order.

* `Party` — this state; it exists only for valid settings.
* `Party.create`, `Party.withGenerator`, `Party.simulated` — with a supplier of one's own, with a
  stock filled by a generator, and with simulated dealing.
-/

namespace Spdz

/-- The state of one party. -/
structure Party (F : FieldSpec) (σ : Type) where
  id : PartyId
  parties : Nat
  config : Config
  supplier : σ
  opened : OpenedValues F := {}
  /-- The party's private randomness, for commitments and coins. -/
  rng : ChaCha

namespace Party

variable {F : FieldSpec} {σ φ γ : Type}

/-- The party's share of the authentication key. -/
def keyShare [Supplier F σ] (party : Party F σ) : Elem F := Supplier.keyShare party.supplier

/-- The state of a party with a given supplier, if the settings suit it. -/
def create (F : FieldSpec) (id : PartyId) (parties : Nat) (config : Config) (supplier : σ)
    (rng : ChaCha) : Except ConfigError (Party F σ) := do
  config.validate parties id F.bits
  return { id, parties, config, supplier, rng }

/-- The state of a party whose items come from a generator. The generator's seed is drawn before
the settings are looked at. -/
def withGenerator (id : PartyId) (parties : Nat) (config : Config) (keyShare : Elem F)
    (factory : φ) (rng : ChaCha) : Except ConfigError (Party F (StockedSupplier F φ γ)) :=
  let (seed, rng) := rng.fill 32
  let supplier : StockedSupplier F φ γ :=
    { party := id, parties, keyShare, batchSize := config.batchSize
      pipeLength := config.pipeLength, seed, factory }
  create F id parties config supplier rng

/-- A supplier of simulated items. -/
abbrev SimulatedSupplier (F : FieldSpec) := StockedSupplier F (DealerFactory F) (Dealer F)

/-- The state of a party with simulated items, whose private randomness starts from `entropy`. An
external strategy is refused before all else. -/
def simulated (F : FieldSpec) (id : PartyId) (parties : Nat) (config : Config) (entropy : Bytes) :
    Except ConfigError (Party F (SimulatedSupplier F)) :=
  match config.strategy with
  | .external => .error .externalStrategy
  | .simulated seed => do
    config.validate parties id F.bits
    let factory := DealerFactory.new F parties id seed
    withGenerator id parties config factory.keyShare factory (ChaCha.ofSeed entropy)

end Party

end Spdz
