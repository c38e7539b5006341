import Spdz.Bytes
import Spdz.Preprocessing.Item

/-!
# Sources of preprocessed items

A party draws items one at a time from its supplier. Behind a supplier there may be a generator that
produces items of one kind in bulk, and a factory that builds the generator when it is first needed.

* `Supplier` — hands out single items and knows the party's share of the authentication key.
* `BulkGenerator` — produces a `Lot` of items at a time.
* `GeneratorFactory` — builds a generator from `GeneratorParams`.

Each may fail, and each may change its state also when it fails.
-/

namespace Spdz

/-- A source of single items for one party. -/
class Supplier (F : FieldSpec) (σ : Type) where
  /-- The party's additive share of the authentication key. -/
  keyShare : σ → Elem F
  draw : (item : Item) → σ → Except PreprocessingError (item.Value F) × σ

/-- How much is asked of a generator. -/
structure Lot where
  /-- Number of items. -/
  count : Nat
  /-- Number of shares in each exponentiation pipe. -/
  pipeLength : Nat
  deriving DecidableEq

/-- A producer of items in bulk. A faithful one returns as many items as asked for, which fit those
of the other parties when all make the same requests in the same order. -/
class BulkGenerator (F : FieldSpec) (γ : Type) where
  generate : (item : Item) → Lot → γ → Except PreprocessingError (List (item.Value F)) × γ

/-- What a generator is built for. -/
structure GeneratorParams where
  party : PartyId
  peers : List PartyId
  seed : Bytes
  /-- Length of the field's modulus. -/
  modulusBits : Nat
  batchSize : Nat
  deriving DecidableEq

/-- A builder of generators. -/
class GeneratorFactory (φ : Type) (γ : outParam Type) where
  create : GeneratorParams → φ → Except PreprocessingError γ × φ

end Spdz
