import Spdz.Preprocessing.Supplier

/-!
# A supplier with stock

Items are fetched from a generator in batches and kept in queues, one for each kind and mask
recipient. A queue is refilled when an item is drawn from it and none is left, and the generator is
built when it is first needed.

* `Stock` — the queues.
* `StockedSupplier` — the supplier; `StockedSupplier.draw` takes an item.

A draw that fails takes nothing from any queue and adds nothing to it.
-/

namespace Spdz

/-! ## Queues -/

/-- Items that were fetched and not drawn yet, the oldest first. -/
structure Stock (F : FieldSpec) where
  triples : List (Triple F) := []
  elements : List (Share F) := []
  bits : List (Share F) := []
  pipes : List (List (Share F)) := []
  /-- Masks by the party they were dealt toward. -/
  masks : List (PartyId × List (InputMask F)) := []

namespace Stock

variable {F : FieldSpec}

/-- The queue for an item. -/
def queue (stock : Stock F) : (item : Item) → List (item.Value F)
  | .triple => stock.triples
  | .mask toward => (stock.masks.lookup toward).getD []
  | .element => stock.elements
  | .bit => stock.bits
  | .pipe => stock.pipes

/-- The stock with another queue for an item. -/
def setQueue (stock : Stock F) : (item : Item) → List (item.Value F) → Stock F
  | .triple, items => { stock with triples := items }
  | .mask toward, items =>
    let others := stock.masks.filter fun (recipient, _) => recipient ≠ toward
    { stock with masks := (toward, items) :: others }
  | .element, items => { stock with elements := items }
  | .bit, items => { stock with bits := items }
  | .pipe, items => { stock with pipes := items }

end Stock

/-! ## The supplier -/

/-- A supplier that keeps a stock of items. -/
structure StockedSupplier (F : FieldSpec) (φ γ : Type) where
  party : PartyId
  parties : Nat
  /-- The share of the key under which the generator authenticates. -/
  keyShare : Elem F
  /-- Number of items fetched at a time. -/
  batchSize : Nat
  pipeLength : Nat
  /-- Seed handed to the generator. -/
  seed : Bytes
  factory : φ
  /-- The generator, once it was needed. -/
  generator : Option γ := none
  stock : Stock F := {}
  /-- Number of batches fetched so far. -/
  refills : Nat := 0

namespace StockedSupplier

variable {F : FieldSpec} {φ γ : Type} [GeneratorFactory φ γ] [BulkGenerator F γ]

/-- What the generator is built for. -/
def params (supplier : StockedSupplier F φ γ) : GeneratorParams where
  party := supplier.party
  peers := peersOf supplier.party supplier.parties
  seed := supplier.seed
  modulusBits := F.bits
  batchSize := supplier.batchSize

/-- The generator, built now if it was not needed before. -/
def ready (supplier : StockedSupplier F φ γ) :
    Except PreprocessingError γ × StockedSupplier F φ γ :=
  match supplier.generator with
  | some generator => (.ok generator, supplier)
  | none =>
    match GeneratorFactory.create supplier.params supplier.factory with
    | (.error e, factory) => (.error e, { supplier with factory })
    | (.ok generator, factory) =>
      (.ok generator, { supplier with factory, generator := some generator })

/-- Fetch a batch. One that is not complete is refused. -/
def fetch (item : Item) (supplier : StockedSupplier F φ γ) :
    Except PreprocessingError (List (item.Value F)) × StockedSupplier F φ γ :=
  match supplier.ready with
  | (.error e, supplier) => (.error e, supplier)
  | (.ok generator, supplier) =>
    let lot : Lot := ⟨supplier.batchSize, supplier.pipeLength⟩
    let (batch, generator) := BulkGenerator.generate item lot generator
    let supplier := { supplier with generator := some generator }
    match batch with
    | .error e => (.error e, supplier)
    | .ok items =>
      if items.length ≠ supplier.batchSize then
        (.error (.incompleteBatch item.kind supplier.batchSize items.length), supplier)
      else (.ok items, { supplier with refills := supplier.refills + 1 })

/-- Take the first item of a queue that was just filled. -/
def take (item : Item) (queue : List (item.Value F)) (supplier : StockedSupplier F φ γ) :
    Except PreprocessingError (item.Value F) × StockedSupplier F φ γ :=
  match queue with
  | [] => (.error (.incompleteBatch item.kind 1 0), supplier)
  | first :: others =>
    (.ok first, { supplier with stock := supplier.stock.setQueue item others })

/-- Whether an item can be asked for: a mask only toward a party that exists. -/
def refuses (supplier : StockedSupplier F φ γ) : Item → Option PreprocessingError
  | .mask toward =>
    if toward = 0 ∨ toward > supplier.parties then some (.noSuchParty toward) else none
  | _ => none

/-- Draw an item. -/
def draw (item : Item) (supplier : StockedSupplier F φ γ) :
    Except PreprocessingError (item.Value F) × StockedSupplier F φ γ :=
  match supplier.refuses item with
  | some e => (.error e, supplier)
  | none =>
    match supplier.stock.queue item with
    | first :: others => supplier.take item (first :: others)
    | [] =>
      match supplier.fetch item with
      | (.error e, supplier) => (.error e, supplier)
      | (.ok batch, supplier) => supplier.take item batch

instance : Supplier F (StockedSupplier F φ γ) where
  keyShare := StockedSupplier.keyShare
  draw := draw

end StockedSupplier

end Spdz
