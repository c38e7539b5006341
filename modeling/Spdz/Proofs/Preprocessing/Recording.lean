import Spdz.Preprocessing.Stock
import Spdz.Proofs.Preprocessing.Answers

/-!
# Suppliers under observation

What a supplier asks of its generator and of the factory is not seen from outside.  So both are wrapped
to keep a record of the calls.  The wrappers pass everything on, and a supplier cannot tell them from
what they wrap.

* `Recorded`, `RecordedFactory` — a generator and a factory with a record of their calls.
* `StockedSupplier.recorded`, `StockedSupplier.plain` — a supplier with and without the records.
* `StockedSupplier.drawAll` — items drawn one after the other.
* **`StockedSupplier.plain_drawAll`** — the records make no difference.
-/

namespace Spdz

variable {F : FieldSpec} {φ γ : Type}

/-! ## Records -/

/-- A generator, and its answers so far. -/
structure Recorded (F : FieldSpec) (γ : Type) where
  generator : γ
  answers : List (Answer F) := []

instance [BulkGenerator F γ] : BulkGenerator F (Recorded F γ) where
  generate item lot recorded :=
    let (result, generator) := BulkGenerator.generate item lot recorded.generator
    (result, ⟨generator, recorded.answers ++ [⟨item, lot, result⟩]⟩)

/-- A factory, what it was called with so far, and whether it built something. -/
structure RecordedFactory (F : FieldSpec) (φ : Type) where
  factory : φ
  created : List (GeneratorParams × Bool) := []

instance [GeneratorFactory φ γ] : GeneratorFactory (RecordedFactory F φ) (Recorded F γ) where
  create params recorded :=
    let (result, factory) := GeneratorFactory.create params recorded.factory
    (result.map fun generator => { generator },
      ⟨factory, recorded.created ++ [(params, result.isOk)]⟩)

/-- A supplier whose calls are recorded. -/
abbrev RecordedSupplier (F : FieldSpec) (φ γ : Type) :=
  StockedSupplier F (RecordedFactory F φ) (Recorded F γ)

namespace StockedSupplier

/-- The supplier with empty records. -/
def recorded (s : StockedSupplier F φ γ) : RecordedSupplier F φ γ :=
  { s with
    factory := { factory := s.factory }
    generator := s.generator.map fun generator => { generator } }

/-- The supplier without its records. -/
def plain (s : RecordedSupplier F φ γ) : StockedSupplier F φ γ :=
  { s with
    factory := s.factory.factory
    generator := s.generator.map (·.generator) }

/-- What the generator has answered so far. -/
def answers (s : RecordedSupplier F φ γ) : List (Answer F) :=
  match s.generator with
  | some recorded => recorded.answers
  | none => []

/-- All calls have succeeded, and the generator gave as many items as it was asked for. -/
structure Reliable (s : RecordedSupplier F φ γ) : Prop where
  answers : ∀ answer ∈ s.answers, ∃ items, answer.result = .ok items ∧ items.length = answer.lot.count
  created : ∀ call ∈ s.factory.created, call.2 = true

/-! ## Without records -/

theorem plain_recorded (s : StockedSupplier F φ γ) : s.recorded.plain = s := by
  obtain ⟨_, _, _, _, _, _, _, generator, _, _⟩ := s
  cases generator <;> rfl

variable [GeneratorFactory φ γ]

theorem plain_ready (s : RecordedSupplier F φ γ) :
    s.plain.ready = (s.ready.1.map (·.generator), s.ready.2.plain) := by
  obtain ⟨party, parties, keyShare, batchSize, pipeLength, seed, ⟨factory, created⟩, generator, _, _⟩ := s
  cases generator with
  | some recorded => rfl
  | none =>
      simp only [ready, plain, params, GeneratorFactory.create, Option.map_none]
      cases GeneratorFactory.create _ factory with
      | mk result factory => cases result <;> rfl

variable [BulkGenerator F γ]

theorem plain_fetch (item : Item) (s : RecordedSupplier F φ γ) :
    s.plain.fetch item = ((s.fetch item).1, (s.fetch item).2.plain) := by
  simp only [fetch, plain_ready]
  cases s.ready with
  | mk result t =>
      cases result with
      | error e => rfl
      | ok recorded =>
          simp only [Except.map, BulkGenerator.generate, plain]
          cases BulkGenerator.generate (F := F) item ⟨t.batchSize, t.pipeLength⟩ recorded.generator with
          | mk batch generator =>
              cases batch with
              | error e => rfl
              | ok items =>
                  simp only
                  split_ifs <;> rfl

theorem plain_draw (item : Item) (s : RecordedSupplier F φ γ) :
    s.plain.draw item = ((s.draw item).1, (s.draw item).2.plain) := by
  have refuses : s.plain.refuses item = s.refuses item := by cases item <;> rfl
  have queue : s.plain.stock.queue item = s.stock.queue item := rfl
  simp only [draw, refuses, queue, plain_fetch]
  cases s.refuses item with
  | some e => rfl
  | none =>
      cases s.stock.queue item with
      | cons first others => rfl
      | nil =>
          cases s.fetch item with
          | mk batch t =>
              cases batch with
              | error e => rfl
              | ok items => cases items <;> rfl

/-- Draw items one after the other.  A draw is a request for a single item. -/
def drawAll : List Item → StockedSupplier F φ γ → List (Answer F) × StockedSupplier F φ γ
  | [], s => ([], s)
  | item :: items, s =>
    let (value, t) := s.draw item
    let (others, u) := drawAll items t
    (⟨item, ⟨1, s.pipeLength⟩, value.map ([·])⟩ :: others, u)

/-- **The records make no difference** to what is drawn and to the supplier. -/
theorem plain_drawAll (items : List Item) (s : RecordedSupplier F φ γ) :
    drawAll items s.plain = ((drawAll items s).1, (drawAll items s).2.plain) := by
  induction items generalizing s with
  | nil => rfl
  | cons item items ih =>
      simp only [drawAll, plain_draw, ih]
      rfl

end StockedSupplier

end Spdz
