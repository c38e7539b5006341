import Spdz.Proofs.Preprocessing.Coherence
import Spdz.Proofs.Preprocessing.Refilling

/-!
# Lots of any size

How much a supplier fetches at a time, and in which order the kinds are drawn, has no influence on what
comes: each kind is a stream of its own, from which the simulated dealer takes lots one after the other.

* `Simulates` — a new supplier of a party, over the simulated dealing from a seed.
* `Filled.received_drawAll` — what it hands out of one kind is a stretch of the deck.
* `Dealer.generate_add` — two lots of one kind are one larger lot.
* `Dealer.generate_comm` — lots of different kinds can be asked for in any order.
* **`Simulates.independent_of_batching`** — suppliers with different lots hand out the same items.
-/

namespace Spdz

variable {F : FieldSpec} {item other : Item}

/-! ## Suppliers -/

/-- **Simulates.**  A new supplier of the party `i` of `n`, over the dealing from the seed, with pipes
of the length.  Its lots hold any number of items from one on.  Its share of the key and the seed for
its generator may be anything. -/
structure Simulates (n : Nat) (i : PartyId) (seed : UInt8) (length : Nat)
    (s : Party.SimulatedSupplier F) : Prop where
  party : s.party = i
  parties : s.parties = n
  factory : s.factory = DealerFactory.new F n i seed
  pipeLength : s.pipeLength = length
  batchSize : 1 ≤ s.batchSize
  generator : s.generator = none
  stock : s.stock = {}

theorem Deck.has_iff_within {deck : Deck F} : deck.Has item ↔ item.Within deck.parties := by
  cases item <;> rfl

/-- **Draws of one kind are a stretch of the deck,** whatever else is drawn in between. -/
theorem Filled.received_drawAll {deck : Deck F} {i : PartyId} {drawn ahead : Item → Nat}
    {dealer : Dealer F} {s : Party.SimulatedSupplier F} (filled : Filled deck i drawn ahead dealer s)
    (parties : s.parties = deck.parties) (batchSize : 0 < s.batchSize)
    (length : s.pipeLength = deck.length) (within : item.Within deck.parties) (items : List Item) :
    received item (StockedSupplier.drawAll items s).1
      = (List.range' (drawn item) (items.count item)).map (deck.dealt i item) := by
  induction items generalizing drawn ahead dealer s with
  | nil => rfl
  | cons next items ih =>
      simp only [StockedSupplier.drawAll, received_cons]
      by_cases has : deck.Has next
      · obtain ⟨generator, stock, refills, ahead, dealer, draws, filled⟩ :=
          filled.draw parties batchSize length has
        rw [draws, ih filled parties batchSize length]
        by_cases same : next = item
        · subst same
          rw [Function.update_self, List.count_cons_self, List.range'_succ]
          simp [Except.map]
        · rw [Answer.brought_of_ne _ same, Function.update_of_ne (Ne.symm same),
            List.count_cons_of_ne same, List.nil_append]
      · -- a mask toward somebody who does not belong to the group
        have differs : next ≠ item := by
          rintro rfl
          exact has (Deck.has_iff_within.mpr within)
        have refused : (s.draw next).2 = s := by
          cases next with
          | mask toward =>
              rw [StockedSupplier.draw_mask (parties ▸ has)]
          | _ => exact absurd trivial has
        rw [refused, ih filled parties batchSize length, Answer.brought_of_ne _ differs,
          List.count_cons_of_ne differs, List.nil_append]

/-! ## Generators -/

namespace Dealer

variable {dealer : Dealer F} {used left : Xoshiro}

/-- The stream that was set last counts. -/
theorem setStream_setStream (dealer : Dealer F) (item : Item) (first second : Xoshiro) :
    (dealer.setStream item first).setStream item second = dealer.setStream item second := by
  cases item <;> simp [setStream]

/-- Different streams can be set in any order. -/
theorem setStream_comm (here : dealer.stream? item = .ok used) (there : dealer.stream? other = .ok left)
    (differs : item ≠ other) (first second : Xoshiro) :
    (dealer.setStream item first).setStream other second
      = (dealer.setStream other second).setStream item first := by
  cases item with
  | mask toward =>
      cases other with
      | mask recipient =>
          obtain ⟨index, rfl, -⟩ := stream?_mask here
          obtain ⟨k, rfl, -⟩ := stream?_mask there
          have apart : index ≠ k := by
            rintro rfl
            exact differs rfl
          simp only [setStream, Nat.add_sub_cancel]
          rw [List.set_comm _ _ apart]
      | _ => rfl
  | _ => cases other <;> first | rfl | exact absurd rfl differs

/-- **Two lots of one kind are one larger lot.** -/
theorem generate_add (dealer : Dealer F) (item : Item) (length n₁ n₂ : Nat) :
    let first := dealer.generate item ⟨n₁, length⟩
    let second := first.2.generate item ⟨n₂, length⟩
    dealer.generate item ⟨n₁ + n₂, length⟩
      = (first.1.bind fun items => second.1.map (items ++ ·), second.2) := by
  intro first second
  cases found : dealer.stream? item with
  | error e =>
      have stays : first = (.error e, dealer) := generate_error found _
      simp only [second, stays, generate_error found]
      rfl
  | ok stream =>
      have lot : first = _ := generate_ok found _
      simp only [second, lot, generate_ok found, generate_ok (stream?_setStream_self found _),
        dealing_setStream, setStream_setStream, List.replicate_add, Dealing.dealEach_append]
      rfl

/-- A lot of one kind does not change what comes of another kind. -/
theorem generate_fst_of_ne (differs : item ≠ other) (lot lot' : Lot) :
    ((dealer.generate other lot').2.generate item lot).1 = (dealer.generate item lot).1 := by
  cases there : dealer.stream? other with
  | error e => rw [generate_error there]
  | ok stream =>
      have same := stream?_setStream_of_ne there differs
        (dealer.dealing.dealEach other (List.replicate lot'.count lot'.pipeLength) stream).2
      rw [generate_ok there]
      cases here : dealer.stream? item with
      | error e => rw [generate_error here, generate_error (same.trans here)]
      | ok used => rw [generate_ok here, generate_ok (same.trans here), dealing_setStream]

/-- **Lots of different kinds can be asked for in any order.** -/
theorem generate_comm (differs : item ≠ other) (lot lot' : Lot) :
    ((dealer.generate other lot').2.generate item lot).2
      = ((dealer.generate item lot).2.generate other lot').2 := by
  cases here : dealer.stream? item with
  | error e =>
      rw [generate_error here]
      cases there : dealer.stream? other with
      | error e' => rw [generate_error there, generate_error here]
      | ok stream =>
          rw [generate_ok there,
            generate_error ((stream?_setStream_of_ne there differs _).trans here)]
  | ok used =>
      rw [generate_ok here]
      cases there : dealer.stream? other with
      | error e =>
          rw [generate_error there, generate_ok here,
            generate_error ((stream?_setStream_of_ne here differs.symm _).trans there)]
      | ok left =>
          rw [generate_ok there, generate_ok ((stream?_setStream_of_ne there differs _).trans here),
            generate_ok ((stream?_setStream_of_ne here differs.symm _).trans there), dealing_setStream,
            dealing_setStream, setStream_comm there here differs.symm]

end Dealer

/-! ## Independence -/

/-- **The size of lots and the order of draws make no difference.**  Two suppliers of a party over the
same dealing, whatever their lots, and whatever is drawn from them and in which order: each gives all
that is drawn, and as far as both got in a kind, they gave the same.  The dealer gives the same in one
lot as in two, and lots of different kinds do not affect each other. -/
theorem Simulates.independent_of_batching {n : Nat} {i : PartyId} (member : IsMember n i) {seed : UInt8}
    {length : Nat} {s s' : Party.SimulatedSupplier F} (simulates : Simulates n i seed length s)
    (simulates' : Simulates n i seed length s') (items items' : List Item) :
    (∀ item : Item, item.Within n →
      let draws := received item (StockedSupplier.drawAll items s).1
      let draws' := received item (StockedSupplier.drawAll items' s').1
      draws.length = items.count item ∧ draws'.length = items'.count item ∧
        ∀ (k : Nat) (_ : k < draws.length) (_ : k < draws'.length), draws[k] = draws'[k]) ∧
    (∀ (dealer : Dealer F) (item : Item) (pipeLength n₁ n₂ : Nat),
      let first := dealer.generate item ⟨n₁, pipeLength⟩
      let second := first.2.generate item ⟨n₂, pipeLength⟩
      dealer.generate item ⟨n₁ + n₂, pipeLength⟩
        = (first.1.bind fun items => second.1.map (items ++ ·), second.2)) ∧
    ∀ (dealer : Dealer F) (item other : Item) (lot lot' : Lot), item ≠ other →
      let one := dealer.generate item lot
      let two := dealer.generate other lot'
      (two.2.generate item lot).1 = one.1 ∧ (one.2.generate other lot').1 = two.1 ∧
        (two.2.generate item lot).2 = (one.2.generate other lot').2 := by
  refine ⟨?_, ?_, ?_⟩
  · intro item within
    obtain ⟨deck, rfl, rfl, dealers⟩ := exists_deck F (member.1.trans member.2) length seed
    -- both suppliers hand out the deck from its beginning
    have stretch : ∀ {s : Party.SimulatedSupplier F}, Simulates deck.parties i seed deck.length s →
        ∀ items, received item (StockedSupplier.drawAll items s).1
          = (List.range' 0 (items.count item)).map (deck.dealt i item) := by
      intro s simulates items
      have filled := Filled.start member simulates.party simulates.factory simulates.generator
        simulates.stock (dealers i).2
      exact filled.received_drawAll simulates.parties simulates.batchSize simulates.pipeLength within items
    intro draws draws'
    have all : draws = _ := stretch simulates items
    have all' : draws' = _ := stretch simulates' items'
    refine ⟨?_, ?_, ?_⟩
    · simp [all]
    · simp [all']
    · intro k small small'
      simp [all, all']
  · intro dealer item pipeLength n₁ n₂
    exact dealer.generate_add item pipeLength n₁ n₂
  · intro dealer item other lot lot' differs
    exact ⟨Dealer.generate_fst_of_ne differs lot lot', Dealer.generate_fst_of_ne differs.symm lot' lot,
      Dealer.generate_comm differs lot lot'⟩

/-- The second of three parties, with lots of a size, and with any share of the key. -/
def inLots (size : Nat) (keyShare : Elem .f251) : Party.SimulatedSupplier .f251 where
  party := 2
  parties := 3
  keyShare
  batchSize := size
  pipeLength := 4
  seed := List.replicate 32 (UInt8.ofNat size)
  factory := DealerFactory.new .f251 3 2 7

theorem Simulates.independent_of_batching_inLots :
    IsMember 3 2 ∧ Simulates 3 2 7 4 (inLots 2 1) ∧ Simulates 3 2 7 4 (inLots 5 0) ∧
      let draws := received .triple (StockedSupplier.drawAll [.triple, .mask 1, .triple] (inLots 2 1)).1
      let draws' := received .triple
        (StockedSupplier.drawAll [.mask 4, .triple, .triple, .bit, .triple] (inLots 5 0)).1
      draws.length = 2 ∧ draws'.length = 3 ∧ draws[1]? = draws'[1]? := by
  have member : IsMember 3 2 := ⟨by decide, by decide⟩
  have two : Simulates 3 2 7 4 (inLots 2 1) := ⟨rfl, rfl, rfl, rfl, by decide, rfl, rfl⟩
  have five : Simulates 3 2 7 4 (inLots 5 0) := ⟨rfl, rfl, rfl, rfl, by decide, rfl, rfl⟩
  obtain ⟨same, -⟩ := Simulates.independent_of_batching member two five [.triple, .mask 1, .triple]
    [.mask 4, .triple, .triple, .bit, .triple]
  obtain ⟨length, length', agree⟩ := same .triple trivial
  refine ⟨member, two, five, length, length', ?_⟩
  have small : 1 < 2 := by decide
  have small' : 1 < 3 := by decide
  rw [List.getElem?_eq_getElem (length ▸ small), List.getElem?_eq_getElem (length' ▸ small')]
  exact congrArg some (agree 1 _ _)

end Spdz
