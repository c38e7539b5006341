import Mathlib.Algebra.Order.Floor.Div
import Spdz.Proofs.Preprocessing.Coherence
import Spdz.Proofs.Preprocessing.Refilling

/-!
# The account of a supplier

Seen from the side of the generator nothing is lost: what was drawn from a queue and what still lies in
it are together all that the generator gave for it, in this order, and no more lots were fetched than
the draws needed.

* `Supplied` — the account of a supplier after some draws; `Supplied.draw`, one more draw.
* `Account` — what was drawn, against what was asked of the generator and the factory.
* **`StockedSupplier.nothing_lost`** — the account of a new supplier after any draws.
-/

namespace Spdz

variable {F : FieldSpec} {φ γ : Type} {item : Item}

/-! ## Accounts -/

/-- All items that a group of `n` parties can ask for. -/
def Item.all (n : Nat) : Finset Item :=
  {.triple, .element, .bit, .pipe} ∪ (Finset.Icc 1 n).image Item.mask

theorem Item.mem_all {n : Nat} : item ∈ Item.all n ↔ item.Within n := by
  cases item <;> simp [Item.all, Item.Within, IsMember]

/-- Complete lots bring so many items each. -/
theorem length_received {size : Nat} {answers : List (Answer F)}
    (complete : ∀ answer ∈ answers, (answer.brought answer.item).length = size) (item : Item) :
    (received item answers).length = (answers.map (·.item)).count item * size := by
  induction answers with
  | nil => simp
  | cons answer answers ih =>
      have others := ih fun answer mem => complete answer (List.mem_cons_of_mem _ mem)
      have first := complete answer List.mem_cons_self
      by_cases same : answer.item = item
      · subst same
        simp [others, first, Nat.add_mul, Nat.add_comm]
      · simp [Answer.brought_of_ne _ same, others, same]

/-- So many lots are enough for the draws, and one less would not have been. -/
theorem eq_ceilDiv {lots size drawn left : Nat} (balance : lots * size = drawn + left)
    (few : left < size) : lots = drawn ⌈/⌉ size := by
  have all : drawn + size - 1 = (size - 1 - left) + size * lots := by
    rw [Nat.mul_comm size, balance]
    omega
  rw [Nat.ceilDiv_eq_add_pred_div, all, Nat.add_mul_div_left _ _ (by omega),
    Nat.div_eq_of_lt (by omega), Nat.zero_add]

variable {s : StockedSupplier F φ γ} {items : List Item} {draws : List (Answer F)}
  {t : RecordedSupplier F φ γ}

/-- The account of a supplier `t` that was new as `s`, and from which the items were drawn since. -/
structure Supplied (s : StockedSupplier F φ γ) (items : List Item) (draws : List (Answer F))
    (t : RecordedSupplier F φ γ) : Prop where
  params : t.params = s.params
  parties : t.parties = s.parties
  batchSize : t.batchSize = s.batchSize
  pipeLength : t.pipeLength = s.pipeLength
  queue : ∀ item, received item t.answers = received item draws ++ t.stock.queue item
  left : ∀ item, (t.stock.queue item).length < s.batchSize
  lots : ∀ answer ∈ t.answers, answer.item.Within s.parties ∧
    answer.lot = ⟨s.batchSize, s.pipeLength⟩ ∧ (answer.brought answer.item).length = s.batchSize
  drawn : ∀ item, (received item draws).length = if item.Within s.parties then items.count item else 0
  refills : t.refills = t.answers.length
  created : t.factory.created = if t.generator.isSome then [(s.params, true)] else []
  needed : t.generator.isSome ↔ ∃ item ∈ items, item.Within s.parties

namespace Supplied

/-- A new supplier has nothing. -/
theorem start (batch : 1 ≤ s.batchSize) (generator : s.generator = none) (stock : s.stock = {})
    (refills : s.refills = 0) : Supplied s [] [] s.recorded := by
  obtain ⟨_, _, _, _, _, _, _, _, _, _⟩ := s
  subst generator stock refills
  exact
    { params := rfl
      parties := rfl
      batchSize := rfl
      pipeLength := rfl
      queue := fun item => (Stock.queue_empty item).symm
      left := fun item => (congrArg List.length (Stock.queue_empty item)).trans_lt batch
      lots := fun _ mem => absurd mem List.not_mem_nil
      drawn := fun item => by simp
      refills := rfl
      created := rfl
      needed := by simp [StockedSupplier.recorded] }

/-- One more item of the group was drawn. -/
theorem drawn_append (supplied : Supplied s items draws t) (within : item.Within s.parties) (lot : Lot)
    (first : item.Value F) (other : Item) :
    (received other (draws ++ [⟨item, lot, .ok [first]⟩])).length
      = if other.Within s.parties then (items ++ [item]).count other else 0 := by
  rw [received_append, List.length_append, supplied.drawn other]
  by_cases same : item = other
  · subst same
    simp [within]
  · simp [Answer.brought_of_ne ⟨item, lot, .ok [first]⟩ same, same]

theorem exists_append (within : item.Within s.parties) :
    ∃ other ∈ items ++ [item], other.Within s.parties :=
  ⟨item, List.mem_append_right _ List.mem_cons_self, within⟩

/-- Queues stay shorter than a lot when one of them is replaced by such a queue. -/
theorem left_setQueue (supplied : Supplied s items draws t) {queue : List (item.Value F)}
    (few : queue.length < s.batchSize) (other : Item) :
    ((t.stock.setQueue item queue).queue other).length < s.batchSize := by
  by_cases same : other = item
  · subst same
    rwa [Stock.queue_setQueue]
  · rw [Stock.queue_setQueue_of_ne _ same]
    exact supplied.left other

/-- Only a generator that is there has filled a queue. -/
theorem isSome_generator (supplied : Supplied s items draws t) (filled : t.stock.queue item ≠ []) :
    t.generator.isSome := by
  by_contra missing
  have none : t.answers = [] := by
    simp only [StockedSupplier.answers, Option.not_isSome_iff_eq_none.mp missing]
  have nothing := supplied.queue item
  rw [none, received_nil] at nothing
  exact filled (List.append_eq_nil_iff.mp nothing.symm).2

variable {first : item.Value F} {others : List (item.Value F)}

/-- An item was taken from the front of its queue. -/
theorem take (supplied : Supplied s items draws t) (within : item.Within s.parties)
    (queue : t.stock.queue item = first :: others) (lot : Lot) :
    Supplied s (items ++ [item]) (draws ++ [⟨item, lot, .ok [first]⟩])
      { t with stock := t.stock.setQueue item others } := by
  have few : others.length < s.batchSize := by
    have before := supplied.left item
    rw [queue, List.length_cons] at before
    omega
  have filled : t.stock.queue item ≠ [] := by
    rw [queue]
    exact List.cons_ne_nil _ _
  exact
    { supplied with
      queue := fun other => (supplied.queue other).trans (received_take queue draws _ other)
      left := supplied.left_setQueue few
      drawn := supplied.drawn_append within _ first
      needed := iff_of_true (supplied.isSome_generator filled) (exists_append within) }

/-- A whole lot was fetched for an empty queue, and its first item was taken. -/
theorem refill (supplied : Supplied s items draws t) (within : item.Within s.parties)
    (empty : t.stock.queue item = []) (complete : (first :: others).length = s.batchSize)
    {generator : Recorded F γ} {factory : RecordedFactory F φ}
    (answers : generator.answers
      = t.answers ++ [⟨item, ⟨s.batchSize, s.pipeLength⟩, .ok (first :: others)⟩])
    (created : factory.created = if t.generator.isNone then t.factory.created ++ [(t.params, true)]
      else t.factory.created) (lot : Lot) :
    Supplied s (items ++ [item]) (draws ++ [⟨item, lot, .ok [first]⟩])
      { t with
        stock := t.stock.setQueue item others, generator := some generator, factory
        refills := t.refills + 1 } := by
  have few : others.length < s.batchSize := by
    rw [List.length_cons] at complete
    omega
  have grown : StockedSupplier.answers (F := F) { t with
      stock := t.stock.setQueue item others, generator := some generator, factory
      refills := t.refills + 1 } = _ := answers
  exact
    { params := supplied.params
      parties := supplied.parties
      batchSize := supplied.batchSize
      pipeLength := supplied.pipeLength
      queue := fun other => by
        rw [grown, received_append, supplied.queue other, received_cons, received_nil,
          List.append_nil]
        exact received_refill empty draws _ _ other
      left := supplied.left_setQueue few
      lots := by
        rw [grown, List.forall_mem_append, List.forall_mem_singleton]
        refine ⟨supplied.lots, within, rfl, ?_⟩
        rwa [Answer.brought_ok]
      drawn := supplied.drawn_append within _ first
      refills := by
        rw [grown, List.length_append, List.length_singleton, ← supplied.refills]
      created := by
        rw [created, supplied.created, supplied.params]
        cases t.generator <;> rfl
      needed := iff_of_true rfl (exists_append within) }

/-- An item that the group cannot have was refused. -/
theorem refuse (supplied : Supplied s items draws t) (stranger : ¬ item.Within s.parties) (lot : Lot)
    (e : PreprocessingError) :
    Supplied s (items ++ [item]) (draws ++ [⟨item, lot, .error e⟩]) t where
  __ := supplied
  queue other := by rw [received_failure, supplied.queue]
  drawn other := by
    rw [received_failure, supplied.drawn other]
    by_cases same : item = other
    · subst same
      rw [if_neg stranger, if_neg stranger]
    · simp [same]
  needed := supplied.needed.trans (by simp [stranger])

variable [GeneratorFactory φ γ] [BulkGenerator F γ]

/-- **One more draw.** -/
theorem draw (batch : 1 ≤ s.batchSize) (supplied : Supplied s items draws t)
    (reliable : (t.draw item).2.Reliable) :
    Supplied s (items ++ [item])
      (draws ++ [⟨item, ⟨1, t.pipeLength⟩, (t.draw item).1.map ([·])⟩]) (t.draw item).2 := by
  by_cases within : item.Within s.parties
  · have here : item.Within t.parties := supplied.parties ▸ within
    rcases StockedSupplier.draw_within here (supplied.batchSize ▸ batch) reliable with
      ⟨first, others, queue, drawn⟩ |
        ⟨empty, first, others, generator, factory, complete, drawn, answers, created⟩
    · rw [drawn]
      exact supplied.take within queue _
    · rw [drawn]
      rw [supplied.batchSize, supplied.pipeLength] at answers
      exact supplied.refill within empty (complete.trans supplied.batchSize) answers created _
  · -- only masks can be refused
    cases item with
    | mask toward =>
        have refused := StockedSupplier.draw_mask (s := t) (supplied.parties ▸ within)
        rw [refused]
        exact supplied.refuse within _ _
    | _ => exact absurd trivial within

/-- More draws. -/
theorem drawAll (batch : 1 ≤ s.batchSize) (supplied : Supplied s items draws t) (more : List Item)
    (reliable : (StockedSupplier.drawAll more t).2.Reliable) :
    Supplied s (items ++ more) (draws ++ (StockedSupplier.drawAll more t).1)
      (StockedSupplier.drawAll more t).2 := by
  induction more generalizing items draws t with
  | nil => simpa [StockedSupplier.drawAll] using supplied
  | cons item more ih =>
      obtain ⟨answers, created⟩ := StockedSupplier.drawAll_grows more (t.draw item).2
      have first := supplied.draw batch (reliable.earlier answers created)
      have others := ih first reliable
      rwa [List.append_assoc, List.append_assoc] at others

end Supplied

/-! ## The account -/

/-- What was drawn from a supplier that was new as `s`, and what was asked for on its behalf. -/
structure Account (s : StockedSupplier F φ γ) (items : List Item) (draws : List (Answer F))
    (t : RecordedSupplier F φ γ) : Prop where
  /-- Items come in the order in which the generator gave them, each kind by itself. -/
  order : ∀ item, received item draws <+: received item t.answers
  /-- No draw of an item of the group fails. -/
  drawn : ∀ item, (received item draws).length = if item.Within s.parties then items.count item else 0
  /-- The generator was asked for no more than the draws needed, -/
  requests : ∀ item,
    (t.answers.map (·.item)).count item = (received item draws).length ⌈/⌉ s.batchSize
  /-- and each time for a whole lot. -/
  lots : ∀ answer ∈ t.answers, answer.lot = ⟨s.batchSize, s.pipeLength⟩
  refills : t.refills = ∑ item ∈ Item.all s.parties, (received item draws).length ⌈/⌉ s.batchSize
  /-- The generator was built once, when it was first needed. -/
  created : t.factory.created = if ∃ item ∈ items, item.Within s.parties then
    [({ party := s.party
        peers := (List.range' 1 s.parties).filter (· ≠ s.party)
        seed := s.seed
        modulusBits := F.bits
        batchSize := s.batchSize }, true)] else []

theorem Supplied.account (supplied : Supplied s items draws t) : Account s items draws t := by
  have lots : ∀ item,
      (t.answers.map (·.item)).count item = (received item draws).length ⌈/⌉ s.batchSize := by
    intro item
    have all := length_received (fun answer mem => (supplied.lots answer mem).2.2) item
    rw [supplied.queue item, List.length_append] at all
    exact eq_ceilDiv all.symm (supplied.left item)
  exact
    { order := fun item => supplied.queue item ▸ List.prefix_append ..
      drawn := supplied.drawn
      requests := lots
      lots := fun answer mem => (supplied.lots answer mem).2.1
      refills := by
        have members : ∀ item ∈ (t.answers.map (·.item) : Multiset Item),
            item ∈ Item.all s.parties := by
          intro item mem
          obtain ⟨answer, here, rfl⟩ := List.mem_map.mp (Multiset.mem_coe.mp mem)
          exact Item.mem_all.mpr (supplied.lots answer here).1
        calc t.refills
          _ = (t.answers.map (·.item)).length := by rw [supplied.refills, List.length_map]
          _ = ∑ item ∈ Item.all s.parties, (t.answers.map (·.item)).count item := by
              simpa only [Multiset.coe_card, Multiset.coe_count] using
                (Multiset.sum_count_eq_card members).symm
          _ = _ := Finset.sum_congr rfl fun item _ => lots item
      created := by
        rw [supplied.created]
        exact if_congr supplied.needed rfl rfl }

namespace StockedSupplier

variable [GeneratorFactory φ γ] [BulkGenerator F γ]

/-- **Nothing is lost** between the generator of a new supplier and those who draw from it, as long as
the calls to generator and factory succeed and lots are complete.  Masks toward parties that do not
exist are refused, and nothing else happens. -/
theorem nothing_lost (s : StockedSupplier F φ γ) (batch : 1 ≤ s.batchSize)
    (generator : s.generator = none) (stock : s.stock = {}) (refills : s.refills = 0)
    (items : List Item) (reliable : (drawAll items s.recorded).2.Reliable) :
    ∃ draws t, drawAll items s = (draws, t.plain) ∧ drawAll items s.recorded = (draws, t) ∧
      Account s items draws t ∧
      ∀ toward, ¬ IsMember s.parties toward →
        t.plain.draw (.mask toward) = (.error (.noSuchParty toward), t.plain) := by
  have supplied := (Supplied.start batch generator stock refills).drawAll batch items reliable
  refine ⟨_, _, ?_, rfl, supplied.account, fun toward stranger => ?_⟩
  · rw [← plain_drawAll, plain_recorded]
  · exact draw_mask (supplied.parties.symm ▸ stranger)

end StockedSupplier

/-! ## Dealers -/

/-- Dealers with a stream of masks for each party give the group all that it asks for. -/
theorem Dealer.faithful (n : Nat) : Faithful F n fun dealer : Dealer F => dealer.masks.length = n := by
  intro item lot dealer within masks
  obtain ⟨stream, here⟩ : ∃ stream, dealer.stream? item = .ok stream := by
    cases item with
    | mask toward => exact exists_stream?_mask (masks ▸ within)
    | _ => exact ⟨_, rfl⟩
  refine ⟨_, _, generate_ok here lot, ?_, (length_masks_setStream _).trans masks⟩
  rw [Dealing.length_dealEach, List.length_replicate]

theorem Dealer.length_masks_new (n : Nat) (i : PartyId) (seed : UInt8) :
    (Dealer.new F n i seed).masks.length = n := by
  simp only [Dealer.new, WordSource.length_collect]

namespace StockedSupplier

/-- The second of three parties, which fetches two items at a time. -/
def second : Party.SimulatedSupplier .f251 where
  party := 2
  parties := 3
  keyShare := (DealerFactory.new .f251 3 2 7).keyShare
  batchSize := 2
  pipeLength := 4
  seed := List.replicate 32 0
  factory := DealerFactory.new .f251 3 2 7

/-- A mask that is refused, and some items from two queues. -/
def drawn : List Item := [.mask 4, .triple, .mask 1, .triple, .triple]

theorem nothing_lost_second : 1 ≤ second.batchSize ∧ second.generator = none ∧ second.stock = {} ∧
    second.refills = 0 ∧ (drawAll drawn second.recorded).2.Reliable ∧
    ∃ draws t, drawAll drawn second = (draws, plain t) ∧ drawAll drawn second.recorded = (draws, t) ∧
      Account second drawn draws t ∧ (received .triple draws).length = 3 ∧ t.refills = 3 := by
  have builds : second.Builds fun dealer => dealer.masks.length = 3 :=
    ⟨_, _, rfl, Dealer.length_masks_new 3 2 7⟩
  have reliable := reliable_drawAll (Dealer.faithful 3) builds rfl drawn
  obtain ⟨draws, t, real, recorded, account, -⟩ :=
    nothing_lost second (by decide) rfl rfl rfl drawn reliable
  refine ⟨by decide, rfl, rfl, rfl, reliable, draws, t, real, recorded, account,
    account.drawn .triple, ?_⟩
  rw [account.refills]
  simp only [account.drawn]
  decide

end StockedSupplier

end Spdz
