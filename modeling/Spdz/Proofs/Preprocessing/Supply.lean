import Spdz.Party
import Spdz.Proofs.Preprocessing.Deck

/-!
# Suppliers in step

A supplier fetches items in lots and hands them out one by one, so how many it has fetched ahead
depends on its lots, but not what it hands out: that is the next item of the deck.  Parties that drew
the same items before therefore draw sides of one item.

* `Stocked` — a supplier from which so many items of each kind were drawn.
* **`Filled.draw`**, `Stocked.draw` — it gives the next item of the deck.
* `exists_deck_of_seed`, `exists_deck_simulated` — simulated parties with equal seeds start in step.
-/

namespace Spdz

variable {F : FieldSpec}

/-! ## Queues -/

namespace Stock

/-- A list by party, without the entry of one party. -/
theorem lookup_filter {α : Type} {a b : PartyId} (other : b ≠ a) (entries : List (PartyId × α)) :
    (entries.filter fun (party, _) => party ≠ a).lookup b = entries.lookup b := by
  induction entries with
  | nil => rfl
  | cons entry entries ih =>
      obtain ⟨party, value⟩ := entry
      by_cases here : party = a
      · subst here
        have skip : (b == party) = false := by simpa using other
        simp [List.lookup_cons, skip] at ih ⊢
        exact ih
      · by_cases found : b = party
        · simp [here, found]
        · have skip : (b == party) = false := by simpa using found
          simp [List.lookup_cons, here, skip] at ih ⊢
          exact ih

/-- A new stock holds nothing. -/
@[simp] theorem queue_empty (item : Item) : ({} : Stock F).queue item = [] := by
  cases item <;> rfl

/-- The queue that was set is there. -/
@[simp] theorem queue_setQueue (stock : Stock F) (item : Item) (items : List (item.Value F)) :
    (stock.setQueue item items).queue item = items := by
  cases item <;> simp [queue, setQueue]

/-- The other queues stay. -/
theorem queue_setQueue_of_ne (stock : Stock F) {item other : Item} (differs : other ≠ item)
    (items : List (item.Value F)) : (stock.setQueue item items).queue other = stock.queue other := by
  cases item with
  | mask toward =>
      cases other with
      | mask recipient =>
          have apart : recipient ≠ toward := fun same => differs (congrArg Item.mask same)
          have skip : (recipient == toward) = false := by simpa using apart
          simp only [queue, setQueue, List.lookup_cons, skip]
          rw [lookup_filter apart]
      | _ => rfl
  | _ => cases other <;> first | rfl | exact absurd rfl differs

end Stock

/-! ## Suppliers -/

/-- How far a party's supplier has got: so many items of each kind were drawn, so many lie in its
queues, and its dealer, which it may have yet to build, goes on from there. -/
structure Filled (deck : Deck F) (i : PartyId) (drawn ahead : Item → Nat) (dealer : Dealer F)
    (s : Party.SimulatedSupplier F) : Prop where
  ready : s.ready = (.ok dealer, { s with generator := some dealer })
  holds : deck.Holds i (fun item => drawn item + ahead item) dealer
  queue : ∀ item, deck.Has item →
    s.stock.queue item = (List.range' (drawn item) (ahead item)).map (deck.dealt i item)

/-- A party's supplier, from which so many items of each kind were drawn. -/
structure Stocked (deck : Deck F) (i : PartyId) (drawn : Item → Nat)
    (s : Party.SimulatedSupplier F) : Prop where
  parties : s.parties = deck.parties
  keyShare : s.keyShare = deck.keyShare i
  batchSize : 0 < s.batchSize
  pipeLength : s.pipeLength = deck.length
  stock : ∃ ahead dealer, Filled deck i drawn ahead dealer s

variable {deck : Deck F} {i : PartyId} {drawn ahead : Item → Nat} {dealer : Dealer F}
  {s : Party.SimulatedSupplier F} {item : Item}

/-- Queues do not matter for the dealer. -/
theorem ready_withStock (ready : s.ready = (.ok dealer, { s with generator := some dealer }))
    (stock : Stock F) (refills : Nat) : StockedSupplier.ready { s with stock, refills }
      = (.ok dealer, { s with generator := some dealer, stock, refills }) := by
  obtain ⟨party, parties, keyShare, batchSize, pipeLength, seed, factory, generator, _, _⟩ := s
  cases generator with
  | some built =>
      obtain rfl : built = dealer := Except.ok.inj (congrArg Prod.fst ready)
      rfl
  | none =>
      simp only [StockedSupplier.ready, StockedSupplier.params] at ready ⊢
      split at ready
      · simp at ready
      · simp_all

/-- A dealer that was not built yet is built now. -/
theorem ready_of_create (none : s.generator = none)
    (created : s.factory.create s.params = (.ok dealer, s.factory)) :
    s.ready = (.ok dealer, { s with generator := some dealer }) := by
  have built : GeneratorFactory.create s.params s.factory = (.ok dealer, s.factory) := created
  simp only [StockedSupplier.ready, none, built]

/-- An item that there is is not refused. -/
theorem refuses_of_has (parties : s.parties = deck.parties) (has : deck.Has item) :
    s.refuses item = none := by
  cases item with
  | mask toward =>
      have low : toward ≠ 0 := Nat.one_le_iff_ne_zero.mp has.1
      have high : ¬ toward > s.parties := parties ▸ Nat.not_lt.mpr has.2
      simp [StockedSupplier.refuses, low, high]
  | _ => rfl

/-- A lot that is fetched continues what is in the queue. -/
theorem Filled.fetch (filled : Filled deck i drawn ahead dealer s) (length : s.pipeLength = deck.length)
    (has : deck.Has item) (empty : ahead item = 0) : ∃ dealer' after,
      s.fetch item = (.ok ((List.range' (drawn item) s.batchSize).map (deck.dealt i item)), after) ∧
      after = { s with generator := some dealer', refills := s.refills + 1 } ∧
      deck.Holds i (fun other => drawn other + Function.update ahead item s.batchSize other) dealer' := by
  obtain ⟨after, generated, holds⟩ := filled.holds.generate has s.batchSize
  have dealt : BulkGenerator.generate (F := F) item ⟨s.batchSize, s.pipeLength⟩ dealer
      = (.ok ((List.range' (drawn item + ahead item) s.batchSize).map (deck.dealt i item)), after) := by
    rw [length]
    exact generated
  refine ⟨after, _, ?_, rfl, ?_⟩
  · simp only [StockedSupplier.fetch, filled.ready, dealt]
    simp [empty]
  · refine cast (congrArg (deck.Holds i · after) (funext fun other => ?_)) holds
    by_cases same : other = item
    · subst same
      simp [empty]
    · simp [same]

section Draws

variable {φ γ : Type} [GeneratorFactory φ γ] [BulkGenerator F γ] {s : StockedSupplier F φ γ}

/-- An item of a queue is drawn from it. -/
theorem draw_of_queue (refuses : s.refuses item = none) {first : item.Value F}
    {others : List (item.Value F)} (queue : s.stock.queue item = first :: others) :
    s.draw item = (.ok first, { s with stock := s.stock.setQueue item others }) := by
  simp only [StockedSupplier.draw, refuses, queue, StockedSupplier.take]

/-- When the queue is empty, an item is drawn from a lot that is fetched. -/
theorem draw_of_fetch (refuses : s.refuses item = none) (queue : s.stock.queue item = [])
    {first : item.Value F} {others : List (item.Value F)} {t : StockedSupplier F φ γ}
    (fetched : s.fetch item = (.ok (first :: others), t)) :
    s.draw item = (.ok first, { t with stock := t.stock.setQueue item others }) := by
  simp only [StockedSupplier.draw, refuses, queue, fetched, StockedSupplier.take]

end Draws

/-- The first of some items is drawn, and the others are left in the queue. -/
theorem Filled.take (ready : s.ready = (.ok dealer, { s with generator := some dealer }))
    (holds : deck.Holds i (fun other => drawn other + ahead other) dealer)
    (queue : ∀ other, deck.Has other → other ≠ item →
      s.stock.queue other = (List.range' (drawn other) (ahead other)).map (deck.dealt i other))
    {left : Nat} (more : ahead item = left + 1) :
    Filled deck i (Function.update drawn item (drawn item + 1)) (Function.update ahead item left) dealer
      { s with
        stock := s.stock.setQueue item
          ((List.range' (drawn item + 1) left).map (deck.dealt i item)) } where
  ready := ready_withStock ready _ s.refills
  holds := by
    refine cast (congrArg (deck.Holds i · dealer) (funext fun other => ?_)) holds
    by_cases same : other = item
    · subst same
      simp only [Function.update_self, more]
      omega
    · simp [same]
  queue other has := by
    by_cases same : other = item
    · subst same
      simp only [Stock.queue_setQueue, Function.update_self]
    · rw [Stock.queue_setQueue_of_ne _ same, Function.update_of_ne same, Function.update_of_ne same,
        queue other has same]

/-- **Drawing an item gives the next one of the deck**, and only the generator, the queues and the count
of refills change. -/
theorem Filled.draw (filled : Filled deck i drawn ahead dealer s) (parties : s.parties = deck.parties)
    (batchSize : 0 < s.batchSize) (length : s.pipeLength = deck.length) (has : deck.Has item) :
    ∃ generator stock refills ahead dealer,
      s.draw item = (.ok (deck.dealt i item (drawn item)), { s with generator, stock, refills }) ∧
      Filled deck i (Function.update drawn item (drawn item + 1)) ahead dealer
        { s with generator, stock, refills } := by
  have refuses := refuses_of_has parties has
  have queue := filled.queue item has
  cases more : ahead item with
  | zero =>
      -- nothing is left, and a lot is fetched
      obtain ⟨dealer', after, fetched, rfl, holds⟩ := filled.fetch length has more
      obtain ⟨left, size⟩ : ∃ left, s.batchSize = left + 1 := ⟨s.batchSize - 1, by omega⟩
      rw [size] at holds
      rw [size, List.range'_succ, List.map_cons, ← size] at fetched
      rw [more] at queue
      have others : ∀ other, deck.Has other → other ≠ item → s.stock.queue other
          = (List.range' (drawn other) (Function.update ahead item (left + 1) other)).map
            (deck.dealt i other) := fun other has differs => by
        rw [Function.update_of_ne differs]
        exact filled.queue other has
      exact ⟨some dealer', _, s.refills + 1, _, dealer', draw_of_fetch refuses queue fetched,
        Filled.take (s := { s with generator := some dealer', refills := s.refills + 1 })
          rfl holds others (Function.update_self ..)⟩
  | succ left =>
      rw [more, List.range'_succ, List.map_cons] at queue
      exact ⟨s.generator, _, s.refills, _, dealer, draw_of_queue refuses queue,
        Filled.take filled.ready filled.holds (fun other has _ => filled.queue other has) more⟩

/-- The same for a supplier that has the party's share of the key. -/
theorem Stocked.draw (stocked : Stocked deck i drawn s) (has : deck.Has item) :
    ∃ after, s.draw item = (.ok (deck.dealt i item (drawn item)), after) ∧
      Stocked deck i (Function.update drawn item (drawn item + 1)) after := by
  obtain ⟨parties, keyShare, batchSize, pipeLength, ahead, dealer, filled⟩ := stocked
  obtain ⟨_, _, _, ahead, dealer, draws, filled⟩ := filled.draw parties batchSize pipeLength has
  exact ⟨_, draws, parties, keyShare, batchSize, pipeLength, ahead, dealer, filled⟩

/-- A new supplier of a member of the group. -/
theorem Filled.start {n : Nat} {seed : UInt8} (member : IsMember n i) (party : s.party = i)
    (factory : s.factory = DealerFactory.new F n i seed) (generator : s.generator = none)
    (stock : s.stock = {}) (holds : deck.Holds i (fun _ => 0) (Dealer.new F n i seed)) :
    Filled deck i (fun _ => 0) (fun _ => 0) (Dealer.new F n i seed) s where
  ready := by
    have low : i ≠ 0 := Nat.one_le_iff_ne_zero.mp member.1
    have high : ¬ i > n := Nat.not_lt.mpr member.2
    refine ready_of_create generator ?_
    simp [factory, DealerFactory.create, DealerFactory.new, StockedSupplier.params, party, low, high]
  holds := holds
  queue item _ := by
    rw [stock]
    cases item <;> rfl

/-! ## Simulated parties -/

/-- Settings that suit a party. -/
theorem Config.of_validate {config : Config} {n : Nat} {i : PartyId} {bits : Nat}
    (valid : config.validate n i bits = .ok ()) :
    2 ≤ n ∧ IsMember n i ∧ 0 < config.batchSize ∧ 0 < config.pipeLength ∧
      0 < config.openedThreshold := by
  unfold Config.validate at valid
  split_ifs at valid with few stranger batch pipe threshold
  rw [not_or] at stranger
  have member : IsMember n i :=
    ⟨Nat.one_le_iff_ne_zero.mpr stranger.1, Nat.le_of_not_lt stranger.2⟩
  exact ⟨by omega, member, by omega, by omega, by omega⟩

/-- **Simulated parties with equal seeds draw from one deck**, if their pipes are of one length, whatever
their other settings and their own randomness are. -/
theorem exists_deck_of_seed (F : FieldSpec) {n : Nat} (one : 1 ≤ n) (length : Nat) (seed : UInt8) :
    ∃ deck : Deck F, deck.parties = n ∧ deck.length = length ∧
      ∀ config : Config, config.strategy = .simulated seed → config.pipeLength = length →
        ∀ i entropy S, Party.simulated F i n config entropy = .ok S →
          S.id = i ∧ S.parties = n ∧ S.config = config ∧ S.opened = {} ∧
          Stocked deck i (fun _ => 0) S.supplier := by
  obtain ⟨deck, parties, long, dealers⟩ := exists_deck F one length seed
  refine ⟨deck, parties, long, fun config strategy same i entropy S created => ?_⟩
  cases valid : config.validate n i F.bits with
  | error e => simp [Party.simulated, strategy, valid, bind, Except.bind] at created
  | ok _ =>
      obtain ⟨-, member, batchSize, -⟩ := Config.of_validate valid
      simp only [Party.simulated, strategy, valid, Party.withGenerator, Party.create, bind,
        Except.bind, pure, Except.pure, Except.ok.injEq] at created
      subst created
      exact ⟨rfl, rfl, rfl, rfl, parties.symm, (dealers i).1, batchSize, same.trans long.symm,
        fun _ => 0, _, Filled.start member rfl rfl rfl rfl (dealers i).2⟩

/-- The same for parties that have all settings in common. -/
theorem exists_deck_simulated (F : FieldSpec) {n : Nat} (one : 1 ≤ n) {config : Config} {seed : UInt8}
    (strategy : config.strategy = .simulated seed) :
    ∃ deck : Deck F, deck.parties = n ∧ deck.length = config.pipeLength ∧
      ∀ i entropy S, Party.simulated F i n config entropy = .ok S →
        S.id = i ∧ S.parties = n ∧ S.config = config ∧ S.opened = {} ∧
        Stocked deck i (fun _ => 0) S.supplier := by
  obtain ⟨deck, parties, length, simulated⟩ := exists_deck_of_seed F one config.pipeLength seed
  exact ⟨deck, parties, length, simulated config strategy rfl⟩

end Spdz
