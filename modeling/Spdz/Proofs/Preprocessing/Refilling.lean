import Spdz.Proofs.Preprocessing.Recording
import Spdz.Proofs.Preprocessing.Supply

/-!
# Draws and refills

A supplier hands out the items of its queues, and fetches a lot when a queue is empty.  The first time
it builds its generator.  Here is what a draw can do as long as generator and factory do their part.

* `received_take`, `received_refill`, `received_failure` — what was handed out, and what is left in the
  queues.
* `StockedSupplier.exists_fetch`, `StockedSupplier.draw_within` — what a draw can do.
* `StockedSupplier.drawAll_grows` — draws add to the records and take nothing back.
* `Faithful` — a generator that can give what it is asked for;
  `StockedSupplier.reliable_drawAll`, with such a generator no call fails.
-/

namespace Spdz

variable {F : FieldSpec} {φ γ : Type} {item : Item}

/-! ## Queues -/

section Queues

variable {stock : Stock F} {first : item.Value F} {others : List (item.Value F)}

/-- The first item of a queue is handed out. -/
theorem received_take (queue : stock.queue item = first :: others) (draws : List (Answer F)) (lot : Lot)
    (other : Item) : received other draws ++ stock.queue other
      = received other (draws ++ [⟨item, lot, .ok [first]⟩])
        ++ (stock.setQueue item others).queue other := by
  by_cases same : item = other
  · subst same
    simp [queue]
  · simp [Stock.queue_setQueue_of_ne _ (Ne.symm same), Answer.brought_of_ne ⟨item, _, _⟩ same]

/-- The first item of a lot is handed out, and the others are left in the queue. -/
theorem received_refill (empty : stock.queue item = []) (draws : List (Answer F)) (lot one : Lot)
    (other : Item) :
    received other draws ++ stock.queue other
        ++ Answer.brought ⟨item, lot, .ok (first :: others)⟩ other
      = received other (draws ++ [⟨item, one, .ok [first]⟩])
        ++ (stock.setQueue item others).queue other := by
  by_cases same : item = other
  · subst same
    simp [empty]
  · simp [Stock.queue_setQueue_of_ne _ (Ne.symm same), Answer.brought_of_ne ⟨item, _, _⟩ same]

/-- A draw that fails hands out nothing. -/
theorem received_failure (draws : List (Answer F)) (item : Item) (lot : Lot) (e : PreprocessingError)
    (other : Item) : received other (draws ++ [⟨item, lot, .error e⟩]) = received other draws := by
  rw [received_append, received_cons, received_nil, Answer.brought_error, List.append_nil,
    List.append_nil]

end Queues

namespace StockedSupplier

section Refusal

variable {s : StockedSupplier F φ γ}

/-- Only items of the group can be asked for. -/
theorem refuses_of_within (within : item.Within s.parties) : s.refuses item = none := by
  cases item with
  | mask toward =>
      have low : toward ≠ 0 := Nat.one_le_iff_ne_zero.mp within.1
      have high : ¬ toward > s.parties := Nat.not_lt.mpr within.2
      simp [refuses, low, high]
  | _ => rfl

theorem refuses_mask {toward : PartyId} (stranger : ¬ IsMember s.parties toward) :
    s.refuses (.mask toward) = some (.noSuchParty toward) := by
  have outside : toward = 0 ∨ toward > s.parties := by
    rw [IsMember, not_and_or, Nat.not_le, Nat.lt_one_iff, Nat.not_le] at stranger
    exact stranger
  exact if_pos outside

variable [GeneratorFactory φ γ] [BulkGenerator F γ]

/-- Masks toward others are refused, and nothing else happens. -/
theorem draw_mask {toward : PartyId} (stranger : ¬ IsMember s.parties toward) :
    s.draw (.mask toward) = (.error (.noSuchParty toward), s) := by
  simp only [draw, refuses_mask stranger]

end Refusal

variable {s t : RecordedSupplier F φ γ}

/-- What has gone well all along has gone well so far. -/
theorem Reliable.earlier (reliable : t.Reliable) (answers : s.answers <+: t.answers)
    (created : s.factory.created <+: t.factory.created) : s.Reliable where
  answers answer mem := reliable.answers answer (answers.subset mem)
  created call mem := reliable.created call (created.subset mem)

/-! ## What a draw can do -/

section Building

variable [GeneratorFactory φ γ]

/-- The generator is there or built now, unless the factory fails. -/
theorem exists_ready (created : ∀ call ∈ s.ready.2.factory.created, call.2 = true) :
    ∃ recorded factory, s.ready = (.ok recorded, { s with generator := some recorded, factory }) ∧
      recorded.answers = s.answers ∧ factory.created
        = if s.generator.isNone then s.factory.created ++ [(s.params, true)]
          else s.factory.created := by
  obtain ⟨_, _, _, _, _, _, ⟨factory, before⟩, generator, _, _⟩ := s
  cases generator with
  | some recorded => exact ⟨recorded, _, rfl, rfl, rfl⟩
  | none =>
      simp only [ready, GeneratorFactory.create, params] at created ⊢
      rcases made : GeneratorFactory.create _ factory with ⟨_ | generator, factory⟩
      · rw [made] at created
        exact absurd (created (_, false) (List.mem_append_right _ (List.mem_singleton.mpr rfl)))
          Bool.false_ne_true
      · exact ⟨_, _, rfl, rfl, rfl⟩

/-- Building the generator adds to the records only. -/
theorem ready_grows (s : RecordedSupplier F φ γ) : s.ready.2.answers = s.answers ∧
    s.factory.created <+: s.ready.2.factory.created ∧
      ∀ recorded, s.ready.1 = .ok recorded → recorded.answers = s.answers := by
  obtain ⟨_, _, _, _, _, _, ⟨factory, created⟩, generator, _, _⟩ := s
  cases generator with
  | some recorded => exact ⟨rfl, List.prefix_rfl, fun _ same => by cases same; rfl⟩
  | none =>
      simp only [ready, GeneratorFactory.create, params]
      rcases GeneratorFactory.create _ factory with ⟨_ | generator, factory⟩
      · exact ⟨rfl, List.prefix_append .., fun _ same => by cases same⟩
      · exact ⟨rfl, List.prefix_append .., fun _ same => by cases same; rfl⟩

end Building

variable [GeneratorFactory φ γ] [BulkGenerator F γ]

theorem factory_fetch (item : Item) (s : RecordedSupplier F φ γ) :
    (s.fetch item).2.factory = s.ready.2.factory := by
  simp only [fetch]
  rcases s.ready with ⟨_ | recorded, t⟩
  · rfl
  · simp only [BulkGenerator.generate]
    rcases BulkGenerator.generate item _ recorded.generator with ⟨_ | items, generator⟩
    · rfl
    · simp only
      split_ifs <;> rfl

/-- A lot that is fetched is complete, and it is one more entry of the record. -/
theorem exists_fetch (reliable : (s.fetch item).2.Reliable) :
    ∃ items recorded factory, items.length = s.batchSize ∧
      s.fetch item = (.ok items,
        { s with generator := some recorded, factory, refills := s.refills + 1 }) ∧
      recorded.answers = s.answers ++ [⟨item, ⟨s.batchSize, s.pipeLength⟩, .ok items⟩] ∧
      factory.created = if s.generator.isNone then s.factory.created ++ [(s.params, true)]
        else s.factory.created := by
  obtain ⟨recorded, factory, ready, answers, grown⟩ :=
    exists_ready (factory_fetch item s ▸ reliable.created)
  simp only [fetch, ready, BulkGenerator.generate] at reliable ⊢
  rcases made : BulkGenerator.generate item _ recorded.generator with ⟨e | items, generator⟩
  · rw [made] at reliable
    obtain ⟨items, failed, -⟩ := reliable.answers ⟨item, ⟨s.batchSize, s.pipeLength⟩, .error e⟩
      (List.mem_append_right _ (List.mem_singleton.mpr rfl))
    cases failed
  · rw [made] at reliable
    have complete : items.length = s.batchSize := by
      simp only at reliable
      split_ifs at reliable
      all_goals
        obtain ⟨_, same, length⟩ := reliable.answers ⟨item, ⟨s.batchSize, s.pipeLength⟩, .ok items⟩
          (List.mem_append_right _ (List.mem_singleton.mpr rfl))
        cases same
        exact length
    refine ⟨items, _, factory, complete, if_neg (not_not.mpr complete), ?_, grown⟩
    rw [answers]

/-! ## Records only grow -/

theorem fetch_grows (item : Item) (s : RecordedSupplier F φ γ) :
    s.answers <+: (s.fetch item).2.answers ∧
      s.factory.created <+: (s.fetch item).2.factory.created := by
  obtain ⟨answers, created, found⟩ := ready_grows s
  refine ⟨?_, factory_fetch item s ▸ created⟩
  simp only [fetch]
  rcases ready : s.ready with ⟨_ | recorded, t⟩
  · rw [ready] at answers
    exact answers ▸ List.prefix_rfl
  · rw [ready] at found
    simp only [BulkGenerator.generate]
    rcases BulkGenerator.generate item _ recorded.generator with ⟨_ | items, generator⟩
    · exact found recorded rfl ▸ List.prefix_append ..
    · simp only
      split_ifs
      all_goals exact found recorded rfl ▸ List.prefix_append ..

theorem draw_grows (item : Item) (s : RecordedSupplier F φ γ) :
    s.answers <+: (s.draw item).2.answers ∧
      s.factory.created <+: (s.draw item).2.factory.created := by
  have fetched := fetch_grows item s
  simp only [draw]
  cases s.refuses item with
  | some e => exact ⟨List.prefix_rfl, List.prefix_rfl⟩
  | none =>
      cases s.stock.queue item with
      | cons first others => exact ⟨List.prefix_rfl, List.prefix_rfl⟩
      | nil =>
          rcases fetch : s.fetch item with ⟨_ | batch, t⟩
          · rwa [fetch] at fetched
          · rw [fetch] at fetched
            cases batch <;> exact fetched

theorem drawAll_grows (items : List Item) (s : RecordedSupplier F φ γ) :
    s.answers <+: (drawAll items s).2.answers ∧
      s.factory.created <+: (drawAll items s).2.factory.created := by
  induction items generalizing s with
  | nil => exact ⟨List.prefix_rfl, List.prefix_rfl⟩
  | cons item items ih =>
      have first := draw_grows item s
      have others := ih (s.draw item).2
      exact ⟨first.1.trans others.1, first.2.trans others.2⟩

/-- A draw takes the first item of its queue, or fetches a lot and takes the first item of that. -/
theorem draw_within (within : item.Within s.parties) (some : 1 ≤ s.batchSize)
    (reliable : (s.draw item).2.Reliable) :
    (∃ first others, s.stock.queue item = first :: others ∧
      s.draw item = (.ok first, { s with stock := s.stock.setQueue item others })) ∨
    s.stock.queue item = [] ∧ ∃ first others recorded factory,
      (first :: others).length = s.batchSize ∧
      s.draw item = (.ok first, { s with
        stock := s.stock.setQueue item others, generator := .some recorded, factory
        refills := s.refills + 1 }) ∧
      recorded.answers
        = s.answers ++ [⟨item, ⟨s.batchSize, s.pipeLength⟩, .ok (first :: others)⟩] ∧
      factory.created = if s.generator.isNone then s.factory.created ++ [(s.params, true)]
        else s.factory.created := by
  have refuses := refuses_of_within within
  cases queue : s.stock.queue item with
  | cons first others => exact .inl ⟨first, others, rfl, draw_of_queue refuses queue⟩
  | nil =>
      have fetched : (s.fetch item).2.Reliable := by
        simp only [draw, refuses, queue] at reliable
        rcases fetch : s.fetch item with ⟨_ | batch, t⟩
        · rwa [fetch] at reliable
        · rw [fetch] at reliable
          cases batch <;> exact ⟨reliable.answers, reliable.created⟩
      obtain ⟨items, recorded, factory, complete, fetch, answers, created⟩ := exists_fetch fetched
      -- the lot is complete, so there is a first item
      cases items with
      | nil => exact absurd (complete ▸ some) (by simp)
      | cons first others =>
          exact .inr ⟨rfl, first, others, recorded, factory, complete,
            draw_of_fetch refuses queue fetch, answers, created⟩

end StockedSupplier

/-! ## Faithful generators -/

/-- Generators of this kind give members of a group of `n` all that they ask for. -/
def Faithful (F : FieldSpec) [BulkGenerator F γ] (n : Nat) (I : γ → Prop) : Prop :=
  ∀ (item : Item) (lot : Lot) (generator : γ), item.Within n → I generator →
    ∃ items after, BulkGenerator.generate (F := F) item lot generator = (.ok items, after) ∧
      items.length = lot.count ∧ I after

variable {I : γ → Prop} {s : StockedSupplier F φ γ} {t : RecordedSupplier F φ γ}

/-- The factory builds a generator of this kind. -/
def StockedSupplier.Builds [GeneratorFactory φ γ] (s : StockedSupplier F φ γ) (I : γ → Prop) : Prop :=
  ∃ generator factory, GeneratorFactory.create s.params s.factory = (.ok generator, factory) ∧
    I generator

/-- No call of a supplier `t` that was new as `s` has failed, and its generator can go on. -/
structure Working (I : γ → Prop) (s : StockedSupplier F φ γ) (t : RecordedSupplier F φ γ) : Prop where
  params : t.params = s.params
  parties : t.parties = s.parties
  reliable : t.Reliable
  generator : (t.generator = none ∧ t.factory.factory = s.factory) ∨
    ∃ recorded, t.generator = some recorded ∧ I recorded.generator

namespace Working

theorem start (new : s.generator = none) : Working I s s.recorded := by
  obtain ⟨_, _, _, _, _, _, _, _, _, _⟩ := s
  subst new
  exact
    { params := rfl
      parties := rfl
      reliable := ⟨fun _ mem => absurd mem List.not_mem_nil, fun _ mem => absurd mem List.not_mem_nil⟩
      generator := .inl ⟨rfl, rfl⟩ }

theorem withStock (working : Working I s t) (stock : Stock F) : Working I s { t with stock } where
  params := working.params
  parties := working.parties
  reliable := ⟨working.reliable.answers, working.reliable.created⟩
  generator := working.generator

variable [GeneratorFactory φ γ]

theorem ready (builds : s.Builds I) (working : Working I s t) : ∃ recorded factory,
    t.ready = (.ok recorded, { t with generator := some recorded, factory }) ∧
      I recorded.generator ∧ recorded.answers = t.answers ∧
      ∀ call ∈ factory.created, call.2 = true := by
  obtain ⟨params, -, ⟨answers, created⟩, ⟨new, same⟩ | ⟨recorded, built, able⟩⟩ := working
  · obtain ⟨generator, factory, made, able⟩ := builds
    refine ⟨⟨generator, []⟩, ⟨factory, t.factory.created ++ [(t.params, true)]⟩, ?_, able, ?_, ?_⟩
    · have here : GeneratorFactory.create t.params t.factory = (.ok (⟨generator, []⟩ : Recorded F γ),
          ⟨factory, t.factory.created ++ [(t.params, true)]⟩) := by
        simp only [GeneratorFactory.create, params, same] at made ⊢
        rw [made]
        rfl
      simp only [StockedSupplier.ready, new, here]
    · simp only [StockedSupplier.answers, new]
    · simpa [or_imp, forall_and] using created
  · refine ⟨recorded, t.factory, ?_, able, ?_, created⟩
    · obtain ⟨_, _, _, _, _, _, _, _, _, _⟩ := t
      subst built
      rfl
    · simp only [StockedSupplier.answers, built]

variable [BulkGenerator F γ]

theorem fetch (faithful : Faithful F s.parties I) (builds : s.Builds I) (working : Working I s t)
    (within : item.Within s.parties) :
    ∃ items u, t.fetch item = (.ok items, u) ∧ Working I s u := by
  obtain ⟨recorded, factory, ready, able, answers, created⟩ := working.ready builds
  obtain ⟨items, after, made, complete, able⟩ :=
    faithful item ⟨t.batchSize, t.pipeLength⟩ recorded.generator within able
  refine ⟨items, { t with
    generator := some ⟨after, recorded.answers ++ [⟨item, ⟨t.batchSize, t.pipeLength⟩, .ok items⟩]⟩
    factory, refills := t.refills + 1 }, ?_, working.params, working.parties, ⟨?_, created⟩,
    .inr ⟨_, rfl, able⟩⟩
  · simp only [StockedSupplier.fetch, ready, BulkGenerator.generate, made]
    exact if_neg (not_not.mpr complete)
  · intro answer mem
    rcases List.mem_append.mp mem with before | last
    · exact working.reliable.answers answer (answers ▸ before)
    · rw [List.mem_singleton.mp last]
      exact ⟨items, rfl, complete⟩

theorem draw (faithful : Faithful F s.parties I) (builds : s.Builds I) (working : Working I s t)
    (item : Item) : Working I s (t.draw item).2 := by
  by_cases within : item.Within s.parties
  · have here : t.refuses item = none :=
      StockedSupplier.refuses_of_within (working.parties.symm ▸ within)
    cases queue : t.stock.queue item with
    | cons first others =>
        rw [draw_of_queue here queue]
        exact working.withStock _
    | nil =>
        obtain ⟨items, u, fetched, working⟩ := working.fetch faithful builds within
        simp only [StockedSupplier.draw, here, queue, fetched]
        cases items with
        | nil => exact working
        | cons first others => exact working.withStock _
  · cases item with
    | mask toward =>
        rw [StockedSupplier.draw_mask (working.parties.symm ▸ within)]
        exact working
    | _ => exact absurd trivial within

end Working

/-- **Faithful generators make reliable suppliers.** -/
theorem StockedSupplier.reliable_drawAll [GeneratorFactory φ γ] [BulkGenerator F γ]
    (faithful : Faithful F s.parties I) (builds : s.Builds I) (new : s.generator = none)
    (items : List Item) : (drawAll items s.recorded).2.Reliable := by
  suffices all : ∀ {t : RecordedSupplier F φ γ}, Working I s t → Working I s (drawAll items t).2 from
    (all (Working.start new)).reliable
  induction items with
  | nil => exact id
  | cons item items ih => exact fun working => ih (working.draw faithful builds item)

end Spdz
