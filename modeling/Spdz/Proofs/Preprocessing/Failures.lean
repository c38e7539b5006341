import Spdz.Preprocessing.Rehearsal
import Spdz.Proofs.Preprocessing.Refilling

/-!
# Draws that fail

A factory or a generator may fail at any call, and a lot may be too small or too large.  Then the draw
that needed it fails, and all that it leaves behind is the generator, if one was built, in the state
after its last call.  The queues hold whole lots only, so no item of a lot that was turned away is ever
handed out.

* `StockedSupplier.Equips` — the generator that a refill asks.
* **`StockedSupplier.Fails`** — all ways in which a draw fails, with the error and what is left.
* `StockedSupplier.fails_of_draw`, `StockedSupplier.draw_cases` — a draw fails in one of these ways, or
  hands out the first item of its queue.
* `Answer.isWhole`, `accepted` — the answers of a generator that are not turned away.
* `Stocks` — what holds of a supplier after any draws; `Stocks.draw`, one more draw.
* **`StockedSupplier.intact_after_failure`** — after any draws, a failure changes nothing else.
-/

namespace Spdz

variable {F : FieldSpec} {φ γ : Type} {item : Item}

/-! ## Ways to fail -/

namespace StockedSupplier

variable [GeneratorFactory φ γ] [BulkGenerator F γ] {s t : StockedSupplier F φ γ} {e : PreprocessingError}

/-- **Equips.**  A refill asks this generator and leaves the factory like this: the generator that is
there, or else one that the factory builds now. -/
inductive Equips (s : StockedSupplier F φ γ) : φ → γ → Prop where
  | there {generator : γ} (set : s.generator = some generator) : Equips s s.factory generator
  | built {factory : φ} {generator : γ} (unset : s.generator = none)
    (made : GeneratorFactory.create s.params s.factory = (.ok generator, factory)) :
    Equips s factory generator

/-- **Fails.**  A draw of the item fails with the error and leaves the supplier like this.  Only the
factory and the generator ever differ from before. -/
inductive Fails (s : StockedSupplier F φ γ) :
    Item → PreprocessingError → StockedSupplier F φ γ → Prop where
  /-- A mask toward somebody who does not belong to the group. -/
  | stranger {toward : PartyId} (stranger : ¬ IsMember s.parties toward) :
    Fails s (.mask toward) (.noSuchParty toward) s
  /-- The factory could not build a generator, so that there is still none. -/
  | unbuilt {item : Item} {e : PreprocessingError} {factory : φ} (within : item.Within s.parties)
    (empty : s.stock.queue item = []) (unset : s.generator = none)
    (failed : GeneratorFactory.create s.params s.factory = (.error e, factory)) :
    Fails s item e { s with factory }
  /-- The generator failed. -/
  | ungenerated {item : Item} {e : PreprocessingError} {factory : φ} {generator after : γ}
    (within : item.Within s.parties) (empty : s.stock.queue item = [])
    (equips : s.Equips factory generator)
    (failed : BulkGenerator.generate (F := F) item ⟨s.batchSize, s.pipeLength⟩ generator
      = (.error e, after)) :
    Fails s item e { s with factory, generator := some after }
  /-- The lot was too small or too large. -/
  | incomplete {item : Item} {factory : φ} {generator after : γ} {items : List (item.Value F)}
    (within : item.Within s.parties) (empty : s.stock.queue item = [])
    (equips : s.Equips factory generator)
    (gave : BulkGenerator.generate item ⟨s.batchSize, s.pipeLength⟩ generator = (.ok items, after))
    (wrong : items.length ≠ s.batchSize) :
    Fails s item (.incompleteBatch item.kind s.batchSize items.length)
      { s with factory, generator := some after }

/-- Queues, count of refills, key share and settings are as before. -/
theorem Fails.eq_with (fails : s.Fails item e t) :
    t = { s with factory := t.factory, generator := t.generator } := by
  cases fails <;> rfl

/-- A generator that was there or was built now is there afterwards. -/
theorem Fails.isSome_generator (fails : s.Fails item e t) (set : s.generator.isSome) :
    t.generator.isSome := by
  cases fails with
  | stranger => exact set
  | unbuilt within empty unset failed => simp [unset] at set
  | ungenerated | incomplete => rfl

/-! ## What a draw can do -/

omit [BulkGenerator F γ] in
/-- The generator is ready, unless the factory fails. -/
theorem ready_cases (s : StockedSupplier F φ γ) :
    (∃ factory generator, s.Equips factory generator ∧
      s.ready = (.ok generator, { s with factory, generator := some generator })) ∨
    ∃ e factory, s.generator = none ∧
      GeneratorFactory.create s.params s.factory = (.error e, factory) ∧
      s.ready = (.error e, { s with factory }) := by
  cases set : s.generator with
  | some generator =>
      left
      refine ⟨s.factory, generator, .there set, ?_⟩
      obtain ⟨_, _, _, _, _, _, _, _, _, _⟩ := s
      simp only at set
      subst set
      rfl
  | none =>
      rcases made : GeneratorFactory.create s.params s.factory with ⟨e | generator, factory⟩
      · right
        exact ⟨e, factory, rfl, rfl, by simp only [ready, set, made]⟩
      · left
        exact ⟨factory, generator, .built set made, by simp only [ready, set, made]⟩

/-- A draw fails, or takes the first item of its queue, or refills the queue and takes the first item of
the lot. -/
theorem draw_cases (batch : 1 ≤ s.batchSize) (item : Item) :
    (∃ e t, s.draw item = (.error e, t) ∧ s.Fails item e t) ∨
    (∃ first others, s.stock.queue item = first :: others ∧ s.refuses item = none ∧
      s.draw item = (.ok first, { s with stock := s.stock.setQueue item others })) ∨
    ∃ factory generator after first others, item.Within s.parties ∧ s.stock.queue item = [] ∧
      s.Equips factory generator ∧
      BulkGenerator.generate item ⟨s.batchSize, s.pipeLength⟩ generator
        = (.ok (first :: others), after) ∧
      (first :: others).length = s.batchSize ∧
      s.draw item = (.ok first, { s with
        factory, generator := some after, stock := s.stock.setQueue item others
        refills := s.refills + 1 }) := by
  by_cases within : item.Within s.parties
  · have refuses := refuses_of_within within
    cases queue : s.stock.queue item with
    | cons first others =>
        right; left
        exact ⟨first, others, rfl, refuses, draw_of_queue refuses queue⟩
    | nil =>
        rcases ready_cases s with ⟨factory, generator, equips, ready⟩ | ⟨e, factory, unset, failed, ready⟩
        · rcases made : BulkGenerator.generate (F := F) item ⟨s.batchSize, s.pipeLength⟩ generator
            with ⟨e | items, after⟩
          · left
            refine ⟨e, _, ?_, .ungenerated within queue equips made⟩
            simp only [draw, refuses, queue, fetch, ready, made]
          · by_cases complete : items.length = s.batchSize
            · -- the lot is complete, so there is a first item
              cases items with
              | nil => simp at complete; omega
              | cons first others =>
                  right; right
                  refine ⟨factory, generator, after, first, others, within, rfl, equips, made, complete, ?_⟩
                  have fetched : s.fetch item = (.ok (first :: others), { s with
                      factory, generator := some after, refills := s.refills + 1 }) := by
                    simp only [fetch, ready, made]
                    exact if_neg (not_not.mpr complete)
                  exact draw_of_fetch refuses queue fetched
            · left
              refine ⟨_, _, ?_, .incomplete within queue equips made complete⟩
              simp only [draw, refuses, queue, fetch, ready, made, ne_eq, complete, not_false_eq_true,
                if_true]
        · left
          refine ⟨e, _, ?_, .unbuilt within queue unset failed⟩
          simp only [draw, refuses, queue, fetch, ready]
  · cases item with
    | mask toward =>
        left
        exact ⟨_, _, draw_mask within, .stranger within⟩
    | _ => exact absurd trivial within

/-- **A draw that fails has failed in one of these ways.** -/
theorem fails_of_draw (batch : 1 ≤ s.batchSize) (drawn : s.draw item = (.error e, t)) :
    s.Fails item e t := by
  rcases draw_cases batch item with
    ⟨e', t', drawn', fails⟩ | ⟨_, _, _, _, drawn'⟩ | ⟨_, _, _, _, _, _, _, _, _, _, drawn'⟩
  · rw [drawn] at drawn'
    cases drawn'
    exact fails
  · rw [drawn] at drawn'
    cases drawn'
  · rw [drawn] at drawn'
    cases drawn'

end StockedSupplier

/-! ## Lots that are kept -/

/-- The answer is a lot with as many items as were asked for. -/
def Answer.isWhole (answer : Answer F) : Bool :=
  match answer.result with
  | .ok items => items.length = answer.lot.count
  | .error _ => false

/-- The answers that are not turned away. -/
def accepted (answers : List (Answer F)) : List (Answer F) := answers.filter Answer.isWhole

section Records

variable {lot : Lot} {answers : List (Answer F)}

/-- A lot that is complete is kept. -/
theorem accepted_append_whole {items : List (item.Value F)} (complete : items.length = lot.count) :
    accepted (answers ++ [⟨item, lot, .ok items⟩]) = accepted answers ++ [⟨item, lot, .ok items⟩] := by
  simp [accepted, Answer.isWhole, complete]

/-- Other answers are not. -/
theorem accepted_append_wrong {items : List (item.Value F)} (wrong : items.length ≠ lot.count) :
    accepted (answers ++ [⟨item, lot, .ok items⟩]) = accepted answers := by
  simp [accepted, Answer.isWhole, wrong]

theorem accepted_append_error (e : PreprocessingError) :
    accepted (answers ++ [⟨item, lot, .error e⟩]) = accepted answers := by
  simp [accepted, Answer.isWhole]

theorem Recorded.answers_of_generate [BulkGenerator F γ] {recorded after : Recorded F γ}
    {result : Except PreprocessingError (List (item.Value F))}
    (made : BulkGenerator.generate item lot recorded = (result, after)) :
    after.answers = recorded.answers ++ [⟨item, lot, result⟩] := by
  cases made
  rfl

variable [GeneratorFactory φ γ] {params : GeneratorParams} {recorded after : RecordedFactory F φ}

theorem RecordedFactory.created_of_create {result : Except PreprocessingError (Recorded F γ)}
    (made : GeneratorFactory.create params recorded = (result, after)) :
    after.created = recorded.created ++ [(params, result.isOk)] ∧
      ∀ generator, result = .ok generator → generator.answers = [] := by
  simp only [GeneratorFactory.create, Prod.mk.injEq] at made
  obtain ⟨rfl, rfl⟩ := made
  rcases GeneratorFactory.create params recorded.factory with ⟨e | generator, factory⟩
  · exact ⟨rfl, nofun⟩
  · refine ⟨rfl, ?_⟩
    rintro _ ⟨⟩
    rfl

/-- What a refill asks has answered all that was asked so far, and the factory was called if there was no
generator. -/
theorem StockedSupplier.Equips.records {t : RecordedSupplier F φ γ} {factory : RecordedFactory F φ}
    {generator : Recorded F γ} (equips : t.Equips factory generator) :
    generator.answers = t.answers ∧ factory.created
      = if t.generator.isSome then t.factory.created else t.factory.created ++ [(t.params, true)] := by
  cases equips with
  | there set => simp [answers, set]
  | built unset made =>
      obtain ⟨created, empty⟩ := RecordedFactory.created_of_create made
      simp [answers, unset, empty generator rfl, created, Except.isOk, Except.toBool]

end Records

/-! ## Any draws -/

variable {s : StockedSupplier F φ γ} {draws : List (Answer F)} {t : RecordedSupplier F φ γ}

/-- What holds of a supplier `t` that was new as `s`, after draws of which some may have failed. -/
structure Stocks (s : StockedSupplier F φ γ) (draws : List (Answer F)) (t : RecordedSupplier F φ γ) :
    Prop where
  params : t.params = s.params
  parties : t.parties = s.parties
  batchSize : t.batchSize = s.batchSize
  pipeLength : t.pipeLength = s.pipeLength
  /-- What was handed out and what is left are the items of the lots that were kept. -/
  queue : ∀ item, received item (accepted t.answers) = received item draws ++ t.stock.queue item
  requests : ∀ answer ∈ t.answers, answer.item.Within s.parties ∧
    answer.lot = ⟨s.batchSize, s.pipeLength⟩
  refills : t.refills = (accepted t.answers).length
  /-- The factory was called with the same parameters each time, until it built a generator. -/
  created : ∃ failures, t.factory.created = List.replicate failures (s.params, false)
    ++ if t.generator.isSome then [(s.params, true)] else []

namespace Stocks

/-- A new supplier. -/
theorem start (generator : s.generator = none) (stock : s.stock = {}) (refills : s.refills = 0) :
    Stocks s [] s.recorded := by
  obtain ⟨_, _, _, _, _, _, _, _, _, _⟩ := s
  subst generator stock refills
  exact
    { params := rfl
      parties := rfl
      batchSize := rfl
      pipeLength := rfl
      queue := fun item => (Stock.queue_empty item).symm
      requests := fun _ mem => absurd mem List.not_mem_nil
      refills := rfl
      created := ⟨0, rfl⟩ }

/-- Nothing is in the queue of somebody who does not belong to the group. -/
theorem queue_of_not_within (stocks : Stocks s draws t) (stranger : ¬ item.Within s.parties) :
    t.stock.queue item = [] := by
  have none : received item (accepted t.answers) = [] := by
    simp only [received, List.flatMap_eq_nil_iff]
    intro answer mem
    have other : answer.item ≠ item := by
      rintro rfl
      exact stranger (stocks.requests answer (List.mem_filter.mp mem).1).1
    exact answer.brought_of_ne other
  have all := stocks.queue item
  rw [none] at all
  exact (List.append_eq_nil_iff.mp all.symm).2

variable [GeneratorFactory φ γ] {lot : Lot} {factory : RecordedFactory F φ} {generator : Recorded F γ}

/-- The factory's calls after a refill. -/
theorem created_of_equips (stocks : Stocks s draws t) (equips : t.Equips factory generator) :
    ∃ failures, factory.created = List.replicate failures (s.params, false) ++ [(s.params, true)] := by
  obtain ⟨failures, created⟩ := stocks.created
  refine ⟨failures, ?_⟩
  rw [equips.records.2, created, stocks.params]
  cases t.generator <;> simp

variable [BulkGenerator F γ] {e : PreprocessingError} {u : RecordedSupplier F φ γ}

/-- The generator was asked for a lot. -/
theorem asked (stocks : Stocks s draws t) (within : item.Within t.parties)
    (equips : t.Equips factory generator) {after : Recorded F γ}
    {result : Except PreprocessingError (List (item.Value F))}
    (made : BulkGenerator.generate item ⟨t.batchSize, t.pipeLength⟩ generator = (result, after))
    {more : List (Answer F)} {stock : Stock F} {refills : Nat}
    (queue : ∀ other,
      received other (accepted (t.answers ++ [⟨item, ⟨t.batchSize, t.pipeLength⟩, result⟩]))
        = received other (draws ++ more) ++ stock.queue other)
    (kept : refills
      = (accepted (t.answers ++ [⟨item, ⟨t.batchSize, t.pipeLength⟩, result⟩])).length) :
    Stocks s (draws ++ more) { t with factory, generator := some after, stock, refills } := by
  have answers := Recorded.answers_of_generate made
  rw [equips.records.1] at answers
  rw [← answers] at queue kept
  refine
    { params := stocks.params
      parties := stocks.parties
      batchSize := stocks.batchSize
      pipeLength := stocks.pipeLength
      queue := queue
      requests := ?_
      refills := kept
      created := stocks.created_of_equips equips }
  intro answer mem
  replace mem : answer ∈ after.answers := mem
  rw [answers, List.mem_append, List.mem_singleton] at mem
  rcases mem with before | rfl
  · exact stocks.requests answer before
  · refine ⟨stocks.parties ▸ within, ?_⟩
    rw [stocks.batchSize, stocks.pipeLength]

/-- A draw that failed. -/
theorem of_fails (stocks : Stocks s draws t) (fails : t.Fails item e u) :
    Stocks s (draws ++ [⟨item, lot, .error e⟩]) u := by
  cases fails with
  | stranger stranger =>
      exact { stocks with queue := fun other => by rw [received_failure, stocks.queue] }
  | unbuilt within empty unset failed =>
      obtain ⟨failures, created⟩ := stocks.created
      obtain ⟨grown, -⟩ := RecordedFactory.created_of_create failed
      refine { stocks with
        queue := fun other => (stocks.queue other).trans (by rw [received_failure])
        created := ⟨failures + 1, ?_⟩ }
      simp only [unset, Option.isSome_none, Bool.false_eq_true, if_false, List.append_nil] at created ⊢
      rw [grown, created, stocks.params, List.replicate_succ']
      rfl
  | ungenerated within empty equips failed =>
      refine stocks.asked within equips failed ?_ ?_
      · intro other
        rw [accepted_append_error, received_failure, stocks.queue]
      · rw [accepted_append_error, stocks.refills]
  | incomplete within empty equips gave wrong =>
      refine stocks.asked within equips gave ?_ ?_
      · intro other
        rw [accepted_append_wrong wrong, received_failure, stocks.queue]
      · rw [accepted_append_wrong wrong, stocks.refills]

/-- **One more draw,** whatever comes of it. -/
theorem draw (batch : 1 ≤ s.batchSize) (stocks : Stocks s draws t) (item : Item) :
    Stocks s (draws ++ [⟨item, ⟨1, t.pipeLength⟩, (t.draw item).1.map ([·])⟩]) (t.draw item).2 := by
  rcases StockedSupplier.draw_cases (stocks.batchSize ▸ batch) item with
    ⟨e, u, drawn, fails⟩ | ⟨first, others, queue, -, drawn⟩ |
      ⟨factory, generator, after, first, others, within, empty, equips, made, complete, drawn⟩
  · rw [drawn]
    exact stocks.of_fails fails
  · -- the queue had one
    rw [drawn]
    refine { stocks with queue := fun other => ?_ }
    exact (stocks.queue other).trans (received_take queue draws _ other)
  · -- a lot was fetched
    rw [drawn]
    refine stocks.asked within equips made (fun other => ?_) ?_
    · rw [accepted_append_whole complete, received_append, stocks.queue other, received_cons, received_nil,
        List.append_nil]
      exact received_refill empty draws _ _ other
    · rw [accepted_append_whole complete, List.length_append, List.length_singleton, stocks.refills]

/-- More draws. -/
theorem drawAll (batch : 1 ≤ s.batchSize) (stocks : Stocks s draws t) (items : List Item) :
    Stocks s (draws ++ (StockedSupplier.drawAll items t).1) (StockedSupplier.drawAll items t).2 := by
  induction items generalizing draws t with
  | nil => simpa [StockedSupplier.drawAll] using stocks
  | cons item items ih =>
      have others := ih (stocks.draw batch item)
      rwa [List.append_assoc] at others

end Stocks

namespace StockedSupplier

variable [GeneratorFactory φ γ] [BulkGenerator F γ]

/-- The factory is called when a refill finds no generator, and then only. -/
theorem created_of_draw (batch : 1 ≤ t.batchSize) (within : item.Within t.parties)
    (empty : t.stock.queue item = []) : (t.draw item).2.factory.created
      = if t.generator.isSome then t.factory.created
        else t.factory.created ++ [(t.params, (t.draw item).2.generator.isSome)] := by
  rcases draw_cases batch item with
    ⟨e, u, drawn, fails⟩ | ⟨first, others, queue, -, -⟩ |
      ⟨factory, generator, after, first, others, -, -, equips, -, -, drawn⟩
  · rw [drawn]
    cases fails with
    | stranger stranger => exact absurd within stranger
    | unbuilt _ _ unset failed =>
        simp only [unset, Option.isSome_none, Bool.false_eq_true, if_false]
        exact (RecordedFactory.created_of_create failed).1
    | ungenerated _ _ equips failed => exact equips.records.2
    | incomplete _ _ equips gave wrong => exact equips.records.2
  · rw [empty] at queue
    cases queue
  · rw [drawn]
    exact equips.records.2

/-- **A draw that fails leaves the supplier intact,** whatever generator and factory did before.  Queues,
count of refills and key share stay.  The generator stays if it was there, and what was handed out so far
comes from complete lots.  Only while there is no generator is the factory called, with the same
parameters each time.  No draw from a queue that holds something fails, and it calls nobody. -/
theorem intact_after_failure (s : StockedSupplier F φ γ) (batch : 1 ≤ s.batchSize)
    (generator : s.generator = none) (stock : s.stock = {}) (refills : s.refills = 0)
    (items : List Item) :
    ∃ draws t, drawAll items s = (draws, t.plain) ∧ drawAll items s.recorded = (draws, t) ∧
      Stocks s draws t ∧
      (∀ item e u, t.plain.draw item = (.error e, u) →
        t.plain.Fails item e u ∧ (t.generator.isSome → u.generator.isSome) ∧
          u = { t.plain with factory := u.factory, generator := u.generator }) ∧
      (∀ item first others, t.stock.queue item = first :: others →
        t.draw item = (.ok first, { t with stock := t.stock.setQueue item others })) ∧
      ∀ item, item.Within s.parties → t.stock.queue item = [] →
        (t.draw item).2.factory.created = if t.generator.isSome then t.factory.created
          else t.factory.created ++ [(s.params, (t.draw item).2.generator.isSome)] := by
  have stocks := (Stocks.start generator stock refills).drawAll batch items
  refine ⟨_, _, ?_, rfl, stocks, ?_, ?_, ?_⟩
  · rw [← plain_drawAll, plain_recorded]
  · intro item e u drawn
    have fails := fails_of_draw (stocks.batchSize ▸ batch) drawn
    refine ⟨fails, fun set => fails.isSome_generator ?_, fails.eq_with⟩
    simpa only [plain, Option.isSome_map] using set
  · intro item first others queue
    have within : item.Within s.parties := by
      by_contra stranger
      rw [stocks.queue_of_not_within stranger] at queue
      cases queue
    exact draw_of_queue (refuses_of_within (stocks.parties ▸ within)) queue
  · intro item within empty
    rw [← stocks.params]
    exact created_of_draw (stocks.batchSize ▸ batch) (stocks.parties ▸ within) empty

/-- The first of two parties, which fetches two items at a time.  Its generator fails at first, then
gives one item too few, and then one too many. -/
def unlucky : StockedSupplier .f251 (RehearsedFactory .f251) (RehearsedDealer .f251) where
  party := 1
  parties := 2
  keyShare := (DealerFactory.new .f251 2 1 7).keyShare
  batchSize := 2
  pipeLength := 4
  seed := List.replicate 32 0
  factory :=
    { factory := DealerFactory.new .f251 2 1 7
      plan := [{ failure := some "out of material" }, { missing := 1 }, { surplus := 1 }] }

theorem intact_after_failure_unlucky : 1 ≤ unlucky.batchSize ∧ unlucky.generator = none ∧
    unlucky.stock = {} ∧ unlucky.refills = 0 ∧
    ∃ draws t u, drawAll [.bit] unlucky = (draws, plain t) ∧ Stocks unlucky draws t ∧
      t.plain.draw .bit = (.error (.incompleteBatch .randomBit 2 1), u) ∧
      t.plain.Fails .bit (.incompleteBatch .randomBit 2 1) u ∧ u.generator.isSome ∧
      u = { t.plain with factory := u.factory, generator := u.generator } := by
  obtain ⟨draws, t, real, recorded, stocks, failed, -⟩ :=
    intact_after_failure unlucky (by decide) rfl rfl rfl [.bit]
  have short : (t.plain.draw .bit).1 = .error (.incompleteBatch .randomBit 2 1) := by
    have result : ((drawAll [.bit] unlucky).2.draw .bit).1
        = .error (.incompleteBatch .randomBit 2 1) := by decide +kernel
    rwa [real] at result
  have built : t.generator.isSome := by
    have here : (drawAll [.bit] unlucky.recorded).2.generator.isSome := by decide +kernel
    rwa [recorded] at here
  obtain ⟨fails, set, rest⟩ := failed .bit _ (t.plain.draw .bit).2 (Prod.ext short rfl)
  exact ⟨by decide, rfl, rfl, rfl, draws, t, _, real, stocks, Prod.ext short rfl, fails, set built, rest⟩

end StockedSupplier

end Spdz
