import Spdz.Proofs.Evaluation.Lockstep
import Spdz.Proofs.Protocol.InStep
import Spdz.Protocol.Random

/-!
# Protocols without messages

Items that are drawn and constants that are shared take a single round.

* `RandomElement.departs`, `RandomBit.departs`, `ExpPipe.departs` — everybody ends with its side of
  the next item.
* `KnownValue.departs` — everybody ends with its share of the constant.
-/

namespace Spdz

variable {F : FieldSpec} {deck : Deck F} {config : Config} {trusted : Prop} {drawn : Item → Nat}

variable {S : PartyId → SimulatedParty F}

theorem RandomElement.turns_zero (inStep : InStep deck config trusted drawn S) :
    Turns deck.parties (Protocol.evaluate 0) (fun _ => ({} : RandomElement F)) S (fun _ => [])
      (fun _ => .ok .isDone) (fun i => ⟨some (deck.dealt i .element (drawn .element))⟩)
      (drawing .element S) fun _ => [] := by
  intro i member
  simp only [Protocol.evaluate, RandomElement.evaluate, Round.play_bind, ne_eq, not_true_eq_false,
    if_false, inStep.play_draw .element trivial member, Round.play_pure, Option.bind_some,
    Round.proceed_ok, Round.play_set]

theorem RandomElement.departs : Departs deck.parties (InStep deck config True)
    (InStep deck config trusted)
    (fun p : PartyId → RandomElement F => ∀ i, IsMember deck.parties i →
      (p i).output = some (deck.dealt i .element (drawn .element)))
    0 0 (fun _ => {}) (fun _ => []) drawn (oneMore .element drawn) :=
  fun _ inStep => ⟨_, _, _, turns_zero inStep, inStep.drawing _ trivial, fun _ _ => rfl, rfl⟩

theorem RandomBit.turns_zero (inStep : InStep deck config trusted drawn S) :
    Turns deck.parties (Protocol.evaluate 0) (fun _ => ({} : RandomBit F)) S (fun _ => [])
      (fun _ => .ok .isDone) (fun i => ⟨some (deck.dealt i .bit (drawn .bit))⟩)
      (drawing .bit S) fun _ => [] := by
  intro i member
  simp only [Protocol.evaluate, RandomBit.evaluate, Round.play_bind, ne_eq, not_true_eq_false,
    if_false, inStep.play_draw .bit trivial member, Round.play_pure, Option.bind_some,
    Round.proceed_ok, Round.play_set]

theorem RandomBit.departs : Departs deck.parties (InStep deck config True)
    (InStep deck config trusted)
    (fun p : PartyId → RandomBit F => ∀ i, IsMember deck.parties i →
      (p i).output = some (deck.dealt i .bit (drawn .bit)))
    0 0 (fun _ => {}) (fun _ => []) drawn (oneMore .bit drawn) :=
  fun _ inStep => ⟨_, _, _, turns_zero inStep, inStep.drawing _ trivial, fun _ _ => rfl, rfl⟩

/-- A pipe of the deck has as many shares as all pipes. -/
theorem Deck.length_dealt_pipe (i : PartyId) (index : Nat) :
    (deck.dealt i .pipe index).length = deck.length := by
  obtain ⟨_, -, length, -⟩ := deck.isDealt .pipe index
  exact length i

theorem ExpPipe.turns_zero (inStep : InStep deck config trusted drawn S) :
    Turns deck.parties (Protocol.evaluate 0) (fun _ => ({ length := deck.length } : ExpPipe F)) S
      (fun _ => []) (fun _ => .ok .isDone)
      (fun i => ⟨deck.length, some (deck.dealt i .pipe (drawn .pipe))⟩)
      (drawing .pipe S) fun _ => [] := by
  intro i member
  simp only [Protocol.evaluate, ExpPipe.evaluate, Round.play_bind, ne_eq, not_true_eq_false,
    if_false, inStep.play_draw .pipe trivial member, Round.play_pure, Option.bind_some,
    Round.proceed_ok, Round.play_get, Deck.length_dealt_pipe, Round.play_modify]

theorem ExpPipe.departs : Departs deck.parties (InStep deck config True)
    (InStep deck config trusted)
    (fun p : PartyId → ExpPipe F => ∀ i, IsMember deck.parties i →
      (p i).output = some (deck.dealt i .pipe (drawn .pipe)))
    0 0 (fun _ => { length := deck.length }) (fun _ => []) drawn (oneMore .pipe drawn) :=
  fun _ inStep => ⟨_, _, _, turns_zero inStep, inStep.drawing _ trivial, fun _ _ => rfl, rfl⟩

theorem KnownValue.turns_zero (inStep : InStep deck config trusted drawn S)
    (value : PartyId → Elem F) :
    Turns deck.parties (Protocol.evaluate 0) (fun i => ({ value := value i } : KnownValue F)) S
      (fun _ => []) (fun _ => .ok .isDone)
      (fun i => ⟨value i, some (.ofPublic (value i) (deck.keyShare i) i)⟩) S fun _ => [] := by
  intro i member
  simp only [Protocol.evaluate, KnownValue.evaluate, Round.play_bind, ne_eq, not_true_eq_false,
    if_false, Round.play_pure, Option.bind_some, Round.proceed_ok, Round.play_party,
    Round.play_modify, inStep.keyShare member, inStep.id i member]

theorem KnownValue.departs (value : PartyId → Elem F) : Departs deck.parties
    (InStep deck config True) (InStep deck config trusted)
    (fun p : PartyId → KnownValue F => ∀ i, IsMember deck.parties i →
      (p i).output = some (.ofPublic (value i) (deck.keyShare i) i))
    0 0 (fun i => { value := value i }) (fun _ => []) drawn drawn :=
  fun _ inStep => ⟨_, _, _, turns_zero inStep value, inStep, fun _ _ => rfl, rfl⟩

end Spdz
