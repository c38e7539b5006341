import Spdz.Proofs.Evaluation.Verdict
import Spdz.Proofs.Gates.Guarded
import Spdz.Proofs.Network.Ends
import Spdz.Proofs.Preprocessing.Refilling
import Spdz.Protocol.Gate

/-!
# Nothing traps

A machine stops when an index or a copy is out of range.  Peers that send what they like should not be
able to make it stop.  Nor should a caller that gets the numbers of rounds wrong.  So the protocols are
called here in any order, from any states, against a network that answers as it likes.

* `Trapping.evaluate_eq` — nothing traps in a round of any protocol.
* `Trapping.run_callEach` — nor in any number of calls.
* `Trapping.drawMask_eq` — nor where a mask is drawn from stock.
* **`Gate.never_traps`** — all of this, against any network.
-/

namespace Spdz

variable {F : FieldSpec} {σ : Type}

namespace Trapping

/-! ## All protocols -/

/-- A round of the protocol that the gate is.  Nothing can trap in those that only draw items or compare
digests. -/
def evaluate [Supplier F σ] (round : Nat) : Round F σ (Gate F) Status := do
  match ← get with
  | .input state => within (fun _ => state) (fun state _ => .input state) (evaluateInput round)
  | .checkedInput state =>
    within (fun _ => state) (fun state _ => .checkedInput state) (evaluateCheckedInput round)
  | .multiply state =>
    within (fun _ => state) (fun state _ => .multiply state) (evaluateMultiply round)
  | .reveal state => within (fun _ => state) (fun state _ => .reveal state) (evaluateReveal round)
  | .validation state =>
    within (fun _ => state) (fun state _ => .validation state) (sure (Protocol.evaluate round))
  | .openAll state => within (fun _ => state) (fun state _ => .openAll state) (evaluateOpen round)
  | .openTo state => within (fun _ => state) (fun state _ => .openTo state) (evaluateOpenTo round)
  | .element state =>
    within (fun _ => state) (fun state _ => .element state) (sure (Protocol.evaluate round))
  | .bit state => within (fun _ => state) (fun state _ => .bit state) (sure (Protocol.evaluate round))
  | .pipe state => within (fun _ => state) (fun state _ => .pipe state) (sure (Protocol.evaluate round))
  | .known state =>
    within (fun _ => state) (fun state _ => .known state) (sure (Protocol.evaluate round))
  | .macCheck state =>
    within (fun _ => state) (fun state _ => .macCheck state) (evaluateMacCheck round)

/-- **Nothing traps in a round**, whatever protocol it is of and whatever state that is in. -/
theorem evaluate_eq [Supplier F σ] (declared : F.IsDeclared) (round : Nat) :
    (evaluate round : Round F σ (Gate F) _) = sure (Gate.evaluate round) := by
  simp only [evaluate, Gate.evaluate, sure_bind, sure_get, evaluateInput_eq declared,
    evaluateCheckedInput_eq declared, evaluateMultiply_eq declared, evaluateOpen_eq declared,
    evaluateOpenTo_eq declared, evaluateReveal_eq, evaluateMacCheck_eq, within_sure]
  refine bind_congr fun gate => ?_
  cases gate <;> rfl

/-! ## Calls one after the other -/

/-- Protocols of one party are called one after the other, each by its place among them and with any
number of a round, whatever the calls before gave. -/
def callEach [Supplier F σ] : (turns : List (Nat × Nat)) → (gates : Nat → Gate F) →
    StateT (Party F σ) (OptionT Exchange) (List (Except Error Status) × (Nat → Gate F))
  | [], gates => return ([], gates)
  | (place, round) :: turns, gates => do
    let (answer, gate) ← (evaluate round).run (gates place)
    let (answers, gates) ← callEach turns (Function.update gates place gate)
    return (answer :: answers, gates)

end Trapping

/-- The same where nothing can trap. -/
def Gate.callEach [Supplier F σ] : (turns : List (Nat × Nat)) → (gates : Nat → Gate F) →
    Action F σ (List (Except Error Status) × (Nat → Gate F))
  | [], gates => return ([], gates)
  | (place, round) :: turns, gates => do
    let (answer, gate) ← (Gate.evaluate round).run (gates place)
    let (answers, gates) ← callEach turns (Function.update gates place gate)
    return (answer :: answers, gates)

/-- Every call has an answer. -/
theorem Gate.length_callEach [Supplier F σ] {turns : List (Nat × Nat)} {gates : Nat → Gate F}
    {S : Party F σ} {ended : (List (Except Error Status) × (Nat → Gate F)) × Party F σ}
    (ends : ((Gate.callEach turns gates).run S).Ends ended) : ended.1.1.length = turns.length := by
  induction turns generalizing gates S ended with
  | nil =>
      rw [Exchange.ends_pure.mp ends]
      rfl
  | cons turn turns ih =>
      obtain ⟨⟨⟨answer, gate⟩, S⟩, -, ends⟩ := Exchange.ends_bind.mp ends
      obtain ⟨later, rest, ends⟩ := Exchange.ends_bind.mp ends
      rw [Exchange.ends_pure.mp ends]
      exact congrArg Nat.succ (ih rest)

namespace Trapping

/-- Calls that might trap do not. -/
theorem run_callEach [Supplier F σ] (declared : F.IsDeclared) (turns : List (Nat × Nat))
    (gates : Nat → Gate F) (S : Party F σ) :
    ((callEach turns gates).run S).run = some <$> (Gate.callEach turns gates).run S := by
  induction turns generalizing gates S with
  | nil => rfl
  | cons turn turns ih =>
      obtain ⟨place, round⟩ := turn
      simp only [callEach, Gate.callEach, evaluate_eq declared]
      show (some <$> ((Gate.evaluate round).run (gates place)).run S) >>= _ = some <$> (_ >>= _)
      -- what the first call leaves, error or not, is what the others begin with
      rw [bind_map_left, map_bind]
      refine congrArg _ (funext fun ((answer, gate), S) => ?_)
      show ((callEach turns (Function.update gates place gate)).run S).run >>= _ = some <$> (_ >>= _)
      rw [ih, bind_map_left, map_bind]
      rfl

/-! ## Masks in stock -/

section Masks

variable {φ γ : Type} {supplier : StockedSupplier F φ γ}

/-- The queues of masks, in the order of the parties that know them. -/
def maskQueues (supplier : StockedSupplier F φ γ) : List (List (InputMask F)) :=
  (List.range' 1 supplier.parties).map fun toward => supplier.stock.queue (.mask toward)

/-- The queue of masks that a party knows. -/
def maskQueue (toward : PartyId) (supplier : StockedSupplier F φ γ) : Option (List (InputMask F)) := do
  let index ← sub toward 1
  (maskQueues supplier)[index]?

theorem maskQueue_eq {toward : Nat} (member : IsMember supplier.parties toward) :
    maskQueue toward supplier = some (supplier.stock.queue (.mask toward)) := by
  obtain ⟨low, high⟩ := member
  have index : sub toward 1 = some (toward - 1) := if_pos low
  have there : toward - 1 < supplier.parties := by omega
  have party : 1 + (toward - 1) = toward := by omega
  simp only [maskQueue, index, Option.bind_eq_bind, Option.bind_some, maskQueues, List.getElem?_map,
    List.getElem?_range' there, Option.map_some, Nat.one_mul, party]

variable [GeneratorFactory φ γ] [BulkGenerator F γ]

/-- Draw a mask.  Each look at the queue is by index. -/
def drawMask (toward : PartyId) (supplier : StockedSupplier F φ γ) :
    Option (Except PreprocessingError (InputMask F) × StockedSupplier F φ γ) :=
  if toward = 0 ∨ toward > supplier.parties then some (.error (.noSuchParty toward), supplier)
  else do
    match ← maskQueue toward supplier with
    | first :: others => return supplier.take (.mask toward) (first :: others)
    | [] =>
      match supplier.fetch (.mask toward) with
      | (.error e, supplier) => return (.error e, supplier)
      | (.ok batch, supplier) =>
        let queue ← maskQueue toward supplier
        return supplier.take (.mask toward) (queue ++ batch)

/-- A fetch changes neither the number of parties nor the queues. -/
theorem keeps_fetch (item : Item) (supplier : StockedSupplier F φ γ) :
    (supplier.fetch item).2.parties = supplier.parties ∧
      (supplier.fetch item).2.stock = supplier.stock := by
  unfold StockedSupplier.fetch StockedSupplier.ready
  grind

/-- **Nothing traps where masks are drawn.** -/
theorem drawMask_eq (toward : Nat) (supplier : StockedSupplier F φ γ) :
    drawMask toward supplier = some (supplier.draw (.mask toward)) := by
  by_cases member : IsMember supplier.parties toward
  · have within' : (Item.mask toward).Within supplier.parties := member
    have inside : ¬ (toward = 0 ∨ toward > supplier.parties) := by
      obtain ⟨low, high⟩ := member
      omega
    rw [drawMask, if_neg inside, maskQueue_eq member, StockedSupplier.draw,
      StockedSupplier.refuses_of_within within']
    simp only [Option.bind_eq_bind, Option.bind_some]
    cases queue : supplier.stock.queue (.mask toward) with
    | cons first others => rfl
    | nil =>
        -- the second look is at the queue that was empty, since a fetch only returns its batch
        obtain ⟨parties, stock⟩ := keeps_fetch (.mask toward) supplier
        rcases fetched : supplier.fetch (.mask toward) with ⟨_ | batch, after⟩
        · rfl
        · rw [fetched] at parties stock
          have again : maskQueue toward after = some [] := by
            rw [← queue, ← stock]
            exact maskQueue_eq (parties ▸ member)
          simp only [again, Option.bind_some, List.nil_append]
          rfl
  · have outside : toward = 0 ∨ toward > supplier.parties := by
      rw [IsMember] at member
      omega
    rw [drawMask, if_pos outside, StockedSupplier.draw_mask member]

end Masks

end Trapping

/-- **Nothing traps.**  Any protocols of the library are called on behalf of a party, in any order and
with any numbers of rounds, from any states of the protocols and of the party, and whatever the
supplier gives.  Peers and network answer as they like: with any bytes, any errors, and any lists of
parties and messages.  Every call comes back with a status or an error, the same as if lists were read
with a default: no index, no piece, no copy, no product of lengths is ever out of range.  Nor is an
index into the queues of masks that a supplier keeps in stock.  Room for the lists is taken for granted,
also for those that have one place for each party. -/
theorem Gate.never_traps [Supplier F σ] (declared : F.IsDeclared) (turns : List (Nat × Nat))
    (gates : Nat → Gate F) (S : Party F σ) :
    (∀ (ν : Type) (answer : ν → (made : Call) → Except TransportError made.Reply × ν) (state : ν),
      ∃ (answers : List (Except Error Status)) (gates' : Nat → Gate F) (S' : Party F σ) (state' : ν),
        ((Trapping.callEach turns gates).run S).run.facing answer state
          = (some ((answers, gates'), S'), state') ∧
        ((Gate.callEach turns gates).run S).facing answer state = (((answers, gates'), S'), state') ∧
        answers.length = turns.length) ∧
    ∀ (φ γ : Type) [GeneratorFactory φ γ] [BulkGenerator F γ] (toward : PartyId)
      (supplier : StockedSupplier F φ γ),
      Trapping.drawMask toward supplier = some (supplier.draw (.mask toward)) := by
  refine ⟨fun ν answer state => ?_, fun φ γ _ _ toward supplier => Trapping.drawMask_eq toward supplier⟩
  have count := Gate.length_callEach
    (Exchange.ends_facing answer ((Gate.callEach turns gates).run S) state)
  rw [Trapping.run_callEach declared, Exchange.facing_map]
  rcases run : ((Gate.callEach turns gates).run S).facing answer state with
    ⟨⟨⟨answers, gates'⟩, S'⟩, state'⟩
  rw [run] at count
  exact ⟨answers, gates', S', state', rfl, rfl, count⟩

/-- A network that brings two messages of a party that there cannot be, and later ones that are too
short. -/
def liar (calls : Nat) : (made : Call) → Except TransportError made.Reply × Nat
  | .send .. | .sendAll _ => (.ok (), calls)
  | .receive _ => (.ok [], calls + 1)
  | .receiveAll =>
    let whole : Bytes := 250 :: List.replicate 7 0
    (.ok (if calls = 0 then [(0, whole), (0, whole)] else [(9, [1])]), calls + 1)

/-- An opening that is completed twice, and a revelation that begins in the middle. -/
theorem Gate.never_traps_liar :
    FieldSpec.f251.IsDeclared ∧ ∃ gates' S' state',
      ((Trapping.callEach [(0, 1), (0, 1), (1, 1), (1, 7)] fun place =>
          if place = 0 then .openAll { share := ⟨3, 5⟩ } else .reveal { value := 1 }).run
        (MacCheck.idleParty 1)).run.facing liar 0
        = (some (([.ok .isDone, .error (.malformedMessage 9 (.invalidLength 8 1)),
            .error (.malformedMessage 9 (.invalidLength 32 1)),
            .error (.invalidRound "CommitmentProtocol" 7)], gates'), S'), state') := by
  have declared : FieldSpec.f251.IsDeclared := .inl rfl
  obtain ⟨calls, -⟩ := never_traps declared [(0, 1), (0, 1), (1, 1), (1, 7)]
    (fun place => if place = 0 then .openAll { share := ⟨3, 5⟩ } else .reveal { value := 1 })
    (MacCheck.idleParty 1)
  obtain ⟨answers, gates', S', state', run, plain, -⟩ := calls Nat liar 0
  have told : _ = answers := congrArg (fun ended => ended.1.1.1) plain
  rw [← told] at run
  exact ⟨declared, gates', S', state', run⟩

end Spdz
