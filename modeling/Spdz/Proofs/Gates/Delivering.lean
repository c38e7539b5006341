import Spdz.Proofs.Gates.Pace

/-!
# Protocols that deliver

A protocol that reports that it is done should have a result by then.  The types do not ask for that, so
a protocol of a caller's own may break it.  Every protocol of the library keeps it, whatever state it is
evaluated in and whatever comes from the network, for it has a result in its last round.

* `Round.Delivers` — a round that is done leaves the protocol with a result.
* `Protocol.Delivers` — so does every round of a protocol.
* `Input.delivers`, `Open.delivers`, … — protocols with which results are collected.
* **`Gate.delivers`** — all gates deliver.
-/

namespace Spdz

open Round

variable {F : FieldSpec} {σ P Out : Type}

namespace Round

variable [HasOutput P Out]

/-- **Delivers.**  If the round reports that the protocol is done, the protocol has a result. -/
def Delivers (x : Round F σ P Status) : Prop :=
  ∀ p S p' S', ((x.run p).run S).Ends ((.ok .isDone, p'), S') → (HasOutput.output p').isSome

variable {rounds round : Nat} {x : Round F σ P Status}

/-- What keeps to a number of rounds has a result in the last one. -/
theorem Delivers.of_paces (paces : ∀ p S, Paces rounds round x p S) : Delivers x := by
  intro p S p' S' ends
  obtain ⟨-, -, some⟩ := paces p S _ p' S' ends
  exact some

end Round

/-- **Delivers.**  Whenever the protocol reports that it is done, it has a result. -/
def Protocol.Delivers (F : FieldSpec) (σ P : Type) [Protocol F σ P] [HasOutput P Out] : Prop :=
  ∀ round, Round.Delivers (Protocol.evaluate round : Round F σ P Status)

/-! ## The library's protocols -/

theorem Open.delivers : Protocol.Delivers F σ (Open F) :=
  fun round => .of_paces fun p _ => Open.paces round p

variable [Supplier F σ]

theorem Input.delivers : Protocol.Delivers F σ (Input F) :=
  fun round => .of_paces fun p _ => Input.paces round p

theorem CheckedInput.delivers : Protocol.Delivers F σ (CheckedInput F) :=
  fun round => .of_paces fun p _ => CheckedInput.paces round p

theorem OpenTo.delivers : Protocol.Delivers F σ (OpenTo F) :=
  fun round => .of_paces fun p _ => OpenTo.paces round p

theorem Multiply.delivers : Protocol.Delivers F σ (Multiply F) :=
  fun round => .of_paces fun p _ => Multiply.paces round p

theorem RandomElement.delivers : Protocol.Delivers F σ (RandomElement F) :=
  fun round => .of_paces fun p _ => RandomElement.paces round p

/-- **All gates deliver.** -/
theorem Gate.delivers : Protocol.Delivers F σ (Gate F) := by
  intro round gate S gate' S' ends
  obtain ⟨-, some, -⟩ := Gate.paces round gate _ gate' S' ends
  exact some

end Spdz
