import Spdz.Protocol.Round

/-!
# Multiplication

Two shared values are multiplied with a triple of shared random values `a`, `b` and `c = a * b`. The
differences `e = x - a` and `d = y - b` are opened, which shows nothing of `x` and `y`, and

`x * y = c + e * b + d * a + e * d`

is linear in what remains secret. The two openings are recorded for the next check.

* `Multiply` — the protocol.
-/

namespace Spdz

variable {F : FieldSpec} {σ : Type}

/-- Multiply two shared values. -/
structure Multiply (F : FieldSpec) where
  x : Share F
  y : Share F
  triple : Option (Triple F) := none
  output : Option (Share F) := none

namespace Multiply

/-- Draw a triple and send the shares of the differences, then open them and combine. -/
def evaluate [Supplier F σ] (round : Nat) : Round F σ (Multiply F) Status := do
  let state ← get
  match round, state.triple with
  | 0, _ =>
    let triple ← Round.draw .triple
    Round.sendElements [(state.x - triple.a).value, (state.y - triple.b).value]
    set { state with triple := some triple }
    return .hasMoreRounds
  | 1, some ⟨a, b, c⟩ =>
    let epsilon := state.x - a
    let delta := state.y - b
    let received ← Round.receiveElementsFromAll 2
    let e := sumAt epsilon.value received 0
    let d := sumAt delta.value received 1
    Round.record epsilon e
    Round.record delta d
    let party ← Round.party
    let product := (c + b.scale e + a.scale d).addPublic (e * d) party.keyShare party.id
    set { state with output := some product }
    return .isDone
  | _, _ => throw (.invalidRound "MultiplyProtocol" round)

instance [Supplier F σ] : Protocol F σ (Multiply F) := ⟨evaluate⟩
instance : HasOutput (Multiply F) (Share F) := ⟨fun _ => "MultiplyProtocol", output⟩

end Multiply

end Spdz
