import Spdz.Protocol.Input
import Spdz.Protocol.MacCheck
import Spdz.Protocol.Multiply
import Spdz.Protocol.Open
import Spdz.Protocol.Random

/-!
# Protocols of any kind

A batch may mix protocols of different kinds. `Gate` is any one of the library's protocols, and
`Output` any of their results, so that a mixed batch is a list of gates.

* `Gate` — a protocol of any kind, in any of its states.
* `Output` — a result of any kind.
-/

namespace Spdz

/-- A result of any kind. -/
inductive Output (F : FieldSpec) where
  | share (share : Share F)
  | value (value : Elem F)
  /-- A value for one party only, which is missing elsewhere. -/
  | target (value : Option (Elem F))
  | shares (shares : List (Share F))
  | values (values : List (Elem F))
  | unit
  deriving DecidableEq

/-- A protocol of any kind. -/
inductive Gate (F : FieldSpec) where
  | input (state : Input F)
  | checkedInput (state : CheckedInput F)
  | multiply (state : Multiply F)
  | reveal (state : Reveal F)
  | validation (state : BroadcastValidation)
  | openAll (state : Open F)
  | openTo (state : OpenTo F)
  | element (state : RandomElement F)
  | bit (state : RandomBit F)
  | pipe (state : ExpPipe F)
  | known (state : KnownValue F)
  | macCheck (state : MacCheck F)

namespace Gate

variable {F : FieldSpec} {σ : Type}

/-- A round of the protocol that the gate is. -/
def evaluate [Supplier F σ] (round : Nat) : Round F σ (Gate F) Status := do
  match ← get with
  | input state => Round.within (fun _ => state) (fun state _ => input state) (evaluateAs round)
  | checkedInput state =>
    Round.within (fun _ => state) (fun state _ => checkedInput state) (evaluateAs round)
  | multiply state =>
    Round.within (fun _ => state) (fun state _ => multiply state) (evaluateAs round)
  | reveal state => Round.within (fun _ => state) (fun state _ => reveal state) (evaluateAs round)
  | validation state =>
    Round.within (fun _ => state) (fun state _ => validation state) (evaluateAs round)
  | openAll state =>
    Round.within (fun _ => state) (fun state _ => openAll state) (evaluateAs round)
  | openTo state => Round.within (fun _ => state) (fun state _ => openTo state) (evaluateAs round)
  | element state =>
    Round.within (fun _ => state) (fun state _ => element state) (evaluateAs round)
  | bit state => Round.within (fun _ => state) (fun state _ => bit state) (evaluateAs round)
  | pipe state => Round.within (fun _ => state) (fun state _ => pipe state) (evaluateAs round)
  | known state => Round.within (fun _ => state) (fun state _ => known state) (evaluateAs round)
  | macCheck state =>
    Round.within (fun _ => state) (fun state _ => macCheck state) (evaluateAs round)
where
  /-- A round of a protocol of a known kind. -/
  evaluateAs {P : Type} [Protocol F σ P] (round : Nat) : Round F σ P Status :=
    Protocol.evaluate round

/-- How the protocol is called. -/
def name : Gate F → String
  | input state => HasOutput.name state
  | checkedInput state => HasOutput.name state
  | multiply state => HasOutput.name state
  | reveal state => HasOutput.name state
  | validation state => HasOutput.name state
  | openAll state => HasOutput.name state
  | openTo state => HasOutput.name state
  | element state => HasOutput.name state
  | bit state => HasOutput.name state
  | pipe state => HasOutput.name state
  | known state => HasOutput.name state
  | macCheck state => HasOutput.name state

/-- The result of the protocol, once there is one. -/
def output : Gate F → Option (Output F)
  | input state => state.output.map .share
  | checkedInput state => state.output.map .share
  | multiply state => state.output.map .share
  | reveal state => state.output.map .values
  | validation state => (HasOutput.output state).map fun _ => .unit
  | openAll state => state.output.map .value
  | openTo state => state.output.map .target
  | element state => state.output.map .share
  | bit state => state.output.map .share
  | pipe state => state.output.map .shares
  | known state => state.output.map .share
  | macCheck state => (HasOutput.output state).map fun _ => .unit

instance [Supplier F σ] : Protocol F σ (Gate F) := ⟨evaluate⟩
instance : HasOutput (Gate F) (Output F) := ⟨name, output⟩

end Gate

end Spdz
