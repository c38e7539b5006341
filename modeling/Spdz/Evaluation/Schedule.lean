import Spdz.Protocol.Round

/-!
# Driving a batch of protocols

The protocols of a batch are advanced side by side, one round of each at a time, in the order of the
batch. One that is done is left alone; the first error stops all.

* `Slot` — a protocol of a batch and whether it is still active.
* `advance` — one round of every active protocol.
* `driveRounds` — rounds 0, 1, 2, … until all protocols are done, and their number.
-/

namespace Spdz

/-- A protocol of a batch. -/
structure Slot (P : Type) where
  protocol : P
  active : Bool := true

namespace Slot

variable {F : FieldSpec} {σ P : Type} [Protocol F σ P]

/-- Evaluate a round of every active protocol, in order, up to the first error. The slots are given
back in any case. -/
def advance (round : Nat) : List (Slot P) → Action F σ (Except Error Unit × List (Slot P))
  | [] => return (.ok (), [])
  | slot :: later =>
    if slot.active then do
      let (result, protocol) ← (Protocol.evaluate (F := F) (σ := σ) round).run slot.protocol
      match result with
      | .error e => return (.error e, ⟨protocol, true⟩ :: later)
      | .ok status => do
        let (result, later) ← advance round later
        return (result, ⟨protocol, status == .hasMoreRounds⟩ :: later)
    else do
      let (result, later) ← advance round later
      return (result, slot :: later)

/-- Evaluate rounds from the given one on, as long as a protocol is active, at most `limit` of
them. The result is the number of the round that was not needed any more. -/
def driveFrom : (limit round : Nat) → List (Slot P) →
    Action F σ (Except Error Nat × List (Slot P))
  | 0, _, slots => return (.error .tooManyRounds, slots)
  | limit + 1, round, slots =>
    if slots.any (·.active) then do
      match ← advance round slots with
      | (.error e, slots) => return (.error e, slots)
      | (.ok (), slots) => driveFrom limit (round + 1) slots
    else return (.ok round, slots)

end Slot

/-- Rounds are counted in a machine word, so there are no more than this. -/
def maxRounds : Nat := UInt64.size

/-- Drive every protocol to completion. The result is the number of rounds taken; the protocols are
given back in the states they reached, also after an error. -/
def driveRounds {F : FieldSpec} {σ P : Type} [Protocol F σ P] (protocols : List P) :
    Action F σ (Except Error Nat × List P) := do
  let (result, slots) ← Slot.driveFrom maxRounds 0 (protocols.map fun protocol => { protocol })
  return (result, slots.map (·.protocol))

end Spdz
