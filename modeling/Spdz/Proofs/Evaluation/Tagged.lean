import Spdz.Evaluation.Schedule
import Spdz.Proofs.Network.Labelled

/-!
# Driving with labels

To say which message belongs to which protocol of a batch, the calls of each protocol in each round
are given a label.  The labels change nothing: without them it is the batch as it is driven.

* `Slot.advanceTagged`, `Slot.driveTagged` — a round, and all rounds, with a label for each round and
  position.
* **`plain_driveRoundsTagged`** — without labels this is `driveRounds`.
-/

namespace Spdz

variable {F : FieldSpec} {σ P Λ α β : Type}

/-- What a party does with its own state and the network, with labelled calls. -/
abbrev TaggedAction (F : FieldSpec) (σ Λ : Type) := StateT (Party F σ) (Labelled Λ)

/-- An action all of whose calls have the same label. -/
def Action.tagged (label : Λ) (action : Action F σ α) : TaggedAction F σ Λ α := fun S =>
  (action.run S).labelled label

theorem Action.plain_tagged (label : Λ) (action : Action F σ α) (S : Party F σ) :
    ((action.tagged label).run S).plain = action.run S := Exchange.plain_labelled label _

/-- Labels are taken off part by part, also where a state is handed on. -/
theorem Labelled.plain_run_bind {τ : Type} {x : StateT τ (Labelled Λ) α}
    {f : α → StateT τ (Labelled Λ) β} {y : StateT τ Exchange α} {g : α → StateT τ Exchange β} {s : τ}
    (first : (x.run s).plain = y.run s) (next : ∀ a s, ((f a).run s).plain = (g a).run s) :
    ((x >>= f).run s).plain = (y >>= g).run s := by
  refine (Labelled.plain_bind (x.run s) fun (a, s) => (f a).run s).trans ?_
  rw [first]
  exact congrArg (y.run s >>= ·) (funext fun (a, s) => next a s)

namespace Slot

variable [Protocol F σ P] (tag : (round position : Nat) → Λ)

/-- A round of every active protocol from a position on. -/
def advanceTagged (round : Nat) : (position : Nat) → List (Slot P) →
    TaggedAction F σ Λ (Except Error Unit × List (Slot P))
  | _, [] => return (.ok (), [])
  | position, slot :: later =>
    if slot.active then do
      let (result, protocol) ← Action.tagged (tag round position)
        ((Protocol.evaluate (F := F) (σ := σ) round).run slot.protocol)
      match result with
      | .error e => return (.error e, ⟨protocol, true⟩ :: later)
      | .ok status => do
        let (result, later) ← advanceTagged round (position + 1) later
        return (result, ⟨protocol, status == .hasMoreRounds⟩ :: later)
    else do
      let (result, later) ← advanceTagged round (position + 1) later
      return (result, slot :: later)

/-- Rounds from the given one on, at most `limit` of them. -/
def driveTagged : (limit round : Nat) → List (Slot P) →
    TaggedAction F σ Λ (Except Error Nat × List (Slot P))
  | 0, _, slots => return (.error .tooManyRounds, slots)
  | limit + 1, round, slots =>
    if slots.any (·.active) then do
      match ← advanceTagged tag round 0 slots with
      | (.error e, slots) => return (.error e, slots)
      | (.ok (), slots) => driveTagged limit (round + 1) slots
    else return (.ok round, slots)

theorem plain_advanceTagged (round position : Nat) (slots : List (Slot P)) (S : Party F σ) :
    ((advanceTagged tag round position slots).run S).plain = (advance round slots).run S := by
  induction slots generalizing position S with
  | nil => rfl
  | cons slot later ih =>
      by_cases active : slot.active = true
      · simp only [advanceTagged, advance, active, if_true]
        refine Labelled.plain_run_bind (Action.plain_tagged _ _ S) ?_
        rintro ⟨result, protocol⟩ S
        cases result with
        | error e => rfl
        | ok status => exact Labelled.plain_run_bind (ih _ S) fun _ _ => rfl
      · simp only [advanceTagged, advance, active]
        exact Labelled.plain_run_bind (ih _ S) fun _ _ => rfl

theorem plain_driveTagged (limit round : Nat) (slots : List (Slot P)) (S : Party F σ) :
    ((driveTagged tag limit round slots).run S).plain = (driveFrom limit round slots).run S := by
  induction limit generalizing round slots S with
  | zero => rfl
  | succ limit ih =>
      by_cases active : slots.any (·.active) = true
      · simp only [driveTagged, driveFrom, active, if_true]
        refine Labelled.plain_run_bind (plain_advanceTagged tag round 0 slots S) ?_
        rintro ⟨result, slots⟩ S
        cases result with
        | error e => rfl
        | ok _ => exact ih _ slots S
      · simp only [driveTagged, driveFrom, active]
        rfl

end Slot

/-- Drive every protocol to completion. -/
def driveRoundsTagged [Protocol F σ P] (tag : (round position : Nat) → Λ) (protocols : List P) :
    TaggedAction F σ Λ (Except Error Nat × List P) := do
  let (result, slots) ← Slot.driveTagged tag maxRounds 0 (protocols.map fun protocol => { protocol })
  return (result, slots.map (·.protocol))

/-- **Without labels this is how protocols are driven.** -/
theorem plain_driveRoundsTagged [Protocol F σ P] (tag : (round position : Nat) → Λ)
    (protocols : List P) (S : Party F σ) :
    ((driveRoundsTagged tag protocols).run S).plain = (driveRounds protocols).run S :=
  Labelled.plain_run_bind (Slot.plain_driveTagged tag maxRounds 0 _ S) fun _ _ => rfl

/-- When there is only one label, it says nothing. -/
theorem driveRoundsTagged_unit [Protocol F σ P] (protocols : List P) (S : Party F σ) :
    (driveRoundsTagged (fun _ _ => ()) protocols).run S
      = ((driveRounds protocols).run S).labelled () := by
  rw [← plain_driveRoundsTagged fun _ _ => (), Labelled.labelled_plain_unit]

end Spdz
