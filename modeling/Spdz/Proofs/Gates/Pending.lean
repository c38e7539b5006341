import Spdz.Proofs.Protocol.Checking
import Spdz.Proofs.Protocol.Moves
import Spdz.Proofs.Protocol.Turn
import Spdz.Protocol.Gate

/-!
# What protocols do to the pending openings

Most rounds leave the pending openings alone.  Those that open something have one round in which they do
not.  A check takes all records out when it begins, and does nothing more to them.

* `Input.leaves_evaluate`, `Reveal.leaves_evaluate`, … — protocols that open nothing.
* `Open.leaves_evaluate`, `OpenTo.leaves_evaluate`, `Multiply.leaves_evaluate` — protocols that open, in
  their other rounds.
* **`MacCheck.ends_begin`**, `MacCheck.moves_evaluate` — a check begins with all pending openings, and
  holds them from then on.
* **`Gate.leaves_evaluate`** — all gates but checks and those that open.
-/

namespace Spdz

open Round

variable {F : FieldSpec} {σ P : Type}

/-! ## Protocols that open nothing -/

theorem BroadcastValidation.leaves_evaluate (round : Nat) :
    Leaves (evaluate round : Round F σ _ _) := by
  intro v S result v' S' ends
  have stays := stays_evaluate round v result v' S' ends
  cases result with
  | error e =>
      obtain ⟨-, rfl, -⟩ := stays
      exact rfl
  | ok status =>
      obtain ⟨rfl, -⟩ := stays
      exact rfl

theorem Reveal.leaves_evaluate (round : Nat) : Leaves (evaluate round : Round F σ _ _) := by
  intro r S result r' S' ends
  have leads := leads_evaluate round r result r' S' ends
  have party : S' = S ∨ S' = committed r.value S := by
    cases result with
    | error e => exact leads.2.1
    | ok status => exact leads.party
  rcases party with rfl | rfl <;> exact rfl

section Suppliers

variable [Supplier F σ]

namespace MaskedInput

theorem leaves_send : Leaves (send : Round F σ _ _) := by
  refine .get_bind fun m => .bind (leaves_draw _) fun mask => .bind (leaves_set _) fun _ =>
    .party_bind fun S => ?_
  split
  · cases m.input with
    | none => exact .throw _
    | some input =>
        cases mask.real with
        | none => exact .throw _
        | some real => exact .bind (.sendElements _) fun _ => leaves_set _
  · exact .pure _

omit [Supplier F σ] in
theorem leaves_receive : Leaves (receive : Round F σ _ _) := by
  refine .get_bind fun m => ?_
  cases m.masked with
  | some masked => exact .pure _
  | none => exact .bind (.receiveElements _ _) fun _ => .bind (leaves_set _) fun _ => .pure _

theorem leaves_combine (round : Nat) : Leaves (combine round : Round F σ _ _) := by
  refine .get_bind fun m => ?_
  split
  · exact .party_bind fun _ => .pure _
  · exact .throw _

end MaskedInput

theorem Input.leaves_evaluate (round : Nat) : Leaves (Input.evaluate round : Round F σ _ _) := by
  match round with
  | 0 => exact .bind (.within MaskedInput.leaves_send) fun _ => .pure _
  | 1 =>
      exact .bind (.discard (.within MaskedInput.leaves_receive)) fun _ =>
        .bind (.within (MaskedInput.leaves_combine 1)) fun _ => .bind (leaves_modify _) fun _ => .pure _
  | _ + 2 => exact .throw _

theorem CheckedInput.leaves_evaluate (round : Nat) :
    Leaves (CheckedInput.evaluate round : Round F σ _ _) := by
  match round with
  | 0 => exact .bind (.within MaskedInput.leaves_send) fun _ => .pure _
  | 1 =>
      exact .bind (.within MaskedInput.leaves_receive) fun _ =>
        .bind (.apart (BroadcastValidation.leaves_evaluate 0)) fun (_, _) =>
          .bind (leaves_modify _) fun _ => .pure _
  | 2 =>
      refine .get_bind fun p => ?_
      cases p.validation with
      | none => exact .throw _
      | some v =>
          exact .bind (.discard (.within (BroadcastValidation.leaves_evaluate 1))) fun _ =>
            .bind (.within (MaskedInput.leaves_combine 2)) fun _ => .bind (leaves_modify _) fun _ =>
              .pure _
  | _ + 3 => exact .throw _

theorem RandomElement.leaves_evaluate (round : Nat) :
    Leaves (RandomElement.evaluate round : Round F σ _ _) := by
  have drawn : Leaves (do
      let share ← Round.draw .element
      set (⟨some share⟩ : RandomElement F)
      return .isDone : Round F σ (RandomElement F) Status) :=
    .bind (leaves_draw _) fun _ => .bind (leaves_set _) fun _ => .pure _
  match round with
  | 0 => exact drawn
  | _ + 1 => exact .bind (.throw _) fun _ => drawn

theorem RandomBit.leaves_evaluate (round : Nat) : Leaves (RandomBit.evaluate round : Round F σ _ _) := by
  have drawn : Leaves (do
      let share ← Round.draw .bit
      set (⟨some share⟩ : RandomBit F)
      return .isDone : Round F σ (RandomBit F) Status) :=
    .bind (leaves_draw _) fun _ => .bind (leaves_set _) fun _ => .pure _
  match round with
  | 0 => exact drawn
  | _ + 1 => exact .bind (.throw _) fun _ => drawn

theorem ExpPipe.leaves_evaluate (round : Nat) : Leaves (ExpPipe.evaluate round : Round F σ _ _) := by
  have drawn : Leaves (do
      let pipe ← Round.draw .pipe
      let expected := (← get).length
      if pipe.length ≠ expected then throw (.pipeLength expected pipe.length)
      modify fun state => { state with output := some pipe }
      return .isDone : Round F σ (ExpPipe F) Status) := by
    refine .bind (leaves_draw _) fun pipe => .get_bind fun p => ?_
    dsimp only
    split
    · exact .bind (.throw _) fun _ => .bind (leaves_modify _) fun _ => .pure _
    · exact .bind (leaves_modify _) fun _ => .pure _
  match round with
  | 0 => exact drawn
  | _ + 1 => exact .bind (.throw _) fun _ => drawn

theorem KnownValue.leaves_evaluate (round : Nat) :
    Leaves (KnownValue.evaluate round : Round F σ _ _) := by
  have shared : Leaves (do
      let party ← Round.party
      modify fun state =>
        { state with output := some (.ofPublic state.value party.keyShare party.id) }
      return .isDone : Round F σ (KnownValue F) Status) :=
    .party_bind fun _ => .bind (leaves_modify _) fun _ => .pure _
  match round with
  | 0 => exact shared
  | _ + 1 => exact .bind (.throw _) fun _ => shared

/-! ## Protocols that open -/

omit [Supplier F σ] in
theorem Open.leaves_evaluate {round : Nat} (other : round ≠ 1) :
    Leaves (Open.evaluate round : Round F σ _ _) := by
  refine .get_bind fun p => ?_
  match round, other with
  | 0, _ => exact .bind (.sendElements _) fun _ => .pure _
  | _ + 2, _ => exact .throw _

theorem OpenTo.leaves_evaluate {round : Nat} (other : round ≠ 1) :
    Leaves (OpenTo.evaluate round : Round F σ _ _) := by
  refine .get_bind fun p => ?_
  dsimp only
  split
  · exact .bind (leaves_draw _) fun _ => .bind (.sendElements _) fun _ => .bind (leaves_set _) fun _ =>
      .pure _
  · exact absurd rfl other
  · exact .throw _

theorem Multiply.leaves_evaluate {round : Nat} (other : round ≠ 1) :
    Leaves (Multiply.evaluate round : Round F σ _ _) := by
  refine .get_bind fun p => ?_
  dsimp only
  split
  · exact .bind (leaves_draw _) fun _ => .bind (.sendElements _) fun _ => .bind (leaves_set _) fun _ =>
      .pure _
  · exact absurd rfl other
  · exact .throw _

/-! ## Checks -/

namespace MacCheck

/-- The check holds the same records as before, and the pending openings are left alone. -/
def Holding (x y : MacCheck F × Party F σ) : Prop :=
  x.1.records = y.1.records ∧ x.2.opened.toList = y.2.opened.toList

variable {round : Nat} {p p' : MacCheck F} {S S' : Party F σ} {result : Except Error Status}

/-- A check that goes on holds its records. -/
theorem holding_goOn (ends : (((goOn round : Round F σ _ _).run p).run S).Ends ((result, p'), S')) :
    Holding (p, S) (p', S') := by
  obtain ⟨outcome, draws⟩ := ends_goOn ends
  exact ⟨outcome.records.symm, congrArg OpenedValues.toList draws.kept.2.symm⟩

/-- **A check that has begun** holds its records, and leaves the pending openings alone. -/
theorem moves_evaluate (begun : ¬ (round = 0 ∧ p.stage = .idle)) :
    MovesFrom Holding (evaluate round) p S := by
  intro result p' S' ends
  rw [run_evaluate begun] at ends
  exact holding_goOn ends

/-- **A check that begins** takes all pending openings. -/
theorem ends_begin (idle : p.stage = .idle)
    (ends : (((evaluate 0 : Round F σ _ _).run p).run S).Ends ((result, p'), S')) :
    p'.records = S.opened.toList ∧ S'.opened.toList = [] := by
  -- the records are taken at once, and what follows is a turn of a check that holds them
  obtain ⟨held, left⟩ := holding_goOn (ends_goOn_of_begin idle ends)
  exact ⟨held.symm, left.symm⟩

end MacCheck

end Suppliers

/-! ## Gates -/

section Gates

variable {round : Nat} {S S' : Party F σ} {result : Except Error Status}

/-- What a protocol ends with as one kind of another. -/
theorem Embeds.ends {Q : Type} [Protocol F σ P] [Protocol F σ Q] {wrap : P → Q}
    (embeds : Embeds (F := F) σ wrap) {p : P} {q : Q}
    (ends : (((Protocol.evaluate round : Round F σ Q Status).run (wrap p)).run S).Ends
      ((result, q), S')) : ∃ p', q = wrap p' ∧
      (((Protocol.evaluate round : Round F σ P Status).run p).run S).Ends ((result, p'), S') := by
  rw [embeds.evaluate, StateT.run_map] at ends
  obtain ⟨⟨⟨_, p'⟩, _⟩, inner, same⟩ := Exchange.ends_map.mp ends
  cases same
  exact ⟨p', rfl, inner⟩

namespace Gate

variable [Supplier F σ]

def IsCheck (gate : Gate F) : Prop := ∃ check, gate = macCheck check

/-- **Opens.**  The protocol opens values that a check has to confirm. -/
def Opens : Gate F → Prop
  | openAll _ | openTo _ | multiply _ => True
  | _ => False

theorem leaves_of_embeds [Protocol F σ P] {wrap : P → Gate F} (embeds : Embeds (F := F) σ wrap)
    (leaves : Leaves (Protocol.evaluate round : Round F σ P Status)) (p : P) :
    MovesFrom SameOpenings (evaluate round : Round F σ _ _) (wrap p) S := by
  intro result gate S' ends
  obtain ⟨p', -, inner⟩ := embeds.ends ends
  exact leaves p S result p' S' inner

/-- **Only checks and gates that open** do anything to the pending openings. -/
theorem leaves_evaluate {gate : Gate F} (other : ¬ gate.IsCheck) (closed : ¬ gate.Opens) :
    MovesFrom SameOpenings (evaluate round : Round F σ _ _) gate S := by
  cases gate with
  | macCheck check => exact absurd ⟨check, rfl⟩ other
  | openAll | openTo | multiply => exact absurd trivial closed
  | input state => exact leaves_of_embeds (fun _ _ => rfl) (Input.leaves_evaluate round) state
  | checkedInput state =>
      exact leaves_of_embeds (fun _ _ => rfl) (CheckedInput.leaves_evaluate round) state
  | reveal state => exact leaves_of_embeds (fun _ _ => rfl) (Reveal.leaves_evaluate round) state
  | validation state =>
      exact leaves_of_embeds (fun _ _ => rfl) (BroadcastValidation.leaves_evaluate round) state
  | element state => exact leaves_of_embeds (fun _ _ => rfl) (RandomElement.leaves_evaluate round) state
  | bit state => exact leaves_of_embeds (fun _ _ => rfl) (RandomBit.leaves_evaluate round) state
  | pipe state => exact leaves_of_embeds (fun _ _ => rfl) (ExpPipe.leaves_evaluate round) state
  | known state => exact leaves_of_embeds (fun _ _ => rfl) (KnownValue.leaves_evaluate round) state

end Gate

end Gates

end Spdz
