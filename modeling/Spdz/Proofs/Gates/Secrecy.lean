import Spdz.Proofs.Evaluation.Tagged
import Spdz.Proofs.Field.Ring
import Spdz.Proofs.Protocol.Alike
import Spdz.Protocol.Input
import Spdz.Protocol.Multiply
import Spdz.Protocol.Open

/-!
# What messages tell

Whatever a party sends of a value, it sends less a mask.  So a run with one value and one mask looks like
a run with any other value and the mask that makes up for the difference: in every round the same calls
are made, byte for byte, and the runs end alike.  As there is just one such mask for each value, whoever
sees the messages learns nothing of the value.

* `Slot.driveTagged_eq` — two runs of a protocol whose rounds are alike are the same.
* `MaskedInput.Matched`, `MaskedInput.Twins` — inputs with values and masks that fit, and what they become.
* `Input.Twins`, `CheckedInput.Twins`, `Multiply.Twins`, `OpenTo.Twins` — the rounds of twins.
* **`messages_hide`** — inputs, products and openings to one party.
-/

namespace Spdz

variable {F : FieldSpec} {σ P Λ γ : Type}

/-! ## Runs of twins -/

/-- **Onward.**  How two rounds of a protocol that are alike may end: either both have more rounds, and
`Next` holds of the states that they leave, or both are the last, and then the same is told of them,
however the batch ends. -/
inductive Onward (Next : P → Party F σ → P → Party F σ → Prop) (told : Except Error Nat → List P → γ) :
    Except Error Status → P → Party F σ → Except Error Status → P → Party F σ → Prop where
  | more {p q : P} {S T : Party F σ} (next : Next p S q T) :
    Onward Next told (.ok .hasMoreRounds) p S (.ok .hasMoreRounds) q T
  | last {r r' : Except Error Status} {p q : P} {S T : Party F σ} (ends : r ≠ .ok .hasMoreRounds)
      (ends' : r' ≠ .ok .hasMoreRounds)
      (same : ∀ result, told (r >>= fun _ => result) [p] = told (r' >>= fun _ => result) [q]) :
    Onward Next told r p S r' q T

namespace Slot

variable [Protocol F σ P] {limit round : Nat} {p q : P} {S T : Party F σ}
  {tag : (round position : Nat) → Λ}

theorem run_driveTagged : (driveTagged tag (limit + 1) round [⟨p, true⟩]).run S
    = (((Protocol.evaluate round : Round F σ P _).run p).run S).labelled (tag round 0) >>= fun
      | ((.error e, p), S) => pure ((.error e, [⟨p, true⟩]), S)
      | ((.ok status, p), S) =>
        (driveTagged tag limit (round + 1) [⟨p, status == .hasMoreRounds⟩]).run S := by
  simp only [driveTagged, List.any_cons, Bool.true_or, if_true, advanceTagged, StateT.run_bind,
    bind_assoc]
  refine congrArg _ (funext ?_)
  rintro ⟨⟨result | status, p⟩, S⟩ <;> rfl

/-- A protocol that is done is left alone. -/
theorem run_driveTagged_idle (limit round : Nat) (tag : (round position : Nat) → Λ) :
    ∃ result, ∀ (p : P) (S : Party F σ),
      (driveTagged tag limit round [⟨p, false⟩]).run S = .done ((result, [⟨p, false⟩]), S) := by
  cases limit with
  | zero => exact ⟨.error .tooManyRounds, fun _ _ => rfl⟩
  | succ limit => exact ⟨.ok round, fun _ _ => rfl⟩

/-- What is told of the end of a run. -/
def report (told : Except Error Nat → List P → γ)
    (ended : (Except Error Nat × List (Slot P)) × Party F σ) : γ :=
  told ended.1.1 (ended.1.2.map (·.protocol))

/-- **Two runs whose rounds are alike are the same**, with what is told of their ends. -/
theorem driveTagged_eq {told : Except Error Nat → List P → γ}
    {Twins : Nat → P → Party F σ → P → Party F σ → Prop}
    (step : ∀ round p S q T, Twins round p S q T →
      Round.Alike (Protocol.evaluate round) p S (Protocol.evaluate round) q T
        (Onward (Twins (round + 1)) told))
    (spent : ∀ round p S q T, Twins round p S q T →
      told (.error .tooManyRounds) [p] = told (.error .tooManyRounds) [q])
    (start : Twins round p S q T) :
    report told <$> (driveTagged tag limit round [⟨p, true⟩]).run S
      = report told <$> (driveTagged tag limit round [⟨q, true⟩]).run T := by
  induction limit generalizing round p S q T with
  | zero => exact congrArg Labelled.done (spent round p S q T start)
  | succ limit ih =>
      rw [run_driveTagged, run_driveTagged, map_bind, map_bind]
      refine (step round p S q T start).labelled_bind _ ?_
      rintro ⟨⟨r, p⟩, S⟩ ⟨⟨r', q⟩, T⟩ onward
      cases onward with
      | more next => exact ih next
      | last ends ends' same =>
          obtain ⟨result, idle⟩ := run_driveTagged_idle (F := F) (σ := σ) (P := P) limit (round + 1) tag
          have ended {r : Except Error Status} (ends : r ≠ .ok .hasMoreRounds) (p : P) (S : Party F σ) :
              (report told <$> match ((r, p), S) with
                | ((.error e, p), S) => pure ((.error e, [⟨p, true⟩]), S)
                | ((.ok status, p), S) =>
                  (driveTagged tag limit (round + 1) [⟨p, status == .hasMoreRounds⟩]).run S)
              = Labelled.done (told (r >>= fun _ => result) [p]) := by
            match r with
            | .error e => rfl
            | .ok .isDone => exact congrArg (report told <$> ·) (idle p S)
            | .ok .hasMoreRounds => exact absurd rfl ends
          exact (ended ends p S).trans ((congrArg _ (same result)).trans (ended ends' q T).symm)

/-- The same for whole runs. -/
theorem driveRoundsTagged_eq (told : Except Error Nat → List P → γ)
    (Twins : Nat → P → Party F σ → P → Party F σ → Prop)
    (step : ∀ round p S q T, Twins round p S q T →
      Round.Alike (Protocol.evaluate round) p S (Protocol.evaluate round) q T
        (Onward (Twins (round + 1)) told))
    (spent : ∀ round p S q T, Twins round p S q T →
      told (.error .tooManyRounds) [p] = told (.error .tooManyRounds) [q])
    (start : Twins 0 p S q T) :
    (fun ended => told ended.1.1 ended.1.2) <$> (driveRoundsTagged tag [p]).run S
      = (fun ended => told ended.1.1 ended.1.2) <$> (driveRoundsTagged tag [q]).run T := by
  have whole (p : P) (S : Party F σ) :
      (fun ended => told ended.1.1 ended.1.2) <$> (driveRoundsTagged tag [p]).run S
        = report told <$> (driveTagged tag maxRounds 0 [⟨p, true⟩]).run S := by
    rw [driveRoundsTagged, StateT.run_bind, map_bind, ← bind_pure_comp]
    rfl
  rw [whole, whole]
  exact driveTagged_eq step spent start

end Slot

/-! ## Inputs -/

section Inputs

variable [Supplier F σ]

namespace MaskedInput

/-- **Matched.**  Two inputs that are to look alike.  Either the party is the inputter, and its values are
masked by different amounts such that the differences are the same, or it is not, and its values do not
matter. -/
inductive Matched : MaskedInput F → Party F σ → MaskedInput F → Party F σ → Prop where
  | own {S T : Party F σ} {x x' r r' : Elem F} {share : Share F} {rest rest' : σ}
      (drawn : Supplier.draw (.mask S.id) S.supplier = (.ok (⟨share, some r⟩ : InputMask F), rest))
      (drawn' : Supplier.draw (.mask S.id) T.supplier = (.ok (⟨share, some r'⟩ : InputMask F), rest'))
      (same : x - r = x' - r') (id : T.id = S.id)
      (keyShare : Supplier.keyShare (F := F) rest' = Supplier.keyShare rest) :
    Matched { input := some x, inputter := S.id } S { input := some x', inputter := S.id } T
  | other {S : Party F σ} {inputter : PartyId} (value value' : Option (Elem F))
      (elsewhere : S.id ≠ inputter) :
    Matched { input := value, inputter } S { input := value', inputter } S

/-- **Twins.**  What two such inputs are once the mask is drawn: they differ only in what nobody asks for
any more. -/
structure Twins (s : MaskedInput F) (S : Party F σ) (t : MaskedInput F) (T : Party F σ) : Prop where
  inputter : t.inputter = s.inputter
  share : t.mask.map (·.mask) = s.mask.map (·.mask)
  masked : t.masked = s.masked
  id : T.id = S.id
  keyShare : T.keyShare = S.keyShare

variable {s t : MaskedInput F} {S T : Party F σ}

/-- **What is sent is the same.** -/
theorem Matched.alike_send (matched : s.Matched S t T) :
    Round.Alike (send : Round F σ _ Unit) s S send t T (Round.Agree Twins) := by
  cases matched with
  | @own _ _ x x' r r' share rest rest' drawn drawn' same id keyShare =>
      refine .get (.draw drawn drawn' (.set (.party ?_)))
      dsimp only
      rw [if_pos rfl, if_pos id, same]
      refine .sendElements (fun _ => ⟨rfl, nofun⟩) (.done ⟨rfl, fun _ => ?_⟩)
      exact ⟨rfl, rfl, rfl, id, keyShare⟩
  | @other _ inputter value value' elsewhere =>
      refine .get (.draw_self (fun _ _ => ⟨rfl, nofun⟩) fun mask rest => .set (.party ?_))
      dsimp only
      rw [if_neg elsewhere, if_neg elsewhere]
      exact .done ⟨rfl, fun _ => ⟨rfl, rfl, rfl, rfl, rfl⟩⟩

theorem Twins.alike_receive (twins : s.Twins S t T) :
    Round.Alike (receive : Round F σ _ _) s S receive t T (Round.Agree Twins) := by
  obtain ⟨input, _, mask, _⟩ := s
  obtain ⟨input', inputter, mask', masked⟩ := t
  obtain ⟨rfl, share, rfl, id, keyShare⟩ := twins
  refine .get ?_
  cases masked with
  | some masked => exact .done ⟨rfl, fun _ => ⟨rfl, share, rfl, id, keyShare⟩⟩
  | none =>
      refine .receiveElements (fun _ => ⟨rfl, nofun⟩) (fun _ _ => ⟨rfl, nofun⟩) fun elements => ?_
      exact .done ⟨rfl, fun _ => ⟨rfl, share, rfl, id, keyShare⟩⟩

theorem Twins.alike_combine (twins : s.Twins S t T) (round : Nat) :
    Round.Alike (combine round : Round F σ _ _) s S (combine round) t T (Round.Agree Twins) := by
  obtain ⟨input, _, mask, _⟩ := s
  obtain ⟨input', inputter, mask', masked⟩ := t
  obtain ⟨rfl, share, rfl, id, keyShare⟩ := twins
  refine .get ?_
  match mask, mask', masked with
  | some mask, some mask', some masked =>
      have same : mask'.mask = mask.mask := Option.some.inj share
      refine .party (.pure ⟨?_, fun _ => ⟨rfl, share, rfl, id, keyShare⟩⟩)
      rw [same, keyShare, id]
  | none, none, _ => exact .throw ⟨rfl, nofun⟩
  | some _, some _, none => exact .throw ⟨rfl, nofun⟩

end MaskedInput

/-- What a caller gets to know of protocols that were driven: how it went, and their results. -/
def answerOf {P Out : Type} [HasOutput P Out] (result : Except Error Nat) (protocols : List P) :
    Except Error Nat × List (Option Out) := (result, protocols.map HasOutput.output)

namespace Input

/-- **Twins.**  Two inputs before each round. -/
inductive Twins : Nat → Input F → Party F σ → Input F → Party F σ → Prop where
  | fresh {s t : MaskedInput F} {S T : Party F σ} (matched : s.Matched S t T) :
    Twins 0 { state := s } S { state := t } T
  | sent {s t : MaskedInput F} {S T : Party F σ} (twins : s.Twins S t T) :
    Twins 1 { state := s } S { state := t } T

variable {round : Nat} {p q : Input F} {S T : Party F σ}

theorem Twins.alike (twins : Twins round p S q T) :
    Round.Alike (evaluate round) p S (evaluate round) q T (Onward (Twins (round + 1)) answerOf) := by
  have failed {e : Error} {s t : MaskedInput F} {S T : Party F σ} :
      Onward (Twins (round + 1)) answerOf (.error e) { state := s } S (.error e) { state := t } T :=
    .last nofun nofun fun _ => rfl
  cases twins with
  | fresh matched =>
      exact .within matched.alike_send (fun _ _ _ _ _ => failed) fun _ _ _ _ _ twins =>
        .pure (.more (.sent twins))
  | sent twins =>
      refine .discard (.within twins.alike_receive (fun _ _ _ _ _ => failed) fun _ _ _ _ _ twins => ?_)
      exact .within (twins.alike_combine 1) (fun _ _ _ _ _ => failed) fun _ _ _ _ _ _ =>
        .modify (.pure (.last nofun nofun fun _ => rfl))

theorem Twins.spent (twins : Twins round p S q T) :
    answerOf (.error .tooManyRounds) [p] = answerOf (.error .tooManyRounds) [q] := by
  cases twins <;> rfl

end Input

namespace BroadcastValidation

omit [Supplier F σ] in
/-- A validation does not look at the party. -/
theorem alike (round : Nat) (b : BroadcastValidation) (S T : Party F σ) :
    Round.Alike (evaluate round) b S (evaluate round) b T
      (Round.Agree fun b S' b' T' => b' = b ∧ S' = S ∧ T' = T) := by
  match round with
  | 0 =>
      refine .get (.modify (.call (fun _ => ⟨rfl, nofun⟩) fun _ => ?_))
      exact .pure ⟨rfl, fun _ => ⟨rfl, rfl, rfl⟩⟩
  | 1 =>
      refine .call (fun _ => ⟨rfl, nofun⟩) fun received => .get ?_
      dsimp only
      split_ifs
      · exact .done ⟨rfl, nofun⟩
      · exact .modify (.pure ⟨rfl, fun _ => ⟨rfl, rfl, rfl⟩⟩)
  | _ + 2 => exact .throw ⟨rfl, nofun⟩

end BroadcastValidation

namespace CheckedInput

/-- **Twins.**  Two inputs before each round. -/
inductive Twins : Nat → CheckedInput F → Party F σ → CheckedInput F → Party F σ → Prop where
  | fresh {s t : MaskedInput F} {S T : Party F σ} (matched : s.Matched S t T) :
    Twins 0 { state := s } S { state := t } T
  | sent {s t : MaskedInput F} {S T : Party F σ} (twins : s.Twins S t T) :
    Twins 1 { state := s } S { state := t } T
  | compared {s t : MaskedInput F} {S T : Party F σ} (validation : BroadcastValidation)
      (twins : s.Twins S t T) :
    Twins 2 { state := s, validation := some validation } S { state := t, validation := some validation } T

variable {round : Nat} {p q : CheckedInput F} {S T : Party F σ}

theorem Twins.alike (twins : Twins round p S q T) :
    Round.Alike (evaluate round) p S (evaluate round) q T (Onward (Twins (round + 1)) answerOf) := by
  have failed {e : Error} {s t : MaskedInput F} {b b' : Option BroadcastValidation} {S T : Party F σ} :
      Onward (Twins (round + 1)) answerOf (.error e) { state := s, validation := b } S (.error e)
        { state := t, validation := b' } T := .last nofun nofun fun _ => rfl
  cases twins with
  | fresh matched =>
      exact .within matched.alike_send (fun _ _ _ _ _ => failed) fun _ _ _ _ _ twins =>
        .pure (.more (.sent twins))
  | sent twins =>
      refine .within twins.alike_receive (fun _ _ _ _ _ => failed) fun masked _ S _ T twins => ?_
      refine .apart (BroadcastValidation.alike 0 _ S T) (fun _ _ _ => failed) ?_
      rintro status _ _ b _ ⟨rfl, rfl, rfl⟩
      exact .modify (.pure (.more (.compared b twins)))
  | compared validation twins =>
      refine .get (.discard (.within (BroadcastValidation.alike 1 _ S T) (fun _ _ _ _ _ => failed) ?_))
      rintro status _ _ b _ ⟨rfl, rfl, rfl⟩
      exact .within (twins.alike_combine 2) (fun _ _ _ _ _ => failed) fun _ _ _ _ _ _ =>
        .modify (.pure (.last nofun nofun fun _ => rfl))

theorem Twins.spent (twins : Twins round p S q T) :
    answerOf (.error .tooManyRounds) [p] = answerOf (.error .tooManyRounds) [q] := by
  cases twins <;> rfl

end CheckedInput

end Inputs

/-! ## Products and openings -/

section Openings

variable [Supplier F σ]

namespace Multiply

/-- **Twins.**  Two multiplications whose factors are masked to the same differences. -/
inductive Twins : Nat → Multiply F → Party F σ → Multiply F → Party F σ → Prop where
  | fresh {x y x' y' : Share F} {t t' : Triple F} {rest rest' : σ} {S T : Party F σ}
      (drawn : Supplier.draw .triple S.supplier = (.ok t, rest))
      (drawn' : Supplier.draw .triple T.supplier = (.ok t', rest'))
      (first : x.value - t.a.value = x'.value - t'.a.value)
      (second : y.value - t.b.value = y'.value - t'.b.value) :
    Twins 0 { x, y } S { x := x', y := y' } T
  | sent {x y x' y' : Share F} {t t' : Triple F} {S T : Party F σ}
      (first : x.value - t.a.value = x'.value - t'.a.value)
      (second : y.value - t.b.value = y'.value - t'.b.value) :
    Twins 1 { x, y, triple := some t } S { x := x', y := y', triple := some t' } T

variable {round : Nat} {p q : Multiply F} {S T : Party F σ}

theorem Twins.alike (twins : Twins round p S q T) :
    Round.Alike (evaluate round) p S (evaluate round) q T
      (Onward (Twins (round + 1)) fun result _ => result) := by
  cases twins with
  | fresh drawn drawn' first second =>
      refine .get (.draw drawn drawn' ?_)
      simp only [Share.value_sub, first, second]
      exact .sendElements (fun _ => .last nofun nofun fun _ => rfl)
        (.set (.pure (.more (.sent first second))))
  | sent first second =>
      refine .get (.receiveElementsFromAll (fun _ => .last nofun nofun fun _ => rfl)
        (fun _ _ => .last nofun nofun fun _ => rfl) fun received => ?_)
      exact .record (.record (.party (.set (.pure (.last nofun nofun fun _ => rfl)))))

end Multiply

namespace OpenTo

/-- **Twins.**  Two openings of shares that are masked to the same difference. -/
inductive Twins : Nat → OpenTo F → Party F σ → OpenTo F → Party F σ → Prop where
  | fresh {share share' : Share F} {target target' : PartyId} {mask mask' : InputMask F}
      {rest rest' : σ} {S T : Party F σ}
      (drawn : Supplier.draw (.mask target) S.supplier = (.ok mask, rest))
      (drawn' : Supplier.draw (.mask target') T.supplier = (.ok mask', rest'))
      (same : share.value - mask.mask.value = share'.value - mask'.mask.value) :
    Twins 0 { share, target } S { share := share', target := target' } T
  | sent {share share' : Share F} {target target' : PartyId} {mask mask' : InputMask F} {S T : Party F σ}
      (same : share.value - mask.mask.value = share'.value - mask'.mask.value) :
    Twins 1 { share, target, mask := some mask } S
      { share := share', target := target', mask := some mask' } T

variable {round : Nat} {p q : OpenTo F} {S T : Party F σ}

/-- The result is not the same, and there may be none. -/
theorem Twins.alike (twins : Twins round p S q T) :
    Round.Alike (evaluate round) p S (evaluate round) q T
      (Onward (Twins (round + 1)) fun _ _ => ()) := by
  cases twins with
  | fresh drawn drawn' same =>
      refine .get (.draw drawn drawn' ?_)
      simp only [Share.value_sub, same]
      exact .sendElements (fun _ => .last nofun nofun fun _ => rfl) (.set (.pure (.more (.sent same))))
  | @sent _ _ _ _ mask mask' =>
      obtain ⟨_, real⟩ := mask
      obtain ⟨_, real'⟩ := mask'
      refine .get (.receiveElementsFromAll (fun _ => .last nofun nofun fun _ => rfl)
        (fun _ _ => .last nofun nofun fun _ => rfl) fun received => .record (.party ?_))
      -- whether or not this is the target, and the mask is known to it, no more calls are made
      dsimp only
      split_ifs <;> cases real <;> cases real' <;> exact .done (.last nofun nofun fun _ => rfl)

end OpenTo

end Openings

/-! ## Secrecy -/

/-- What can be seen of a run: its calls, and what a caller gets to know of its protocols in the end. -/
def seen {P Out : Type} [HasOutput P Out] (run : Labelled Λ ((Except Error Nat × List P) × Party F σ)) :
    Labelled Λ (Except Error Nat × List (Option Out)) :=
  (fun ended => answerOf ended.1.1 ended.1.2) <$> run

section Secrecy

variable [Supplier F σ] {tag : (round position : Nat) → Λ}

theorem MaskedInput.Matched.seen_eq {s t : MaskedInput F} {S T : Party F σ} (matched : s.Matched S t T) :
    seen ((driveRoundsTagged tag [({ state := s } : Input F)]).run S)
        = seen ((driveRoundsTagged tag [({ state := t } : Input F)]).run T) ∧
      seen ((driveRoundsTagged tag [({ state := s } : CheckedInput F)]).run S)
        = seen ((driveRoundsTagged tag [({ state := t } : CheckedInput F)]).run T) :=
  ⟨Slot.driveRoundsTagged_eq answerOf Input.Twins (fun _ _ _ _ _ => Input.Twins.alike)
      (fun _ _ _ _ _ => Input.Twins.spent) (.fresh matched),
    Slot.driveRoundsTagged_eq answerOf CheckedInput.Twins (fun _ _ _ _ _ => CheckedInput.Twins.alike)
      (fun _ _ _ _ _ => CheckedInput.Twins.spent) (.fresh matched)⟩

/-- For each value there is just one mask that makes up for it. -/
theorem bijective_mask (x x' : Elem F) : Function.Bijective fun r : Elem F => r + x' - x :=
  ⟨fun r s same => by simpa using same, fun r => ⟨r + x - x', by ring⟩⟩

/-- **Messages hide what they are about.**  Whatever comes from the network, an inputter with a value and
a mask makes the same calls in every round as with another value and the mask that makes up for it, and
ends with the same share or the same error.  At the others the value does not matter.  The calls of a
multiplication depend on the differences of the party's shares only, and those of an opening to one party
on the one difference. -/
theorem messages_hide (tag : (round position : Nat) → Λ) :
    (∀ x x' : Elem F, Function.Bijective (fun r : Elem F => r + x' - x) ∧
      ∀ (r : Elem F) (share : Share F) (S T : Party F σ) (rest rest' : σ),
        Supplier.draw (.mask S.id) S.supplier = (.ok (⟨share, some r⟩ : InputMask F), rest) →
        Supplier.draw (.mask S.id) T.supplier = (.ok (⟨share, some (r + x' - x)⟩ : InputMask F), rest') →
        T.id = S.id → Supplier.keyShare (F := F) rest' = Supplier.keyShare rest →
        seen ((driveRoundsTagged tag [Input.new (some x) S.id]).run S)
          = seen ((driveRoundsTagged tag [Input.new (some x') S.id]).run T) ∧
        seen ((driveRoundsTagged tag [CheckedInput.new (some x) S.id]).run S)
          = seen ((driveRoundsTagged tag [CheckedInput.new (some x') S.id]).run T)) ∧
    (∀ (value value' : Option (Elem F)) (inputter : PartyId) (S : Party F σ), S.id ≠ inputter →
      seen ((driveRoundsTagged tag [Input.new value inputter]).run S)
        = seen ((driveRoundsTagged tag [Input.new value' inputter]).run S) ∧
      seen ((driveRoundsTagged tag [CheckedInput.new value inputter]).run S)
        = seen ((driveRoundsTagged tag [CheckedInput.new value' inputter]).run S)) ∧
    (∀ (x y x' y' : Share F) (t t' : Triple F) (S T : Party F σ) (rest rest' : σ),
      Supplier.draw .triple S.supplier = (.ok t, rest) →
      Supplier.draw .triple T.supplier = (.ok t', rest') →
      x.value - t.a.value = x'.value - t'.a.value → y.value - t.b.value = y'.value - t'.b.value →
      (·.1.1) <$> (driveRoundsTagged tag [({ x, y } : Multiply F)]).run S
        = (·.1.1) <$> (driveRoundsTagged tag [({ x := x', y := y' } : Multiply F)]).run T) ∧
    ∀ (share share' : Share F) (target target' : PartyId) (mask mask' : InputMask F) (S T : Party F σ)
        (rest rest' : σ),
      Supplier.draw (.mask target) S.supplier = (.ok mask, rest) →
      Supplier.draw (.mask target') T.supplier = (.ok mask', rest') →
      share.value - mask.mask.value = share'.value - mask'.mask.value →
      (fun _ => ()) <$> (driveRoundsTagged tag [({ share, target } : OpenTo F)]).run S
        = (fun _ => ()) <$> (driveRoundsTagged tag [({ share := share', target := target' } : OpenTo F)]).run T := by
  refine ⟨fun x x' => ⟨bijective_mask x x', ?_⟩, ?_, ?_, ?_⟩
  · intro r share S T rest rest' drawn drawn' id keyShare
    have same : x - r = x' - (r + x' - x) := by ring
    exact (MaskedInput.Matched.own drawn drawn' same id keyShare).seen_eq
  · intro value value' inputter S elsewhere
    exact (MaskedInput.Matched.other value value' elsewhere).seen_eq
  · intro x y x' y' t t' S T rest rest' drawn drawn' first second
    exact Slot.driveRoundsTagged_eq (fun result _ => result) Multiply.Twins
      (fun _ _ _ _ _ => Multiply.Twins.alike) (fun _ _ _ _ _ _ => rfl) (.fresh drawn drawn' first second)
  · intro share share' target target' mask mask' S T rest rest' drawn drawn' same
    exact Slot.driveRoundsTagged_eq (fun _ _ => ()) OpenTo.Twins
      (fun _ _ _ _ _ => OpenTo.Twins.alike) (fun _ _ _ _ _ _ => rfl) (.fresh drawn drawn' same)

end Secrecy

/-- The first of two parties, with some items in stock. -/
def stockedParty (stock : Stock .f251) : Party .f251 (Party.SimulatedSupplier .f251) where
  id := 1
  parties := 2
  config := {}
  supplier :=
    { party := 1, parties := 2, keyShare := 0, batchSize := 1, pipeLength := 1, seed := []
      factory := ⟨2, 0, 0⟩, stock }
  rng := ChaCha.ofSeed []

/-- An input of one with a mask of three looks like an input of seven with a mask of nine, a product with
factors one and two like one with five and seven, and an opening of a share of three like one of four. -/
theorem messages_hide_of_stocked :
    seen ((driveRoundsTagged (fun round _ => round) [Input.new (F := .f251) (some 1) 1]).run
        (stockedParty { masks := [(1, [⟨0, some 3⟩])] }))
      = seen ((driveRoundsTagged (fun round _ => round) [Input.new (F := .f251) (some 7) 1]).run
        (stockedParty { masks := [(1, [⟨0, some (3 + 7 - 1)⟩])] })) ∧
    (·.1.1) <$> (driveRoundsTagged (fun round _ => round)
        [({ x := ⟨1, 0⟩, y := ⟨2, 0⟩ } : Multiply .f251)]).run
        (stockedParty { triples := [⟨0, 0, 0⟩] })
      = (·.1.1) <$> (driveRoundsTagged (fun round _ => round)
        [({ x := ⟨5, 0⟩, y := ⟨7, 0⟩ } : Multiply .f251)]).run
        (stockedParty { triples := [⟨⟨4, 0⟩, ⟨5, 0⟩, 0⟩] }) ∧
    (fun _ => ()) <$> (driveRoundsTagged (fun round _ => round)
        [({ share := ⟨3, 0⟩, target := 2 } : OpenTo .f251)]).run
        (stockedParty { masks := [(2, [⟨⟨1, 0⟩, none⟩])] })
      = (fun _ => ()) <$> (driveRoundsTagged (fun round _ => round)
        [({ share := ⟨4, 0⟩, target := 2 } : OpenTo .f251)]).run
        (stockedParty { masks := [(2, [⟨⟨2, 0⟩, none⟩])] }) := by
  obtain ⟨inputs, -, products, openings⟩ :=
    messages_hide (F := .f251) (σ := Party.SimulatedSupplier .f251) fun round _ => round
  have triple (t : Triple .f251) : Supplier.draw .triple (stockedParty { triples := [t] }).supplier
      = (.ok t, (stockedParty {}).supplier) := rfl
  have mask (m : InputMask .f251) :
      Supplier.draw (.mask 2) (stockedParty { masks := [(2, [m])] }).supplier
        = (.ok m, (stockedParty { masks := [(2, [])] }).supplier) := rfl
  refine ⟨?_, ?_, ?_⟩
  · exact ((inputs 1 7).2 3 0 (stockedParty { masks := [(1, [⟨0, some 3⟩])] })
      (stockedParty { masks := [(1, [⟨0, some (3 + 7 - 1)⟩])] }) _ _ rfl rfl rfl rfl).1
  · exact products _ _ _ _ _ _ _ _ _ _ (triple ⟨0, 0, 0⟩) (triple ⟨⟨4, 0⟩, ⟨5, 0⟩, 0⟩) (by decide)
      (by decide)
  · exact openings _ _ _ _ _ _ _ _ _ _ (mask ⟨⟨1, 0⟩, none⟩) (mask ⟨⟨2, 0⟩, none⟩) (by decide)

end Spdz
