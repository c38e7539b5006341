import Spdz.Proofs.Evaluation.Verdict
import Spdz.Proofs.Gates.Pace
import Spdz.Proofs.Gates.Pending

/-!
# What failing rounds leave

A round may break off at each of its calls, at each draw and at each message that it reads.  Whatever it
recorded until then stays recorded, so the order of its steps matters: records are made last, when nothing
can fail any more.  One protocol does not keep to this.  The party to whom a value is opened records the
masked opening first and looks at the value of its mask then, which a supplier need not have given.

* `OpenTo.LacksValue` — a party is about to take off a mask whose value it does not know.
* `Open.spares_evaluate`, `Multiply.spares_evaluate` — openings that record last.
* `OpenTo.leads_evaluate` — the opening that does not.
* **`Gate.unrecorded_unless_unmasked`** — a failing round of any gate but a check records nothing and
  gives no result, that one opening apart.
-/

namespace Spdz

open Round

variable {F : FieldSpec} {σ P : Type} {S S' : Party F σ} {round : Nat}

/-! ## Openings -/

/-- **Spares.**  If the round fails, the pending openings are as before. -/
def Round.Spares {α : Type} (x : Round F σ P α) (p : P) (S : Party F σ) : Prop :=
  x.Leads p S (fun _ _ S' => S'.opened = S.opened) fun _ _ _ => True

theorem Open.spares_evaluate (p : Open F) : Spares (evaluate round : Round F σ _ _) p S := by
  refine .get ?_
  match round with
  | 0 => exact .sendElements (fun _ => rfl) (.pure trivial)
  | 1 =>
      exact .receiveElementsFromAll (fun _ => rfl) (fun _ _ => rfl) fun received =>
        .record (.modify (.pure trivial))
  | _ + 2 => exact .throw rfl

/-- The party is about to take off a mask whose value it was not given. -/
def OpenTo.LacksValue (p : OpenTo F) (round : Nat) (i : PartyId) : Prop :=
  round = 1 ∧ p.target = i ∧ ∃ mask, p.mask = some mask ∧ mask.real = none

section Suppliers

variable [Supplier F σ]

theorem Multiply.spares_evaluate (p : Multiply F) : Spares (evaluate round : Round F σ _ _) p S := by
  refine .get ?_
  dsimp only
  split
  · exact .draw (fun _ _ => rfl) fun triple supplier =>
      .sendElements (fun _ => rfl) (.set (.pure trivial))
  · exact .receiveElementsFromAll (fun _ => rfl) (fun _ _ => rfl) fun received =>
      .record (.record (.party (.set (.pure trivial))))
  · exact .throw rfl

/-- What is left of the pending openings by an opening to one party that fails: they are as before, or
the value of the mask turned out to be missing when one opening was recorded. -/
theorem OpenTo.leads_evaluate (p : OpenTo F) : (evaluate round : Round F σ _ _).Leads p S
    (fun e _ S' =>
      (¬ (p.LacksValue round S.id ∧ e = .preprocessing .missingMaskValue) ∧ S'.opened = S.opened) ∨
      (p.LacksValue round S.id ∧ e = .preprocessing .missingMaskValue) ∧
        ∃ record, S'.opened.toList = S.opened.toList ++ [record]) fun _ _ _ => True := by
  refine .get ?_
  dsimp only
  split
  · have early : ¬ p.LacksValue 0 S.id := fun lacks => absurd lacks.1 (by decide)
    exact .draw (fun _ _ => .inl ⟨fun both => early both.1, rfl⟩) fun mask supplier =>
      .sendElements (fun _ => .inl ⟨fun both => early both.1, rfl⟩) (.set (.pure trivial))
  · rename_i mask drawn
    refine .receiveElementsFromAll (fun _ => .inl ⟨fun both => (nomatch both.2), rfl⟩)
      (fun _ _ => .inl ⟨fun both => (nomatch both.2), rfl⟩) fun received => .record (.party ?_)
    -- the opening is recorded by now, and the only step that can still fail is the look at the mask
    split
    · rename_i target
      cases real : mask.real with
      | some value => exact .resume (.set (.pure trivial))
      | none => exact .refuse (.inr ⟨⟨⟨rfl, target.symm, mask, drawn, real⟩, rfl⟩, _, rfl⟩)
    · exact .resume (.set (.pure trivial))
  · exact .throw (.inl ⟨fun both => (nomatch both.2), rfl⟩)

/-! ## Gates -/

namespace Gate

variable {gate gate' : Gate F} {e : Error}

/-- The gate opens a value to the party, which is about to take off a mask whose value it was not given. -/
def LacksValue (gate : Gate F) (round : Nat) (i : PartyId) : Prop :=
  ∃ state, gate = openTo state ∧ state.LacksValue round i

theorem opened_eq_of_embeds [Protocol F σ P] {wrap : P → Gate F} (embeds : Embeds (F := F) σ wrap)
    {p : P} (spares : Spares (Protocol.evaluate round : Round F σ P Status) p S)
    (ends : (((evaluate round : Round F σ _ _).run (wrap p)).run S).Ends ((.error e, gate'), S')) :
    S'.opened = S.opened := by
  obtain ⟨p', -, inner⟩ := embeds.ends ends
  exact spares _ p' S' inner

/-- **A failing round records nothing**, unless the gate opens a value to this party with a mask whose
value it was not given: that opening is recorded before the round fails.  The result is as it was in any
case.  This holds of all gates but checks, which take out what others recorded: for any state of the gate
and of the party, any number of the round, any supplier, and whatever comes from the network. -/
theorem unrecorded_unless_unmasked (other : ¬ gate.IsCheck)
    (ends : (((evaluate round : Round F σ _ _).run gate).run S).Ends ((.error e, gate'), S')) :
    gate'.output = gate.output ∧
      (¬ (gate.LacksValue round S.id ∧ e = .preprocessing .missingMaskValue) →
        S'.opened = S.opened) ∧
      (gate.LacksValue round S.id → e = .preprocessing .missingMaskValue →
        ∃ record, S'.opened.toList = S.opened.toList ++ [record]) := by
  refine ⟨(paces round gate _ gate' S' ends).2.2, ?_⟩
  have unrecorded : (∀ state, gate ≠ openTo state) → S'.opened = S.opened →
      (¬ (gate.LacksValue round S.id ∧ e = .preprocessing .missingMaskValue) →
        S'.opened = S.opened) ∧
      (gate.LacksValue round S.id → e = .preprocessing .missingMaskValue →
        ∃ record, S'.opened.toList = S.opened.toList ++ [record]) :=
    fun differs same => ⟨fun _ => same, fun ⟨state, equal, _⟩ => absurd equal (differs state)⟩
  cases gate with
  | macCheck check => exact absurd ⟨check, rfl⟩ other
  | openTo state =>
      have embeds : Embeds (F := F) σ (openTo : OpenTo F → Gate F) := fun _ _ => rfl
      obtain ⟨state', -, inner⟩ := embeds.ends ends
      have same : LacksValue (openTo state) round S.id ↔ state.LacksValue round S.id :=
        ⟨fun ⟨_, equal, lacks⟩ => openTo.inj equal ▸ lacks, fun lacks => ⟨state, rfl, lacks⟩⟩
      rw [same]
      rcases OpenTo.leads_evaluate state _ state' S' inner with ⟨harmless, left⟩ | ⟨lacks, recorded⟩
      · exact ⟨fun _ => left, fun lacks missing => absurd ⟨lacks, missing⟩ harmless⟩
      · exact ⟨fun harmless => absurd lacks harmless, fun _ _ => recorded⟩
  | openAll state =>
      exact unrecorded nofun (opened_eq_of_embeds (fun _ _ => rfl) (Open.spares_evaluate state) ends)
  | multiply state =>
      exact unrecorded nofun (opened_eq_of_embeds (fun _ _ => rfl) (Multiply.spares_evaluate state) ends)
  | _ =>
      refine unrecorded nofun (congrArg OpenedValues.mk ?_)
      exact (leaves_evaluate other (by simp [Opens]) _ _ _ ends).symm

end Gate

end Suppliers

namespace Gate

/-- A party with one pending record. -/
def pendingParty : Party .f251 (Party.SimulatedSupplier .f251) :=
  { MacCheck.idleParty 1 with opened := ⟨[⟨⟨1, 0⟩, 1⟩]⟩ }

/-- A share that is too short breaks off an opening, and the pending record is still the only one. -/
theorem unrecorded_unless_unmasked_short : ∃ (gate' : Gate .f251) (S' : Party .f251 _),
    ¬ (openAll { share := ⟨3, 5⟩ } : Gate .f251).IsCheck ∧
    (((evaluate 1).run (openAll { share := ⟨3, 5⟩ })).run pendingParty).Ends
      ((.error (.malformedMessage 2 (.invalidLength 8 1)), gate'), S') ∧
    gate'.output = none ∧ S'.opened = ⟨[⟨⟨1, 0⟩, 1⟩]⟩ := by
  have other : ¬ (openAll { share := ⟨3, 5⟩ } : Gate .f251).IsCheck := nofun
  have ends : ∃ gate' S', (((evaluate 1).run (openAll { share := ⟨3, 5⟩ })).run pendingParty).Ends
      ((.error (.malformedMessage 2 (.invalidLength 8 1)), gate'), S') :=
    ⟨_, _, .call (.ok [(2, [1])]) (.done _)⟩
  obtain ⟨gate', S', ends⟩ := ends
  obtain ⟨output, left, -⟩ := unrecorded_unless_unmasked other ends
  exact ⟨gate', S', other, ends, output, left fun both => nomatch both.2⟩

/-- A party whose stock holds a mask toward it that came without its value. -/
def blindParty : Party .f251 (Party.SimulatedSupplier .f251) :=
  { MacCheck.idleParty 1 with
    supplier :=
      { (MacCheck.idleParty 1).supplier with stock := { masks := [(1, [⟨⟨1, 0⟩, none⟩])] } } }

/-- **An opening that fails is recorded** by this party, when it opens a value to itself.  The opening was
driven in order, and its second round heard from the peer what it should. -/
theorem failed_opening_recorded : ∃ (gate₁ gate₂ : Gate .f251) (S₁ S₂ : Party .f251 _),
    (((evaluate 0).run (openTo { share := ⟨1, 0⟩, target := 1 })).run blindParty).Ends
      ((.ok .hasMoreRounds, gate₁), S₁) ∧
    (((evaluate 1).run gate₁).run S₁).Ends
      ((.error (.preprocessing .missingMaskValue), gate₂), S₂) ∧
    S₁.opened.toList = [] ∧ S₂.opened.toList = [⟨⟨0, 0⟩, 1⟩] :=
  ⟨_, _, _, _, .call (.ok ()) (.done _), .call (.ok [(2, 1 :: List.replicate 7 0)]) (.done _), rfl, rfl⟩

end Gate

end Spdz
