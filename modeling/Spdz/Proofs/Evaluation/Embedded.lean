import Spdz.Proofs.Evaluation.Session
import Spdz.Proofs.Protocol.Turn

/-!
# Protocols as one kind of others

A protocol can be driven by itself or as one kind of a type that has more of them.  It makes no
difference, neither to the party nor to the network nor to the session that drives it.

* `Slot.driveFrom_embed` — the protocols are driven alike.
* **`Session.run_embed`** — so a session runs them alike.
-/

namespace Spdz

variable {F : FieldSpec} {σ P Q Out Out' : Type} [Protocol F σ P] [Protocol F σ Q] {wrap : P → Q}

namespace Slot

/-- A slot for a protocol of another kind. -/
def embed (wrap : P → Q) (slot : Slot P) : Slot Q := ⟨wrap slot.protocol, slot.active⟩

/-- A round of a batch. -/
theorem advance_embed (embeds : Embeds (F := F) σ wrap) (round : Nat) (slots : List (Slot P)) :
    (advance round (slots.map (embed wrap)) : Action F σ _)
      = (fun (result, slots) => (result, slots.map (embed wrap))) <$> advance round slots := by
  induction slots with
  | nil => rfl
  | cons slot later ih =>
      obtain ⟨protocol, active⟩ := slot
      cases active with
      | true =>
          rw [List.map_cons, advance, advance, if_pos rfl]
          simp only [embed, if_true, embeds.evaluate, map_bind, bind_map_left]
          refine congrArg _ (funext ?_)
          rintro ⟨result | status, p⟩
          · rfl
          · simp only [ih, map_bind, bind_map_left]
            rfl
      | false =>
          rw [List.map_cons, advance, advance, if_neg Bool.false_ne_true]
          simp only [embed, ih, map_bind, bind_map_left]
          rfl

/-- All rounds of a batch. -/
theorem driveFrom_embed (embeds : Embeds (F := F) σ wrap) (limit round : Nat)
    (slots : List (Slot P)) : (driveFrom limit round (slots.map (embed wrap)) : Action F σ _)
      = (fun (result, slots) => (result, slots.map (embed wrap)))
          <$> driveFrom limit round slots := by
  induction limit generalizing round slots with
  | zero => rfl
  | succ limit ih =>
      have same : (slots.map (embed wrap)).any (·.active) = slots.any (·.active) := by
        rw [List.any_map]
        rfl
      rw [driveFrom, driveFrom, same]
      cases slots.any (·.active) with
      | false => rfl
      | true =>
          rw [if_pos rfl, if_pos rfl, advance_embed embeds, map_bind, bind_map_left]
          refine congrArg _ (funext ?_)
          rintro ⟨result | done, slots⟩
          · rfl
          · exact ih (round + 1) slots

end Slot

/-- A whole batch. -/
theorem driveRounds_embed (embeds : Embeds (F := F) σ wrap) (protocols : List P) :
    (driveRounds (protocols.map wrap) : Action F σ _)
      = (fun (result, protocols) => (result, protocols.map wrap)) <$> driveRounds protocols := by
  have slots : (protocols.map wrap).map (fun protocol => ({ protocol } : Slot Q))
      = (protocols.map fun protocol => ({ protocol } : Slot P)).map (Slot.embed wrap) := by
    simp only [List.map_map]
    rfl
  rw [driveRounds, driveRounds, slots, Slot.driveFrom_embed embeds, map_bind, bind_map_left]
  refine congrArg _ (funext ?_)
  rintro ⟨result, slots⟩
  simp only [map_pure, List.map_map]
  rfl

namespace Session

/-- A session drives them alike. -/
theorem drive_embed (embeds : Embeds (F := F) σ wrap) (protocols : List P) :
    (drive (protocols.map wrap) : Sessional F σ _)
      = (fun (result, protocols) => (result, protocols.map wrap)) <$> drive protocols := by
  rw [drive, drive, map_bind]
  refine congrArg _ (funext fun session => ?_)
  cases session.ended with
  | some e => rfl
  | none =>
      have party : (byParty (driveRounds (protocols.map wrap)) : Sessional F σ _)
          = (fun (result, protocols) => (result, protocols.map wrap))
              <$> byParty (driveRounds protocols) := by
        rw [driveRounds_embed embeds]
        funext session
        change _ >>= _ = _ <$> (_ >>= _)
        rw [StateT.run_map, map_bind, bind_map_left]
        rfl
      simp only [party, map_bind, bind_map_left]
      refine congrArg _ (funext ?_)
      rintro ⟨result | rounds, protocols⟩
      · rfl
      · rfl

variable [Supplier F σ]

/-- A session runs batches of them alike. -/
theorem runBatch_embed (embeds : Embeds (F := F) σ wrap) (protocols : List P) :
    (runBatch (protocols.map wrap) : Sessional F σ _)
      = (fun (result, protocols) => (result, protocols.map wrap)) <$> runBatch protocols := by
  rw [runBatch, runBatch, drive_embed embeds, map_bind, bind_map_left]
  refine congrArg _ (funext ?_)
  rintro ⟨result | rounds, protocols⟩
  · rfl
  · simp only [map_bind, map_pure]

variable [HasOutput P Out] [HasOutput Q Out']

/-- **A session runs them alike**, and the results are those of the protocols. -/
theorem run_embed (embeds : Embeds (F := F) σ wrap) {convert : Out → Out'}
    (name : ∀ p, HasOutput.name (wrap p) = HasOutput.name p)
    (output : ∀ p, HasOutput.output (wrap p) = (HasOutput.output p).map convert) (p : P) :
    (run (wrap p) : Evaluation F σ Out') = convert <$> run p := by
  have outputOf : ∀ p, (outputOf (wrap p) : Except Error Out') = (outputOf p).map convert := by
    intro p
    rw [Session.outputOf, Session.outputOf, output, name]
    cases HasOutput.output p <;> rfl
  have batch : (runBatch [wrap p] : Sessional F σ _)
      = (fun (result, protocols) => (result, protocols.map wrap)) <$> runBatch [p] :=
    runBatch_embed embeds [p]
  refine ExceptT.ext (StateT.ext fun session => ?_)
  rw [ExceptT.run_map, StateT.run_map, run_run, run_run, batch, StateT.run_map, bind_map_left,
    map_bind]
  refine congrArg _ (funext ?_)
  rintro ⟨⟨result | _, protocols⟩, session⟩
  · rfl
  · have head : (protocols.map wrap).headD (wrap p) = wrap (protocols.headD p) := by
      cases protocols <;> rfl
    simp only [head, outputOf]
    cases Session.outputOf (protocols.headD p) <;> rfl

end Session

end Spdz
