import Spdz.Evaluation.Session

/-!
# Notes of what is recorded

Checks take out what is pending, so the state of a session does not tell what has been recorded so far.
Here all records are noted when a batch adds them.  The notes change nothing: without them it is what
the session does.

* `Noted` — what a session does, with notes; `Noted.Erases`, the same without the notes.
* `Session.runBatchNoted` — a batch, with notes of what its protocols record.
* **`Session.erases_runBatchNoted`** — without notes this is `Session.runBatch`.
-/

namespace Spdz

variable {F : FieldSpec} {σ P α β : Type}

/-- What a session does, with notes of all records that are made meanwhile. -/
abbrev Noted (F : FieldSpec) (σ : Type) := StateT (List (OpenedValue F)) (Sessional F σ)

namespace Noted

/-- **Erases.**  Without notes it is what the session does. -/
def Erases (x : Noted F σ α) (y : Sessional F σ α) : Prop :=
  ∀ notes session, (fun result => (result.1.1, result.2)) <$> (x.run notes).run session = y.run session

theorem Erases.pure (a : α) : Erases (pure a : Noted F σ α) (pure a) := fun _ _ => rfl

/-- What makes no notes. -/
theorem run_lift (y : Sessional F σ α) (notes : List (OpenedValue F)) (session : Session F σ) :
    ((liftM y : Noted F σ α).run notes).run session
      = y.run session >>= fun (result, session) => .done ((result, notes), session) := rfl

theorem Erases.lift (y : Sessional F σ α) : Erases (liftM y : Noted F σ α) y := by
  intro notes session
  rw [run_lift, map_bind]
  exact bind_pure (y.run session)

/-- Notes are left out part by part. -/
theorem Erases.bind {x : Noted F σ α} {y : Sessional F σ α} {f : α → Noted F σ β}
    {g : α → Sessional F σ β} (first : Erases x y) (next : ∀ a, Erases (f a) (g a)) :
    Erases (x >>= f) (y >>= g) := by
  intro notes session
  rw [StateT.run_bind, StateT.run_bind, StateT.run_bind, ← first notes session, map_bind,
    bind_map_left]
  exact bind_congr fun result => next result.1.1 result.1.2 result.2

theorem Erases.mapM {x : P → Noted F σ α} {y : P → Sessional F σ α} (erases : ∀ p, Erases (x p) (y p))
    (parts : List P) : Erases (parts.mapM x) (parts.mapM y) := by
  induction parts with
  | nil => exact .pure []
  | cons p parts ih =>
      rw [List.mapM_cons, List.mapM_cons]
      exact (erases p).bind fun a => ih.bind fun others => .pure (a :: others)

end Noted

namespace Session

open Noted

/-- An action, with a note of what it adds to the pending openings. -/
def noting (action : Sessional F σ α) : Noted F σ α := fun notes session => do
  let (result, after) ← action.run session
  return ((result, notes ++ after.party.opened.toList.drop session.party.opened.size), after)

theorem run_noting (action : Sessional F σ α) (notes : List (OpenedValue F)) (session : Session F σ) :
    ((noting action).run notes).run session
      = action.run session >>= fun (result, after) =>
          .done ((result, notes ++ after.party.opened.toList.drop session.party.opened.size), after) :=
  rfl

theorem erases_noting (action : Sessional F σ α) : Erases (noting action) action := by
  intro notes session
  rw [run_noting, map_bind]
  exact bind_pure (action.run session)

variable [Supplier F σ] [Protocol F σ P]

/-- Evaluate a batch of independent protocols, with notes of what they record. -/
def runBatchNoted (protocols : List P) : Noted F σ (Except Error Unit × List P) := do
  match ← noting (drive protocols) with
  | (.error e, protocols) => return (.error e, protocols)
  | (.ok rounds, protocols) =>
    return (← (settle rounds : Evaluation F σ Unit).run, protocols)

/-- A batch with notes, as what it does to a session. -/
theorem run_runBatchNoted (protocols : List P) (notes : List (OpenedValue F)) (session : Session F σ) :
    ((runBatchNoted protocols).run notes).run session
      = (drive protocols).run session >>= fun ((result, protocols), after) =>
          let notes := notes ++ after.party.opened.toList.drop session.party.opened.size
          match result with
          | .error e => .done (((.error e, protocols), notes), after)
          | .ok rounds => (settle rounds : Evaluation F σ Unit).run.run after >>=
              fun (verdict, after) => .done (((verdict, protocols), notes), after) := by
  rw [runBatchNoted, StateT.run_bind, StateT.run_bind, run_noting, bind_assoc]
  refine bind_congr ?_
  rintro ⟨⟨result | rounds, protocols⟩, after⟩
  · rfl
  · exact bind_assoc (m := Exchange) ((settle rounds : Evaluation F σ Unit).run.run after) _ _

/-- **Without notes this is how a session runs a batch.** -/
theorem erases_runBatchNoted (protocols : List P) :
    Erases (runBatchNoted protocols : Noted F σ _) (runBatch protocols) := by
  refine (erases_noting (drive protocols)).bind ?_
  rintro ⟨result, protocols⟩
  cases result with
  | error e => exact .pure _
  | ok rounds => exact (Erases.lift (settle rounds : Evaluation F σ Unit).run).bind fun _ => .pure _

end Session

end Spdz
