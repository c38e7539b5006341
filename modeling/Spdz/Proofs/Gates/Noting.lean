import Mathlib.Control.Monad.Writer
import Spdz.Proofs.Gates.Pending

/-!
# Rounds that note what they record

A protocol that opens something hands the party a record of it.  What became of the records cannot be told
from the pending openings alone, which would not show one that was lost.  So here the rounds that open
something are written once more, and what they hand over is noted on the side.  Without the notes they are
the rounds of the protocols.  It is then shown that the pending openings gain what was noted, neither more
nor less and in the same order, also if a round fails.

* `Noting.Round` — a round with notes; `Noting.record` makes a record and notes it, and `Noting.silent`
  notes nothing.
* `Noting.forget` — the round without its notes; **`Noting.forget_evaluate`** — a round of a gate.
* `Noting.Booked` — what was noted is what the pending openings gain; **`Noting.booked_evaluate`** — it is
  in all gates but checks, and `Noting.notes_of_check` — a check notes nothing.
-/

namespace Spdz

namespace Noting

variable {F : FieldSpec} {σ P Q α β : Type}

/-! ## Rounds with notes -/

/-- A round, and the records that were made in it. -/
abbrev Round (F : FieldSpec) (σ P : Type) :=
  ExceptT Error (StateT P (StateT (Party F σ) (WriterT (List (OpenedValue F)) Exchange)))

/-- A round in which nothing is noted. -/
def silent (round : Spdz.Round F σ P α) : Round F σ P α :=
  ExceptT.mk fun p S => WriterT.mk ((fun ended => (ended, [])) <$> (round.run p).run S)

/-- Note a record. -/
def note (opened : OpenedValue F) : Round F σ P Unit :=
  ExceptT.mk fun p S => WriterT.mk (pure (((.ok (), p), S), [opened]))

/-- Record an opening for the next check, and note it. -/
def record (share : Share F) (value : Elem F) : Round F σ P Unit := do
  silent (Round.record share value)
  note ⟨share, value⟩

/-- A round of a part of the protocol. -/
def within (part : P → Q) (replace : Q → P → P) (round : Round F σ Q α) : Round F σ P α :=
  ExceptT.mk fun state => do
    let (result, inner) ← round.run (part state)
    return (result, replace inner state)

/-- The round without its notes. -/
def forget (round : Round F σ P α) : Spdz.Round F σ P α :=
  ExceptT.mk fun p S => Prod.fst <$> ((round.run p).run S).run

@[simp] theorem forget_silent (round : Spdz.Round F σ P α) : forget (silent round) = round := by
  funext p S
  show Prod.fst <$> ((fun ended => (ended, [])) <$> (round.run p).run S) = _
  rw [Functor.map_map]
  exact id_map _

@[simp] theorem forget_pure (a : α) : forget (pure a : Round F σ P α) = pure a := rfl

@[simp] theorem forget_throw (e : Error) : forget (throw e : Round F σ P α) = throw e := rfl

@[simp] theorem forget_get : forget (get : Round F σ P P) = get := rfl

@[simp] theorem forget_set (p : P) : forget (set p : Round F σ P PUnit) = set p := rfl

@[simp] theorem forget_modify (f : P → P) : forget (modify f : Round F σ P PUnit) = modify f := rfl

@[simp] theorem forget_note (opened : OpenedValue F) : forget (note opened : Round F σ P Unit) = pure () := rfl

@[simp] theorem forget_ite {c : Prop} [Decidable c] (x y : Round F σ P α) :
    forget (if c then x else y) = if c then forget x else forget y := apply_ite forget c x y

/-- Notes can be forgotten part by part. -/
@[simp] theorem forget_bind (x : Round F σ P α) (f : α → Round F σ P β) :
    forget (x >>= f) = forget x >>= fun a => forget (f a) := by
  funext p S
  show Prod.fst <$> (((x.run p).run S).run >>= _) = (Prod.fst <$> ((x.run p).run S).run) >>= _
  rw [map_bind, bind_map_left]
  refine congrArg _ (funext ?_)
  rintro ⟨⟨⟨result | a, p⟩, S⟩, notes⟩
  · rfl
  · exact (Functor.map_map ..)

@[simp] theorem forget_record (share : Share F) (value : Elem F) :
    forget (record share value : Round F σ P Unit) = Round.record share value := by
  rw [record, forget_bind, forget_silent]
  exact bind_pure_unit

theorem forget_within (part : P → Q) (replace : Q → P → P) {noted : Round F σ Q α}
    {round : Spdz.Round F σ Q α} (same : forget noted = round) :
    forget (within part replace noted) = Round.within part replace round := by
  subst same
  funext p S
  show Prod.fst <$> (((noted.run (part p)).run S).run >>= _) = (Prod.fst <$> _) >>= _
  rw [map_bind, bind_map_left]
  rfl

/-! ## Protocols that open -/

/-- A round of an opening. -/
def evaluateOpen (round : Nat) : Round F σ (Open F) Status := do
  match round with
  | 1 =>
    let share := (← get).share
    let received ← silent (Round.receiveElementsFromAll 1)
    let value := sumAt share.value received 0
    record share value
    modify fun state => { state with output := some value }
    return .isDone
  | _ => silent (Open.evaluate round)

section Suppliers

variable [Supplier F σ]

/-- A round of an opening to one party. -/
def evaluateOpenTo (round : Nat) : Round F σ (OpenTo F) Status := do
  match round with
  | 1 =>
    let state ← get
    match state.mask with
    | none => throw (.invalidRound "OpenToPartyProtocol" 1)
    | some mask =>
      let masked := state.share - mask.mask
      let received ← silent (Round.receiveElementsFromAll 1)
      let opened := sumAt masked.value received 0
      record masked opened
      let result ←
        if (← silent Round.party).id = state.target then
          match mask.real with
          | some real => pure (some (opened + real))
          | none => throw (.preprocessing .missingMaskValue)
        else pure none
      set { state with output := some result }
      return .isDone
  | _ => silent (OpenTo.evaluate round)

/-- A round of a multiplication. -/
def evaluateMultiply (round : Nat) : Round F σ (Multiply F) Status := do
  match round with
  | 1 =>
    let state ← get
    match state.triple with
    | none => throw (.invalidRound "MultiplyProtocol" 1)
    | some ⟨a, b, c⟩ =>
      let epsilon := state.x - a
      let delta := state.y - b
      let received ← silent (Round.receiveElementsFromAll 2)
      let e := sumAt epsilon.value received 0
      let d := sumAt delta.value received 1
      record epsilon e
      record delta d
      let party ← silent Round.party
      let product := (c + b.scale e + a.scale d).addPublic (e * d) party.keyShare party.id
      set { state with output := some product }
      return .isDone
  | _ => silent (Multiply.evaluate round)

/-- A round of the protocol that the gate is. -/
def evaluate (round : Nat) : Round F σ (Gate F) Status := do
  match ← get with
  | .openAll state => within (fun _ => state) (fun state _ => .openAll state) (evaluateOpen round)
  | .openTo state => within (fun _ => state) (fun state _ => .openTo state) (evaluateOpenTo round)
  | .multiply state => within (fun _ => state) (fun state _ => .multiply state) (evaluateMultiply round)
  | _ => silent (Gate.evaluate round)

omit [Supplier F σ] in
theorem forget_evaluateOpen (round : Nat) :
    forget (evaluateOpen round : Round F σ _ _) = Open.evaluate round := by
  unfold evaluateOpen
  split
  · simp [Open.evaluate]
  · simp

theorem forget_evaluateOpenTo (round : Nat) :
    forget (evaluateOpenTo round : Round F σ _ _) = OpenTo.evaluate round := by
  unfold evaluateOpenTo
  split
  · simp only [OpenTo.evaluate, forget_bind, forget_get]
    refine bind_congr fun state => ?_
    cases state.mask with
    | none => rfl
    | some mask =>
        obtain ⟨share, real⟩ := mask
        cases real <;> simp
  · simp

theorem forget_evaluateMultiply (round : Nat) :
    forget (evaluateMultiply round : Round F σ _ _) = Multiply.evaluate round := by
  unfold evaluateMultiply
  split
  · simp only [Multiply.evaluate, forget_bind, forget_get]
    refine bind_congr fun state => ?_
    cases state.triple with
    | none => rfl
    | some triple => simp
  · simp

/-- **Without its notes the round is that of the gate.** -/
theorem forget_evaluate (round : Nat) :
    forget (evaluate round : Round F σ _ _) = Gate.evaluate round := by
  rw [evaluate, forget_bind, forget_get]
  funext gate
  cases gate with
  | openAll state =>
      have same := forget_within (fun _ => state) (fun state _ => Gate.openAll state)
        (forget_evaluateOpen (F := F) (σ := σ) round)
      exact congrFun same (.openAll state)
  | openTo state =>
      have same := forget_within (fun _ => state) (fun state _ => Gate.openTo state)
        (forget_evaluateOpenTo (F := F) (σ := σ) round)
      exact congrFun same (.openTo state)
  | multiply state =>
      have same := forget_within (fun _ => state) (fun state _ => Gate.multiply state)
        (forget_evaluateMultiply (F := F) (σ := σ) round)
      exact congrFun same (.multiply state)
  | _ => exact congrFun (forget_silent (Gate.evaluate round)) _

end Suppliers

/-! ## What the pending openings gain -/

/-- **Booked.**  From the given state, the pending openings gain what the round notes, whatever the replies
to its calls are and whether or not it succeeds. -/
def Booked (x : Round F σ P α) (p : P) (S : Party F σ) : Prop :=
  ∀ result p' S' notes, ((x.run p).run S).run.Ends (((result, p'), S'), notes) →
    S'.opened.toList = S.opened.toList ++ notes

section Booked

variable {p : P} {S : Party F σ}

/-- A round that comes to an end at once notes nothing. -/
theorem Booked.of_done {x : Round F σ P α} {result : Except Error α} {p' : P}
    (done : (x.run p).run S = pure ((result, p'), S)) : Booked x p S := by
  intro result p' S' notes ends
  rw [done] at ends
  cases ends
  exact (List.append_nil _).symm

theorem Booked.pure (a : α) : Booked (pure a : Round F σ P α) p S := .of_done rfl

theorem Booked.throw (e : Error) : Booked (throw e : Round F σ P α) p S := .of_done rfl

theorem Booked.set (q : P) : Booked (set q : Round F σ P PUnit) p S := .of_done rfl

theorem Booked.modify (f : P → P) : Booked (modify f : Round F σ P PUnit) p S := .of_done rfl

theorem Booked.party : Booked (Noting.silent Round.party : Round F σ P _) p S := .of_done rfl

/-- What is noted later comes after what was noted before. -/
theorem Booked.bind {x : Round F σ P α} {f : α → Round F σ P β} (first : Booked x p S)
    (next : ∀ a p S, Booked (f a) p S) : Booked (x >>= f) p S := by
  intro result p' S' notes ends
  obtain ⟨⟨⟨⟨outcome, p₁⟩, S₁⟩, before⟩, here, after⟩ := Exchange.ends_bind.mp ends
  obtain ⟨⟨⟨⟨_, _⟩, _⟩, later⟩, rest, same⟩ := Exchange.ends_map.mp after
  cases same
  have gained := first outcome p₁ S₁ before here
  cases outcome with
  | error e =>
      cases rest
      exact gained.trans (congrArg _ (List.append_nil before).symm)
  | ok a =>
      calc S'.opened.toList = S₁.opened.toList ++ later := next a p₁ S₁ result p' S' later rest
        _ = (S.opened.toList ++ before) ++ later := by rw [gained]
        _ = S.opened.toList ++ (before ++ later) := List.append_assoc ..

theorem Booked.get_bind {f : P → Round F σ P α} (next : Booked (f p) p S) :
    Booked (get >>= f) p S := by
  intro result p' S' notes ends
  obtain ⟨⟨_, later⟩, rest, same⟩ := Exchange.ends_map.mp ends
  cases same
  exact next result p' S' later rest

/-- A round that leaves the pending openings alone has nothing to note. -/
theorem Booked.silent {x : Spdz.Round F σ P α} (leaves : Round.MovesFrom Round.SameOpenings x p S) :
    Booked (silent x) p S := by
  intro result p' S' notes ends
  obtain ⟨_, here, same⟩ := Exchange.ends_map.mp ends
  cases same
  have left : S.opened.toList = S'.opened.toList := leaves result p' S' here
  rw [left, List.append_nil]

theorem Booked.record (share : Share F) (value : Elem F) :
    Booked (record share value : Round F σ P Unit) p S := by
  intro result p' S' notes ends
  cases ends
  rfl

theorem Booked.within {part : P → Q} {replace : Q → P → P} {x : Round F σ Q α}
    (booked : Booked x (part p) S) : Booked (within part replace x) p S := by
  intro result p' S' notes ends
  obtain ⟨⟨⟨⟨outcome, q⟩, S₁⟩, noted⟩, inner, after⟩ := Exchange.ends_bind.mp ends
  cases after
  exact (booked result q S' noted inner).trans (congrArg _ (List.append_nil noted).symm)

end Booked

/-! ## Gates -/

theorem booked_evaluateOpen (round : Nat) (p : Open F) (S : Party F σ) :
    Booked (evaluateOpen round) p S := by
  unfold evaluateOpen
  split
  · exact .get_bind <| .bind (.silent (Round.Moves.receiveElementsFromAll 1 _ _)) fun _ _ _ =>
      .bind (.record _ _) fun _ _ _ => .bind (.modify _) fun _ _ _ => .pure _
  · rename_i other
    exact .silent (Open.leaves_evaluate other p S)

section Suppliers

variable [Supplier F σ]

theorem booked_evaluateOpenTo (round : Nat) (p : OpenTo F) (S : Party F σ) :
    Booked (evaluateOpenTo round) p S := by
  unfold evaluateOpenTo
  split
  · refine .get_bind ?_
    cases p.mask with
    | none => exact .throw _
    | some mask =>
        refine .bind (.silent (Round.Moves.receiveElementsFromAll 1 _ _)) fun _ _ _ =>
          .bind (.record _ _) fun _ _ _ => .bind .party fun _ _ _ => ?_
        have shown (next : Option (Elem F) → OpenTo F) (result : Option (Elem F)) (q : OpenTo F)
            (S : Party F σ) : Booked (do
              set (next result)
              return .isDone : Round F σ (OpenTo F) Status) q S :=
          .bind (.set _) fun _ _ _ => .pure _
        -- by now the opening is recorded and noted, also if the value of the mask is missing
        split
        · cases mask.real with
          | some real => exact .bind (.pure _) (shown _)
          | none => exact .bind (.throw _) (shown _)
        · exact .bind (.pure _) (shown _)
  · rename_i other
    exact .silent (OpenTo.leaves_evaluate other p S)

theorem booked_evaluateMultiply (round : Nat) (p : Multiply F) (S : Party F σ) :
    Booked (evaluateMultiply round) p S := by
  unfold evaluateMultiply
  split
  · refine .get_bind ?_
    cases p.triple with
    | none => exact .throw _
    | some triple =>
        exact .bind (.silent (Round.Moves.receiveElementsFromAll 2 _ _)) fun _ _ _ =>
          .bind (.record _ _) fun _ _ _ => .bind (.record _ _) fun _ _ _ =>
            .bind .party fun _ _ _ => .bind (.set _) fun _ _ _ => .pure _
  · rename_i other
    exact .silent (Multiply.leaves_evaluate other p S)

variable {gate : Gate F} {S : Party F σ}

/-- **What was noted is what the pending openings gain**, in a round of any gate but a check. -/
theorem booked_evaluate (other : ¬ gate.IsCheck) (round : Nat) : Booked (evaluate round) gate S := by
  refine .get_bind ?_
  cases gate with
  | openAll state => exact .within (booked_evaluateOpen round state S)
  | openTo state => exact .within (booked_evaluateOpenTo round state S)
  | multiply state => exact .within (booked_evaluateMultiply round state S)
  | _ => exact .silent (Gate.leaves_evaluate other id)

/-- **A check notes nothing.** -/
theorem notes_of_check {check : MacCheck F} {round : Nat}
    {ended : (Except Error Status × Gate F) × Party F σ} {notes : List (OpenedValue F)}
    (ends : ((((evaluate round).run (.macCheck check)).run S).run).Ends (ended, notes)) : notes = [] := by
  obtain ⟨⟨_, later⟩, rest, same⟩ := Exchange.ends_map.mp ends
  obtain ⟨_, -, silent⟩ := Exchange.ends_map.mp rest
  cases silent
  cases same
  rfl

end Suppliers

end Noting

end Spdz
