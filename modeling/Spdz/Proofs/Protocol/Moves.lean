import Mathlib.Order.Defs.Unbundled
import Spdz.Proofs.Network.Ends
import Spdz.Protocol.Round

/-!
# How rounds move a party

Peers and network may do anything, and a round may break off at each of its calls.  What can be said of
a round all the same is along which relation it moves the protocol and the party.  This is found by
going through its text, part by part.

* `Round.Moves` — a round moves protocol and party along a relation, whatever comes from the network.
* `Round.Leaves` — rounds that leave the pending openings alone.
-/

namespace Spdz

variable {F : FieldSpec} {σ P Q α β : Type}

namespace Round

/-! ## Moves -/

section Moves

variable (R : P × Party F σ → P × Party F σ → Prop)

/-- What the round leaves is related to what it finds in the given state. -/
def MovesFrom (x : Round F σ P α) (p : P) (S : Party F σ) : Prop :=
  ∀ result p' S', ((x.run p).run S).Ends ((result, p'), S') → R (p, S) (p', S')

/-- **Moves.**  What the round leaves of the protocol and of the party is related to what it finds,
whatever the replies to its calls are and whether or not it succeeds. -/
def Moves (x : Round F σ P α) : Prop := ∀ p S, MovesFrom R x p S

variable {R}

theorem MovesFrom.get_bind {f : P → Round F σ P α} {p : P} {S : Party F σ}
    (next : MovesFrom R (f p) p S) : MovesFrom R (get >>= f) p S := next

theorem MovesFrom.party_bind {f : Party F σ → Round F σ P α} {p : P} {S : Party F σ}
    (next : MovesFrom R (f S) p S) : MovesFrom R (Round.party >>= f) p S := next

theorem MovesFrom.set {p q : P} {S : Party F σ} (here : R (p, S) (q, S)) :
    MovesFrom R (set q : Round F σ P PUnit) p S := by
  intro result p' S' ends
  cases ends
  exact here

theorem MovesFrom.setParty {p : P} {S S' : Party F σ} (here : R (p, S) (p, S')) :
    MovesFrom R (MonadStateOf.set S' : Round F σ P PUnit) p S := by
  intro result p' S'' ends
  cases ends
  exact here

theorem Moves.modify {f : P → P} (here : ∀ p S, R (p, S) (f p, S)) :
    Moves R (modify f : Round F σ P PUnit) := by
  intro p S result p' S' ends
  cases ends
  exact here p S

theorem Moves.get_bind {f : P → Round F σ P α} (next : ∀ p, Moves R (f p)) : Moves R (get >>= f) :=
  fun p S => .get_bind (next p p S)

theorem Moves.party_bind {f : Party F σ → Round F σ P α} (next : ∀ S, Moves R (f S)) :
    Moves R (Round.party >>= f) := fun p S => .party_bind (next S p S)

variable [IsPreorder _ R]

theorem Moves.pure (a : α) : Moves R (pure a : Round F σ P α) := by
  intro p S result p' S' ends
  cases ends
  exact refl_of R _

theorem Moves.throw (e : Error) : Moves R (throw e : Round F σ P α) := by
  intro p S result p' S' ends
  cases ends
  exact refl_of R _

theorem Moves.ofExcept {ε : Type} (wrap : ε → Error) (x : Except ε α) :
    Moves R (Round.ofExcept wrap x : Round F σ P α) := by
  cases x with
  | error e => exact .throw _
  | ok a => exact .pure a

theorem MovesFrom.bind {x : Round F σ P α} {f : α → Round F σ P β} {p : P} {S : Party F σ}
    (first : MovesFrom R x p S) (next : ∀ a, Moves R (f a)) : MovesFrom R (x >>= f) p S := by
  intro result p' S' ends
  obtain ⟨⟨⟨outcome, p₁⟩, S₁⟩, before, after⟩ := Exchange.ends_bind.mp ends
  have here := first outcome p₁ S₁ before
  cases outcome with
  | error e =>
      cases after
      exact here
  | ok a => exact trans_of R here (next a p₁ S₁ result p' S' after)

theorem Moves.bind {x : Round F σ P α} {f : α → Round F σ P β} (first : Moves R x)
    (next : ∀ a, Moves R (f a)) : Moves R (x >>= f) := fun p S => (first p S).bind next

theorem Moves.discard {x : Round F σ P α} (moves : Moves R x) : Moves R (Functor.discard x) := by
  have mapped : Functor.discard x = x >>= fun _ => Pure.pure PUnit.unit := by
    rw [bind_pure_comp]
    exact congrFun (congrFun LawfulFunctor.map_const PUnit.unit) x
  rw [mapped]
  exact moves.bind fun _ => .pure _

theorem Moves.call (made : Call) : Moves R (Round.call made : Round F σ P made.Reply) := by
  intro p S result p' S' ends
  have called : (Exchange.perform made >>= fun reply =>
      ((Round.ofExcept .transport reply : Round F σ P made.Reply).run p).run S).Ends
        ((result, p'), S') := ends
  obtain ⟨reply, -, after⟩ := Exchange.ends_bind.mp called
  exact Moves.ofExcept _ _ p S result p' S' after

theorem Moves.sendElements (elements : List (Elem F)) :
    Moves R (Round.sendElements elements : Round F σ P Unit) := .call _

theorem Moves.decodeFrom (peer : PartyId) (message : Bytes) (count : Nat) :
    Moves R (Round.decodeFrom peer message count : Round F σ P _) := .ofExcept _ _

theorem Moves.receiveElements (peer : PartyId) (count : Nat) :
    Moves R (Round.receiveElements peer count : Round F σ P _) :=
  .bind (.call _) fun message => .decodeFrom peer message count

theorem Moves.forM {items : List β} {f : β → Round F σ P PUnit} (each : ∀ b, Moves R (f b)) :
    Moves R (items.forM f) := by
  induction items with
  | nil => exact .pure _
  | cons b items ih => exact .bind (each b) fun _ => ih

theorem Moves.mapM {items : List β} {f : β → Round F σ P α} (each : ∀ b, Moves R (f b)) :
    Moves R (items.mapM f) := by
  induction items with
  | nil => exact .pure _
  | cons b items ih =>
      rw [List.mapM_cons]
      exact .bind (each b) fun _ => .bind ih fun _ => .pure _

theorem Moves.foldlM {items : List β} {f : α → β → Round F σ P α} (each : ∀ a b, Moves R (f a b))
    (a : α) : Moves R (items.foldlM f a) := by
  induction items generalizing a with
  | nil => exact .pure a
  | cons b items ih =>
      rw [List.foldlM_cons]
      exact .bind (each a b) ih

theorem Moves.receiveElementsFromAll (count : Nat) :
    Moves R (Round.receiveElementsFromAll count : Round F σ P _) :=
  .bind (.call _) fun _ => .mapM fun (_, _) => .bind (.decodeFrom _ _ _) fun _ => .pure _

end Moves

/-! ## Openings -/

/-- The pending openings are the same. -/
def SameOpenings (x y : P × Party F σ) : Prop := x.2.opened.toList = y.2.opened.toList

instance : IsPreorder (P × Party F σ) SameOpenings where
  refl _ := rfl
  trans _ _ _ := Eq.trans

/-- The pending openings are left alone. -/
abbrev Leaves (x : Round F σ P α) : Prop := Moves SameOpenings x

theorem leaves_set (p : P) : Leaves (set p : Round F σ P PUnit) := fun _ _ => .set rfl

theorem leaves_modify (f : P → P) : Leaves (modify f : Round F σ P PUnit) := .modify fun _ _ => rfl

theorem leaves_draw [Supplier F σ] (item : Item) : Leaves (Round.draw item : Round F σ P _) :=
  fun _ _ => .party_bind (.bind (.setParty rfl) fun _ => .ofExcept _ _)

theorem Moves.within {part : P → Q} {replace : Q → P → P} {x : Round F σ Q α} (leaves : Leaves x) :
    Leaves (Round.within part replace x) := by
  intro p S result p' S' ends
  obtain ⟨⟨⟨outcome, q⟩, S₁⟩, before, same⟩ := Exchange.ends_bind.mp ends
  cases same
  exact leaves (part p) S result q S' before

theorem Moves.apart {q : Q} {x : Round F σ Q α} (leaves : Leaves x) :
    Leaves (Round.apart q x : Round F σ P (α × Q)) := by
  intro p S result p' S' ends
  obtain ⟨⟨⟨outcome, q'⟩, S₁⟩, before, same⟩ := Exchange.ends_bind.mp ends
  cases same
  exact leaves q S outcome q' S' before

end Round

end Spdz
