import Spdz.Proofs.Network.Joint

/-!
# What can come of a behaviour

Peers and network may do anything: a call may fail or give any reply.  So a behaviour can end with any
result that some replies lead to.

* `Exchange.Ends` — some replies lead to the result.
* `Exchange.ends_bind` — results of one behaviour after another.
* `Exchange.ends_of_play` — what a play on given messages comes to.
* `Exchange.facing` — what a behaviour comes to when something answers all its calls.
* `Joint.ends` — where all parties come together, each of them can come by itself.
-/

namespace Spdz

variable {α β Λ : Type}

namespace Exchange

/-- **Ends.**  Some replies to the calls lead to the result. -/
inductive Ends : Exchange α → α → Prop where
  | done (result : α) : Ends (.done result) result
  | call {made : Call} {next : Except TransportError made.Reply → Exchange α} {result : α}
      (reply : Except TransportError made.Reply) (later : Ends (next reply) result) :
    Ends (.call made next) result

theorem ends_pure {a b : α} : (pure a : Exchange α).Ends b ↔ b = a := by
  constructor
  · rintro ⟨⟩
    rfl
  · rintro rfl
    exact .done b

theorem ends_bind {x : Exchange α} {f : α → Exchange β} {b : β} :
    (x >>= f).Ends b ↔ ∃ a, x.Ends a ∧ (f a).Ends b := by
  induction x with
  | done result =>
      constructor
      · intro ends
        exact ⟨result, .done result, ends⟩
      · rintro ⟨_, ⟨⟩, ends⟩
        exact ends
  | call made next ih =>
      constructor
      · intro ends
        cases ends with
        | call reply later =>
            obtain ⟨a, first, second⟩ := (ih reply).mp later
            exact ⟨a, .call reply first, second⟩
      · rintro ⟨a, first, second⟩
        cases first with
        | call reply later => exact .call reply ((ih reply).mpr ⟨a, later, second⟩)

theorem ends_map {x : Exchange α} {f : α → β} {b : β} :
    (f <$> x).Ends b ↔ ∃ a, x.Ends a ∧ b = f a := by
  rw [← bind_pure_comp, ends_bind]
  simp only [ends_pure]

/-- A behaviour can end as it was played. -/
theorem ends_of_play {peers : List PartyId} {x : Exchange α} {box after : Mailbox} {a : α}
    (play : x.play peers box = some (a, after)) : x.Ends a := by
  induction x generalizing box with
  | done result =>
      obtain ⟨rfl, -⟩ := Prod.mk.inj (Option.some.inj play)
      exact .done _
  | call made next ih =>
      obtain ⟨⟨reply, between⟩, -, later⟩ := Option.bind_eq_some_iff.mp play
      exact .call reply (ih reply later)

/-- **Facing.**  What a behaviour comes to when something answers all its calls.  An answer may depend
on everything that has happened so far, which is what the states `ν` are for. -/
def facing {ν : Type} (answer : ν → (made : Call) → Except TransportError made.Reply × ν) :
    Exchange α → ν → α × ν
  | .done result, state => (result, state)
  | .call made next, state => (next (answer state made).1).facing answer (answer state made).2

section Facing

variable {ν : Type} (answer : ν → (made : Call) → Except TransportError made.Reply × ν)

/-- Whatever answers, a behaviour comes to an end that is possible. -/
theorem ends_facing (x : Exchange α) (state : ν) : x.Ends (x.facing answer state).1 := by
  induction x generalizing state with
  | done result => exact .done result
  | call made next ih => exact .call _ (ih _ _)

theorem facing_map (f : α → β) (x : Exchange α) (state : ν) :
    (f <$> x).facing answer state = (f (x.facing answer state).1, (x.facing answer state).2) := by
  induction x generalizing state with
  | done result => rfl
  | call made next ih => exact ih _ _

end Facing

end Exchange

/-! ## Networks -/

namespace Net

variable {n : Nat}

/-- What a party can end with after a step, it can end with before. -/
theorem Step.ends {net after : Net n Λ α} (step : Step net after) {k : Fin n} {a : α}
    (ends : (after.process k).rest.plain.Ends a) : (net.process k).rest.plain.Ends a := by
  obtain ⟨party, acts, carries⟩ := step
  by_cases same : k = party
  · subst same
    simp only [Function.update_self] at ends
    generalize net.process k = process at acts
    cases acts with
    | post | pick => exact ends
    | proceed => exact .call _ ends
  · simpa only [Function.update_of_ne same] using ends

theorem Reaches.ends {net after : Net n Λ α} (reaches : net.Reaches after) {k : Fin n} {a : α}
    (ends : (after.process k).rest.plain.Ends a) : (net.process k).rest.plain.Ends a := by
  obtain ⟨_, chain⟩ := reaches
  induction chain with
  | nil net => exact ends
  | cons first _ ih => exact first.ends (ih ends)

end Net

/-- **Where all parties come together, each of them can come by itself.** -/
theorem Joint.ends {n : Nat} {tree : PartyId → Labelled Λ α}
    {channels after : PartyId → PartyId → Link Λ} {result : PartyId → α}
    (run : Joint n tree channels result after) {i : PartyId} (member : IsMember n i) :
    (tree i).plain.Ends (result i) := by
  obtain ⟨k, rfl⟩ := member.exists_seat
  have ended : ((Net.ended n result after).process k).rest.plain.Ends (result (seat k)) := .done _
  exact Net.Reaches.ends run ended

end Spdz
