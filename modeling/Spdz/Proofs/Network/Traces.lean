import Spdz.Proofs.Network.Play
import Spdz.Protocol.Round

/-!
# What a party does, call by call

Peers may send anything, and any call may fail.  All that the network promises is that somebody who
receives from all gets one message of each peer, in order.  A run of a behaviour is then told by the
calls that were made and the replies to them.

* `Event` — a call and its reply; `Event.Fits`, what the network promises.
* `Exchange.Runs` — the runs of a behaviour, told by their events.
* `Round.Runs` — the runs of a round, and **`Round.runs_bind`**, how they are made of runs of its parts.
* `Round.Quiet` — rounds that send nothing and leave the party alone.
-/

namespace Spdz

/-! ## Events -/

/-- A call that was made, and the reply to it. -/
structure Event where
  made : Call
  reply : Except TransportError made.Reply

namespace Event

/-- Who receives from all gets one message of each peer, in order.  Nothing else is known of replies. -/
def Fits (peers : List PartyId) : Event → Prop
  | ⟨.receiveAll, .ok received⟩ =>
    ∃ message : PartyId → Bytes, received = peers.map fun peer => (peer, message peer)
  | _ => True

/-- The message that a call sends, if it sends one. -/
def sent : Event → List Bytes
  | ⟨.send _ message, _⟩ => [message]
  | ⟨.sendAll message, _⟩ => [message]
  | ⟨.receive _, _⟩ => []
  | ⟨.receiveAll, _⟩ => []

end Event

/-- All messages that were sent, in order. -/
def sentIn (events : List Event) : List Bytes := events.flatMap Event.sent

@[simp] theorem sentIn_nil : sentIn [] = [] := rfl

@[simp] theorem sentIn_append (events later : List Event) :
    sentIn (events ++ later) = sentIn events ++ sentIn later := List.flatMap_append

/-! ## Behaviours -/

namespace Exchange

variable {α β : Type} {peers : List PartyId}

/-- **Runs.**  The behaviour makes these calls, gets these replies, which are such as the network
promises, and ends with the result. -/
inductive Runs (peers : List PartyId) : Exchange α → List Event → α → Prop where
  | done (result : α) : Runs peers (.done result) [] result
  | call {made : Call} {next : Except TransportError made.Reply → Exchange α}
      {reply : Except TransportError made.Reply} {events : List Event} {result : α}
      (fits : Event.Fits peers ⟨made, reply⟩) (later : Runs peers (next reply) events result) :
    Runs peers (.call made next) (⟨made, reply⟩ :: events) result

theorem runs_pure {a b : α} {events : List Event} :
    (pure a : Exchange α).Runs peers events b ↔ events = [] ∧ b = a := by
  constructor
  · rintro ⟨⟩
    exact ⟨rfl, rfl⟩
  · rintro ⟨rfl, rfl⟩
    exact .done b

theorem runs_call {made : Call} {next : Except TransportError made.Reply → Exchange α}
    {events : List Event} {a : α} : (Exchange.call made next).Runs peers events a ↔
      ∃ reply later, events = ⟨made, reply⟩ :: later ∧ Event.Fits peers ⟨made, reply⟩ ∧
        (next reply).Runs peers later a := by
  constructor
  · rintro ⟨⟩
    exact ⟨_, _, rfl, ‹_›, ‹_›⟩
  · rintro ⟨reply, later, rfl, fits, runs⟩
    exact .call fits runs

/-- A run of one behaviour after another is a run of each. -/
theorem runs_bind {x : Exchange α} {f : α → Exchange β} {events : List Event} {b : β} :
    (x >>= f).Runs peers events b ↔ ∃ a before after,
      x.Runs peers before a ∧ (f a).Runs peers after b ∧ events = before ++ after := by
  induction x generalizing events with
  | done result =>
      constructor
      · intro runs
        exact ⟨result, [], events, .done result, runs, rfl⟩
      · rintro ⟨_, _, after, ⟨⟩, runs, rfl⟩
        exact runs
  | call made next ih =>
      constructor
      · intro runs
        obtain ⟨reply, later, rfl, fits, rest⟩ := runs_call.mp runs
        obtain ⟨a, before, after, first, second, rfl⟩ := (ih reply).mp rest
        exact ⟨a, _, after, .call fits first, second, rfl⟩
      · rintro ⟨a, _, after, first, second, rfl⟩
        obtain ⟨reply, before, rfl, fits, rest⟩ := runs_call.mp first
        exact .call fits ((ih reply).mpr ⟨a, before, after, rest, second, rfl⟩)

/-- What is played on messages is a run. -/
theorem exists_runs_of_play {x : Exchange α} {a : α} {box after : Mailbox}
    (play : x.play peers box = some (a, after)) : ∃ events, x.Runs peers events a := by
  induction x generalizing box with
  | done result =>
      cases play
      exact ⟨[], .done _⟩
  | call made next ih =>
      simp only [Exchange.play, Mailbox.answer] at play
      split_ifs at play
      · obtain ⟨events, runs⟩ := ih _ play
        refine ⟨_, .call ?_ runs⟩
        cases made with
        | receiveAll => exact ⟨_, rfl⟩
        | _ => trivial
      · cases play

end Exchange

/-! ## Rounds -/

namespace Round

variable {F : FieldSpec} {σ P Q α β : Type} {peers : List PartyId} {p : P} {S : Party F σ}
  {events : List Event} {out : (Except Error β × P) × Party F σ}

/-- The runs of a round from a state of the protocol and of the party. -/
def Runs (peers : List PartyId) (round : Round F σ P α) (p : P) (S : Party F σ) (events : List Event)
    (out : (Except Error α × P) × Party F σ) : Prop := ((round.run p).run S).Runs peers events out

/-- **A round goes on from where a part of it has ended.**  An error ends the round. -/
theorem runs_bind {x : Round F σ P α} {next : α → Round F σ P β} :
    (x >>= next).Runs peers p S events out ↔
      (∃ e p' S', x.Runs peers p S events ((.error e, p'), S') ∧ out = ((.error e, p'), S')) ∨
      ∃ a p' S' before after, x.Runs peers p S before ((.ok a, p'), S') ∧
        (next a).Runs peers p' S' after out ∧ events = before ++ after := by
  refine (Exchange.runs_bind (x := (x.run p).run S)).trans ?_
  constructor
  · rintro ⟨⟨⟨result | a, p'⟩, S'⟩, before, after, first, second, rfl⟩
    · obtain ⟨rfl, rfl⟩ := Exchange.runs_pure.mp second
      exact .inl ⟨_, p', S', (List.append_nil before).symm ▸ first, rfl⟩
    · exact .inr ⟨a, p', S', before, after, first, second, rfl⟩
  · rintro (⟨e, p', S', first, rfl⟩ | ⟨a, p', S', before, after, first, second, rfl⟩)
    · exact ⟨_, events, [], first, .done _, (List.append_nil events).symm⟩
    · exact ⟨_, before, after, first, second, rfl⟩

theorem runs_pure {b : β} : (pure b : Round F σ P β).Runs peers p S events out ↔
    events = [] ∧ out = ((.ok b, p), S) := Exchange.runs_pure

theorem runs_throw {e : Error} : (throw e : Round F σ P β).Runs peers p S events out ↔
    events = [] ∧ out = ((.error e, p), S) := Exchange.runs_pure

section Steps

variable {next : α → Round F σ P β}

@[simp] theorem runs_throw_bind {e : Error} :
    ((throw e : Round F σ P α) >>= next).Runs peers p S events out ↔
      events = [] ∧ out = ((.error e, p), S) := Exchange.runs_pure

@[simp] theorem runs_get_bind {next : P → Round F σ P β} :
    (get >>= next).Runs peers p S events out ↔ (next p).Runs peers p S events out := Iff.rfl

@[simp] theorem runs_party_bind {next : Party F σ → Round F σ P β} :
    (Round.party >>= next).Runs peers p S events out ↔ (next S).Runs peers p S events out := Iff.rfl

@[simp] theorem runs_modify_bind {f : P → P} {next : PUnit → Round F σ P β} :
    (modify f >>= next).Runs peers p S events out ↔ (next ⟨⟩).Runs peers (f p) S events out := Iff.rfl

@[simp] theorem runs_setParty_bind {S' : Party F σ} {next : PUnit → Round F σ P β} :
    ((set S' : Round F σ P PUnit) >>= next).Runs peers p S events out ↔
      (next ⟨⟩).Runs peers p S' events out := Iff.rfl

@[simp] theorem runs_ofExcept_ok_bind {ε : Type} {wrap : ε → Error} {a : α} :
    (Round.ofExcept wrap (.ok a) >>= next).Runs peers p S events out ↔
      (next a).Runs peers p S events out := Iff.rfl

@[simp] theorem runs_ofExcept_error_bind {ε : Type} {wrap : ε → Error} {e : ε} :
    (Round.ofExcept wrap (.error e : Except ε α) >>= next).Runs peers p S events out ↔
      events = [] ∧ out = ((.error (wrap e), p), S) := Exchange.runs_pure

/-- A call that fails ends the round. -/
theorem runs_call_bind {made : Call} {next : made.Reply → Round F σ P β} :
    (Round.call made >>= next).Runs peers p S events out ↔
      (∃ cause, events = [⟨made, .error cause⟩] ∧ out = ((.error (.transport cause), p), S)) ∨
      ∃ reply later, events = ⟨made, .ok reply⟩ :: later ∧ Event.Fits peers ⟨made, .ok reply⟩ ∧
        (next reply).Runs peers p S later out := by
  refine Exchange.runs_call.trans ?_
  constructor
  · rintro ⟨cause | reply, later, rfl, fits, runs⟩
    · obtain ⟨rfl, rfl⟩ := Exchange.runs_pure.mp runs
      exact .inl ⟨cause, rfl, rfl⟩
    · exact .inr ⟨reply, later, rfl, fits, runs⟩
  · rintro (⟨cause, rfl, rfl⟩ | ⟨reply, later, rfl, fits, runs⟩)
    · exact ⟨.error cause, [], rfl, by cases made <;> trivial, .done _⟩
    · exact ⟨.ok reply, later, rfl, fits, runs⟩

end Steps

/-- A round of a part changes that part, whether or not it fails. -/
theorem runs_within {part : P → Q} {replace : Q → P → P} {round : Round F σ Q β} :
    (Round.within part replace round).Runs peers p S events out ↔
      ∃ result q S', round.Runs peers (part p) S events ((result, q), S') ∧
        out = ((result, replace q p), S') := by
  refine (Exchange.runs_bind (x := (round.run (part p)).run S)).trans ?_
  constructor
  · rintro ⟨⟨⟨result, q⟩, S'⟩, before, after, first, second, rfl⟩
    obtain ⟨rfl, rfl⟩ := Exchange.runs_pure.mp second
    exact ⟨result, q, S', (List.append_nil before).symm ▸ first, rfl⟩
  · rintro ⟨result, q, S', first, rfl⟩
    exact ⟨_, events, [], first, .done _, (List.append_nil events).symm⟩

/-- A round goes on from where a round of a part has ended. -/
theorem of_runs_within_bind {part : P → Q} {replace : Q → P → P} {round : Round F σ Q α}
    {next : α → Round F σ P β}
    (runs : (Round.within part replace round >>= next).Runs peers p S events out) :
    (∃ e q S', round.Runs peers (part p) S events ((.error e, q), S') ∧
      out = ((.error e, replace q p), S')) ∨
    ∃ a q S' before after, round.Runs peers (part p) S before ((.ok a, q), S') ∧
      (next a).Runs peers (replace q p) S' after out ∧ events = before ++ after := by
  obtain ⟨e, p', S', first, rfl⟩ | ⟨a, p', S', before, after, first, second, rfl⟩ := runs_bind.mp runs
  · obtain ⟨_, q, _, inner, same⟩ := runs_within.mp first
    cases same
    exact .inl ⟨e, q, S', inner, rfl⟩
  · obtain ⟨_, q, _, inner, same⟩ := runs_within.mp first
    cases same
    exact .inr ⟨a, q, S', before, after, inner, second, rfl⟩

theorem discard_eq (x : Round F σ P α) : discard x = x >>= fun _ => pure ⟨⟩ :=
  (congrFun (congrFun LawfulFunctor.map_const PUnit.unit) x).trans (bind_pure_comp _ _).symm

/-! ### Rounds that only listen -/

/-- A round that sends nothing and leaves the party alone. -/
def Quiet (peers : List PartyId) (round : Round F σ P α) : Prop :=
  ∀ p S events out, round.Runs peers p S events out → sentIn events = [] ∧ out.2 = S

theorem quiet_pure (a : α) : Quiet peers (pure a : Round F σ P α) := by
  intro p S events out runs
  obtain ⟨rfl, rfl⟩ := runs_pure.mp runs
  exact ⟨rfl, rfl⟩

theorem quiet_throw (e : Error) : Quiet peers (throw e : Round F σ P α) := by
  intro p S events out runs
  obtain ⟨rfl, rfl⟩ := runs_throw.mp runs
  exact ⟨rfl, rfl⟩

theorem quiet_ofExcept {ε : Type} (wrap : ε → Error) (result : Except ε α) :
    Quiet peers (Round.ofExcept wrap result : Round F σ P α) := by
  cases result with
  | error e => exact quiet_throw (wrap e)
  | ok a => exact quiet_pure a

theorem Quiet.get_bind {next : P → Round F σ P β} (later : ∀ p, Quiet peers (next p)) :
    Quiet peers (get >>= next) := fun p S events out runs => later p p S events out runs

theorem Quiet.party_bind {next : Party F σ → Round F σ P β} (later : ∀ S, Quiet peers (next S)) :
    Quiet peers (Round.party >>= next) := fun p S events out runs => later S p S events out runs

theorem Quiet.modify_bind {f : P → P} {next : PUnit → Round F σ P β} (later : Quiet peers (next ⟨⟩)) :
    Quiet peers (modify f >>= next) := fun p S events out runs => later (f p) S events out runs

theorem Quiet.receiveAll_bind {next : List (PartyId × Bytes) → Round F σ P β}
    (later : ∀ received, Quiet peers (next received)) :
    Quiet peers (Round.call .receiveAll >>= next) := by
  intro p S events out runs
  obtain ⟨cause, rfl, rfl⟩ | ⟨received, events, rfl, -, rest⟩ := runs_call_bind.mp runs
  · exact ⟨rfl, rfl⟩
  · exact later received p S events out rest

theorem Quiet.bind {x : Round F σ P α} {next : α → Round F σ P β} (first : Quiet peers x)
    (later : ∀ a, Quiet peers (next a)) : Quiet peers (x >>= next) := by
  intro p S events out runs
  obtain ⟨e, p', S', part, rfl⟩ | ⟨a, p', S', before, after, part, rest, rfl⟩ := runs_bind.mp runs
  · exact first p S events _ part
  · obtain ⟨nothing, same⟩ := first p S before _ part
    obtain ⟨silence, kept⟩ := later a p' S' after out rest
    exact ⟨by rw [sentIn_append, nothing, silence, List.append_nil], kept.trans same⟩

theorem Quiet.foldlM {γ : Type} {step : β → γ → Round F σ P β} (each : ∀ b c, Quiet peers (step b c))
    (items : List γ) (b : β) : Quiet peers (items.foldlM step b) := by
  induction items generalizing b with
  | nil => exact quiet_pure b
  | cons item items ih => exact (each b item).bind ih

theorem Quiet.within {part : P → Q} {replace : Q → P → P} {round : Round F σ Q β}
    (quiet : Quiet peers round) : Quiet peers (Round.within part replace round) := by
  intro p S events out runs
  obtain ⟨result, q, S', inner, rfl⟩ := runs_within.mp runs
  exact quiet (part p) S events _ inner

end Round

end Spdz
