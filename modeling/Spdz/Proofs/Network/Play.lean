import Spdz.Proofs.Network.Interleaving

/-!
# One party on its own

What one party does depends on the others only through the messages it gets.  So its behaviour can
be played on its own: given the messages that each peer sends it, the result and the messages it
sends itself are determined.

* `Mailbox`, `Exchange.play` — play a behaviour on given messages, as a function.
* `Exchange.Plays` — the same as a relation, with exactly the messages that are used up.
* `plays_of_play`, `Plays.play` — the function computes the relation.
-/

namespace Spdz

/-- Messages by peer: those that came and were not taken yet, and those sent. -/
structure Mailbox where
  inbox : PartyId → List Bytes
  outbox : PartyId → List Bytes

namespace Mailbox

/-- No message is left, and these were sent. -/
def sent (outbox : PartyId → List Bytes) : Mailbox := ⟨fun _ => [], outbox⟩

/-- These messages came, and none was sent so far. -/
def received (inbox : PartyId → List Bytes) : Mailbox := ⟨inbox, fun _ => []⟩

/-- Make a call, if a message of each party that it waits for is there. -/
def answer (peers : List PartyId) (made : Call) (box : Mailbox) :
    Option (Except TransportError made.Reply × Mailbox) :=
  if ∀ peer ∈ made.sources peers, box.inbox peer ≠ [] then
    some (made.reply peers fun peer => (box.inbox peer).headD [],
      { inbox := fun peer =>
          if peer ∈ made.sources peers then (box.inbox peer).tail else box.inbox peer
        outbox := fun peer =>
          if peer ∈ made.recipients peers then box.outbox peer ++ [made.payload]
          else box.outbox peer })
  else none

end Mailbox

namespace Exchange

variable {α β : Type} {peers : List PartyId}

/-- Play a behaviour on the messages in a mailbox. -/
def play (peers : List PartyId) : Exchange α → Mailbox → Option (α × Mailbox)
  | done result, box => some (result, box)
  | call made next, box => (box.answer peers made).bind fun (reply, box) => (next reply).play peers box

@[simp] theorem play_pure (a : α) (box : Mailbox) :
    (pure a : Exchange α).play peers box = some (a, box) := rfl

/-- What comes first is played first. -/
theorem play_bind (x : Exchange α) (f : α → Exchange β) (box : Mailbox) :
    (x >>= f).play peers box = (x.play peers box).bind fun (a, box) => (f a).play peers box := by
  induction x generalizing box with
  | done result => rfl
  | call made next ih =>
      show ((box.answer peers made).bind fun (reply, box) => (next reply >>= f).play peers box)
        = ((box.answer peers made).bind fun (reply, box) => (next reply).play peers box).bind _
      rw [Option.bind_assoc]
      exact congrArg _ (funext fun (reply, box) => ih reply box)

theorem play_perform (made : Call) (box : Mailbox) :
    (perform made).play peers box = box.answer peers made := by
  show (box.answer peers made).bind (fun (reply, box) => some (reply, box)) = _
  cases box.answer peers made <;> rfl

/-- **Plays.**  The behaviour takes exactly the messages `got` of each peer, sends exactly the
messages `sent` to each, both in order, and ends with the result. -/
inductive Plays (peers : List PartyId) :
    Exchange α → (got sent : PartyId → List Bytes) → α → Prop where
  | done (result : α) : Plays peers (done result) (fun _ => []) (fun _ => []) result
  | call {made : Call} {next : Except TransportError made.Reply → Exchange α}
      {got sent : PartyId → List Bytes} {result : α} (bytes : PartyId → Bytes)
      (later : Plays peers (next (made.reply peers bytes)) got sent result) :
    Plays peers (call made next)
      (fun peer => if peer ∈ made.sources peers then bytes peer :: got peer else got peer)
      (fun peer => if peer ∈ made.recipients peers then made.payload :: sent peer else sent peer)
      result

/-- A behaviour that plays does so whatever else lies in the mailbox. -/
theorem Plays.play {x : Exchange α} {got sent : PartyId → List Bytes} {a : α}
    (plays : x.Plays peers got sent a) (more out : PartyId → List Bytes) :
    x.play peers ⟨fun peer => got peer ++ more peer, out⟩
      = some (a, ⟨more, fun peer => out peer ++ sent peer⟩) := by
  induction plays generalizing out with
  | done result => simp [Exchange.play]
  | @call made next got sent result bytes later ih =>
      have heads : made.reply peers (fun peer =>
          ((if peer ∈ made.sources peers then bytes peer :: got peer else got peer)
            ++ more peer).headD []) = made.reply peers bytes := by
        cases made <;> simp +contextual [Call.reply, Call.sources]
      have inbox : (fun peer => if peer ∈ made.sources peers then
          ((if peer ∈ made.sources peers then bytes peer :: got peer else got peer)
            ++ more peer).tail
          else (if peer ∈ made.sources peers then bytes peer :: got peer else got peer) ++ more peer)
          = fun peer => got peer ++ more peer := by
        funext peer
        split_ifs <;> rfl
      have outbox : (fun peer =>
          (if peer ∈ made.recipients peers then out peer ++ [made.payload] else out peer)
            ++ sent peer)
          = fun peer => out peer ++
            if peer ∈ made.recipients peers then made.payload :: sent peer else sent peer := by
        funext peer
        split_ifs <;> simp
      simp only [Exchange.play, Mailbox.answer]
      rw [if_pos (by intro peer source; simp [source]), heads, inbox, ← outbox]
      exact ih _

/-- What was played in a mailbox took the first messages there and added the last ones. -/
theorem plays_of_play {x : Exchange α} {a : α} {box after : Mailbox}
    (play : x.play peers box = some (a, after)) :
    ∃ got sent, x.Plays peers got sent a ∧
      (∀ peer, box.inbox peer = got peer ++ after.inbox peer) ∧
      (∀ peer, after.outbox peer = box.outbox peer ++ sent peer) := by
  induction x generalizing box with
  | done result =>
      obtain ⟨rfl, rfl⟩ := Prod.mk.inj (Option.some.inj play)
      exact ⟨_, _, .done _, fun _ => rfl, fun _ => (List.append_nil _).symm⟩
  | call made next ih =>
      simp only [Exchange.play, Mailbox.answer] at play
      split_ifs at play with here
      · obtain ⟨got, sent, later, inbox, outbox⟩ := ih _ play
        refine ⟨_, _, .call _ later, fun peer => ?_, fun peer => ?_⟩
        · specialize inbox peer
          simp only at inbox
          split_ifs at inbox ⊢ with source
          · cases present : box.inbox peer with
            | nil => exact absurd present (here peer source)
            | cons message rest => simp [← inbox, present]
          · exact inbox
        · rw [outbox peer]
          simp only
          split_ifs <;> simp
      · simp at play

/-- More messages behind those in the mailbox make no difference. -/
theorem play_append {x : Exchange α} {a : α} {box after : Mailbox}
    (play : x.play peers box = some (a, after)) (more : PartyId → List Bytes) :
    x.play peers ⟨fun peer => box.inbox peer ++ more peer, box.outbox⟩
      = some (a, ⟨fun peer => after.inbox peer ++ more peer, after.outbox⟩) := by
  obtain ⟨got, sent, plays, inbox, outbox⟩ := plays_of_play play
  have played := plays.play (fun peer => after.inbox peer ++ more peer) box.outbox
  simp only [← List.append_assoc, ← inbox, ← outbox] at played
  exact played

/-- The messages a behaviour uses up, on an otherwise empty mailbox. -/
theorem plays_iff {x : Exchange α} {got sent : PartyId → List Bytes} {a : α} :
    x.Plays peers got sent a ↔ x.play peers (.received got) = some (a, .sent sent) := by
  refine ⟨fun plays => ?_, fun play => ?_⟩
  · simpa [Mailbox.received, Mailbox.sent] using plays.play (fun _ => []) (fun _ => [])
  · obtain ⟨got', sent', plays, inbox, outbox⟩ := plays_of_play play
    have hg : got = got' := funext fun peer => by
      simpa [Mailbox.received, Mailbox.sent] using inbox peer
    have hs : sent = sent' := funext fun peer => by
      simpa [Mailbox.received, Mailbox.sent] using outbox peer
    rwa [hg, hs]

end Exchange

end Spdz
