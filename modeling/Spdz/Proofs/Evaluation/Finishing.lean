import Spdz.Evaluation.Schedule
import Spdz.Proofs.Evaluation.Lockstep

/-!
# A protocol on its way through a batch

Whatever its peers are, a party that drives a batch to its end has taken each protocol of the batch
through its rounds until it was done.  Between two rounds the other protocols have their turns, which
change the state of the party.  What the protocol takes from the peers and sends to them is told apart
from the messages of the others, round by round.

* `Finishes` — one party takes a protocol through its rounds.
* **`Slot.finishes_of_play`** — so it is for the protocols of a batch.
* `Course.finishes` — so it is among honest parties.
-/

namespace Spdz

variable {F : FieldSpec} {σ P : Type} [Protocol F σ P] {peers : List PartyId}
  {K : Party F σ → Prop} {got sent got' sent' : Nat → PartyId → List Bytes} {round : Nat} {p ended : P}

/-- **Finishes.**  The rounds of the protocol from `round` on succeed, and the last one ends it.  In
each round it takes exactly the messages `got` and sends exactly the messages `sent`.  When its turn
comes, the party is in any state with `K`. -/
inductive Finishes (peers : List PartyId) (K : Party F σ → Prop)
    (got sent : Nat → PartyId → List Bytes) : (round : Nat) → (p ended : P) → Prop where
  | last {round : Nat} {p ended : P} {S S' : Party F σ} (here : K S)
    (plays : (((Protocol.evaluate round : Round F σ P Status).run p).run S).Plays peers
      (got round) (sent round) ((.ok .isDone, ended), S')) : Finishes peers K got sent round p ended
  | more {round : Nat} {p p' ended : P} {S S' : Party F σ} (here : K S)
    (plays : (((Protocol.evaluate round : Round F σ P Status).run p).run S).Plays peers
      (got round) (sent round) ((.ok .hasMoreRounds, p'), S'))
    (later : Finishes peers K got sent (round + 1) p' ended) : Finishes peers K got sent round p ended

/-- Only the messages from the first round on matter. -/
theorem Finishes.congr (finishes : Finishes peers K got sent round p ended)
    (same : ∀ later, round ≤ later → got later = got' later ∧ sent later = sent' later) :
    Finishes peers K got' sent' round p ended := by
  induction finishes with
  | @last round p ended S S' here plays =>
      obtain ⟨hg, hs⟩ := same round (Nat.le_refl round)
      exact .last here (hg ▸ hs ▸ plays)
  | @more round p p' ended S S' here plays later ih =>
      obtain ⟨hg, hs⟩ := same round (Nat.le_refl round)
      exact .more here (hg ▸ hs ▸ plays) (ih fun later after => same later (by omega))

/-! ## Batches -/

namespace Slot

/-- The state of the party stays one with `K`, whatever a protocol does in a round. -/
def Keeps (P : Type) [Protocol F σ P] (peers : List PartyId) (K : Party F σ → Prop) : Prop :=
  ∀ round (p : P) S got sent X,
    (((Protocol.evaluate round : Round F σ P Status).run p).run S).Plays peers got sent X → K S → K X.2

/-- What a round makes of a slot. -/
def Turned (peers : List PartyId) (K : Party F σ → Prop) (round : Nat) (slot slot' : Slot P) : Prop :=
  if slot.active then
    ∃ S S' status got sent, K S ∧ slot'.active = (status == .hasMoreRounds) ∧
      (((Protocol.evaluate round : Round F σ P Status).run slot.protocol).run S).Plays peers got sent
        ((.ok status, slot'.protocol), S')
  else slot' = slot

theorem turned_of_play (keeps : Keeps P peers K) {slots slots' : List (Slot P)} {S S' : Party F σ}
    {box box' : Mailbox} (here : K S)
    (play : ((advance round slots).run S).play peers box = some (((.ok (), slots'), S'), box')) :
    K S' ∧ List.Forall₂ (Turned peers K round) slots slots' := by
  induction slots generalizing S box slots' with
  | nil =>
      cases play
      exact ⟨here, .nil⟩
  | cons slot slots ih =>
      rw [advance] at play
      by_cases active : slot.active = true
      · rw [if_pos active, StateT.run_bind, Exchange.play_bind] at play
        obtain ⟨⟨⟨⟨result, p⟩, S₁⟩, box₁⟩, head, play⟩ := Option.bind_eq_some_iff.mp play
        obtain ⟨got, sent, plays, -⟩ := Exchange.plays_of_play head
        cases result with
        | error e => cases play
        | ok status =>
            obtain ⟨⟨⟨⟨result, later⟩, S₂⟩, box₂⟩, others, play⟩ :=
              Option.bind_eq_some_iff.mp ((Exchange.play_bind _ _ _).symm.trans play)
            cases play
            obtain ⟨kept, turned⟩ := ih (keeps _ _ _ _ _ _ plays here) others
            refine ⟨kept, .cons ?_ turned⟩
            rw [Turned, if_pos active]
            exact ⟨S, S₁, status, got, sent, here, rfl, plays⟩
      · rw [if_neg active, StateT.run_bind, Exchange.play_bind] at play
        obtain ⟨⟨⟨⟨result, later⟩, S₁⟩, box₁⟩, others, play⟩ := Option.bind_eq_some_iff.mp play
        cases play
        obtain ⟨kept, turned⟩ := ih here others
        refine ⟨kept, .cons ?_ turned⟩
        rw [Turned, if_neg active]

/-- What becomes of a slot when the batch is driven to its end. -/
def Finished (peers : List PartyId) (K : Party F σ → Prop) (round : Nat) (slot ended : Slot P) : Prop :=
  if slot.active then ∃ got sent, Finishes peers K got sent round slot.protocol ended.protocol
  else ended = slot

theorem Turned.finished {slot slot' ended : Slot P} (turned : Turned peers K round slot slot')
    (later : Finished peers K (round + 1) slot' ended) : Finished peers K round slot ended := by
  by_cases active : slot.active = true
  · rw [Turned, if_pos active] at turned
    rw [Finished, if_pos active]
    obtain ⟨S, S', status, got, sent, here, remains, plays⟩ := turned
    cases status with
    | isDone =>
        rw [Finished, if_neg (by rw [remains]; decide)] at later
        exact ⟨fun _ => got, fun _ => sent, .last here (later ▸ plays)⟩
    | hasMoreRounds =>
        rw [Finished, if_pos (by rw [remains]; rfl)] at later
        obtain ⟨gotLater, sentLater, finishes⟩ := later
        have first : (((Protocol.evaluate round : Round F σ P Status).run slot.protocol).run S).Plays
            peers (Function.update gotLater round got round) (Function.update sentLater round sent round)
            ((.ok .hasMoreRounds, slot'.protocol), S') := by
          rwa [Function.update_self, Function.update_self]
        -- what was exchanged in this round does not touch the rounds that follow
        refine ⟨_, _, .more here first (finishes.congr fun later after => ?_)⟩
        have apart : later ≠ round := by omega
        exact ⟨(Function.update_of_ne apart ..).symm, (Function.update_of_ne apart ..).symm⟩
  · rw [Turned, if_neg active] at turned
    subst turned
    rw [Finished, if_neg active] at later ⊢
    exact later

/-- One round after the other, slot by slot. -/
theorem forall₂_finished {slots slots' ended : List (Slot P)}
    (turned : List.Forall₂ (Turned peers K round) slots slots')
    (later : List.Forall₂ (Finished peers K (round + 1)) slots' ended) :
    List.Forall₂ (Finished peers K round) slots ended := by
  induction turned generalizing ended with
  | nil =>
      cases later
      exact .nil
  | cons first _ ih =>
      cases later with
      | cons second later => exact .cons (first.finished second) (ih later)

/-- **The protocols of a batch.**  A party that drives a batch to its end takes every protocol
through its rounds. -/
theorem finishes_of_play (keeps : Keeps P peers K) {limit count : Nat} {slots ended : List (Slot P)}
    {S S' : Party F σ} {box box' : Mailbox} (here : K S)
    (play : ((driveFrom limit round slots).run S).play peers box
      = some (((.ok count, ended), S'), box')) :
    List.Forall₂ (Finished peers K round) slots ended := by
  induction limit generalizing round slots S box with
  | zero => cases play
  | succ limit ih =>
      rw [driveFrom] at play
      split_ifs at play with active
      · rw [StateT.run_bind, Exchange.play_bind] at play
        obtain ⟨⟨⟨⟨result, slots'⟩, S₁⟩, box₁⟩, advanced, play⟩ := Option.bind_eq_some_iff.mp play
        cases result with
        | error e => cases play
        | ok _ =>
            obtain ⟨kept, turned⟩ := turned_of_play keeps here advanced
            exact forall₂_finished turned (ih kept play)
      · cases play
        refine List.forall₂_same.mpr fun slot mem => ?_
        have idle : ¬ slot.active = true := fun here =>
          active (List.any_eq_true.mpr ⟨slot, mem, here⟩)
        rw [Finished, if_neg idle]

end Slot

/-! ## Honest parties -/

/-- The messages that a member gets of its peers. -/
def fromPeers (n : Nat) (traffic : Nat → PartyId → List Bytes) (i : PartyId) (round : Nat)
    (peer : PartyId) : List Bytes := if peer ∈ peersOf i n then traffic round peer else []

/-- The messages that a member sends to its peers, which they get a round later. -/
def toPeers (n : Nat) (traffic : Nat → PartyId → List Bytes) (i : PartyId) (round : Nat)
    (peer : PartyId) : List Bytes := if peer ∈ peersOf i n then traffic (round + 1) i else []

/-- **Finishes together.**  All members take the protocol from `round` on to its end, on what they
sent to each other, which is `traffic`. -/
def FinishTogether (n : Nat) (K : PartyId → Party F σ → Prop) (traffic : Nat → PartyId → List Bytes)
    (round : Nat) (p ended : PartyId → P) : Prop :=
  ∀ i, IsMember n i →
    Finishes (peersOf i n) (K i) (fromPeers n traffic i) (toPeers n traffic i) round (p i) (ended i)

section Together

variable {n left : Nat} {G : Type} {Inv : G → (PartyId → Party F σ) → Prop} {g : G}
  {post : (PartyId → P) → Prop} {p p' ended : PartyId → P} {S S' : PartyId → Party F σ}
  {came out : PartyId → List Bytes} {K : PartyId → Party F σ → Prop}
  {traffic : Nat → PartyId → List Bytes}

theorem Turns.plays {status : Status} (turns : Turns n (Protocol.evaluate round) p S came
      (fun _ => .ok status) p' S' out) (before : traffic round = came) (after : traffic (round + 1) = out)
    {i : PartyId} (member : IsMember n i) :
    (((Protocol.evaluate round : Round F σ P Status).run (p i)).run (S i)).Plays (peersOf i n)
      (fromPeers n traffic i round) (toPeers n traffic i round) ((.ok status, p' i), S' i) := by
  have turn := turns i member
  subst before after
  have start : Mailbox.among (peersOf i n) (traffic round) []
      = .received (fromPeers n traffic i round) := by
    simp only [Mailbox.among, Mailbox.received, ite_self]
    rfl
  have ends : Mailbox.among (peersOf i n) (fun _ => []) (traffic (round + 1) i)
      = .sent (toPeers n traffic i round) := by
    simp only [Mailbox.among, Mailbox.sent, ite_self]
    rfl
  rw [start, ends] at turn
  exact Exchange.plays_iff.mpr turn

/-- A round that all parties take before the others. -/
theorem Turns.finishTogether (turns : Turns n (Protocol.evaluate round) p S came
      (fun _ => .ok .hasMoreRounds) p' S' out) (here : ∀ i, IsMember n i → K i (S i))
    (later : FinishTogether n K traffic (round + 1) p' ended) (next : traffic (round + 1) = out) :
    FinishTogether n K (Function.update traffic round came) round p ended := by
  intro i member
  have same : ∀ later, round + 1 ≤ later → Function.update traffic round came later = traffic later :=
    fun later after => Function.update_of_ne (by omega) ..
  have before : Function.update traffic round came round = came := Function.update_self ..
  have plays := turns.plays before ((same _ (Nat.le_refl _)).trans next) member
  refine .more (here i member) plays ((later i member).congr fun later after => ⟨?_, ?_⟩)
  · funext peer
    rw [fromPeers, fromPeers, same later after]
  · funext peer
    rw [toPeers, toPeers, same (later + 1) (by omega)]

/-- **A protocol that goes well finishes.** -/
theorem Course.finishes (holds : ∀ S, Inv g S → ∀ i, IsMember n i → K i (S i)) (inv : Inv g S)
    (course : Course n Inv post (left + 1) round p came) : ∃ traffic ended,
      FinishTogether n K traffic round p ended ∧ traffic round = came ∧ post ended := by
  induction left generalizing round p came S with
  | zero =>
      obtain ⟨p', S', out, turns, -, done, -⟩ := course g S inv
      refine ⟨fun later => if later = round then came else out, p', fun i member => ?_, if_pos rfl, done⟩
      exact .last (holds S inv i member) (turns.plays (if_pos rfl) (if_neg (by omega)) member)
  | succ left ih =>
      obtain ⟨p', S', out, turns, inv', later⟩ := course g S inv
      obtain ⟨traffic, ended, finishes, next, done⟩ := ih inv' later
      exact ⟨_, ended, turns.finishTogether (holds S inv) finishes next, Function.update_self .., done⟩

end Together

end Spdz
