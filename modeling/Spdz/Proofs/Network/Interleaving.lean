import Mathlib.Logic.Function.Basic
import Mathlib.Tactic.SplitIfs
import Spdz.Proofs.Network.Labelled

/-!
# All interleavings of many parties

The parties of a computation run concurrently, and nothing but the order on each channel is given.
Here a network is the parties' behaviours and a channel for each ordered pair, and a step of it is
the smallest thing that can happen: one message is sent to one peer, one message is taken from one
peer, or one party goes on because its call is complete.  A call to all peers sends to them one by
one in any order, and collects from them in any order.

* `Process` — a behaviour and how far its present call has come; `Process.Acts`, what it may do.
* `Link` — a channel: what waits in it and, as a record, what was taken from it.
* `Net`, `Net.Step` — the parties together and one step of any of them.
* **`Net.Step.diamond`** — two different steps do not disturb each other.
* **`Chain.determinacy`** — so one run that ends tells where all runs end, and how long they are.
-/

namespace Spdz

/-! ## Chains of steps -/

section Chains

variable {S : Type} {step : S → S → Prop}

/-- `Chain step k s t`: exactly `k` steps lead from `s` to `t`. -/
inductive Chain (step : S → S → Prop) : Nat → S → S → Prop where
  | nil (s : S) : Chain step 0 s s
  | cons {k : Nat} {s t u : S} (first : step s t) (others : Chain step k t u) :
    Chain step (k + 1) s u

/-- Two steps from one state lead to the same state, or to states that one step each joins. -/
def Diamond (step : S → S → Prop) : Prop :=
  ∀ ⦃s t u : S⦄, step s t → step s u → t = u ∨ ∃ v, step t v ∧ step u v

/-- A state that no step leaves. -/
def Final (step : S → S → Prop) (s : S) : Prop := ∀ t, ¬ step s t

namespace Chain

theorem append {j k : Nat} {s t u : S} (first : Chain step j s t) (second : Chain step k t u) :
    Chain step (j + k) s u := by
  induction first with
  | nil s => rwa [Nat.zero_add]
  | cons h _ ih =>
      rw [Nat.add_right_comm]
      exact cons h (ih second)

/-- A step aside from a chain to a final state is a step towards that state. -/
theorem of_step (diamond : Diamond step) {k : Nat} {s t u : S} (chain : Chain step k s u)
    (final : Final step u) (aside : step s t) : ∃ j, k = j + 1 ∧ Chain step j t u := by
  induction chain generalizing t with
  | nil s => exact absurd aside (final t)
  | @cons k s r u first others ih =>
      refine ⟨k, rfl, ?_⟩
      rcases diamond first aside with same | ⟨v, hr, ht⟩
      · exact same ▸ others
      · obtain ⟨j, rfl, rest⟩ := ih final hr
        exact cons ht rest

/-- **Determinacy.**  If one chain of `k` steps ends in a final state, then every chain from the same
state has at most `k` steps, and those that are left lead to that final state. -/
theorem determinacy (diamond : Diamond step) {j k : Nat} {s t u : S} (ends : Chain step k s u)
    (final : Final step u) (other : Chain step j s t) : j ≤ k ∧ Chain step (k - j) t u := by
  induction other generalizing k with
  | nil s => exact ⟨Nat.zero_le k, ends⟩
  | cons first _ ih =>
      obtain ⟨k, rfl, left⟩ := ends.of_step diamond final first
      obtain ⟨le, rest⟩ := ih left
      exact ⟨Nat.succ_le_succ le, by rwa [Nat.add_sub_add_right]⟩

end Chain

end Chains

/-! ## What a call takes -/

namespace Call

/-- The parties that a call sends to.  There are channels to peers only. -/
def recipients (peers : List PartyId) : Call → List PartyId
  | .send peer _ => if peer ∈ peers then [peer] else []
  | .sendAll _ => peers
  | .receive _ | .receiveAll => []

/-- The parties that a call waits for. -/
def sources (peers : List PartyId) : Call → List PartyId
  | .receive peer => if peer ∈ peers then [peer] else []
  | .receiveAll => peers
  | .send .. | .sendAll _ => []

/-- The message that a call sends. -/
def payload : Call → Bytes
  | .send _ message | .sendAll message => message
  | .receive _ | .receiveAll => []

/-- What a call gives once everything is sent and there is a message of each party waited for. -/
def reply (peers : List PartyId) (got : PartyId → Bytes) :
    (made : Call) → Except TransportError made.Reply
  | .send peer _ => if peer ∈ peers then .ok () else .error (.unknownParty peer)
  | .receive peer => if peer ∈ peers then .ok (got peer) else .error (.unknownParty peer)
  | .sendAll _ => .ok ()
  | .receiveAll => .ok (peers.map fun peer => (peer, got peer))

end Call

/-! ## One party -/

/-- A message, with the label of the call that sent it. -/
structure Letter (Λ : Type) where
  label : Λ
  bytes : Bytes

/-- A behaviour in progress. -/
structure Process (Λ α : Type) where
  rest : Labelled Λ α
  /-- The peers that the present call has sent to. -/
  served : PartyId → Bool := fun _ => false
  /-- The messages that the present call has taken. -/
  held : PartyId → Option Bytes := fun _ => none

/-- What a party's step does to the channels. -/
inductive Effect (Λ : Type) where
  | post (receiver : PartyId) (letter : Letter Λ)
  /-- A message is taken by a call with the given label. -/
  | pick (sender : PartyId) (label : Λ) (letter : Letter Λ)
  | proceed

/-- The kind of an effect and the peer it concerns. -/
inductive Effect.Kind where
  | post (receiver : PartyId)
  | pick (sender : PartyId)
  | proceed

/-- The effect without what is sent or taken. -/
def Effect.kind {Λ : Type} : Effect Λ → Effect.Kind
  | post receiver _ => .post receiver
  | pick sender _ _ => .pick sender
  | proceed => .proceed

namespace Process

variable {Λ α β : Type}

/-- What a process among `peers` may do.  Which message it takes is for the channel to say. -/
inductive Acts (peers : List PartyId) : Process Λ α → Effect Λ → Process Λ α → Prop where
  | post {label : Λ} {made : Call} {next : Except TransportError made.Reply → Labelled Λ α}
      {served : PartyId → Bool} {held : PartyId → Option Bytes} (peer : PartyId)
      (due : peer ∈ made.recipients peers) (new : served peer = false) :
    Acts peers ⟨.call label made next, served, held⟩ (.post peer ⟨label, made.payload⟩)
      ⟨.call label made next, Function.update served peer true, held⟩
  | pick {label : Λ} {made : Call} {next : Except TransportError made.Reply → Labelled Λ α}
      {served : PartyId → Bool} {held : PartyId → Option Bytes} (peer : PartyId)
      (letter : Letter Λ) (due : peer ∈ made.sources peers) (new : held peer = none) :
    Acts peers ⟨.call label made next, served, held⟩ (.pick peer label letter)
      ⟨.call label made next, served, Function.update held peer (some letter.bytes)⟩
  | proceed {label : Λ} {made : Call} {next : Except TransportError made.Reply → Labelled Λ α}
      {served : PartyId → Bool} {held : PartyId → Option Bytes}
      (sent : ∀ peer ∈ made.recipients peers, served peer = true)
      (got : ∀ peer ∈ made.sources peers, held peer ≠ none) :
    Acts peers ⟨.call label made next, served, held⟩ .proceed
      { rest := next (made.reply peers fun peer => (held peer).getD []) }

variable {peers : List PartyId} {p p₁ p₂ : Process Λ α} {e₁ e₂ : Effect Λ}

/-- What is sent is fixed by the process. -/
theorem Acts.post_inj {receiver : PartyId} {l₁ l₂ : Letter Λ}
    (h₁ : Acts peers p (.post receiver l₁) p₁) (h₂ : Acts peers p (.post receiver l₂) p₂) :
    l₁ = l₂ ∧ p₁ = p₂ := by
  cases h₁; cases h₂; exact ⟨rfl, rfl⟩

/-- What is taken fixes what becomes of the process. -/
theorem Acts.pick_inj {sender : PartyId} {a₁ a₂ : Λ} {l : Letter Λ}
    (h₁ : Acts peers p (.pick sender a₁ l) p₁) (h₂ : Acts peers p (.pick sender a₂ l) p₂) :
    a₁ = a₂ ∧ p₁ = p₂ := by
  cases h₁; cases h₂; exact ⟨rfl, rfl⟩

theorem Acts.proceed_inj (h₁ : Acts peers p .proceed p₁) (h₂ : Acts peers p .proceed p₂) :
    p₁ = p₂ := by
  cases h₁; cases h₂; rfl

/-- Different things that a process may do can be done in any order. -/
theorem Acts.diamond (h₁ : Acts peers p e₁ p₁) (h₂ : Acts peers p e₂ p₂)
    (differ : e₁.kind ≠ e₂.kind) : ∃ q, Acts peers p₁ e₂ q ∧ Acts peers p₂ e₁ q := by
  cases h₁ with
  | post a due₁ new₁ =>
      cases h₂ with
      | post b due₂ new₂ =>
          have other : a ≠ b := fun same => differ (congrArg Effect.Kind.post same)
          refine ⟨_, .post b due₂ (by rwa [Function.update_of_ne other.symm]), ?_⟩
          rw [Function.update_comm other]
          exact .post a due₁ (by rwa [Function.update_of_ne other])
      | pick b letter due₂ new₂ => exact ⟨_, .pick b letter due₂ new₂, .post a due₁ new₁⟩
      | proceed sent got => exact absurd (sent a due₁) (by simp [new₁])
  | pick a letter₁ due₁ new₁ =>
      cases h₂ with
      | post b due₂ new₂ => exact ⟨_, .post b due₂ new₂, .pick a letter₁ due₁ new₁⟩
      | pick b letter₂ due₂ new₂ =>
          have other : a ≠ b := fun same => differ (congrArg Effect.Kind.pick same)
          refine ⟨_, .pick b letter₂ due₂ (by rwa [Function.update_of_ne other.symm]), ?_⟩
          rw [Function.update_comm other]
          exact .pick a letter₁ due₁ (by rwa [Function.update_of_ne other])
      | proceed sent got => exact absurd new₁ (got a due₁)
  | proceed sent got =>
      cases h₂ with
      | post b due₂ new₂ => exact absurd (sent b due₂) (by simp [new₂])
      | pick b letter due₂ new₂ => exact absurd new₂ (got b due₂)
      | proceed => exact absurd rfl differ

end Process

/-! ## The channels -/

/-- The channel from one party to another. -/
structure Link (Λ : Type) where
  /-- What was sent and not taken yet, the oldest first. -/
  waiting : List (Letter Λ) := []
  /-- What was taken, the oldest first, each with the label of the call that took it. -/
  taken : List (Λ × Letter Λ) := []

/-- A channel for each sender and receiver among `n` parties. -/
abbrev Channels (n : Nat) (Λ : Type) := Fin n → Fin n → Link Λ

/-- The number of a party: counting starts at one. -/
def seat {n : Nat} (party : Fin n) : PartyId := party + 1

theorem seat_inj {n : Nat} {a b : Fin n} : seat a = seat b ↔ a = b := by
  simp [seat, Fin.ext_iff]

namespace Channels

variable {n : Nat} {Λ : Type}

/-- Other contents of one channel. -/
def set (channels : Channels n Λ) (sender receiver : Fin n) (link : Link Λ) : Channels n Λ :=
  fun a b => if a = sender ∧ b = receiver then link else channels a b

@[simp] theorem set_self (channels : Channels n Λ) (a b : Fin n) (link : Link Λ) :
    channels.set a b link a b = link := if_pos ⟨rfl, rfl⟩

theorem set_of_ne (channels : Channels n Λ) {a b c d : Fin n} (link : Link Λ)
    (other : ¬ (c = a ∧ d = b)) : channels.set a b link c d = channels c d := if_neg other

theorem set_comm (channels : Channels n Λ) {a b c d : Fin n} (x y : Link Λ)
    (other : ¬ (c = a ∧ d = b)) :
    (channels.set a b x).set c d y = (channels.set c d y).set a b x := by
  funext i j
  simp only [set]
  split_ifs with h₁ h₂
  · exact absurd ⟨h₁.1.symm.trans h₂.1, h₁.2.symm.trans h₂.2⟩ other
  all_goals rfl

theorem set_set (channels : Channels n Λ) (a b : Fin n) (x y : Link Λ) :
    (channels.set a b x).set a b y = channels.set a b y := by
  funext i j
  simp only [set]
  split_ifs <;> rfl

/-- What a party's effect makes of the channels. -/
inductive Carries (self : Fin n) : Effect Λ → Channels n Λ → Channels n Λ → Prop where
  | post {channels : Channels n Λ} (peer : Fin n) (letter : Letter Λ) :
    Carries self (.post (seat peer) letter) channels
      (channels.set self peer
        ⟨(channels self peer).waiting ++ [letter], (channels self peer).taken⟩)
  | pick {channels : Channels n Λ} (peer : Fin n) (label : Λ) {letter : Letter Λ}
      {later : List (Letter Λ)} (here : (channels peer self).waiting = letter :: later) :
    Carries self (.pick (seat peer) label letter) channels
      (channels.set peer self ⟨later, (channels peer self).taken ++ [(label, letter)]⟩)
  | proceed {channels : Channels n Λ} : Carries self .proceed channels channels

variable {a b : Fin n} {e₁ e₂ : Effect Λ} {c c₁ c₂ : Channels n Λ}

/-- An effect has only one outcome. -/
theorem Carries.unique (h₁ : Carries a e₁ c c₁) (h₂ : Carries a e₁ c c₂) : c₁ = c₂ := by
  generalize same : e₁ = e₂ at h₂
  cases h₁ with
  | post p l =>
      cases h₂ with
      | post q m =>
          obtain ⟨hq, rfl⟩ := Effect.post.inj same
          rw [seat_inj.mp hq]
      | _ => cases same
  | pick p l here₁ =>
      cases h₂ with
      | pick q m here₂ =>
          obtain ⟨hq, rfl, rfl⟩ := Effect.pick.inj same
          obtain rfl := seat_inj.mp hq
          obtain ⟨-, rfl⟩ := List.cons.inj (here₁.symm.trans here₂)
          rfl
      | _ => cases same
  | proceed =>
      cases h₂ with
      | proceed => rfl
      | _ => cases same

/-- The channel fixes which message is taken. -/
theorem Carries.letter_inj {sender : PartyId} {m₁ m₂ : Λ} {l₁ l₂ : Letter Λ}
    (h₁ : Carries a (.pick sender m₁ l₁) c c₁) (h₂ : Carries a (.pick sender m₂ l₂) c c₂) :
    l₁ = l₂ := by
  generalize same : Effect.pick sender m₂ l₂ = e at h₂
  cases h₁ with
  | pick p _ here₁ =>
      cases h₂ with
      | pick q _ here₂ =>
          obtain ⟨hq, -, rfl⟩ := Effect.pick.inj same
          obtain rfl := seat_inj.mp hq
          exact (List.cons.inj (here₁.symm.trans here₂)).1
      | _ => cases same

/-- A sent message does not matter to one who takes from a channel that is not empty. -/
theorem Carries.post_pick {p q : Fin n} {l letter : Letter Λ} {later : List (Letter Λ)} {m : Λ}
    (here : (c q b).waiting = letter :: later) :
    ∃ d, Carries b (.pick (seat q) m letter)
        (c.set a p ⟨(c a p).waiting ++ [l], (c a p).taken⟩) d ∧
      Carries a (.post (seat p) l)
        (c.set q b ⟨later, (c q b).taken ++ [(m, letter)]⟩) d := by
  by_cases same : q = a ∧ b = p
  · obtain ⟨rfl, rfl⟩ := same
    refine ⟨c.set q b ⟨later ++ [l], (c q b).taken ++ [(m, letter)]⟩, ?_, ?_⟩
    · have here' : (c.set q b ⟨(c q b).waiting ++ [l], (c q b).taken⟩ q b).waiting
          = letter :: (later ++ [l]) := by simp [here]
      simpa [set_set] using Carries.pick q m here'
    · have step : Carries q (.post (seat b) l)
          (c.set q b ⟨later, (c q b).taken ++ [(m, letter)]⟩) _ := .post b l
      simpa [set_set] using step
  · have apart : ¬ (a = q ∧ p = b) := fun h => same ⟨h.1.symm, h.2.symm⟩
    refine ⟨_, .pick q m (by rwa [set_of_ne _ _ same]), ?_⟩
    rw [set_of_ne c _ same, ← set_comm _ _ _ apart, ← set_of_ne c _ apart]
    exact .post p l

/-- Different effects on the channels can happen in any order. -/
theorem Carries.diamond (h₁ : Carries a e₁ c c₁) (h₂ : Carries b e₂ c c₂)
    (differ : ¬ (a = b ∧ e₁.kind = e₂.kind)) : ∃ d, Carries b e₂ c₁ d ∧ Carries a e₁ c₂ d := by
  cases h₁ with
  | post p l =>
      cases h₂ with
      | post q m =>
          have apart : ¬ (b = a ∧ q = p) := by
            rintro ⟨rfl, rfl⟩
            exact differ ⟨rfl, rfl⟩
          have apart' : ¬ (a = b ∧ p = q) := fun h => apart ⟨h.1.symm, h.2.symm⟩
          refine ⟨_, .post q m, ?_⟩
          rw [set_of_ne c _ apart, set_comm _ _ _ apart, ← set_of_ne c _ apart']
          exact .post p l
      | pick q m here => exact Carries.post_pick here
      | proceed => exact ⟨_, .proceed, .post p l⟩
  | pick p l here =>
      cases h₂ with
      | post q m =>
          obtain ⟨d, h, h'⟩ := Carries.post_pick (a := b) (p := q) (l := m) (m := l) here
          exact ⟨d, h', h⟩
      | pick q m here' =>
          have apart : ¬ (q = p ∧ b = a) := by
            rintro ⟨rfl, rfl⟩
            exact differ ⟨rfl, rfl⟩
          have apart' : ¬ (p = q ∧ a = b) := fun h => apart ⟨h.1.symm, h.2.symm⟩
          refine ⟨_, .pick q m (by rwa [set_of_ne _ _ apart]), ?_⟩
          rw [set_of_ne c _ apart, set_comm _ _ _ apart, ← set_of_ne c _ apart']
          exact .pick p l (by rwa [set_of_ne _ _ apart'])
      | proceed => exact ⟨_, .proceed, .pick p l here⟩
  | proceed => exact ⟨_, h₂, .proceed⟩

end Channels

/-! ## All parties together -/

/-- `n` parties at work and the channels between them. -/
structure Net (n : Nat) (Λ α : Type) where
  process : Fin n → Process Λ α
  channels : Channels n Λ

namespace Net

variable {n : Nat} {Λ α : Type}

/-- A step: one party does one thing. -/
inductive Step : Net n Λ α → Net n Λ α → Prop where
  | act {net : Net n Λ α} (party : Fin n) {effect : Effect Λ} {process : Process Λ α}
      {channels : Channels n Λ}
      (acts : (net.process party).Acts (peersOf (seat party) n) effect process)
      (carries : net.channels.Carries party effect channels) :
    Step net ⟨Function.update net.process party process, channels⟩

/-- **Two steps do not disturb each other.** -/
theorem Step.diamond : Diamond (Step (n := n) (Λ := Λ) (α := α)) := by
  rintro ⟨process, channels⟩ _ _ ⟨a, acts₁, carries₁⟩ ⟨b, acts₂, carries₂⟩
  rename_i e₁ p₁ c₁ e₂ p₂ c₂
  simp only at acts₁ acts₂ carries₁ carries₂ ⊢
  by_cases same : a = b ∧ e₁.kind = e₂.kind
  · -- the same thing: the process fixes what it sends, the channel what is taken
    left
    obtain ⟨rfl, kinds⟩ := same
    have both : e₁ = e₂ ∧ p₁ = p₂ := by
      cases e₁ <;> cases e₂ <;> simp only [Effect.kind, reduceCtorEq] at kinds
      · obtain rfl := Effect.Kind.post.inj kinds
        obtain ⟨rfl, rfl⟩ := acts₁.post_inj acts₂
        exact ⟨rfl, rfl⟩
      · obtain rfl := Effect.Kind.pick.inj kinds
        obtain rfl := carries₁.letter_inj carries₂
        obtain ⟨rfl, rfl⟩ := acts₁.pick_inj acts₂
        exact ⟨rfl, rfl⟩
      · exact ⟨rfl, acts₁.proceed_inj acts₂⟩
    obtain ⟨rfl, rfl⟩ := both
    rw [carries₁.unique carries₂]
  · right
    obtain ⟨d, hd₁, hd₂⟩ := carries₁.diamond carries₂ same
    by_cases party : a = b
    · subst party
      obtain ⟨q, hq₁, hq₂⟩ := acts₁.diamond acts₂ fun kinds => same ⟨rfl, kinds⟩
      refine ⟨⟨Function.update process a q, d⟩, ?_, ?_⟩
      · have step : Step ⟨Function.update process a p₁, c₁⟩
            ⟨Function.update (Function.update process a p₁) a q, d⟩ :=
          .act a (by simpa using hq₁) hd₁
        simpa using step
      · have step : Step ⟨Function.update process a p₂, c₂⟩
            ⟨Function.update (Function.update process a p₂) a q, d⟩ :=
          .act a (by simpa using hq₂) hd₂
        simpa using step
    · refine ⟨⟨Function.update (Function.update process a p₁) b p₂, d⟩, ?_, ?_⟩
      · exact .act b (by simpa [Ne.symm party] using acts₂) hd₁
      · rw [Function.update_comm party]
        exact .act a (by simpa [party] using acts₁) hd₂

end Net

end Spdz
