import Spdz.Proofs.Field.Encoding
import Spdz.Proofs.Field.Ring
import Spdz.Proofs.Network.Joint
import Spdz.Protocol.Round

/-!
# A party's turn in a round

In one round of a protocol a party takes what its peers sent to it in the round before and sends
something to all of them.  Its turn is the play of the round on these messages.  How the parts of a
round are played is said here once, so that the turn of a protocol is found by going through its
text.

* `Mailbox.among` — the mailbox of a party that sends the same messages to all its peers.
* `Round.play` — the play of a round, and how each part of a round is played.
* **`Turns`** — one round of all parties: what it makes of their states, and what they send.
* `Embeds` — a protocol that is one kind of another.
-/

namespace Spdz

/-! ## Messages among peers -/

namespace Mailbox

/-- Messages that came from each peer, and messages that were sent to all peers. -/
def among (peers : List PartyId) (came : PartyId → List Bytes) (out : List Bytes) : Mailbox where
  inbox peer := if peer ∈ peers then came peer else []
  outbox peer := if peer ∈ peers then out else []

variable {peers : List PartyId} {came : PartyId → List Bytes} {out : List Bytes}

/-- Only messages of peers matter. -/
theorem among_congr {came' : PartyId → List Bytes} (same : ∀ peer ∈ peers, came peer = came' peer) :
    among peers came out = among peers came' out := by
  simp only [among, mk.injEq, and_true]
  funext peer
  split_ifs with mem
  · exact same peer mem
  · rfl

theorem eq_of_among {came' : PartyId → List Bytes}
    (same : among peers came out = among peers came' out) :
    ∀ peer ∈ peers, came peer = came' peer := by
  intro peer mem
  have here := congrFun (congrArg inbox same) peer
  simpa only [among, if_pos mem] using here

@[simp] theorem answer_sendAll (message : Bytes) :
    (among peers came out).answer peers (.sendAll message)
      = some (.ok (), among peers came (out ++ [message])) := by
  simp only [answer, Call.sources, Call.recipients, Call.payload, Call.reply, among]
  simp only [List.not_mem_nil, false_implies, implies_true, if_true, if_false]
  congr 3
  funext peer
  split_ifs <;> rfl

@[simp] theorem answer_receiveAll (message : PartyId → Bytes) (later : PartyId → List Bytes) :
    (among peers (fun peer => message peer :: later peer) out).answer peers .receiveAll
      = some (.ok (peers.map fun peer => (peer, message peer)), among peers later out) := by
  have here : ∀ peer ∈ peers, (if peer ∈ peers then message peer :: later peer else []) ≠ [] := by
    intro peer mem
    simp [mem]
  have heads : (peers.map fun peer =>
      (peer, (if peer ∈ peers then message peer :: later peer else []).headD []))
      = peers.map fun peer => (peer, message peer) :=
    List.map_congr_left fun peer mem => by simp [mem]
  simp only [answer, Call.sources, Call.recipients, Call.reply, among]
  rw [if_pos here, heads]
  congr 3
  funext peer
  split_ifs <;> rfl

theorem answer_receive {sender : PartyId} (mem : sender ∈ peers) (message : Bytes) :
    (among peers (fun peer => if peer = sender then [message] else []) out).answer peers
      (.receive sender) = some (.ok message, among peers (fun _ => []) out) := by
  simp only [answer, Call.sources, Call.recipients, Call.reply, among, mem, if_true,
    List.mem_singleton, forall_eq, ne_eq, reduceCtorEq, not_false_eq_true, List.headD_cons,
    List.not_mem_nil, if_false]
  congr 3
  funext peer
  by_cases same : peer = sender
  · simp [same, mem]
  · simp [same]

end Mailbox

namespace Exchange

variable {α : Type} {peers : List PartyId} {x : Exchange α} {got sent : PartyId → List Bytes} {a : α}

/-- Only peers send messages. -/
theorem Plays.got_eq_nil (plays : x.Plays peers got sent a) {peer : PartyId}
    (stranger : peer ∉ peers) : got peer = [] := by
  induction plays with
  | done => rfl
  | call bytes later ih =>
      exact (if_neg fun source => stranger (Call.mem_of_mem_sources source)).trans ih

/-- A behaviour is played on the messages that it takes. -/
theorem Plays.play_among (plays : x.Plays peers got sent a) :
    x.play peers (.among peers got []) = some (a, .sent sent) := by
  have start : Mailbox.among peers got [] = .received got := by
    simp only [Mailbox.among, Mailbox.received, Mailbox.mk.injEq, ite_self, and_true]
    funext peer
    split_ifs with mem
    · rfl
    · exact (plays.got_eq_nil mem).symm
  rw [start]
  exact plays_iff.mp plays

end Exchange

/-! ## Playing a round -/

namespace Round

variable {F : FieldSpec} {σ P Q α β : Type}

/-- Play a round from a state of the protocol and of the party. -/
def play (peers : List PartyId) (round : Round F σ P α) (p : P) (S : Party F σ) (box : Mailbox) :
    Option (((Except Error α × P) × Party F σ) × Mailbox) :=
  ((round.run p).run S).play peers box

/-- Go on from where a part of a round has ended.  An error ends the round. -/
def proceed (peers : List PartyId) (next : α → Round F σ P β) :
    ((Except Error α × P) × Party F σ) × Mailbox →
      Option (((Except Error β × P) × Party F σ) × Mailbox)
  | (((.ok a, p), S), box) => (next a).play peers p S box
  | (((.error e, p), S), box) => some (((.error e, p), S), box)

variable {peers : List PartyId} {p : P} {S : Party F σ} {box : Mailbox}

theorem play_bind (x : Round F σ P α) (next : α → Round F σ P β) :
    (x >>= next).play peers p S box = (x.play peers p S box).bind (proceed peers next) := by
  refine (Exchange.play_bind ((x.run p).run S) _ box).trans ?_
  refine congrArg _ (funext ?_)
  rintro ⟨⟨⟨result | a, p⟩, S⟩, box⟩ <;> rfl

@[simp] theorem proceed_ok (next : α → Round F σ P β) (a : α) :
    proceed peers next (((.ok a, p), S), box) = (next a).play peers p S box := rfl

@[simp] theorem proceed_error (next : α → Round F σ P β) (e : Error) :
    proceed peers next (((.error e, p), S), box) = some (((.error e, p), S), box) := rfl

@[simp] theorem play_pure (a : α) :
    (pure a : Round F σ P α).play peers p S box = some (((.ok a, p), S), box) := rfl

@[simp] theorem play_map (x : Round F σ P α) (f : α → β) :
    (f <$> x).play peers p S box = (x.play peers p S box).bind (proceed peers fun a => pure (f a)) := by
  rw [← play_bind, bind_pure_comp]

@[simp] theorem play_discard (x : Round F σ P α) :
    (discard x).play peers p S box = (x.play peers p S box).bind (proceed peers fun _ => pure ⟨⟩) := by
  have mapped : discard x = (fun _ => PUnit.unit) <$> x :=
    congrFun (congrFun LawfulFunctor.map_const PUnit.unit) x
  rw [mapped, play_map]

@[simp] theorem play_throw (e : Error) :
    (throw e : Round F σ P α).play peers p S box = some (((.error e, p), S), box) := rfl

@[simp] theorem play_get :
    (get : Round F σ P P).play peers p S box = some (((.ok p, p), S), box) := rfl

@[simp] theorem play_set (q : P) :
    (set q : Round F σ P PUnit).play peers p S box = some (((.ok ⟨⟩, q), S), box) := rfl

@[simp] theorem play_modify (f : P → P) :
    (modify f : Round F σ P PUnit).play peers p S box = some (((.ok ⟨⟩, f p), S), box) := rfl

@[simp] theorem play_party :
    (Round.party : Round F σ P (Party F σ)).play peers p S box = some (((.ok S, p), S), box) := rfl

@[simp] theorem play_setParty (S' : Party F σ) :
    (set S' : Round F σ P PUnit).play peers p S box = some (((.ok ⟨⟩, p), S'), box) := rfl

@[simp] theorem play_record (share : Share F) (value : Elem F) :
    (Round.record share value : Round F σ P Unit).play peers p S box
      = some (((.ok (), p), { S with opened := S.opened.push share value }), box) := rfl

@[simp] theorem play_ofExcept_ok {ε : Type} (wrap : ε → Error) (a : α) :
    (Round.ofExcept wrap (.ok a) : Round F σ P α).play peers p S box
      = some (((.ok a, p), S), box) := rfl

@[simp] theorem play_ofExcept_error {ε : Type} (wrap : ε → Error) (e : ε) :
    (Round.ofExcept wrap (.error e : Except ε α) : Round F σ P α).play peers p S box
      = some (((.error (wrap e), p), S), box) := rfl

/-- A round of a part changes that part, whether or not it fails. -/
theorem play_within (part : P → Q) (replace : Q → P → P) (round : Round F σ Q α) :
    (Round.within part replace round).play peers p S box
      = (round.play peers (part p) S box).map fun (((result, q), S), box) =>
          (((result, replace q p), S), box) := by
  refine (Exchange.play_bind ((round.run (part p)).run S) _ box).trans ?_
  rw [Option.map_eq_bind]
  rfl

/-- A round apart leaves the protocol alone. -/
theorem play_apart (q : Q) (round : Round F σ Q α) :
    (Round.apart q round : Round F σ P (α × Q)).play peers p S box
      = (round.play peers q S box).map fun (((result, q), S), box) =>
          (((result.map fun a => (a, q), p), S), box) := by
  refine (Exchange.play_bind ((round.run q).run S) _ box).trans ?_
  rw [Option.map_eq_bind]
  rfl

/-- A draw changes the supplier only. -/
@[simp] theorem play_draw [Supplier F σ] (item : Item) :
    (Round.draw item : Round F σ P (item.Value F)).play peers p S box
      = some ((((Supplier.draw (F := F) item S.supplier).1.mapError .preprocessing, p),
          { S with supplier := (Supplier.draw (F := F) item S.supplier).2 }), box) := by
  cases result : (Supplier.draw (F := F) item S.supplier).1 <;>
    simp [Round.draw, play_bind, result, Except.mapError]

theorem play_call (made : Call) :
    (Round.call made : Round F σ P made.Reply).play peers p S box
      = (box.answer peers made).map fun (reply, box) =>
          (((reply.mapError .transport, p), S), box) := by
  refine (Exchange.play_bind (Exchange.perform made) _ box).trans ?_
  rw [Exchange.play_perform, Option.map_eq_bind]
  refine congrArg _ (funext ?_)
  rintro ⟨reply | reply, box⟩ <;> rfl

variable {came : PartyId → List Bytes} {out : List Bytes}

@[simp] theorem play_sendAll (message : Bytes) :
    Round.play (α := Unit) peers (Round.call (.sendAll message) : Round F σ P _) p S
        (.among peers came out)
      = some (((.ok (), p), S), .among peers came (out ++ [message])) := by
  rw [play_call, Mailbox.answer_sendAll]
  rfl

@[simp] theorem play_receiveAll (message : PartyId → Bytes) (later : PartyId → List Bytes) :
    Round.play (α := List (PartyId × Bytes)) peers (Round.call .receiveAll : Round F σ P _) p S
        (.among peers (fun peer => message peer :: later peer) out)
      = some (((.ok (peers.map fun peer => (peer, message peer)), p), S),
          .among peers later out) := by
  rw [play_call, Mailbox.answer_receiveAll]
  rfl

theorem play_receive {sender : PartyId} (mem : sender ∈ peers) (message : Bytes) :
    Round.play (α := Bytes) peers (Round.call (.receive sender) : Round F σ P _) p S
        (.among peers (fun peer => if peer = sender then [message] else []) out)
      = some (((.ok message, p), S), .among peers (fun _ => []) out) := by
  rw [play_call, Mailbox.answer_receive mem]
  rfl

@[simp] theorem play_sendElements (elements : List (Elem F)) :
    (Round.sendElements elements : Round F σ P Unit).play peers p S (.among peers came out)
      = some (((.ok (), p), S), .among peers came (out ++ [Elem.encodeList elements])) :=
  play_sendAll _

/-- Elements are read from a message as they were written. -/
theorem play_decodeFrom (peer : PartyId) {count : Nat} (fits : count * F.byteLength < UInt64.size)
    {elements : List (Elem F)} (length : elements.length = count) :
    (Round.decodeFrom peer (Elem.encodeList elements) count : Round F σ P _).play peers p S box
      = some (((.ok elements, p), S), box) := by
  rw [← length, Round.decodeFrom_of_eq peer (Elem.decodeList_encodeList _ (length ▸ fits)),
    play_ofExcept_ok]

/-- One element that a party sent is received as it was sent. -/
theorem play_receiveElements {sender : PartyId} (mem : sender ∈ peers) {count : Nat}
    (fits : count * F.byteLength < UInt64.size) {elements : List (Elem F)}
    (length : elements.length = count) :
    (Round.receiveElements sender count : Round F σ P _).play peers p S
        (.among peers (fun peer => if peer = sender then [Elem.encodeList elements] else []) out)
      = some (((.ok elements, p), S), .among peers (fun _ => []) out) := by
  rw [Round.receiveElements, play_bind, play_receive mem, Option.bind_some, proceed_ok,
    play_decodeFrom sender fits length]

/-- Elements are received from all peers, if they can be read from their messages. -/
theorem play_receiveRead {count : Nat} {message : PartyId → Bytes} {elements : PartyId → List (Elem F)}
    (read : ∀ peer ∈ peers, Elem.decodeList F (message peer) count = some (.ok (elements peer)))
    (later : PartyId → List Bytes) :
    (Round.receiveElementsFromAll count : Round F σ P _).play peers p S
        (.among peers (fun peer => message peer :: later peer) out)
      = some (((.ok (peers.map fun peer => (peer, elements peer)), p), S),
          .among peers later out) := by
  have loop : ∀ (senders : List PartyId) (box : Mailbox), (∀ peer ∈ senders, peer ∈ peers) →
      ((senders.map fun peer => (peer, message peer)).mapM
        (fun (peer, message) => do
          return (peer, ← (Round.decodeFrom peer message count : Round F σ P _)))).play peers p S box
      = some (((.ok (senders.map fun peer => (peer, elements peer)), p), S), box) := by
    intro senders box among
    induction senders with
    | nil => rfl
    | cons peer senders ih =>
        have first : (Round.decodeFrom peer (message peer) count : Round F σ P _).play peers p S box
            = some (((.ok (elements peer), p), S), box) := by
          rw [Round.decodeFrom_of_eq peer (read peer (among peer (by simp))), play_ofExcept_ok]
        have rest := ih fun other mem => among other (by simp [mem])
        rw [List.map_cons, List.mapM_cons, play_bind, play_bind, first]
        simp only [Option.bind_some, proceed_ok, play_pure, play_bind, rest, List.map_cons]
  rw [Round.receiveElementsFromAll, play_bind, play_receiveAll, Option.bind_some, proceed_ok]
  exact loop peers _ fun _ mem => mem

/-- What a round does does not depend on messages that came too early for it. -/
theorem play_early {round : Round F σ P α} {came left : PartyId → List Bytes} {out out' : List Bytes}
    {X : (Except Error α × P) × Party F σ}
    (play : round.play peers p S (.among peers came out) = some (X, .among peers left out'))
    (early : PartyId → List Bytes) :
    round.play peers p S (.among peers (fun peer => came peer ++ early peer) out)
      = some (X, .among peers (fun peer => left peer ++ early peer) out') := by
  have joined : ∀ (came : PartyId → List Bytes) (out : List Bytes),
      Mailbox.among peers (fun peer => came peer ++ early peer) out
        = ⟨fun peer => (Mailbox.among peers came out).inbox peer
            ++ if peer ∈ peers then early peer else [], (Mailbox.among peers came out).outbox⟩ := by
    intro came out
    simp only [Mailbox.among, Mailbox.mk.injEq, and_true]
    funext peer
    split_ifs <;> rfl
  rw [joined, joined]
  exact Exchange.play_append play _

/-! ### What must have happened -/

/-- A round that succeeds has succeeded in each of its parts. -/
theorem of_play_bind {x : Round F σ P α} {next : α → Round F σ P β} {b : β} {p' : P}
    {S' : Party F σ} {box' : Mailbox}
    (play : (x >>= next).play peers p S box = some (((.ok b, p'), S'), box')) :
    ∃ a p₁ S₁ box₁, x.play peers p S box = some (((.ok a, p₁), S₁), box₁) ∧
      (next a).play peers p₁ S₁ box₁ = some (((.ok b, p'), S'), box') := by
  rw [play_bind] at play
  obtain ⟨⟨⟨⟨result, p₁⟩, S₁⟩, box₁⟩, first, second⟩ := Option.bind_eq_some_iff.mp play
  cases result with
  | error e => simp at second
  | ok a => exact ⟨a, p₁, S₁, box₁, first, second⟩

theorem of_play_discard {x : Round F σ P α} {a : PUnit} {p' : P} {S' : Party F σ} {box' : Mailbox}
    (play : (discard x).play peers p S box = some (((.ok a, p'), S'), box')) :
    ∃ a, x.play peers p S box = some (((.ok a, p'), S'), box') := by
  rw [play_discard] at play
  obtain ⟨⟨⟨⟨result, p₁⟩, S₁⟩, box₁⟩, inner, same⟩ := Option.bind_eq_some_iff.mp play
  cases result with
  | error e => cases same
  | ok a =>
      cases same
      exact ⟨a, inner⟩

/-- A round of a part that succeeds has succeeded there. -/
theorem of_play_within {part : P → Q} {replace : Q → P → P} {round : Round F σ Q α} {a : α} {p' : P}
    {S' : Party F σ} {box' : Mailbox}
    (play : (Round.within part replace round).play peers p S box = some (((.ok a, p'), S'), box')) :
    ∃ q, round.play peers (part p) S box = some (((.ok a, q), S'), box') ∧ p' = replace q p := by
  rw [play_within] at play
  obtain ⟨⟨⟨⟨result, q⟩, S₁⟩, box₁⟩, inner, same⟩ := Option.map_eq_some_iff.mp play
  cases same
  exact ⟨q, inner, rfl⟩

/-- A round apart that succeeds has succeeded there. -/
theorem of_play_apart {q q' : Q} {round : Round F σ Q α} {a : α} {p' : P} {S' : Party F σ}
    {box' : Mailbox} (play : (Round.apart q round : Round F σ P (α × Q)).play peers p S box
      = some (((.ok (a, q'), p'), S'), box')) :
    round.play peers q S box = some (((.ok a, q'), S'), box') ∧ p' = p := by
  rw [play_apart] at play
  obtain ⟨⟨⟨⟨result, q₁⟩, S₁⟩, box₁⟩, inner, same⟩ := Option.map_eq_some_iff.mp play
  cases result with
  | error e => cases same
  | ok a =>
      cases same
      exact ⟨inner, rfl⟩

/-- Who received from one party has sent nothing. -/
theorem of_play_receive {sender : PartyId} {message : Bytes} {p' : P} {S' : Party F σ}
    {box' : Mailbox}
    (play : Round.play (α := Bytes) peers (Round.call (.receive sender) : Round F σ P _) p S
      (.among peers came out) = some (((.ok message, p'), S'), box')) :
    p' = p ∧ S' = S ∧ ∃ came', box' = .among peers came' out := by
  rw [play_call] at play
  obtain ⟨⟨reply, box₁⟩, answer, same⟩ := Option.map_eq_some_iff.mp play
  cases reply with
  | error e => cases same
  | ok bytes =>
      cases same
      rw [Mailbox.answer] at answer
      split_ifs at answer with here
      obtain ⟨-, rfl⟩ := Prod.mk.inj (Option.some.inj answer)
      refine ⟨rfl, rfl, fun peer => if peer ∈ Call.sources peers (.receive sender)
        then (came peer).tail else came peer, ?_⟩
      simp only [Mailbox.among, Call.recipients, List.not_mem_nil, if_false, Mailbox.mk.injEq, and_true]
      funext peer
      split_ifs <;> simp

/-- Who received from all has got a message of each. -/
theorem of_play_receiveAll {X : ((Except Error (List (PartyId × Bytes)) × P) × Party F σ) × Mailbox}
    (play : Round.play (α := List (PartyId × Bytes)) peers (Round.call .receiveAll : Round F σ P _)
      p S (.among peers came out) = some X) :
    ∃ (message : PartyId → Bytes) (later : PartyId → List Bytes),
      Mailbox.among peers came out = .among peers (fun peer => message peer :: later peer) out := by
  have here : ∀ peer ∈ peers, came peer ≠ [] := by
    intro peer mem empty
    have missing : ¬ ∀ peer ∈ peers, (Mailbox.among peers came out).inbox peer ≠ [] := fun all =>
      all peer mem (by simp [Mailbox.among, empty])
    have stuck : (Mailbox.among peers came out).answer peers .receiveAll = none := by
      rw [Mailbox.answer]
      exact if_neg missing
    rw [play_call, stuck] at play
    simp at play
  refine ⟨fun peer => (came peer).headD [], fun peer => (came peer).tail, ?_⟩
  simp only [Mailbox.among, Mailbox.mk.injEq, and_true]
  funext peer
  by_cases mem : peer ∈ peers
  · simp only [if_pos mem]
    cases present : came peer with
    | nil => exact absurd present (here peer mem)
    | cons message later => rfl
  · simp only [if_neg mem]

end Round

/-! ## Adding up what was received -/

section Sums

variable {F : FieldSpec}

/-- What was received from each peer. -/
def receivedFrom (peers : List PartyId) (got : PartyId → List (Elem F)) :
    List (PartyId × List (Elem F)) := peers.map fun peer => (peer, got peer)

/-- What a party adds up is its own and what it received. -/
theorem sumAt_receivedFrom (own : Elem F) (peers : List PartyId) (got : PartyId → List (Elem F))
    (position : Nat) : sumAt own (receivedFrom peers got) position
      = own + (peers.map fun peer => (got peer).getD position 0).sum := by
  refine (Elem.foldl_add (fun received : PartyId × List (Elem F) => received.2.getD position 0)
    _ _).trans ?_
  rw [receivedFrom, List.map_map]
  rfl

end Sums

/-! ## All parties -/

/-- **Turns.**  When every party `i` plays the round from its states `p i` and `S i`, on what the
others sent to all in the round before, it takes all of that, its result is `result i`, it is left
with `p' i` and `S' i`, and it sends `out i` to all. -/
def Turns {F : FieldSpec} {σ P α : Type} (n : Nat) (round : Round F σ P α) (p : PartyId → P)
    (S : PartyId → Party F σ) (came : PartyId → List Bytes) (result : PartyId → Except Error α)
    (p' : PartyId → P) (S' : PartyId → Party F σ) (out : PartyId → List Bytes) : Prop :=
  ∀ i, IsMember n i → round.play (peersOf i n) (p i) (S i) (.among (peersOf i n) came [])
    = some (((result i, p' i), S' i), .among (peersOf i n) (fun _ => []) (out i))

/-! ## Protocols within others -/

/-- The states of a protocol are found among those of another one, which does the same there. -/
def Embeds {F : FieldSpec} (σ : Type) {P Q : Type} [Protocol F σ P] [Protocol F σ Q] (wrap : P → Q) :
    Prop :=
  ∀ (round : Nat) (p : P), (Protocol.evaluate round : Round F σ Q Status).run (wrap p)
    = (Round.within (fun _ => p) (fun p _ => wrap p)
        (Protocol.evaluate round : Round F σ P Status)).run (wrap p)

/-- A round of the other protocol, as a round of the protocol. -/
theorem Embeds.evaluate {F : FieldSpec} {σ P Q : Type} [Protocol F σ P] [Protocol F σ Q]
    {wrap : P → Q} (embeds : Embeds (F := F) σ wrap) (round : Nat) (p : P) :
    ((Protocol.evaluate round : Round F σ Q Status).run (wrap p) : Action F σ _)
      = (fun (result, p) => (result, wrap p))
          <$> (Protocol.evaluate round : Round F σ P Status).run p := embeds round p

theorem Embeds.comp {F : FieldSpec} {σ P Q R : Type} [Protocol F σ P] [Protocol F σ Q] [Protocol F σ R]
    {wrap : P → Q} {wrap' : Q → R} (outer : Embeds (F := F) σ wrap') (inner : Embeds (F := F) σ wrap) :
    Embeds (F := F) σ fun p => wrap' (wrap p) := by
  intro round p
  have within := outer.evaluate round (wrap p)
  rw [inner.evaluate, Functor.map_map] at within
  exact within

theorem Embeds.play {F : FieldSpec} {σ P Q : Type} [Protocol F σ P] [Protocol F σ Q] {wrap : P → Q}
    (embeds : Embeds (F := F) σ wrap) {peers : List PartyId} {round : Nat} {p : P} {S : Party F σ}
    {box : Mailbox} : (Protocol.evaluate round : Round F σ Q Status).play peers (wrap p) S box
      = ((Protocol.evaluate round : Round F σ P Status).play peers p S box).map
          fun (((result, p), S), box) => (((result, wrap p), S), box) := by
  have same := congrArg (fun turn => Exchange.play peers (turn.run S) box) (embeds round p)
  exact same.trans (Round.play_within (fun _ => p) (fun p _ => wrap p) (Protocol.evaluate round))

theorem Turns.embed {F : FieldSpec} {σ P Q : Type} [Protocol F σ P] [Protocol F σ Q] {wrap : P → Q}
    (embeds : Embeds (F := F) σ wrap) {n round : Nat} {p p' : PartyId → P}
    {S S' : PartyId → Party F σ} {came out : PartyId → List Bytes}
    {result : PartyId → Except Error Status}
    (turns : Turns n (Protocol.evaluate round) p S came result p' S' out) :
    Turns n (Protocol.evaluate round) (fun i => wrap (p i)) S came result (fun i => wrap (p' i)) S'
      out := by
  intro i member
  rw [embeds.play, turns i member]
  rfl

end Spdz
