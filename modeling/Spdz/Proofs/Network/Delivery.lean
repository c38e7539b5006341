import Spdz.Network.Mesh
import Spdz.Proofs.Network.Joint

/-!
# Byte streams deliver messages

As long as every message fits into a frame, a mesh of byte streams is as good as one queue of messages
for each sender and receiver.  A call that waits for all may have taken messages from some of the streams
already, and these still count as not received.

* `Backlog` — messages that were sent and not received, and `Backlog.after`, what a call makes of them.
* `Mesh.Carries` — the streams of a mesh hold just these messages.
* **`Mesh.Carries.poll_settled`**, **`Mesh.Carries.poll_waiting`** — a call either gets the messages that
  are due, or it waits and no message is lost.
-/

namespace Spdz

/-! ## Frames -/

/-- The message is not too long for a frame. -/
def Frame.Fits (message : Bytes) : Prop := (Frame.encodeBody message).length ≤ Frame.maxLength

instance (message : Bytes) : Decidable (Frame.Fits message) := inferInstanceAs (Decidable (_ ≤ _))

theorem Frame.Fits.exists_encode? {message : Bytes} (fits : Frame.Fits message) :
    ∃ frame, Frame.encode? message = some frame :=
  ⟨_, if_neg (Nat.not_lt.mpr fits)⟩

theorem Frame.fits_of_encode? {message frame : Bytes} (framed : Frame.encode? message = some frame) :
    Frame.Fits message := by
  by_contra long
  rw [Frame.encode?, if_pos (Nat.lt_of_not_le long)] at framed
  cases framed

theorem Frame.Fits.decodeBody {message : Bytes} (fits : Frame.Fits message) :
    Frame.decodeBody (Frame.encodeBody message) = some message := by
  refine Frame.decodeBody_encodeBody (Nat.lt_of_le_of_lt ?_ (by decide : Frame.maxLength < UInt64.size))
  refine Nat.le_trans ?_ fits
  rw [Frame.encodeBody, List.length_append]
  exact Nat.le_add_left ..

/-- The bytes of messages, frame by frame. -/
inductive Framed : List Bytes → Bytes → Prop where
  | nil : Framed [] []
  | cons {message frame bytes : Bytes} {messages : List Bytes}
      (framed : Frame.encode? message = some frame) (later : Framed messages bytes) :
    Framed (message :: messages) (frame ++ bytes)

namespace Framed

variable {message bytes : Bytes} {messages : List Bytes}

theorem snoc (framed : Framed messages bytes) {frame : Bytes}
    (last : Frame.encode? message = some frame) : Framed (messages ++ [message]) (bytes ++ frame) := by
  induction framed with
  | nil => simpa using Framed.cons last .nil
  | cons first _ ih => simpa using Framed.cons first ih

/-- Reading what was written gives the first message. -/
theorem read (framed : Framed (message :: messages) bytes) : ∃ body rest,
    Frame.read bytes = .frame body rest ∧ Frame.decodeBody body = some message ∧
      Framed messages rest := by
  cases framed with
  | cons framed later =>
      exact ⟨_, _, Frame.read_encode? framed _, (Frame.fits_of_encode? framed).decodeBody, later⟩

theorem read_nil (framed : Framed [] bytes) : Frame.read bytes = .incomplete := by
  cases framed
  rfl

end Framed

/-! ## Streams -/

namespace ByteStream

variable {stream : ByteStream} {message : Bytes} {messages : List Bytes}

/-- The stream holds these messages and nothing else. -/
structure Holds (stream : ByteStream) (messages : List Bytes) : Prop where
  sound : stream.state = .sound
  framed : Framed messages stream.unread

/-- How far a reader has fetched does not matter. -/
theorem Holds.fetchFrame (holds : stream.Holds messages) : stream.fetchFrame.Holds messages := by
  have kept : stream.fetchFrame.state = stream.state ∧ stream.fetchFrame.unread = stream.unread := by
    unfold ByteStream.fetchFrame
    split
    · exact ⟨rfl, rfl⟩
    · simp only [fetch, takeHead]
      split <;> exact ⟨rfl, rfl⟩
  exact ⟨kept.1.trans holds.sound, kept.2.symm ▸ holds.framed⟩

end ByteStream

/-! ## Calls -/

/-- The first message of each sender, as far as there is one. -/
def firsts (senders : List PartyId) (due : PartyId → List Bytes) : Held :=
  senders.filterMap fun peer => (due peer).head?.map fun message => (peer, message)

theorem lookup_firsts (senders : List PartyId) (due : PartyId → List Bytes) (peer : PartyId) :
    (firsts senders due).lookup peer = if peer ∈ senders then (due peer).head? else none := by
  induction senders with
  | nil => rfl
  | cons sender senders ih =>
      rw [firsts] at ih ⊢
      by_cases same : peer = sender
      · subst same
        cases waits : due peer with
        | nil => simpa [waits] using ih
        | cons message later => simp [waits]
      · have other : (peer == sender) = false := by simpa using same
        cases waits : due sender <;> simpa [waits, same, List.lookup_cons, other] using ih

/-- Only a call that waits for all holds messages, and these are of its peers. -/
structure Call.Suits (peers : List PartyId) (held : Held) (made : Call) : Prop where
  eq_nil : made ≠ .receiveAll → held = []
  lookup : ∀ peer ∉ peers, held.lookup peer = none

theorem Call.suits_nil (peers : List PartyId) (made : Call) : made.Suits peers [] :=
  ⟨fun _ => rfl, fun _ _ => rfl⟩

/-! ## Meshes -/

/-- Messages by sender and receiver, the oldest first. -/
abbrev Backlog := PartyId → PartyId → List Bytes

namespace Backlog

/-- Messages that a waiting call has taken are not received yet. -/
def withHeld (self : PartyId) (held : Held) (backlog : Backlog) : Backlog :=
  fun a b => if b = self then (held.lookup a).toList ++ backlog a b else backlog a b

/-- Other messages from one party to another. -/
def set (backlog : Backlog) (sender receiver : PartyId) (messages : List Bytes) : Backlog :=
  fun a b => if (a, b) = (sender, receiver) then messages else backlog a b

theorem set_self (backlog : Backlog) (sender receiver : PartyId) :
    backlog.set sender receiver (backlog sender receiver) = backlog := by
  funext a b
  simp only [set]
  split_ifs with here
  · rw [(Prod.mk.inj here).1, (Prod.mk.inj here).2]
  · rfl

theorem withHeld_nil (backlog : Backlog) (self : PartyId) : backlog.withHeld self [] = backlog := by
  funext a b
  simp [withHeld]

/-- What a call takes and then holds is not lost. -/
theorem withHeld_firsts {senders : List PartyId} {self : PartyId} {held : Held} {backlog : Backlog}
    (known : ∀ peer ∉ senders, held.lookup peer = none) :
    withHeld self (firsts senders fun peer => backlog.withHeld self held peer self)
        (fun a b =>
          if b = self ∧ a ∈ senders then (backlog.withHeld self held a self).tail else backlog a b)
      = backlog.withHeld self held := by
  funext a b
  by_cases mine : b = self
  · subst mine
    rw [withHeld, if_pos rfl, lookup_firsts]
    by_cases sender : a ∈ senders
    · rw [if_pos sender, if_pos ⟨rfl, sender⟩]
      cases backlog.withHeld b held a b <;> rfl
    · rw [if_neg sender, if_neg fun here => sender here.2, withHeld, if_pos rfl, known a sender]
  · rw [withHeld, if_neg mine, if_neg fun here => mine here.1, withHeld, if_neg mine]

/-- There is a message of each party that the call waits for. -/
def Ready (n : Nat) (self : PartyId) (made : Call) (backlog : Backlog) : Prop :=
  ∀ peer ∈ made.sources (peersOf self n), backlog peer self ≠ []

instance (n : Nat) (self : PartyId) (made : Call) (backlog : Backlog) :
    Decidable (backlog.Ready n self made) :=
  inferInstanceAs (Decidable (∀ peer ∈ _, _))

/-- What the call then gives. -/
def answer (n : Nat) (self : PartyId) (made : Call) (backlog : Backlog) :
    Except TransportError made.Reply :=
  made.reply (peersOf self n) fun peer => (backlog peer self).headD []

/-- What the call makes of the messages that were not received. -/
def after (n : Nat) (self : PartyId) (made : Call) (backlog : Backlog) : Backlog := fun a b =>
  if b = self ∧ a ∈ made.sources (peersOf self n) then (backlog a b).tail
  else if a = self ∧ b ∈ made.recipients (peersOf self n) then backlog a b ++ [made.payload]
  else backlog a b

/-- The first message of each sender is taken. -/
def taking (self : PartyId) (senders : List PartyId) (backlog : Backlog) : Backlog :=
  fun a b => if b = self ∧ a ∈ senders then (backlog a b).tail else backlog a b

section After

variable {n : Nat} {self peer : PartyId} {backlog : Backlog}

theorem after_send (known : peer ∈ peersOf self n) (message : Bytes) :
    backlog.after n self (.send peer message)
      = backlog.set self peer (backlog self peer ++ [message]) := by
  funext a b
  by_cases here : a = self ∧ b = peer
  · simp [after, set, Call.sources, Call.recipients, Call.payload, known, here]
  · simp [after, set, Call.sources, Call.recipients, known, here]

theorem after_receive (known : peer ∈ peersOf self n) :
    backlog.after n self (.receive peer) = backlog.set peer self (backlog peer self).tail := by
  funext a b
  by_cases here : a = peer ∧ b = self
  · simp [after, set, Call.sources, known, here]
  · have other : ¬ (b = self ∧ a = peer) := fun there => here there.symm
    simp [after, set, Call.sources, Call.recipients, known, here, other]

/-- A call that names somebody who is no peer changes nothing. -/
theorem after_stranger (stranger : peer ∉ peersOf self n) {made : Call}
    (names : made = .receive peer ∨ ∃ message, made = .send peer message) :
    backlog.after n self made = backlog := by
  funext a b
  obtain rfl | ⟨message, rfl⟩ := names <;> simp [after, Call.sources, Call.recipients, stranger]

theorem after_receiveAll :
    backlog.after n self .receiveAll = backlog.taking self (peersOf self n) := by
  funext a b
  simp only [after, taking, Call.sources, Call.recipients, List.not_mem_nil, and_false, if_false]

end After

end Backlog

namespace Mesh

variable {n : Nat} {mesh : Mesh} {backlog : Backlog} {sender receiver : PartyId} {message : Bytes}

/-- The streams of the mesh hold these messages, and nobody has left. -/
structure Carries (n : Nat) (backlog : Backlog) (mesh : Mesh) : Prop where
  parties : mesh.parties = n
  closed : mesh.closed = []
  streams : ∀ a b, (mesh.streams.get a b).Holds (backlog a b)

theorem carries_start : Carries n (fun _ _ => []) { parties := n } :=
  ⟨rfl, rfl, fun _ _ => ⟨rfl, .nil⟩⟩

namespace Carries

theorem congr {backlog' : Backlog} (carries : mesh.Carries n backlog)
    (same : ∀ a b, backlog' a b = backlog a b) : mesh.Carries n backlog' :=
  (funext fun a => funext fun b => same a b : backlog' = backlog) ▸ carries

/-- Only the stream from one party to another is changed. -/
theorem set (carries : mesh.Carries n backlog) {stream : ByteStream} {messages : List Bytes}
    (holds : stream.Holds messages) :
    Carries n (backlog.set sender receiver messages)
      { mesh with streams := mesh.streams.set sender receiver stream } where
  parties := carries.parties
  closed := carries.closed
  streams := by
    intro a b
    simp only [Links.get_set, Backlog.set]
    split_ifs
    · exact holds
    · exact carries.streams a b

theorem send (carries : mesh.Carries n backlog) (sender receiver : PartyId)
    (fits : Frame.Fits message) : ∃ after, mesh.send sender receiver message = (true, after) ∧
      after.Carries n (backlog.set sender receiver (backlog sender receiver ++ [message])) := by
  obtain ⟨frame, framed⟩ := fits.exists_encode?
  have open' : receiver ∉ mesh.closed := carries.closed ▸ List.not_mem_nil
  refine ⟨mesh.write sender receiver frame, ?_, ?_⟩
  · rw [Mesh.send, framed]
    exact if_neg open'
  · obtain ⟨sound, holds⟩ := carries.streams sender receiver
    exact carries.set ⟨sound, holds.snoc framed⟩

theorem take_nil (carries : mesh.Carries n backlog) (none : backlog sender receiver = []) :
    ∃ after, mesh.take receiver sender = (.nothing, after) ∧ after.Carries n backlog := by
  have holds := carries.streams sender receiver
  have open' : sender ∉ mesh.closed := carries.closed ▸ List.not_mem_nil
  refine ⟨_, ?_, backlog.set_self sender receiver ▸ carries.set holds.fetchFrame⟩
  simp [Mesh.take, holds.sound, (none ▸ holds.framed).read_nil, open']

theorem take_cons (carries : mesh.Carries n backlog) {later : List Bytes}
    (waits : backlog sender receiver = message :: later) :
    ∃ after, mesh.take receiver sender = (.message message, after) ∧
      after.Carries n (backlog.set sender receiver later) := by
  have holds := carries.streams sender receiver
  obtain ⟨body, rest, read, decoded, framed⟩ := (waits ▸ holds.framed).read
  have sound : ((mesh.streams.get sender receiver).next body.length rest).state = .sound := holds.sound
  refine ⟨_, ?_, carries.set ⟨sound, framed⟩⟩
  simp [Mesh.take, holds.sound, read, decoded]

/-- The same message is sent to some parties. -/
theorem sendEach (carries : mesh.Carries n backlog) (sender : PartyId) (fits : Frame.Fits message)
    {receivers : List PartyId} (nodup : receivers.Nodup) : ∃ after,
      Medium.sendEach sender message receivers mesh = (.ok (), after) ∧
      after.Carries n fun a b =>
        if a = sender ∧ b ∈ receivers then backlog a b ++ [message] else backlog a b := by
  induction receivers generalizing mesh backlog with
  | nil => exact ⟨mesh, rfl, by simpa using carries⟩
  | cons receiver receivers ih =>
      obtain ⟨new, nodup⟩ := List.nodup_cons.mp nodup
      obtain ⟨between, first, carries⟩ := carries.send sender receiver fits
      obtain ⟨after, others, carries⟩ := ih carries nodup
      refine ⟨after, ?_, ?_⟩
      · rw [Medium.sendEach]
        simp only [Medium.send, first]
        exact others
      · convert carries using 3 with a b
        simp only [Backlog.set, Prod.mk.injEq, List.mem_cons]
        by_cases here : b = receiver
        · subst here
          by_cases self : a = sender <;> simp [self, new]
        · simp [here]

/-- What comes of a party is the first message that is due, be it held or on its stream. -/
theorem gather_cons (carries : mesh.Carries n backlog) {watch : Watch} (atOnce : watch ≠ .inTurn)
    (self peer : PartyId) (held : Held) {due : List Bytes}
    (same : backlog.withHeld self held peer self = due) :
    ∃ after, after.Carries n (backlog.set peer self due.tail) ∧ ∀ complete senders,
      Medium.gather watch self held complete (peer :: senders) mesh = match due with
        | [] => Medium.gather watch self held false senders after
        | message :: _ =>
          let (rest, medium) := Medium.gather watch self held complete senders after
          (rest.map fun (complete, messages) => (complete, (peer, message) :: messages), medium) := by
  rw [Backlog.withHeld, if_pos rfl] at same
  cases found : held.lookup peer with
  | some message =>
      obtain rfl : message :: backlog peer self = due := by simpa [found] using same
      refine ⟨mesh, ?_, fun complete senders => by rw [Medium.gather, found]⟩
      rwa [List.tail_cons, backlog.set_self]
  | none =>
      obtain rfl : backlog peer self = due := by simpa [found] using same
      cases waits : backlog peer self with
      | nil =>
          obtain ⟨after, taken, carries⟩ := carries.take_nil waits
          refine ⟨after, ?_, fun complete senders => ?_⟩
          · rwa [List.tail_nil, ← waits, backlog.set_self]
          · rw [Medium.gather, found]
            simp only [Medium.take, taken, if_neg atOnce]
      | cons message later =>
          obtain ⟨after, taken, carries⟩ := carries.take_cons waits
          refine ⟨after, carries, fun complete senders => ?_⟩
          rw [Medium.gather, found]
          simp only [Medium.take, taken]

/-- One message of each party is collected, as far as they are there. -/
theorem gather (carries : mesh.Carries n backlog) {watch : Watch} (atOnce : watch ≠ .inTurn)
    (self : PartyId) (held : Held) (complete : Bool) {senders : List PartyId} (nodup : senders.Nodup)
    {due : PartyId → List Bytes}
    (dues : ∀ peer ∈ senders, backlog.withHeld self held peer self = due peer) :
    ∃ after, Medium.gather watch self held complete senders mesh
        = (.ok (complete && senders.all fun peer => !(due peer).isEmpty,
            firsts senders due), after) ∧
      after.Carries n fun a b => if b = self ∧ a ∈ senders then (due a).tail else backlog a b := by
  induction senders generalizing mesh backlog complete with
  | nil => exact ⟨mesh, by simp [Medium.gather, firsts], by simpa using carries⟩
  | cons peer senders ih =>
      obtain ⟨new, nodup⟩ := List.nodup_cons.mp nodup
      obtain ⟨between, carries, first⟩ := carries.gather_cons atOnce self peer held (dues peer (by simp))
      have others : ∀ other ∈ senders,
          (backlog.set peer self (due peer).tail).withHeld self held other self = due other := by
        intro other mem
        have differs : other ≠ peer := fun same => new (same ▸ mem)
        rw [← dues other (by simp [mem])]
        simp [Backlog.withHeld, Backlog.set, differs]
      have same : (fun a b => if b = self ∧ a ∈ senders then (due a).tail
            else backlog.set peer self (due peer).tail a b)
          = fun a b => if b = self ∧ a ∈ peer :: senders then (due a).tail else backlog a b := by
        funext a b
        by_cases here : a = peer
        · subst here
          by_cases mine : b = self <;> simp [Backlog.set, mine, new]
        · simp [Backlog.set, here]
      rw [first]
      cases waits : due peer with
      | nil =>
          obtain ⟨after, rest, carries⟩ := ih carries false nodup others
          refine ⟨after, ?_, same ▸ carries⟩
          simp [rest, waits, firsts]
      | cons message later =>
          obtain ⟨after, rest, carries⟩ := ih carries complete nodup others
          refine ⟨after, ?_, same ▸ carries⟩
          simp [rest, waits, firsts, Except.map]

theorem watch_ne_inTurn (mesh : Mesh) : Medium.watch mesh ≠ .inTurn := by
  show (if mesh.parties ≤ maxTogether then Watch.together else .inOrder) ≠ .inTurn
  split_ifs <;> decide

variable {self : PartyId} {held : Held} {made : Call}

/-- **A call gets the messages that are due**, once they are all there. -/
theorem poll_settled (carries : mesh.Carries n backlog) (suits : made.Suits (peersOf self n) held)
    (fits : Frame.Fits made.payload) (ready : (backlog.withHeld self held).Ready n self made) :
    ∃ after, Medium.poll self held mesh made
        = (.settled ((backlog.withHeld self held).answer n self made), after) ∧
      after.Carries n ((backlog.withHeld self held).after n self made) := by
  have parties : Medium.parties mesh = n := carries.parties
  cases made with
  | send peer message =>
      obtain rfl := suits.eq_nil (by simp)
      rw [Backlog.withHeld_nil, Medium.poll, parties]
      by_cases known : peer ∈ peersOf self n
      · have short : Frame.Fits message := fits
        obtain ⟨after, sent, carries⟩ := carries.send self peer short
        refine ⟨after, ?_, Backlog.after_send known message ▸ carries⟩
        simp only [known, if_true, Medium.send, sent, Backlog.answer, Call.reply]
      · refine ⟨mesh, ?_, (Backlog.after_stranger known (.inr ⟨message, rfl⟩)).symm ▸ carries⟩
        simp only [known, if_false, Backlog.answer, Call.reply]
  | receive peer =>
      obtain rfl := suits.eq_nil (by simp)
      rw [Backlog.withHeld_nil] at ready
      rw [Backlog.withHeld_nil, Medium.poll, parties]
      by_cases known : peer ∈ peersOf self n
      · obtain ⟨message, later, waits⟩ := List.exists_cons_of_ne_nil
          (ready peer (by simp [Call.sources, known]))
        obtain ⟨after, taken, carries⟩ := carries.take_cons waits
        refine ⟨after, ?_, ?_⟩
        · simp only [known, if_true, Medium.take, taken, Backlog.answer, Call.reply, waits,
            List.headD_cons]
        · rwa [Backlog.after_receive known, waits, List.tail_cons]
      · refine ⟨mesh, ?_, (Backlog.after_stranger known (.inl rfl)).symm ▸ carries⟩
        simp only [known, if_false, Backlog.answer, Call.reply]
  | sendAll message =>
      obtain rfl := suits.eq_nil (by simp)
      rw [Backlog.withHeld_nil]
      have short : Frame.Fits message := fits
      obtain ⟨after, sent, carries⟩ := carries.sendEach self short (nodup_peersOf (n := n) self)
      refine ⟨after, ?_, carries.congr fun a b => ?_⟩
      · simp only [Medium.poll, parties, sent, Backlog.answer, Call.reply]
      · simp only [Backlog.after, Call.sources, Call.recipients, Call.payload, List.not_mem_nil,
          and_false, if_false]
        congr
  | receiveAll =>
      obtain ⟨after, gathered, carries⟩ := carries.gather (watch_ne_inTurn mesh) self held true
        (nodup_peersOf (n := n) self) fun _ _ => rfl
      have there : ∀ peer ∈ peersOf self n, backlog.withHeld self held peer self ≠ [] := ready
      have all : (peersOf self n).all (fun peer => !(backlog.withHeld self held peer self).isEmpty)
          = true := by
        simpa [List.all_eq_true] using there
      refine ⟨after, ?_, carries.congr fun a b => ?_⟩
      · simp only [Medium.poll, parties, gathered, all, Bool.and_self, Backlog.answer, Call.reply]
        rw [firsts, List.filterMap_congr fun peer mem => ?_, List.filterMap_eq_map']
        obtain ⟨message, later, waits⟩ := List.exists_cons_of_ne_nil (there peer mem)
        rw [waits]
        rfl
      · rw [Backlog.after_receiveAll, Backlog.taking]
        by_cases here : b = self ∧ a ∈ peersOf self n
        · rw [if_pos here, if_pos here, here.1]
        · rw [if_neg here, if_neg here, Backlog.withHeld]
          split_ifs with mine
          · rw [suits.lookup a fun mem => here ⟨mine, mem⟩, Option.toList_none, List.nil_append]
          · rfl

/-- **A call that waits loses no message.**  What it has taken so far it holds. -/
theorem poll_waiting (carries : mesh.Carries n backlog) (suits : made.Suits (peersOf self n) held)
    (waits : ¬ (backlog.withHeld self held).Ready n self made) :
    ∃ held' after backlog', Medium.poll self held mesh made = (.waiting held', after) ∧
      made.Suits (peersOf self n) held' ∧ after.Carries n backlog' ∧
      backlog'.withHeld self held' = backlog.withHeld self held := by
  have parties : Medium.parties mesh = n := carries.parties
  simp only [Backlog.Ready, not_forall, not_not] at waits
  obtain ⟨peer, source, empty⟩ := waits
  cases made with
  | send other message => cases source
  | sendAll message => cases source
  | receive other =>
      obtain rfl := suits.eq_nil (by simp)
      simp only [Call.sources] at source
      split_ifs at source with known
      · obtain rfl := List.mem_singleton.mp source
        rw [Backlog.withHeld_nil] at empty
        obtain ⟨after, taken, carries⟩ := carries.take_nil empty
        refine ⟨[], after, backlog, ?_, suits, carries, rfl⟩
        simp only [Medium.poll, parties, known, if_true, Medium.take, taken]
      · cases source
  | receiveAll =>
      obtain ⟨after, gathered, carries⟩ := carries.gather (watch_ne_inTurn mesh) self held true
        (nodup_peersOf (n := n) self) fun _ _ => rfl
      have short : (peersOf self n).all (fun peer => !(backlog.withHeld self held peer self).isEmpty)
          = false := List.all_eq_false.mpr ⟨peer, source, by simp [empty]⟩
      refine ⟨firsts (peersOf self n) fun peer => backlog.withHeld self held peer self, after, _, ?_,
        ⟨fun other => absurd rfl other, fun peer stranger => by rw [lookup_firsts, if_neg stranger]⟩,
        carries, ?_⟩
      · simp only [Medium.poll, parties, gathered, short, Bool.and_false]
      · exact Backlog.withHeld_firsts suits.lookup

end Carries

end Mesh

end Spdz
