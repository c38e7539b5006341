import Mathlib.Data.List.Induction
import Spdz.Proofs.Network.Delivery
import Spdz.Proofs.Network.Traces

/-!
# Logs of calls

The calls that parties have completed, in the order in which they did, tell what each party has sent to
each and what it got.  The network is as one wishes if every reply is what was sent, with the next
message of each party that the call waits for.

* `Log.sentTo`, `Log.gotBy` — what was sent and what was received.
* `Log.IsDue`, **`Log.Lawful`** — a reply is the one that is due, and all are.
* **`Log.Lawful.gotBy_first`** — what was received is what was sent first.
* **`Log.lawful_receiveAll`** — to receive from all is to receive from each in turn.
-/

namespace Spdz

/-! ## What was sent and what was received -/

/-- A reply depends on the messages that the call waits for. -/
theorem Call.reply_congr {peers : List PartyId} {got got' : PartyId → Bytes} {made : Call}
    (same : ∀ peer ∈ made.sources peers, got peer = got' peer) :
    made.reply peers got = made.reply peers got' := by
  cases made with
  | send peer message => rfl
  | receive peer =>
      by_cases known : peer ∈ peers
      · simp only [reply, known, if_true]
        rw [same peer (by simp [sources, known])]
      · simp only [reply, known, if_false]
  | sendAll message => rfl
  | receiveAll =>
      simp only [reply]
      rw [List.map_congr_left fun peer mem => by rw [same peer mem]]

namespace Event

variable {n : Nat} {self peer : PartyId} {event : Event} {got : PartyId → Bytes}

/-- The message that a call sends to a party if it succeeds. -/
def sentTo (n : Nat) (self receiver : PartyId) : Event → List Bytes
  | ⟨.send peer message, .ok _⟩ => if peer = receiver then [message] else []
  | ⟨.sendAll message, .ok _⟩ => if receiver ∈ peersOf self n then [message] else []
  | _ => []

/-- The messages that a call gets of a party if it succeeds. -/
def gotFrom (sender : PartyId) : Event → List Bytes
  | ⟨.receive peer, .ok message⟩ => if peer = sender then [message] else []
  | ⟨.receiveAll, .ok received⟩ => (received.filter fun entry => entry.1 = sender).map Prod.snd
  | _ => []

/-- One message of each sender. -/
theorem map_filter_map {senders : List PartyId} (nodup : senders.Nodup) (got : PartyId → Bytes)
    (peer : PartyId) :
    ((senders.map fun sender => (sender, got sender)).filter fun entry => entry.1 = peer).map Prod.snd
      = if peer ∈ senders then [got peer] else [] := by
  induction senders with
  | nil => rfl
  | cons sender senders ih =>
      obtain ⟨new, nodup⟩ := List.nodup_cons.mp nodup
      by_cases same : sender = peer
      · subst same; simpa [new] using ih nodup
      · simpa [same, Ne.symm same] using ih nodup

theorem sentTo_eq (right : event.reply = event.made.reply (peersOf self n) got) (peer : PartyId) :
    event.sentTo n self peer
      = if peer ∈ event.made.recipients (peersOf self n) then [event.made.payload] else [] := by
  obtain ⟨made, reply⟩ := event
  simp only at right
  subst right
  cases made with
  | send other message =>
      by_cases known : other ∈ peersOf self n
      · simp [Call.reply, known, sentTo, Call.recipients, Call.payload, eq_comm]
      · simp [Call.reply, known, sentTo, Call.recipients]
  | receive other => simp [sentTo, Call.recipients]
  | sendAll message => rfl
  | receiveAll => rfl

theorem gotFrom_eq (right : event.reply = event.made.reply (peersOf self n) got) (peer : PartyId) :
    event.gotFrom peer = if peer ∈ event.made.sources (peersOf self n) then [got peer] else [] := by
  obtain ⟨made, reply⟩ := event
  simp only at right
  subst right
  cases made with
  | send other message => simp [gotFrom, Call.sources]
  | receive other =>
      by_cases known : other ∈ peersOf self n
      · by_cases same : other = peer
        · subst same; simp [Call.reply, known, gotFrom, Call.sources]
        · simp [Call.reply, known, gotFrom, Call.sources, same, Ne.symm same]
      · simp [Call.reply, known, gotFrom, Call.sources]
  | sendAll message => rfl
  | receiveAll =>
      simp only [Call.reply, gotFrom, Call.sources]
      exact map_filter_map (nodup_peersOf self) got peer

end Event

/-- The calls that the parties have completed, with their replies. -/
abbrev Log := List (PartyId × Event)

namespace Log

/-- The messages that were sent from one party to another. -/
def sentTo (n : Nat) (log : Log) (sender receiver : PartyId) : List Bytes :=
  log.flatMap fun (self, event) => if self = sender then event.sentTo n sender receiver else []

/-- The messages that a party has got of another one. -/
def gotBy (log : Log) (receiver sender : PartyId) : List Bytes :=
  log.flatMap fun (self, event) => if self = receiver then event.gotFrom sender else []

/-- The reply is the one that is due: everything is sent, and the next message of each party that the
call waits for is there.  A party without a channel is unknown. -/
def IsDue (n : Nat) (log : Log) (self : PartyId) (event : Event) : Prop :=
  ∃ got : PartyId → Bytes,
    (∀ peer ∈ event.made.sources (peersOf self n),
      (log.sentTo n peer self)[(log.gotBy self peer).length]? = some (got peer)) ∧
    event.reply = event.made.reply (peersOf self n) got

/-- **Lawful.**  All calls are of members, all messages fit into frames, and every reply was due. -/
def Lawful (n : Nat) (log : Log) : Prop :=
  ∀ before self event later, log = before ++ (self, event) :: later →
    IsMember n self ∧ Frame.Fits event.made.payload ∧ IsDue n before self event

variable {n : Nat} {log : Log} {self : PartyId} {event : Event}

theorem lawful_nil : Lawful n [] := by
  intro before self event later same
  cases before <;> cases same

theorem lawful_snoc : Lawful n (log ++ [(self, event)]) ↔
    Lawful n log ∧ IsMember n self ∧ Frame.Fits event.made.payload ∧ IsDue n log self event := by
  constructor
  · intro lawful
    refine ⟨fun before who what later same => ?_, lawful log self event [] rfl⟩
    exact lawful before who what (later ++ [(self, event)]) (by simp [same])
  · rintro ⟨lawful, last⟩ before who what later same
    rcases List.eq_nil_or_concat later with rfl | ⟨later, entry, rfl⟩
    · obtain ⟨rfl, here⟩ := List.append_inj' same rfl
      cases here
      exact last
    · refine lawful before who what later ?_
      have longer : log ++ [(self, event)] = (before ++ (who, what) :: later) ++ [entry] := by
        simpa using same
      exact (List.append_inj' longer rfl).1

/-! ## What is not received yet -/

/-- What was sent and not received. -/
def backlog (n : Nat) (log : Log) : Backlog :=
  fun sender receiver => (log.sentTo n sender receiver).drop (log.gotBy receiver sender).length

/-- The reply that is due is made of the messages that are not received yet. -/
theorem isDue_iff : IsDue n log self event ↔ (log.backlog n).Ready n self event.made ∧
    event.reply = (log.backlog n).answer n self event.made := by
  constructor
  · rintro ⟨got, next, right⟩
    have first : ∀ peer ∈ event.made.sources (peersOf self n),
        (log.backlog n peer self).head? = some (got peer) := fun peer source =>
      List.head?_drop.trans (next peer source)
    refine ⟨fun peer source empty => ?_, right.trans (Call.reply_congr fun peer source => ?_)⟩
    · have none := first peer source
      rw [empty] at none
      cases none
    · rw [List.headD_eq_head?_getD, first peer source, Option.getD_some]
  · rintro ⟨ready, right⟩
    refine ⟨_, fun peer source => ?_, right⟩
    obtain ⟨message, later, waits⟩ := List.exists_cons_of_ne_nil (ready peer source)
    rw [← List.head?_drop]
    show (log.backlog n peer self).head? = _
    rw [waits]
    rfl

/-- All that was received was sent before. -/
def Balanced (n : Nat) (log : Log) : Prop :=
  ∀ a b, log.sentTo n a b = log.gotBy b a ++ log.backlog n a b

theorem balanced_nil : Balanced n [] := fun _ _ => rfl

theorem sentTo_snoc (a b : PartyId) : sentTo n (log ++ [(self, event)]) a b
    = log.sentTo n a b ++ if self = a then event.sentTo n a b else [] := by
  simp [sentTo]

theorem gotBy_snoc (a b : PartyId) : gotBy (log ++ [(self, event)]) a b
    = log.gotBy a b ++ if self = a then event.gotFrom b else [] := by
  simp [gotBy]

/-- A reply that was due takes from what was not received, and adds to it. -/
theorem Balanced.snoc (balanced : Balanced n log) (due : IsDue n log self event) :
    Balanced n (log ++ [(self, event)]) ∧
    backlog n (log ++ [(self, event)]) = (log.backlog n).after n self event.made := by
  obtain ⟨ready, right⟩ := isDue_iff.mp due
  have both : ∀ a b, sentTo n (log ++ [(self, event)]) a b
      = gotBy (log ++ [(self, event)]) b a ++ (log.backlog n).after n self event.made a b := by
    intro a b
    have sends : (if self = a then event.sentTo n a b else [])
        = if a = self ∧ b ∈ event.made.recipients (peersOf self n) then [event.made.payload]
          else [] := by
      by_cases mine : a = self
      · subst mine; simp [Event.sentTo_eq right]
      · simp [mine, Ne.symm mine]
    have gets : (if self = b then event.gotFrom a else []) = if b = self ∧
        a ∈ event.made.sources (peersOf self n) then [(log.backlog n a b).headD []] else [] := by
      by_cases mine : b = self
      · subst mine; simp [Event.gotFrom_eq right]
      · simp [mine, Ne.symm mine]
    rw [sentTo_snoc, gotBy_snoc, balanced a b, Backlog.after, sends, gets]
    by_cases taken : b = self ∧ a ∈ event.made.sources (peersOf self n)
    · obtain ⟨rfl, source⟩ := taken
      have other : a ≠ b := fun same => not_mem_peersOf_self b (same ▸ Call.mem_of_mem_sources source)
      obtain ⟨message, later, waits⟩ := List.exists_cons_of_ne_nil (ready a source)
      simp [source, other, waits]
    · rw [if_neg taken, if_neg taken]
      split_ifs <;> simp
  have later : backlog n (log ++ [(self, event)]) = (log.backlog n).after n self event.made := by
    funext a b
    rw [backlog, both, List.drop_left]
  exact ⟨fun a b => by rw [both, later], later⟩

/-! ## One call after the other -/

end Log

namespace Backlog

variable {n : Nat} {backlog : Backlog} {self : PartyId} {event : Event} {log later : Log}

/-- The calls of a log can follow where these messages are not received. -/
def Allows (n : Nat) : Backlog → Log → Prop
  | _, [] => True
  | backlog, (self, event) :: later =>
    IsMember n self ∧ Frame.Fits event.made.payload ∧ backlog.Ready n self event.made ∧
      event.reply = backlog.answer n self event.made ∧ Allows n (backlog.after n self event.made) later

theorem taking_nil : backlog.taking self [] = backlog := by
  funext a b
  simp [taking]

/-- A party gets a message of each of some peers in turn. -/
def inTurn (self : PartyId) (received : List (PartyId × Bytes)) : Log :=
  received.map fun (peer, message) => (self, ⟨.receive peer, .ok message⟩)

/-- Messages of different peers do not get in each other's way. -/
theorem allows_inTurn (member : IsMember n self) {received : List (PartyId × Bytes)}
    (nodup : (received.map Prod.fst).Nodup)
    (known : ∀ peer ∈ received.map Prod.fst, peer ∈ peersOf self n) :
    backlog.Allows n (inTurn self received ++ later) ↔
      (∀ entry ∈ received, (backlog entry.1 self).head? = some entry.2) ∧
      (backlog.taking self (received.map Prod.fst)).Allows n later := by
  induction received generalizing backlog with
  | nil => simp [inTurn, taking_nil]
  | cons entry received ih =>
      obtain ⟨peer, message⟩ := entry
      obtain ⟨new, nodup⟩ := List.nodup_cons.mp nodup
      have here : peer ∈ peersOf self n := known peer (by simp)
      have first : (backlog.Ready n self (.receive peer) ∧
          Except.ok message = backlog.answer n self (.receive peer)) ↔
          (backlog peer self).head? = some message := by
        simp only [Ready, answer, Call.sources, Call.reply, here, if_true, List.mem_singleton, forall_eq,
          Except.ok.injEq]
        cases backlog peer self <;> simp [eq_comm]
      have both : (backlog.after n self (.receive peer)).taking self (received.map Prod.fst)
          = backlog.taking self (peer :: received.map Prod.fst) := by
        rw [after_receive here]
        funext a b
        by_cases same : a = peer
        · subst same
          by_cases mine : b = self <;> simp [taking, set, new, mine]
        · simp only [taking, set, List.mem_cons, same, false_or, Prod.mk.injEq, false_and, if_false]
      have apart : ∀ entry ∈ received,
          backlog.after n self (.receive peer) entry.1 self = backlog entry.1 self := by
        intro entry mem
        have differs : entry.1 ≠ peer := fun same => new (List.mem_map.mpr ⟨entry, mem, same⟩)
        simp [after_receive here, set, differs]
      have rest : (backlog.after n self (.receive peer)).Allows n (inTurn self received ++ later) ↔ _ :=
        ih nodup fun peer mem => known peer (by simp [mem])
      rw [both] at rest
      constructor
      · rintro ⟨-, -, ready, right, all⟩
        obtain ⟨others, more⟩ := rest.mp all
        refine ⟨List.forall_mem_cons.mpr ⟨first.mp ⟨ready, right⟩, fun entry mem => ?_⟩, more⟩
        rw [← apart entry mem]
        exact others entry mem
      · rintro ⟨heads, more⟩
        obtain ⟨head, others⟩ := List.forall_mem_cons.mp heads
        obtain ⟨ready, right⟩ := first.mpr head
        refine ⟨member, (by decide : Frame.Fits []), ready, right, rest.mpr ⟨fun entry mem => ?_, more⟩⟩
        rw [apart entry mem]
        exact others entry mem

/-- To receive from all is to receive from each in turn. -/
theorem allows_receiveAll (member : IsMember n self) {received : List (PartyId × Bytes)} :
    backlog.Allows n ((self, ⟨.receiveAll, .ok received⟩) :: later) ↔
      received.map Prod.fst = peersOf self n ∧ backlog.Allows n (inTurn self received ++ later) := by
  constructor
  · rintro ⟨-, -, ready, right, rest⟩
    have same : received = (peersOf self n).map fun peer => (peer, (backlog peer self).headD []) :=
      Except.ok.inj right
    have peers : received.map Prod.fst = peersOf self n := by
      rw [same, List.map_map]
      exact List.map_id' _
    refine ⟨peers, (allows_inTurn member ?_ ?_).mpr ⟨fun entry mem => ?_, ?_⟩⟩
    · exact peers ▸ nodup_peersOf self
    · exact fun peer mem => peers ▸ mem
    · rw [same] at mem
      obtain ⟨peer, source, rfl⟩ := List.mem_map.mp mem
      obtain ⟨message, more, waits⟩ := List.exists_cons_of_ne_nil (ready peer source)
      simp [waits]
    · rwa [peers, ← after_receiveAll]
  · rintro ⟨peers, all⟩
    obtain ⟨first, rest⟩ := (allows_inTurn member (peers ▸ nodup_peersOf self)
      fun peer mem => peers ▸ mem).mp all
    refine ⟨member, (by decide : Frame.Fits []), fun peer source empty => ?_, ?_, ?_⟩
    · obtain ⟨entry, mem, rfl⟩ := List.mem_map.mp ((peers ▸ source : peer ∈ received.map Prod.fst))
      have here := first entry mem
      rw [empty] at here
      cases here
    · show Except.ok received = Except.ok _
      rw [← peers, List.map_map]
      refine congrArg _ ((List.map_id' _).symm.trans (List.map_congr_left fun entry mem => ?_))
      have here := first entry mem
      simp only [Function.comp_apply, List.headD_eq_head?_getD, here, Option.getD_some]
    · rwa [peers, ← after_receiveAll] at rest

end Backlog

namespace Log

variable {n : Nat} {log later : Log} {self : PartyId} {event : Event}

theorem Lawful.balanced (lawful : Lawful n log) : Balanced n log := by
  induction log using List.reverseRecOn with
  | nil => exact balanced_nil
  | append_singleton log entry ih =>
      obtain ⟨before, -, -, due⟩ := lawful_snoc.mp lawful
      exact ((ih before).snoc due).1

/-- **What was received is what was sent first**, message by message. -/
theorem Lawful.gotBy_first (lawful : Lawful n log) (receiver sender : PartyId) :
    log.gotBy receiver sender <+: log.sentTo n sender receiver :=
  ⟨_, (lawful.balanced sender receiver).symm⟩

/-- What can follow depends on the messages that were not received only. -/
theorem lawful_append (lawful : Lawful n log) :
    Lawful n (log ++ later) ↔ (log.backlog n).Allows n later := by
  induction later generalizing log with
  | nil => simpa [Backlog.Allows] using lawful
  | cons entry later ih =>
      obtain ⟨self, event⟩ := entry
      have split : log ++ (self, event) :: later = (log ++ [(self, event)]) ++ later := by simp
      rw [Backlog.Allows]
      constructor
      · intro all
        obtain ⟨member, fits, due⟩ := all log self event later rfl
        obtain ⟨ready, right⟩ := isDue_iff.mp due
        refine ⟨member, fits, ready, right, ?_⟩
        rw [← (lawful.balanced.snoc due).2]
        exact (ih (lawful_snoc.mpr ⟨lawful, member, fits, due⟩)).mp (split ▸ all)
      · rintro ⟨member, fits, ready, right, rest⟩
        have due := isDue_iff.mpr ⟨ready, right⟩
        rw [← (lawful.balanced.snoc due).2] at rest
        exact split ▸ (ih (lawful_snoc.mpr ⟨lawful, member, fits, due⟩)).mpr rest

theorem Lawful.of_append (lawful : Lawful n (log ++ later)) : Lawful n log := by
  intro before self event rest same
  exact lawful before self event (rest ++ later) (by simp [same])

/-- **To receive from all is to receive from each in turn.** -/
theorem lawful_receiveAll (member : IsMember n self) {received : List (PartyId × Bytes)} :
    Lawful n (log ++ (self, ⟨.receiveAll, .ok received⟩) :: later) ↔
      received.map Prod.fst = peersOf self n ∧
      Lawful n (log ++ (Backlog.inTurn self received ++ later)) := by
  constructor
  · intro lawful
    have first := lawful.of_append
    obtain ⟨peers, all⟩ := (Backlog.allows_receiveAll member).mp ((lawful_append first).mp lawful)
    exact ⟨peers, (lawful_append first).mpr all⟩
  · rintro ⟨peers, lawful⟩
    have first := lawful.of_append
    exact (lawful_append first).mpr
      ((Backlog.allows_receiveAll member).mpr ⟨peers, (lawful_append first).mp lawful⟩)

end Log

end Spdz
