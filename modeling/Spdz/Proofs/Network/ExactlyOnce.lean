import Spdz.Proofs.Network.Logs
import Spdz.Proofs.Network.Wiring

/-!
# Every message arrives exactly once, and in order

Parties within one process call on the network one at a time, each by itself and all interleaved in any
way.  A call that has to wait is made again until it is through.

* `Traffic` — a mesh, and the calls that wait on it.
* `Traffic.Step`, `Traffic.Runs` — a party makes a call or goes on waiting; the log of a run.
* `Traffic.Owes` — what was sent and not received is on the streams or held by a call that waits.
* `Traffic.Runs.owes` — this is kept; `Traffic.Owes.poll`, what comes of a call.
* **`Traffic.exactly_once_in_order`** — the network delivers every message once and in order.
-/

namespace Spdz

/-- A mesh with the calls that wait on it, and the messages that these have already. -/
structure Traffic where
  mesh : Mesh
  pending : PartyId → Option (Call × Held) := fun _ => none

namespace Traffic

variable {n : Nat} {traffic after : Traffic} {self : PartyId} {made : Call} {held : Held}
  {log events : Log} {backlog : Backlog}

/-- The party can make the call: it waits for nothing, or for just this. -/
def MayCall (traffic : Traffic) (self : PartyId) (made : Call) (held : Held) : Prop :=
  traffic.pending self = some (made, held) ∨ traffic.pending self = none ∧ held = []

/-- **Step.**  A member makes a call that it can make.  The call is completed or waits. -/
inductive Step (n : Nat) : Traffic → Log → Traffic → Prop where
  | settle {traffic : Traffic} {self : PartyId} {made : Call} {held : Held}
      {reply : Except TransportError made.Reply} {mesh : Mesh} (member : IsMember n self)
      (fits : Frame.Fits made.payload) (may : traffic.MayCall self made held)
      (polled : Medium.poll self held traffic.mesh made = (.settled reply, mesh)) :
    Step n traffic [(self, ⟨made, reply⟩)] ⟨mesh, Function.update traffic.pending self none⟩
  | wait {traffic : Traffic} {self : PartyId} {made : Call} {held held' : Held} {mesh : Mesh}
      (member : IsMember n self) (fits : Frame.Fits made.payload) (may : traffic.MayCall self made held)
      (polled : Medium.poll self held traffic.mesh made = (.waiting held', mesh)) :
    Step n traffic [] ⟨mesh, Function.update traffic.pending self (some (made, held'))⟩

/-- **Runs.**  Steps that follow each other, and the calls completed on the way. -/
inductive Runs (n : Nat) : Log → Traffic → Prop where
  | start : Runs n [] { mesh := { parties := n } }
  | step {log events : Log} {traffic after : Traffic} (runs : Runs n log traffic)
      (step : Step n traffic events after) : Runs n (log ++ events) after

/-! ## What is on the way -/

/-- The messages that a call of the party holds while it waits. -/
def heldBy (traffic : Traffic) (party : PartyId) : Held := (traffic.pending party).elim [] Prod.snd

/-- These messages were sent and not received: each is on its stream, or held by a call that waits. -/
structure Owes (n : Nat) (backlog : Backlog) (traffic : Traffic) : Prop where
  suits : ∀ party made held, traffic.pending party = some (made, held) →
    made.Suits (peersOf party n) held
  carries : ∃ unheld, traffic.mesh.Carries n unheld ∧
    ∀ a b, backlog a b = ((traffic.heldBy b).lookup a).toList ++ unheld a b

theorem owes_start : Owes n (fun _ _ => []) { mesh := { parties := n } } :=
  ⟨by simp, _, Mesh.carries_start, fun _ _ => rfl⟩

theorem MayCall.heldBy_eq (may : traffic.MayCall self made held) : traffic.heldBy self = held := by
  rcases may with waits | ⟨idle, rfl⟩
  · rw [heldBy, waits]; rfl
  · rw [heldBy, idle]; rfl

theorem Owes.suits_of (owes : traffic.Owes n backlog) (may : traffic.MayCall self made held) :
    made.Suits (peersOf self n) held := by
  rcases may with waits | ⟨-, rfl⟩
  · exact owes.suits self made held waits
  · exact Call.suits_nil _ _

/-- What the party can be given is on the streams or held by its call. -/
theorem Owes.split (owes : traffic.Owes n backlog) (may : traffic.MayCall self made held) :
    ∃ unheld, traffic.mesh.Carries n unheld ∧
      (∀ a b, backlog a b = ((traffic.heldBy b).lookup a).toList ++ unheld a b) ∧
      ∀ a, backlog a self = unheld.withHeld self held a self := by
  obtain ⟨unheld, carries, same⟩ := owes.carries
  refine ⟨unheld, carries, same, fun a => ?_⟩
  rw [same, may.heldBy_eq, Backlog.withHeld, if_pos rfl]

/-- Other calls are not concerned by what a party does. -/
theorem Owes.update (owes : traffic.Owes n backlog) {backlog' unheld : Backlog} {mesh : Mesh}
    {waits : Option (Call × Held)}
    (suits : ∀ made held, waits = some (made, held) → made.Suits (peersOf self n) held)
    (carries : mesh.Carries n unheld)
    (own : ∀ a, backlog' a self = ((waits.elim [] Prod.snd : Held).lookup a).toList ++ unheld a self)
    (others : ∀ a b, b ≠ self → backlog' a b = ((traffic.heldBy b).lookup a).toList ++ unheld a b) :
    Owes n backlog' ⟨mesh, Function.update traffic.pending self waits⟩ where
  suits := by
    intro party made held pending
    by_cases mine : party = self
    · subst mine
      exact suits made held (by simpa using pending)
    · exact owes.suits party made held (by simpa [mine] using pending)
  carries := by
    refine ⟨unheld, carries, fun a b => ?_⟩
    by_cases mine : b = self
    · subst mine
      simpa [heldBy] using own a
    · simpa [heldBy, mine] using others a b mine

/-- **A call is completed with what is due**, if everything that it waits for is there. -/
theorem Owes.poll_settled (owes : traffic.Owes n backlog) (may : traffic.MayCall self made held)
    (fits : Frame.Fits made.payload) (ready : backlog.Ready n self made) : ∃ mesh,
      Medium.poll self held traffic.mesh made = (.settled (backlog.answer n self made), mesh) ∧
      Owes n (backlog.after n self made) ⟨mesh, Function.update traffic.pending self none⟩ := by
  obtain ⟨unheld, carries, same, column⟩ := owes.split may
  have answers : backlog.answer n self made = (unheld.withHeld self held).answer n self made := by
    simp only [Backlog.answer, column]
  obtain ⟨mesh, polled, carries⟩ := carries.poll_settled (owes.suits_of may) fits
    fun peer source => column peer ▸ ready peer source
  refine ⟨mesh, answers ▸ polled, owes.update (by simp) carries (fun a => ?_) fun a b other => ?_⟩
  · simp only [Backlog.after, column]
    rfl
  · simp only [Backlog.after, Backlog.withHeld, other, false_and, if_false, same a b]
    split_ifs
    · exact List.append_assoc ..
    · rfl

/-- **A call waits if something is not there**, and nothing is lost. -/
theorem Owes.poll_waiting (owes : traffic.Owes n backlog) (may : traffic.MayCall self made held)
    (waits : ¬ backlog.Ready n self made) : ∃ held' mesh,
      Medium.poll self held traffic.mesh made = (.waiting held', mesh) ∧
      Owes n backlog ⟨mesh, Function.update traffic.pending self (some (made, held'))⟩ := by
  obtain ⟨unheld, carries, same, column⟩ := owes.split may
  obtain ⟨held', mesh, unheld', polled, suits, carries, kept⟩ := carries.poll_waiting (owes.suits_of may)
    fun ready => waits fun peer source => column peer ▸ ready peer source
  refine ⟨held', mesh, polled, owes.update ?_ carries (fun a => ?_) fun a b other => ?_⟩
  · rintro _ _ ⟨⟩
    exact suits
  · rw [column, ← kept, Backlog.withHeld, if_pos rfl]
    rfl
  · have aside := congrFun (congrFun kept a) b
    rw [Backlog.withHeld, Backlog.withHeld, if_neg other, if_neg other] at aside
    rw [same, aside]

/-! ## Runs -/

/-- A step completes a call with what is due, or leaves what is on the way as it is. -/
theorem Step.owes (step : Step n traffic events after) (owes : traffic.Owes n backlog) :
    (events = [] ∧ after.Owes n backlog) ∨ ∃ self event, events = [(self, event)] ∧ IsMember n self ∧
      Frame.Fits event.made.payload ∧ backlog.Ready n self event.made ∧
      event.reply = backlog.answer n self event.made ∧
      after.Owes n (backlog.after n self event.made) := by
  cases step with
  | @settle self made held reply mesh member fits may polled =>
      by_cases ready : backlog.Ready n self made
      · obtain ⟨mesh', polled', owes⟩ := owes.poll_settled may fits ready
        cases polled.symm.trans polled'
        exact .inr ⟨_, _, rfl, member, fits, ready, rfl, owes⟩
      · obtain ⟨held', mesh', polled', -⟩ := owes.poll_waiting may ready
        cases polled.symm.trans polled'
  | @wait self made held held' mesh member fits may polled =>
      by_cases ready : backlog.Ready n self made
      · obtain ⟨mesh', polled', -⟩ := owes.poll_settled may fits ready
        cases polled.symm.trans polled'
      · obtain ⟨held'', mesh', polled', owes⟩ := owes.poll_waiting may ready
        cases polled.symm.trans polled'
        exact .inl ⟨rfl, owes⟩

/-- **What was sent and not received is on the way**, whatever calls were made, and all replies were
due. -/
theorem Runs.owes (runs : Runs n log traffic) : log.Lawful n ∧ traffic.Owes n (log.backlog n) := by
  induction runs with
  | start => exact ⟨Log.lawful_nil, owes_start⟩
  | @step log events traffic after runs step ih =>
      obtain ⟨lawful, owes⟩ := ih
      obtain ⟨rfl, owes⟩ | ⟨self, event, rfl, member, fits, ready, right, owes⟩ := step.owes owes
      · exact ⟨(List.append_nil log).symm ▸ lawful, (List.append_nil log).symm ▸ owes⟩
      · have due := Log.isDue_iff.mpr ⟨ready, right⟩
        exact ⟨Log.lawful_snoc.mpr ⟨lawful, member, fits, due⟩, (lawful.balanced.snoc due).2 ▸ owes⟩

/-- A lawful log is one of a run, in which no call ever waits. -/
theorem exists_runs (lawful : log.Lawful n) :
    ∃ traffic, Runs n log traffic ∧ traffic.pending = fun _ => none := by
  induction log using List.reverseRecOn with
  | nil => exact ⟨_, .start, rfl⟩
  | append_singleton log entry ih =>
      obtain ⟨self, made, reply⟩ := entry
      obtain ⟨before, member, fits, due⟩ := Log.lawful_snoc.mp lawful
      obtain ⟨traffic, runs, idle⟩ := ih before
      obtain ⟨ready, right⟩ := Log.isDue_iff.mp due
      have may : traffic.MayCall self made [] := .inr ⟨congrFun idle self, rfl⟩
      obtain ⟨mesh, polled, -⟩ := runs.owes.2.poll_settled may fits ready
      simp only at right
      rw [← right] at polled
      refine ⟨_, runs.step (.settle member fits may polled), ?_⟩
      rw [idle]
      exact Function.update_eq_self ..

/-- What comes of a call that is made next. -/
theorem Runs.poll (runs : Runs n log traffic) (may : traffic.MayCall self made held)
    (fits : Frame.Fits made.payload) :
    (∃ reply mesh, Medium.poll self held traffic.mesh made = (.settled reply, mesh) ∧
      log.IsDue n self ⟨made, reply⟩) ∨
    ∃ held' mesh, Medium.poll self held traffic.mesh made = (.waiting held', mesh) ∧
      ∃ peer ∈ made.sources (peersOf self n), log.gotBy self peer = log.sentTo n peer self := by
  obtain ⟨lawful, owes⟩ := runs.owes
  by_cases ready : (log.backlog n).Ready n self made
  · obtain ⟨mesh, polled, -⟩ := owes.poll_settled may fits ready
    exact .inl ⟨_, mesh, polled, Log.isDue_iff.mpr ⟨ready, rfl⟩⟩
  · obtain ⟨held', mesh, polled, -⟩ := owes.poll_waiting may ready
    simp only [Backlog.Ready, not_forall, not_not] at ready
    obtain ⟨peer, source, empty⟩ := ready
    refine .inr ⟨held', mesh, polled, peer, source, ?_⟩
    rw [lawful.balanced peer self, empty, List.append_nil]

/-- Nobody has a channel to somebody who is no peer. -/
theorem Runs.unknown (runs : Runs n log traffic) {peer : PartyId} (stranger : peer ∉ peersOf self n)
    (held : Held) (message : Bytes) :
    Medium.poll self held traffic.mesh (.send peer message)
        = (.settled (.error (.unknownParty peer)), traffic.mesh) ∧
      Medium.poll self held traffic.mesh (.receive peer)
        = (.settled (.error (.unknownParty peer)), traffic.mesh) := by
  obtain ⟨unheld, carries, -⟩ := runs.owes.2.carries
  have parties : Medium.parties traffic.mesh = n := carries.parties
  constructor <;> rw [Medium.poll, parties, if_neg stranger]

/-- Who receives from all gets one message of each other party, in ascending order. -/
theorem Runs.receiveAll (runs : Runs n log traffic) {received : List (PartyId × Bytes)}
    (made : (self, ⟨.receiveAll, .ok received⟩) ∈ log) : received.map Prod.fst = peersOf self n := by
  obtain ⟨before, later, rfl⟩ := List.append_of_mem made
  obtain ⟨-, -, got, -, right⟩ := runs.owes.1 before self _ later rfl
  rw [Except.ok.inj right, List.map_map]
  exact List.map_id' _

/-- **Every message arrives exactly once, and in order.**  The `n` transports are joined pairwise, each
pair by a stream of its own, so that the streams of a mesh are what is written at the ends.  The logs of
their calls are the lawful ones: every reply is what was due, with the next message of each party that
the call waits for.  So what a party has got of another one is what that one has sent to it first.  A call
only waits if all messages of some party that it waits for were received, so none is lost.  A party to
which there is no channel is unknown, and nothing is changed.  Receiving from all gives one message of
each other party in ascending order, and it is the same as receiving from each in turn. -/
theorem exactly_once_in_order (n : Nat) :
    ((Wiring.mock n).meshes = List.replicate n { parties := n } ∧ (Wiring.mock n).Complete n ∧
      ∀ ends streams, (Wiring.mock n).Shows n ends streams → ∀ (i j : Nat) (held : DuplexEnd),
        IsMember n i → (Wiring.mock n).channel i j = .ok held →
          streams.get j i = ends held.opposite ∧ ∀ change, (Wiring.mock n).Shows n
            (Function.update ends held (change (ends held))) (streams.modify i j change)) ∧
    (∀ log, (∃ traffic, Runs n log traffic) ↔ log.Lawful n) ∧
    (∀ log traffic, Runs n log traffic →
      (∀ i j, log.gotBy i j <+: log.sentTo n j i) ∧
      (∀ i made held, traffic.MayCall i made held → Frame.Fits made.payload →
        (∃ reply mesh, Medium.poll i held traffic.mesh made = (.settled reply, mesh) ∧
          log.IsDue n i ⟨made, reply⟩) ∨
        ∃ held' mesh, Medium.poll i held traffic.mesh made = (.waiting held', mesh) ∧
          ∃ j ∈ made.sources (peersOf i n), log.gotBy i j = log.sentTo n j i) ∧
      (∀ i j held message, j = 0 ∨ j = i ∨ n < j →
        Medium.poll i held traffic.mesh (.send j message)
            = (.settled (.error (.unknownParty j)), traffic.mesh) ∧
          Medium.poll i held traffic.mesh (.receive j)
            = (.settled (.error (.unknownParty j)), traffic.mesh)) ∧
      ∀ i received, (i, ⟨.receiveAll, .ok received⟩) ∈ log →
        (received.map Prod.fst).Pairwise (· < ·) ∧ received.length = n - 1 ∧
          ∀ j, j ∈ received.map Prod.fst ↔ IsMember n j ∧ j ≠ i) ∧
    ∀ i before later received, IsMember n i →
      ((∃ traffic, Runs n (before ++ (i, ⟨.receiveAll, .ok received⟩) :: later) traffic) ↔
        received.map Prod.fst = peersOf i n ∧
          ∃ traffic, Runs n (before ++ (Backlog.inTurn i received ++ later)) traffic) := by
  have possible : ∀ log, (∃ traffic, Runs n log traffic) ↔ log.Lawful n := fun log =>
    ⟨fun ⟨_, runs⟩ => runs.owes.1, fun lawful => (exists_runs lawful).imp fun _ h => h.1⟩
  refine ⟨⟨Wiring.meshes_mock, Wiring.complete_mock, fun _ _ shown _ _ _ member here =>
    Wiring.complete_mock.conducts shown member here⟩, possible,
    fun log traffic runs => ⟨?_, ?_, ?_, ?_⟩, ?_⟩
  · exact runs.owes.1.gotBy_first
  · exact fun i made held may fits => runs.poll may fits
  · intro i j held message absent
    refine runs.unknown (fun peer => ?_) held message
    obtain ⟨⟨low, high⟩, other⟩ := mem_peersOf.mp peer
    rcases absent with rfl | rfl | above
    · exact absurd low (by decide)
    · exact other rfl
    · exact Nat.not_lt.mpr high above
  · intro i received made
    obtain ⟨before, later, same⟩ := List.append_of_mem made
    have member : IsMember n i := (runs.owes.1 before i _ later same).1
    have peers := runs.receiveAll made
    have length : received.length = n - 1 := by rw [← length_peersOf member, ← peers, List.length_map]
    exact ⟨peers ▸ pairwise_peersOf i, length, fun j => peers ▸ mem_peersOf⟩
  · intro i before later received member
    rw [possible, possible]
    exact Log.lawful_receiveAll member

/-- The first of three parties sends to all and the third to the second, which receives from both. -/
theorem exactly_once_in_order_three :
    let sent : Log := [(1, ⟨.sendAll [1], .ok ()⟩), (3, ⟨.send 2 [3], .ok ()⟩)]
    (∃ traffic, Runs 3 (sent ++ [(2, ⟨.receiveAll, .ok [(1, [1]), (3, [3])]⟩)]) traffic) ∧
      ∃ traffic, Runs 3 (sent ++ [(2, ⟨.receive 1, .ok [1]⟩), (2, ⟨.receive 3, .ok [3]⟩)]) traffic := by
  intro sent
  obtain ⟨-, possible, -, inTurn⟩ := exactly_once_in_order 3
  have atOnce : ∃ traffic, Runs 3 (sent ++ [(2, ⟨.receiveAll, .ok [(1, [1]), (3, [3])]⟩)]) traffic := by
    refine (possible _).mpr ((Log.lawful_append Log.lawful_nil).mpr ?_)
    refine ⟨⟨by decide, by decide⟩, by decide, by decide, rfl, ⟨by decide, by decide⟩, by decide,
      by decide, rfl, ⟨by decide, by decide⟩, by decide, by decide, rfl, trivial⟩
  exact ⟨atOnce, ((inTurn 2 sent [] _ ⟨by decide, by decide⟩).mp atOnce).2⟩

end Traffic

end Spdz
