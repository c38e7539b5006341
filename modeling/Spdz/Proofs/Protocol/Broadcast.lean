import Spdz.Proofs.Network.Traces
import Spdz.Proofs.Protocol.Turn
import Spdz.Protocol.Broadcast

/-!
# The turns of a broadcast validation

First the digest goes to all, then those of the peers are compared with it.  The comparison is
described for any messages, since it is there to find out those who cheat.

* `BroadcastValidation.play_evaluate_zero`, `BroadcastValidation.play_evaluate_one` — the two turns.
* `BroadcastValidation.of_runs_zero`, `BroadcastValidation.of_runs_one` — the same when calls may fail.
-/

namespace Spdz

namespace BroadcastValidation

variable {F : FieldSpec} {σ : Type} {peers : List PartyId} {S : Party F σ} {out : List Bytes}

/-- The validation once its digest was sent. -/
def announced (v : BroadcastValidation) : BroadcastValidation :=
  { v with digest := broadcastDigest v.values }

theorem play_evaluate_zero (v : BroadcastValidation) (came : PartyId → List Bytes) :
    (evaluate 0 : Round F σ _ _).play peers v S (.among peers came out)
      = some (((.ok .hasMoreRounds, v.announced), S),
          .among peers came (out ++ [broadcastDigest v.values])) := by
  simp only [evaluate, Round.play_bind, Round.play_get, Option.bind_some, Round.proceed_ok,
    Round.play_modify, Round.play_sendAll, Round.play_pure, announced]

/-- The digests of all peers are compared with the own one. -/
theorem play_evaluate_one (v : BroadcastValidation) (message : PartyId → Bytes)
    (later : PartyId → List Bytes) :
    (evaluate 1 : Round F σ _ _).play peers v S
        (.among peers (fun peer => message peer :: later peer) out)
      = some (if ∀ peer ∈ peers, message peer = v.digest
          then (((.ok .isDone, { v with isDone := true }), S), .among peers later out)
          else (((.error .broadcastInconsistency, v), S), .among peers later out)) := by
  have compared : ((peers.map fun peer => (peer, message peer)).any fun x =>
      decide (x.2 ≠ v.digest)) = true ↔ ¬ ∀ peer ∈ peers, message peer = v.digest := by
    simp
  simp only [evaluate, Round.play_bind, Round.play_receiveAll, Round.play_get, Option.bind_some,
    Round.proceed_ok]
  by_cases equal : ∀ peer ∈ peers, message peer = v.digest
  · rw [if_neg (fun differ => compared.mp differ equal), if_pos equal]
    simp only [Round.play_bind, Round.play_pure, Option.bind_some, Round.proceed_ok,
      Round.play_modify]
  · rw [if_pos (compared.mpr equal), if_neg equal]
    simp only [Round.play_bind, Round.play_throw, Option.bind_some, Round.proceed_error]

/-- A comparison that passed found the own digest everywhere. -/
theorem of_play_evaluate_one {v v' : BroadcastValidation} {came : PartyId → List Bytes}
    {status : Status} {S' : Party F σ} {box' : Mailbox}
    (play : (evaluate 1 : Round F σ _ _).play peers v S (.among peers came out)
      = some (((.ok status, v'), S'), box')) : ∃ later : PartyId → List Bytes,
      Mailbox.among peers came out = .among peers (fun peer => v.digest :: later peer) out ∧
      status = .isDone ∧ v' = { v with isDone := true } ∧ S' = S ∧ box' = .among peers later out := by
  have whole := play
  rw [evaluate] at play
  obtain ⟨_, _, _, _, received, -⟩ := Round.of_play_bind play
  obtain ⟨message, later, inbox⟩ := Round.of_play_receiveAll received
  rw [inbox, play_evaluate_one] at whole
  split_ifs at whole with equal
  · cases whole
    exact ⟨later, inbox.trans (Mailbox.among_congr fun peer mem => by rw [equal peer mem]), rfl, rfl,
      rfl, rfl⟩
  · cases whole

/-- The comparison passes when all hold the same list. -/
theorem play_evaluate_same (v : BroadcastValidation) :
    (evaluate 1 : Round F σ _ _).play peers v.announced S
        (.among peers (fun _ => [broadcastDigest v.values]) out)
      = some (((.ok .isDone, { v.announced with isDone := true }), S),
          .among peers (fun _ => []) out) :=
  (play_evaluate_one v.announced (fun _ => broadcastDigest v.values) fun _ => []).trans
    (congrArg some (if_pos fun _ _ => rfl))

/-! ## When calls may fail -/

section Runs

variable {events : List Event} {v : BroadcastValidation}
  {out : (Except Error Status × BroadcastValidation) × Party F σ}

/-- The digest is sent, or that fails. -/
theorem of_runs_zero (runs : (evaluate 0 : Round F σ _ _).Runs peers v S events out) :
    (∃ cause, events = [⟨.sendAll (broadcastDigest v.values), .error cause⟩] ∧
      out = ((.error (.transport cause), v.announced), S)) ∨
    events = [⟨.sendAll (broadcastDigest v.values), .ok ()⟩] ∧
      out = ((.ok .hasMoreRounds, v.announced), S) := by
  simp only [evaluate, Round.runs_get_bind, Round.runs_modify_bind] at runs
  obtain failed | ⟨_, _, rfl, -, runs⟩ := Round.runs_call_bind.mp runs
  · exact .inl failed
  · obtain ⟨rfl, rfl⟩ := Round.runs_pure.mp runs
    exact .inr ⟨rfl, rfl⟩

/-- The digests of the peers are compared, if they come. -/
theorem of_runs_one (runs : (evaluate 1 : Round F σ _ _).Runs peers v S events out) :
    (∃ cause, events = [⟨.receiveAll, .error cause⟩] ∧ out = ((.error (.transport cause), v), S)) ∨
    ∃ message : PartyId → Bytes, events = [⟨.receiveAll, .ok (peers.map fun j => (j, message j))⟩] ∧
      ((∃ j ∈ peers, message j ≠ v.digest) ∧ out = ((.error .broadcastInconsistency, v), S) ∨
      (∀ j ∈ peers, message j = v.digest) ∧ out = ((.ok .isDone, { v with isDone := true }), S)) := by
  simp only [evaluate] at runs
  obtain failed | ⟨_, later, rfl, ⟨message, rfl⟩, runs⟩ := Round.runs_call_bind.mp runs
  · exact .inl failed
  · have compared : ((peers.map fun j => (j, message j)).any fun x =>
        decide (x.2 ≠ v.digest)) = true ↔ ∃ j ∈ peers, message j ≠ v.digest := by
      simp
    rw [Round.runs_get_bind] at runs
    by_cases differ : ∃ j ∈ peers, message j ≠ v.digest
    · rw [if_pos (compared.mpr differ), Round.runs_throw_bind] at runs
      obtain ⟨rfl, rfl⟩ := runs
      exact .inr ⟨message, rfl, .inl ⟨differ, rfl⟩⟩
    · rw [if_neg (fun found => differ (compared.mp found)), Round.runs_modify_bind,
        Round.runs_pure] at runs
      obtain ⟨rfl, rfl⟩ := runs
      exact .inr ⟨message, rfl, .inr ⟨by simpa using differ, rfl⟩⟩

end Runs

end BroadcastValidation

end Spdz
