import Spdz.Proofs.Commitment
import Spdz.Proofs.Evaluation.Batches
import Spdz.Proofs.Evaluation.Finishing
import Spdz.Proofs.Gates.Inputs

/-!
# Consistency of checked inputs

A dishonest inputter may send different differences to different parties, and tell each of them that
its own was the common one.  A checked input still ends well only for those who hold the same
difference, as each party compares its digest with those of all others.  So whoever the inputter is,
the parties that get a share have shares of one value, which the inputter has chosen.

* `CheckedInput.of_play_zero`, `of_play_one`, `of_play_two` — what a round that succeeds has done.
* `CheckedInput.Completes` — a party completes a checked input, whatever its peers are.
* **`CheckedInput.consistency`** — parties that complete it hold the same difference, and a sharing.
-/

namespace Spdz

variable {F : FieldSpec} {σ : Type} {peers : List PartyId} {S S' : Party F σ}
  {box box' : Mailbox} {came : PartyId → List Bytes} {out : List Bytes}

/-! ## Rounds that succeed -/

namespace MaskedInput

variable {m m' : MaskedInput F}

/-- The difference is known, and nothing was sent. -/
theorem of_play_receive {masked : Elem F}
    (play : (receive : Round F σ _ _).play peers m S (.among peers came out)
      = some (((.ok masked, m'), S'), box')) :
    m' = { m with masked := some masked } ∧ S' = S ∧ ∃ came', box' = .among peers came' out := by
  rw [receive, Round.play_bind, Round.play_get, Option.bind_some, Round.proceed_ok] at play
  cases known : m.masked with
  | some masked =>
      simp only [known] at play
      cases play
      refine ⟨?_, rfl, came, rfl⟩
      rw [← known]
  | none =>
      simp only [known] at play
      obtain ⟨elements, _, _, _, received, play⟩ := Round.of_play_bind play
      cases play
      rw [Round.receiveElements] at received
      obtain ⟨message, _, _, _, got, decoded⟩ := Round.of_play_bind received
      obtain ⟨rfl, rfl, came', rfl⟩ := Round.of_play_receive got
      rw [Round.decodeFrom] at decoded
      cases read : (Elem.decodeList F message 1).getD (.ok []) with
      | error e => rw [read] at decoded; cases decoded
      | ok elements =>
          rw [read] at decoded
          cases decoded
          exact ⟨rfl, rfl, came', rfl⟩

/-- Mask and difference are there, and the share was computed from them. -/
theorem of_play_combine [Supplier F σ] {round : Nat} {share : Share F}
    (play : (combine round : Round F σ _ _).play peers m S box = some (((.ok share, m'), S'), box')) :
    ∃ mask masked, m.mask = some mask ∧ m.masked = some masked ∧
      share = mask.mask.addPublic masked S.keyShare S.id ∧ m' = m ∧ box' = box := by
  rw [combine, Round.play_bind, Round.play_get, Option.bind_some, Round.proceed_ok] at play
  cases drawn : m.mask with
  | none => simp [drawn] at play
  | some mask =>
      cases known : m.masked with
      | none => simp [drawn, known] at play
      | some masked =>
          simp only [drawn, known] at play
          cases play
          exact ⟨mask, masked, rfl, rfl, rfl, rfl, rfl⟩

end MaskedInput

namespace CheckedInput

variable [Supplier F σ] {p p' : CheckedInput F} {status : Status}

theorem of_play_zero (play : (Protocol.evaluate 0 : Round F σ _ _).play peers p S box
      = some (((.ok status, p'), S'), box')) : status = .hasMoreRounds := by
  obtain ⟨_, _, _, _, -, play⟩ := Round.of_play_bind play
  cases play
  rfl

/-- The difference was received, and its digest sent. -/
theorem of_play_one (play : (Protocol.evaluate 1 : Round F σ _ _).play peers p S
      (.among peers came out) = some (((.ok status, p'), S'), box')) :
    ∃ m came', status = .hasMoreRounds ∧ p'.state = { p.state with masked := some m } ∧
      p'.validation = some (BroadcastValidation.announced { values := [m.encode] }) ∧
      box' = .among peers came' (out ++ [broadcastDigest [m.encode]]) := by
  obtain ⟨m, _, _, _, received, play⟩ := Round.of_play_bind play
  obtain ⟨_, inner, rfl⟩ := Round.of_play_within received
  obtain ⟨rfl, rfl, came', rfl⟩ := MaskedInput.of_play_receive inner
  obtain ⟨⟨_, v⟩, _, _, _, announced, play⟩ := Round.of_play_bind play
  obtain ⟨first, rfl⟩ := Round.of_play_apart announced
  cases (BroadcastValidation.play_evaluate_zero _ came').symm.trans first
  cases play
  exact ⟨m, came', rfl, rfl, rfl, rfl⟩

/-- All peers sent the own digest, and the share was computed. -/
theorem of_play_two {v : BroadcastValidation} (validation : p.validation = some v)
    (play : (Protocol.evaluate 2 : Round F σ _ _).play peers p S (.among peers came out)
      = some (((.ok status, p'), S'), box')) :
    ∃ mask m later, p.state.mask = some mask ∧ p.state.masked = some m ∧ p'.state = p.state ∧
      p'.output = some (mask.mask.addPublic m S.keyShare S.id) ∧ status = .isDone ∧
      Mailbox.among peers came out = .among peers (fun peer => v.digest :: later peer) out ∧
      box' = .among peers later out := by
  obtain ⟨_, _, _, _, got, play⟩ := Round.of_play_bind play
  cases got
  simp only [validation] at play
  obtain ⟨_, _, _, _, compared, play⟩ := Round.of_play_bind play
  obtain ⟨_, compared⟩ := Round.of_play_discard compared
  obtain ⟨_, inner, rfl⟩ := Round.of_play_within compared
  obtain ⟨later, inbox, -, rfl, rfl, rfl⟩ := BroadcastValidation.of_play_evaluate_one inner
  obtain ⟨share, _, _, _, combined, play⟩ := Round.of_play_bind play
  obtain ⟨_, inner, rfl⟩ := Round.of_play_within combined
  obtain ⟨mask, m, drawn, known, rfl, rfl, rfl⟩ := MaskedInput.of_play_combine inner
  cases play
  exact ⟨mask, m, later, drawn, known, rfl, rfl, rfl, inbox, rfl⟩

end CheckedInput

/-! ## Consistency -/

namespace CheckedInput

variable [Supplier F σ] {n : Nat} {i inputter : PartyId} {input : Option (Elem F)} {keyShare : Elem F}
  {got sent : Nat → PartyId → List Bytes} {ended : CheckedInput F}

/-- **Completes.**  The party `i` of `n` completes a checked input, as `ended`.  Whatever its peers are,
the protocol takes `got` from them and sends `sent`, round by round.  Other protocols may have their
turns in between. -/
structure Completes (σ : Type) [Supplier F σ] (n : Nat) (i inputter : PartyId) (input : Option (Elem F))
    (keyShare : Elem F) (got sent : Nat → PartyId → List Bytes) (ended : CheckedInput F) : Prop where
  member : IsMember n i
  finishes : Finishes (peersOf i n) (fun S : Party F σ => S.id = i ∧ S.keyShare = keyShare) got sent 0
    (.new input inputter) ended

/-- **What was compared.**  Who completes a checked input has a share from the difference that it
holds, and has sent and received its digest only. -/
theorem Completes.exists_masked
    (completes : Completes σ n i inputter input keyShare got sent ended) :
    ∃ mask m, ended.state.mask = some mask ∧ ended.state.masked = some m ∧
      ended.output = some (mask.mask.addPublic m keyShare i) ∧
      ∀ j ∈ peersOf i n,
        got 2 j = [broadcastDigest [m.encode]] ∧ sent 1 j = [broadcastDigest [m.encode]] := by
  obtain ⟨-, finishes⟩ := completes
  -- only the third round is the last one
  cases finishes with
  | last _ plays => cases of_play_zero plays.play_among
  | more _ plays finishes =>
    clear plays
    cases finishes with
    | last _ plays =>
        obtain ⟨m, _, more, -⟩ := of_play_one plays.play_among
        cases more
    | more _ plays finishes =>
        obtain ⟨m, came', -, state, validation, outbox⟩ := of_play_one plays.play_among
        cases finishes with
        | more _ plays _ =>
            obtain ⟨mask, _, _, _, _, _, _, done, -⟩ := of_play_two validation plays.play_among
            cases done
        | last here plays =>
            obtain ⟨mask, m', later, drawn, known, same, output, -, inbox, rest⟩ :=
              of_play_two validation plays.play_among
            obtain rfl : m = m' := by
              rw [state] at known
              exact Option.some.inj known
            obtain ⟨id, share⟩ := here
            refine ⟨mask, m, same ▸ drawn, same ▸ known, id ▸ share ▸ output, fun j mem => ⟨?_, ?_⟩⟩
            · have nothing := congrFun (congrArg Mailbox.inbox rest) j
              simp only [Mailbox.sent, Mailbox.among, if_pos mem] at nothing
              rw [Mailbox.eq_of_among inbox j mem, ← nothing]
              rfl
            · have digest := congrFun (congrArg Mailbox.outbox outbox) j
              simpa only [Mailbox.sent, Mailbox.among, if_pos mem, List.nil_append] using digest

/-- **Consistency.**  Some parties complete a checked input of any inputter, whatever the others do and
send, and what comes from one of them to another is what was sent to it the round before.  Then each of
them has combined a mask with a difference, and they have the same difference unless two different byte
strings have one digest.  Whatever the difference is, if all parties combine it with their shares of one
mask, they hold a sharing of its sum with what is masked. -/
theorem consistency (two : 2 ≤ n) {honest : PartyId → Prop} {input : PartyId → Option (Elem F)}
    {keyShare : PartyId → Elem F} {got sent : PartyId → Nat → PartyId → List Bytes}
    {ended : PartyId → CheckedInput F}
    (completes : ∀ i, honest i →
      Completes σ n i inputter (input i) (keyShare i) (got i) (sent i) (ended i))
    (faithful : ∀ i j, honest i → honest j → i ≠ j → ∀ round, got i (round + 1) j = sent j round i) :
    (∀ i, honest i → ∃ mask m, (ended i).state.mask = some mask ∧ (ended i).state.masked = some m ∧
      (ended i).output = some (mask.mask.addPublic m (keyShare i) i)) ∧
    (∀ i j, honest i → honest j → ∀ mi mj, (ended i).state.masked = some mi →
      (ended j).state.masked = some mj →
      mi = mj ∨ Collision (broadcastInput [mi.encode]) (broadcastInput [mj.encode])) ∧
    ∀ (mask : PartyId → InputMask F) (m r key : Elem F), ∑ i ∈ Finset.Icc 1 n, keyShare i = key →
      IsSharing n key (fun i => (mask i).mask) r →
      IsSharing n key (fun i => (mask i).mask.addPublic m (keyShare i) i) (m + r) := by
  refine ⟨fun i hi => ?_, fun i j hi hj mi mj knownI knownJ => ?_, fun mask m r key keys sharing => ?_⟩
  · obtain ⟨mask, m, drawn, known, output, -⟩ := (completes i hi).exists_masked
    exact ⟨mask, m, drawn, known, output⟩
  · by_cases same : i = j
    · subst same
      exact .inl (Option.some.inj (knownI.symm.trans knownJ))
    · obtain ⟨-, m, -, here, -, fromJ⟩ := (completes i hi).exists_masked
      obtain ⟨-, m', -, there, -, toI⟩ := (completes j hj).exists_masked
      obtain rfl : m = mi := Option.some.inj (here.symm.trans knownI)
      obtain rfl : m' = mj := Option.some.inj (there.symm.trans knownJ)
      have peerJ : j ∈ peersOf i n := mem_peersOf.mpr ⟨(completes j hj).member, Ne.symm same⟩
      have peerI : i ∈ peersOf j n := mem_peersOf.mpr ⟨(completes i hi).member, same⟩
      -- the digest that `i` got from `j` and found equal to its own is the digest of `j`
      have digests : [broadcastDigest [m.encode]] = [broadcastDigest [m'.encode]] :=
        (fromJ j peerJ).1.symm.trans ((faithful i j hi hj same 1).trans (toI i peerI).2)
      refine (eq_or_collision (List.singleton_inj.mp digests)).imp_left fun equal => ?_
      have length : ∀ m : Elem F, ∀ bytes ∈ [m.encode], bytes.length = F.byteLength := fun m bytes mem => by
        rw [List.mem_singleton.mp mem, Elem.length_encode]
      exact Elem.encode_injective (List.singleton_inj.mp (broadcastInput_inj (length m) (length m') equal))
  · rw [add_comm]
    exact sharing.addPublic keys (Nat.le_of_succ_le two) m

/-! ## Honest parties -/

section Honest

variable {deck : Deck F} {config : Config} {drawn : Item → Nat} {S : PartyId → SimulatedParty F}

/-- **Honest parties complete a checked input**, each with the messages of the others. -/
theorem exists_completes (declared : F.IsDeclared) (inputs : IsMember deck.parties inputter)
    (value : PartyId → Option (Elem F)) {v : Elem F} (present : value inputter = some v)
    (inStep : InStep deck config True drawn S) :
    ∃ (traffic : Nat → PartyId → List Bytes) (ended : PartyId → CheckedInput F),
      ∀ i, IsMember deck.parties i → Completes (Party.SimulatedSupplier F) deck.parties i
        inputter (value i) (deck.keyShare i) (fromPeers deck.parties traffic i)
        (toPeers deck.parties traffic i) (ended i) := by
  let own (i : PartyId) (S : SimulatedParty F) : Prop := S.id = i ∧ S.keyShare = deck.keyShare i
  have holds : ∀ {drawn} (S : PartyId → SimulatedParty F), InStep deck config True drawn S →
      ∀ i, IsMember deck.parties i → own i (S i) :=
    fun S inStep i member => ⟨inStep.id i member, inStep.keyShare member⟩
  have departs : Departs _ _ (InStep deck config True) _ _ _ _ _ drawn _ :=
    CheckedInput.departs declared inputs present
  obtain ⟨p, S', out, turns, inStep', course⟩ := departs S inStep
  obtain ⟨traffic, ended, finishes, next, -⟩ := course.finishes holds inStep'
  have all := turns.finishTogether (holds S inStep) finishes next
  exact ⟨_, ended, fun i member => ⟨member, all i member⟩⟩

/-- What a member gets from another one is what that one sent to it the round before. -/
theorem fromPeers_eq_toPeers {n : Nat} (traffic : Nat → PartyId → List Bytes) {i j : PartyId}
    (hi : IsMember n i) (hj : IsMember n j) (round : Nat) :
    fromPeers n traffic i (round + 1) j = toPeers n traffic j round i := by
  simp only [fromPeers, toPeers, mem_peersOf_comm hi hj]

end Honest

/-- Three honest parties complete a checked input of the first one, and two of them have the same
difference, unless its digest was found by accident. -/
theorem consistency_of_three : ∃ (keyShare : PartyId → Elem .f251)
    (got sent : PartyId → Nat → PartyId → List Bytes) (ended : PartyId → CheckedInput .f251),
    2 ≤ 3 ∧
    (∀ i, IsMember 3 i → Completes (Party.SimulatedSupplier .f251) 3 i 1
      (if i = 1 then some 5 else none) (keyShare i) (got i) (sent i) (ended i)) ∧
    (∀ i j, IsMember 3 i → IsMember 3 j → i ≠ j → ∀ round, got i (round + 1) j = sent j round i) ∧
    ∃ m m', (ended 2).state.masked = some m ∧ (ended 3).state.masked = some m' ∧
      (m = m' ∨ Collision (broadcastInput [m.encode]) (broadcastInput [m'.encode])) := by
  obtain ⟨T, begun⟩ := Session.exists_hasBegun .f251 (by decide : 1 ≤ 3)
    (rfl : ({} : Config).strategy = .simulated 0) fun i => Config.validate_default (by decide)
  obtain ⟨deck, parties, -, aligned⟩ := exists_deck_begun .f251 (by decide : 1 ≤ 3)
    (rfl : ({} : Config).strategy = .simulated 0)
  have first : IsMember 3 1 := ⟨by decide, by decide⟩
  have second : IsMember 3 2 := ⟨by decide, by decide⟩
  have third : IsMember 3 3 := ⟨by decide, by decide⟩
  obtain ⟨traffic, ended, completes⟩ := exists_completes (.inl rfl) (parties ▸ first)
    (fun i => if i = 1 then some 5 else none) (if_pos rfl) (aligned T begun).inStep
  rw [parties] at completes
  have faithful : ∀ i j, IsMember 3 i → IsMember 3 j → i ≠ j → ∀ round, _ :=
    fun i j hi hj _ round => fromPeers_eq_toPeers traffic hi hj round
  obtain ⟨each, common, -⟩ := consistency (by decide : 2 ≤ 3) completes faithful
  obtain ⟨-, m, -, known, -⟩ := each 2 second
  obtain ⟨-, m', -, known', -⟩ := each 3 third
  exact ⟨_, _, _, ended, by decide, completes, faithful, m, m', known, known',
    common 2 3 second third m m' known known'⟩

end CheckedInput

end Spdz
