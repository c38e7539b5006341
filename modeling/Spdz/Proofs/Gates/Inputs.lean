import Spdz.Proofs.Evaluation.Lockstep
import Spdz.Proofs.Protocol.Broadcast
import Spdz.Proofs.Protocol.InStep
import Spdz.Protocol.Input

/-!
# Inputs

Only the inputter sends anything in the first round of an input, and only the others receive it.  The
masked input is the same in both kinds of inputs, so its parts are described once.

* `MaskedInput.play_send`, `MaskedInput.play_receive`, `MaskedInput.play_combine` — the parts.
* `Input.departs`, `CheckedInput.departs` — everybody ends with a share of what the inputter has.
-/

namespace Spdz

variable {F : FieldSpec} {deck : Deck F} {config : Config} {trusted : Prop} {drawn : Item → Nat}
  {value : PartyId → Option (Elem F)} {inputter : PartyId} {mask : PartyId → InputMask F}
  {real v : Elem F}

/-- A party's side of a mask. -/
def Deck.maskAt (deck : Deck F) (toward : PartyId) (index : Nat) (i : PartyId) : InputMask F :=
  deck.dealt i (.mask toward) index

/-- The value of a mask, which the party knows toward which it was dealt. -/
def Deck.maskValue (deck : Deck F) (toward : PartyId) (index : Nat) : Elem F :=
  (deck.maskAt toward index toward).real.getD 0

theorem Deck.isDealt_mask (deck : Deck F) (toward : PartyId) (index : Nat) :
    IsSharing deck.parties deck.key (fun i => (deck.maskAt toward index i).mask)
      (deck.maskValue toward index) ∧
    ∀ i, (deck.maskAt toward index i).real
      = if toward = i then some (deck.maskValue toward index) else none := by
  obtain ⟨real, sharing, known⟩ := deck.isDealt (.mask toward) index
  have value : deck.maskValue toward index = real := by
    rw [maskValue, maskAt, known, if_pos rfl, Option.getD_some]
  rw [value]
  exact ⟨sharing, known⟩

namespace MaskedInput

/-- A party's part of the input before the difference was received, and after. -/
def sent (value : PartyId → Option (Elem F)) (inputter : PartyId) (mask : PartyId → InputMask F)
    (difference : Elem F) (i : PartyId) : MaskedInput F where
  input := value i
  inputter := inputter
  mask := some (mask i)
  masked := if i = inputter then some difference else none

@[inherit_doc sent]
def received (value : PartyId → Option (Elem F)) (inputter : PartyId) (mask : PartyId → InputMask F)
    (difference : Elem F) (i : PartyId) : MaskedInput F where
  input := value i
  inputter := inputter
  mask := some (mask i)
  masked := some difference

/-- What is sent in the first round. -/
def message (inputter : PartyId) (difference : Elem F) (i : PartyId) : List Bytes :=
  if i = inputter then [Elem.encodeList [difference]] else []

/-- The share that a party ends with. -/
def combined (deck : Deck F) (mask : PartyId → InputMask F) (difference : Elem F) (i : PartyId) :
    Share F := (mask i).mask.addPublic difference (deck.keyShare i) i

/-- **The parties hold a sharing of the input.** -/
theorem isSharing_combined
    (sharing : IsSharing deck.parties deck.key (fun i => (mask i).mask) real) (v : Elem F) :
    IsSharing deck.parties deck.key (combined deck mask (v - real)) v := by
  have all := sharing.addPublic deck.keys deck.one (v - real)
  rwa [add_sub_cancel] at all

section Play

variable {S : PartyId → SimulatedParty F} {i : PartyId} {peers : List PartyId}
  {came : PartyId → List Bytes} {out : List Bytes}

/-- Everybody draws the mask, and the inputter sends the difference. -/
theorem play_send (inStep : InStep deck config trusted drawn S)
    (inputs : IsMember deck.parties inputter) (present : value inputter = some v)
    (known : ∀ i, (deck.maskAt inputter (drawn (.mask inputter)) i).real
      = if inputter = i then some real else none) (member : IsMember deck.parties i) :
    (send : Round F _ _ _).play peers { input := value i, inputter } (S i) (.among peers came out)
      = some (((.ok (), sent value inputter
            (deck.maskAt inputter (drawn (.mask inputter))) (v - real) i),
          drawing (.mask inputter) S i),
        .among peers came (out ++ message inputter (v - real) i)) := by
  have party : (drawing (.mask inputter) S i).id = i := inStep.id i member
  simp only [send, Round.play_bind, Round.play_get, Option.bind_some, Round.proceed_ok,
    inStep.play_draw (.mask inputter) inputs member, Round.play_set, Round.play_party]
  by_cases here : i = inputter
  · have own : value i = some v := here ▸ present
    have mine : (deck.dealt i (.mask inputter) (drawn (.mask inputter))).real = some real :=
      (known i).trans (if_pos here.symm)
    simp only [if_pos (party.trans here), own, mine, Round.play_bind, Round.play_sendElements,
      Option.bind_some, Round.proceed_ok, Round.play_set, sent, message, if_pos here, Deck.maskAt]
  · have other : (drawing (.mask inputter) S i).id ≠ inputter := fun same => here (party ▸ same)
    simp only [if_neg other, Round.play_pure, sent, message, if_neg here, List.append_nil, Deck.maskAt]

/-- Everybody but the inputter receives the difference. -/
theorem play_receive (declared : F.IsDeclared) {n : Nat} (inputs : IsMember n inputter)
    {difference : Elem F} :
    (receive : Round F _ _ _).play (peersOf i n) (sent value inputter mask difference i) (S i)
        (.among (peersOf i n) (message inputter difference) out)
      = some (((.ok difference, received value inputter mask difference i), S i),
        .among (peersOf i n) (fun _ => []) out) := by
  by_cases here : i = inputter
  · have nothing : Mailbox.among (peersOf i n) (message inputter difference) out
        = .among (peersOf i n) (fun _ => []) out := Mailbox.among_congr fun j mem => by
      have other : j ≠ inputter := fun same => (mem_peersOf.mp mem).2 (same.trans here.symm)
      rw [message, if_neg other]
    simp only [receive, Round.play_bind, Round.play_get, Option.bind_some, Round.proceed_ok, sent,
      if_pos here, Round.play_pure, nothing, received]
  · have mem : inputter ∈ peersOf i n := mem_peersOf.mpr ⟨inputs, Ne.symm here⟩
    have one : 1 * F.byteLength < UInt64.size := declared.fits (by decide)
    have read : (Round.receiveElements inputter 1 : Round F _ (MaskedInput F) _).play (peersOf i n)
        (sent value inputter mask difference i) (S i)
        (.among (peersOf i n) (message inputter difference) out)
        = some (((.ok [difference], sent value inputter mask difference i), S i),
          .among (peersOf i n) (fun _ => []) out) := Round.play_receiveElements mem one rfl
    simp only [sent, if_neg here] at read ⊢
    simp only [receive, Round.play_bind, Round.play_get, Option.bind_some, Round.proceed_ok, read,
      List.headD_cons, Round.play_set, Round.play_pure, received]

/-- The mask is taken off. -/
theorem play_combine (inStep : InStep deck config trusted drawn S)
    (member : IsMember deck.parties i) {difference : Elem F} {box : Mailbox} (round : Nat) :
    (combine round : Round F _ _ _).play peers (received value inputter mask difference i) (S i) box
      = some (((.ok (combined deck mask difference i), received value inputter mask difference i),
          S i), box) := by
  have own : combined deck mask difference i
      = (mask i).mask.addPublic difference (S i).keyShare (S i).id := by
    rw [combined, inStep.keyShare member, inStep.id i member]
  rw [own]
  simp only [combine, received, Round.play_bind, Round.play_get, Round.play_party, Option.bind_some,
    Round.proceed_ok, Round.play_pure]

end Play

end MaskedInput

/-! ## Inputs that are not checked -/

section Departs

variable {S : PartyId → SimulatedParty F}

theorem Input.turns_zero (inStep : InStep deck config trusted drawn S)
    (inputs : IsMember deck.parties inputter) (present : value inputter = some v)
    (known : ∀ i, (deck.maskAt inputter (drawn (.mask inputter)) i).real
      = if inputter = i then some real else none) :
    Turns deck.parties (Protocol.evaluate 0) (fun i => Input.new (value i) inputter) S (fun _ => [])
      (fun _ => .ok .hasMoreRounds)
      (fun i => {
        state := .sent value inputter (deck.maskAt inputter (drawn (.mask inputter))) (v - real) i })
      (drawing (.mask inputter) S) (MaskedInput.message inputter (v - real)) := by
  intro i member
  simp only [Protocol.evaluate, Input.evaluate, Input.masking, Input.new, Round.play_bind,
    Round.play_within, MaskedInput.play_send inStep inputs present known member, Option.map_some,
    Option.bind_some, Round.proceed_ok, Round.play_pure]
  rfl

variable (value)

theorem Input.turns_one (declared : F.IsDeclared) (inputs : IsMember deck.parties inputter)
    (inStep : InStep deck config trusted drawn S) {difference : Elem F} :
    Turns deck.parties (Protocol.evaluate 1)
      (fun i => ({ state := MaskedInput.sent value inputter mask difference i } : Input F)) S
      (MaskedInput.message inputter difference) (fun _ => .ok .isDone)
      (fun i => {
        state := MaskedInput.received value inputter mask difference i
        output := some (MaskedInput.combined deck mask difference i) }) S fun _ => [] := by
  intro i member
  simp only [Protocol.evaluate, Input.evaluate, Input.masking, Round.play_bind, Round.play_discard,
    Round.play_within, MaskedInput.play_receive declared inputs, Option.map_some, Option.bind_some,
    Round.proceed_ok, Round.play_pure, MaskedInput.play_combine inStep member, Round.play_modify]

variable {value}

theorem Input.departs (declared : F.IsDeclared) (inputs : IsMember deck.parties inputter)
    (present : value inputter = some v) : Departs deck.parties (InStep deck config True)
    (InStep deck config trusted)
    (fun p : PartyId → Input F => ∃ z : PartyId → Share F,
      (∀ i, IsMember deck.parties i → (p i).output = some (z i)) ∧
      IsSharing deck.parties deck.key z v)
    1 0 (fun i => .new (value i) inputter) (fun _ => []) drawn (oneMore (.mask inputter) drawn) := by
  intro S inStep
  obtain ⟨sharing, known⟩ := deck.isDealt_mask inputter (drawn (.mask inputter))
  exact ⟨_, _, _, Input.turns_zero inStep inputs present known, inStep.drawing _ inputs,
    fun g S inStep => ⟨_, S, _, Input.turns_one value declared inputs inStep, inStep,
      ⟨_, fun i _ => rfl, MaskedInput.isSharing_combined sharing v⟩, rfl⟩⟩

/-! ## Inputs that are checked -/

theorem CheckedInput.turns_zero (inStep : InStep deck config trusted drawn S)
    (inputs : IsMember deck.parties inputter) (present : value inputter = some v)
    (known : ∀ i, (deck.maskAt inputter (drawn (.mask inputter)) i).real
      = if inputter = i then some real else none) :
    Turns deck.parties (Protocol.evaluate 0) (fun i => CheckedInput.new (value i) inputter) S
      (fun _ => []) (fun _ => .ok .hasMoreRounds)
      (fun i => {
        state := .sent value inputter (deck.maskAt inputter (drawn (.mask inputter))) (v - real) i })
      (drawing (.mask inputter) S) (MaskedInput.message inputter (v - real)) := by
  intro i member
  simp only [Protocol.evaluate, CheckedInput.evaluate, CheckedInput.masking, CheckedInput.new,
    Round.play_bind, Round.play_within, MaskedInput.play_send inStep inputs present known member,
    Option.map_some, Option.bind_some, Round.proceed_ok, Round.play_pure]
  rfl

variable (value)

theorem CheckedInput.turns_one (declared : F.IsDeclared) (inputs : IsMember deck.parties inputter)
    {difference : Elem F} : Turns deck.parties (Protocol.evaluate 1)
      (fun i => ({ state := MaskedInput.sent value inputter mask difference i } : CheckedInput F)) S
      (MaskedInput.message inputter difference) (fun _ => .ok .hasMoreRounds)
      (fun i => {
        state := MaskedInput.received value inputter mask difference i
        validation := some (BroadcastValidation.announced { values := [difference.encode] }) })
      S fun _ => [broadcastDigest [difference.encode]] := by
  intro i member
  simp only [Protocol.evaluate, CheckedInput.evaluate, CheckedInput.masking, Round.play_bind,
    Round.play_within, MaskedInput.play_receive declared inputs, Option.map_some, Option.bind_some,
    Round.proceed_ok, Round.play_apart, BroadcastValidation.play_evaluate_zero]
  rfl

theorem CheckedInput.turns_two (inStep : InStep deck config trusted drawn S) {difference : Elem F} :
    Turns deck.parties (Protocol.evaluate 2)
      (fun i => ({
        state := MaskedInput.received value inputter mask difference i
        validation := some (BroadcastValidation.announced { values := [difference.encode] }) } :
        CheckedInput F)) S
      (fun _ => [broadcastDigest [difference.encode]]) (fun _ => .ok .isDone)
      (fun i => {
        state := MaskedInput.received value inputter mask difference i
        validation := some { BroadcastValidation.announced { values := [difference.encode] } with
          isDone := true }
        output := some (MaskedInput.combined deck mask difference i) }) S fun _ => [] := by
  intro i member
  have compared : (BroadcastValidation.evaluate 1 : Round F _ _ _).play (peersOf i deck.parties)
      (BroadcastValidation.announced { values := [difference.encode] }) (S i)
      (.among (peersOf i deck.parties) (fun _ => [broadcastDigest [difference.encode]]) []) = _ :=
    BroadcastValidation.play_evaluate_same { values := [difference.encode] }
  simp only [Protocol.evaluate, CheckedInput.evaluate, CheckedInput.masking, Round.play_bind,
    Round.play_get, Round.play_discard, Round.play_within, compared, Option.map_some,
    Option.bind_some, Round.proceed_ok, Round.play_pure, MaskedInput.play_combine inStep member,
    Round.play_modify]

variable {value}

theorem CheckedInput.departs (declared : F.IsDeclared) (inputs : IsMember deck.parties inputter)
    (present : value inputter = some v) : Departs deck.parties (InStep deck config True)
    (InStep deck config trusted)
    (fun p : PartyId → CheckedInput F => ∃ z : PartyId → Share F,
      (∀ i, IsMember deck.parties i → (p i).output = some (z i)) ∧
      IsSharing deck.parties deck.key z v)
    2 0 (fun i => .new (value i) inputter) (fun _ => []) drawn (oneMore (.mask inputter) drawn) := by
  intro S inStep
  obtain ⟨sharing, known⟩ := deck.isDealt_mask inputter (drawn (.mask inputter))
  exact ⟨_, _, _, CheckedInput.turns_zero inStep inputs present known, inStep.drawing _ inputs,
    fun g S inStep => ⟨_, S, _, CheckedInput.turns_one value declared inputs, inStep,
      fun g S inStep => ⟨_, S, _, CheckedInput.turns_two value inStep, inStep,
        ⟨_, fun i _ => rfl, MaskedInput.isSharing_combined sharing v⟩, rfl⟩⟩⟩

end Departs

end Spdz
