import Spdz.Proofs.Evaluation.Lockstep
import Spdz.Proofs.Protocol.InStep
import Spdz.Proofs.Protocol.Open

/-!
# Protocols that open shares

Opening takes two rounds: the shares are sent and added up.  What is opened is the sum of the shares,
whatever these are, and it is recorded by all parties.  If a sharing is opened, the record is one that
can be trusted.

* `Open.departs`, `OpenTo.departs` — everybody, or the target alone, ends with the sum of the shares.
* `Multiply.departs` — everybody ends with a share, and these are a sharing of the product.
-/

namespace Spdz

variable {F : FieldSpec} {deck : Deck F} {config : Config} {trusted : Prop} {drawn : Item → Nat}

/-- The sum of all parties' value shares. -/
def Deck.opened (deck : Deck F) (x : PartyId → Share F) : Elem F :=
  ∑ i ∈ Finset.Icc 1 deck.parties, (x i).value

/-- Whether shares are a sharing of anything. -/
def Deck.Authentic (deck : Deck F) (x : PartyId → Share F) : Prop :=
  IsSharing deck.parties deck.key x (deck.opened x)

theorem IsSharing.authentic {x : PartyId → Share F} {v : Elem F}
    (sharing : IsSharing deck.parties deck.key x v) : deck.Authentic x := by
  rw [Deck.Authentic, Deck.opened, sharing.value]
  exact sharing

/-- What a party adds up when all sent one share. -/
theorem sumAt_shares {i : PartyId} (member : IsMember deck.parties i) (x : PartyId → Share F) :
    sumAt (x i).value ((peersOf i deck.parties).map fun j => (j, [(x j).value])) 0 = deck.opened x :=
  sumAt_peersOf member (fun j => [(x j).value]) 0

/-- One share is read from a message. -/
theorem decodeList_share (declared : F.IsDeclared) (a : Elem F) :
    Elem.decodeList F (Elem.encodeList [a]) 1 = some (.ok [a]) := by
  have fits : 1 * F.byteLength < UInt64.size := declared.fits (by decide)
  exact Elem.decodeList_encodeList [a] fits

/-- Two shares are read from a message. -/
theorem decodeList_pair (declared : F.IsDeclared) (a b : Elem F) :
    Elem.decodeList F (Elem.encodeList [a, b]) 2 = some (.ok [a, b]) := by
  have fits : 2 * F.byteLength < UInt64.size := declared.fits (by decide)
  exact Elem.decodeList_encodeList [a, b] fits

/-! ## Opening to all -/

namespace Open

variable {S : PartyId → SimulatedParty F} {x : PartyId → Share F}

theorem turns_zero (n : Nat) :
    Turns n (Protocol.evaluate 0) (fun i => ({ share := x i } : Open F)) S (fun _ => [])
      (fun _ => .ok .hasMoreRounds) (fun i => { share := x i }) S
      fun i => [Elem.encodeList [(x i).value]] :=
  fun _ _ => play_zero

theorem turns_one (declared : F.IsDeclared) :
    Turns deck.parties (Protocol.evaluate 1) (fun i => ({ share := x i } : Open F)) S
      (fun i => [Elem.encodeList [(x i).value]]) (fun _ => .ok .isDone)
      (fun i => { share := x i, output := some (deck.opened x) })
      (recording ⟨x, deck.opened x⟩ S) fun _ => [] :=
  fun _ member => play_one (fun _ _ => decodeList_share declared _) (sumAt_shares member x)

theorem departs (declared : F.IsDeclared) (authentic : trusted → deck.Authentic x) :
    Departs deck.parties (InStep deck config True) (InStep deck config trusted)
      (fun p : PartyId → Open F => ∀ i, IsMember deck.parties i →
        (p i).output = some (deck.opened x))
      1 0 (fun i => { share := x i }) (fun _ => []) drawn drawn := by
  intro S inStep
  exact ⟨_, S, _, turns_zero deck.parties, inStep, fun g S inStep =>
    ⟨_, _, _, turns_one declared, inStep.recording authentic, fun _ _ => rfl, rfl⟩⟩

end Open

/-! ## Opening to one party -/

section OpenTo

variable {S : PartyId → SimulatedParty F} {x : PartyId → Share F} {target : PartyId}

/-- The shares of the difference from a mask. -/
def maskedBy (x : PartyId → Share F) (mask : PartyId → InputMask F) (i : PartyId) : Share F :=
  x i - (mask i).mask

/-- Everybody draws the mask and sends its share of the difference. -/
theorem OpenTo.turns_zero (inStep : InStep deck config trusted drawn S)
    (there : IsMember deck.parties target) :
    Turns deck.parties (Protocol.evaluate 0) (fun i => ({ share := x i, target } : OpenTo F)) S
      (fun _ => []) (fun _ => .ok .hasMoreRounds)
      (fun i => {
        share := x i, target, mask := some (deck.dealt i (.mask target) (drawn (.mask target))) })
      (drawing (.mask target) S)
      fun i => [Elem.encodeList
        [(maskedBy x (fun i => deck.dealt i (.mask target) (drawn (.mask target))) i).value]] := by
  intro i member
  simp only [Protocol.evaluate, OpenTo.evaluate, Round.play_bind, Round.play_get, Option.bind_some,
    Round.proceed_ok, inStep.play_draw (.mask target) there member, Round.play_sendElements,
    Round.play_set, Round.play_pure]
  rfl

/-- The difference from the mask is opened, and the target takes the mask off. -/
theorem OpenTo.turns_one (declared : F.IsDeclared)
    (id : ∀ i, IsMember deck.parties i → (S i).id = i) {mask : PartyId → InputMask F} {v : Elem F}
    (real : ∀ i, (mask i).real = if target = i then some v else none) :
    Turns deck.parties (Protocol.evaluate 1)
      (fun i => ({ share := x i, target, mask := some (mask i) } : OpenTo F)) S
      (fun i => [Elem.encodeList [(maskedBy x mask i).value]]) (fun _ => .ok .isDone)
      (fun i => {
        share := x i, target, mask := some (mask i)
        output := some (if i = target then some (deck.opened (maskedBy x mask) + v) else none) })
      (recording ⟨maskedBy x mask, deck.opened (maskedBy x mask)⟩ S) fun _ => [] := by
  intro i member
  have known : (S i).id = target → (mask i).real = some v := fun here => by
    rw [real, if_pos (here.symm.trans (id i member))]
  have own : (if (S i).id = target then some (deck.opened (maskedBy x mask) + v) else none)
      = if i = target then some (deck.opened (maskedBy x mask) + v) else none := by
    rw [id i member]
  refine (OpenTo.play_one
    (fun j (_ : j ∈ peersOf i deck.parties) => decodeList_share declared (maskedBy x mask j).value)
    known (sumAt_shares member (maskedBy x mask))).trans ?_
  rw [own]
  rfl

theorem OpenTo.departs (declared : F.IsDeclared) (member : IsMember deck.parties target)
    (authentic : trusted → deck.Authentic x) : Departs deck.parties (InStep deck config True)
    (InStep deck config trusted)
    (fun p : PartyId → OpenTo F => ∀ i, IsMember deck.parties i →
      (p i).output = some (if i = target then some (deck.opened x) else none))
    1 0 (fun i => { share := x i, target }) (fun _ => []) drawn (oneMore (.mask target) drawn) := by
  intro S inStep
  obtain ⟨v, sharing, real⟩ := deck.isDealt (.mask target) (drawn (.mask target))
  have opened : deck.opened (maskedBy x fun i => deck.dealt i (.mask target) (drawn (.mask target))) + v
      = deck.opened x := by
    rw [← sharing.value]
    simp [maskedBy, Deck.opened]
  exact ⟨_, _, _, OpenTo.turns_zero inStep member, inStep.drawing _ member,
    fun g S inStep => ⟨_, _, _, OpenTo.turns_one declared inStep.id real,
      inStep.recording fun trust => ((authentic trust).sub sharing).authentic,
      fun i _ => by rw [opened], rfl⟩⟩

end OpenTo

/-! ## Multiplying -/

namespace Multiply

variable {S : PartyId → SimulatedParty F} {x y : PartyId → Share F} {t : PartyId → Triple F}

/-- The shares of the two differences. -/
def epsilon (x : PartyId → Share F) (t : PartyId → Triple F) (i : PartyId) : Share F :=
  x i - (t i).a

@[inherit_doc epsilon]
def delta (y : PartyId → Share F) (t : PartyId → Triple F) (i : PartyId) : Share F :=
  y i - (t i).b

/-- What the parties combine when the differences were opened to `e` and `d`. -/
def combined (deck : Deck F) (t : PartyId → Triple F) (e d : Elem F) (i : PartyId) : Share F :=
  ((t i).c + (t i).b.scale e + (t i).a.scale d).addPublic (e * d) (deck.keyShare i) i

/-- The shares that the parties end with. -/
def product (deck : Deck F) (x y : PartyId → Share F) (t : PartyId → Triple F) : PartyId → Share F :=
  combined deck t (deck.opened (epsilon x t)) (deck.opened (delta y t))

/-- **The parties hold a sharing of the product.** -/
theorem isSharing_product {a b u v : Elem F}
    (dealt : IsDealt deck.parties deck.key deck.length .triple (a, b) t)
    (hx : IsSharing deck.parties deck.key x u) (hy : IsSharing deck.parties deck.key y v) :
    IsSharing deck.parties deck.key (product deck x y t) (u * v) := by
  obtain ⟨ha, hb, hc⟩ := dealt
  have e : deck.opened (epsilon x t) = u - a := (hx.sub ha).value
  have d : deck.opened (delta y t) = v - b := (hy.sub hb).value
  have combined := IsSharing.combine deck.keys deck.one ha hb hc (u - a) (v - b)
  rw [add_sub_cancel, add_sub_cancel] at combined
  rw [product, e, d]
  exact combined

/-- Everybody draws a triple and sends its shares of the differences. -/
theorem turns_zero (inStep : InStep deck config trusted drawn S) :
    Turns deck.parties (Protocol.evaluate 0) (fun i => ({ x := x i, y := y i } : Multiply F)) S
      (fun _ => []) (fun _ => .ok .hasMoreRounds)
      (fun i => { x := x i, y := y i, triple := some (deck.dealt i .triple (drawn .triple)) })
      (drawing .triple S)
      fun i => [Elem.encodeList
        [(epsilon x (fun i => deck.dealt i .triple (drawn .triple)) i).value,
          (delta y (fun i => deck.dealt i .triple (drawn .triple)) i).value]] := by
  intro i member
  simp only [Protocol.evaluate, Multiply.evaluate, Round.play_bind, Round.play_get, Option.bind_some,
    Round.proceed_ok, inStep.play_draw .triple trivial member, Round.play_sendElements,
    Round.play_set, Round.play_pure]
  rfl

/-- The differences are opened and combined. -/
theorem turns_one (declared : F.IsDeclared) (id : ∀ i, IsMember deck.parties i → (S i).id = i)
    (keyShare : ∀ i, IsMember deck.parties i → (S i).keyShare = deck.keyShare i) :
    Turns deck.parties (Protocol.evaluate 1)
      (fun i => ({ x := x i, y := y i, triple := some (t i) } : Multiply F)) S
      (fun i => [Elem.encodeList [(epsilon x t i).value, (delta y t i).value]])
      (fun _ => .ok .isDone)
      (fun i => {
        x := x i, y := y i, triple := some (t i), output := some (product deck x y t i) })
      (recording ⟨delta y t, deck.opened (delta y t)⟩
        (recording ⟨epsilon x t, deck.opened (epsilon x t)⟩ S)) fun _ => [] := by
  intro i member
  have sums := sumAt_peersOf member fun j => [(epsilon x t j).value, (delta y t j).value]
  have own : product deck x y t i = ((t i).c + (t i).b.scale (deck.opened (epsilon x t))
      + (t i).a.scale (deck.opened (delta y t))).addPublic
        (deck.opened (epsilon x t) * deck.opened (delta y t)) (S i).keyShare (S i).id := by
    rw [keyShare i member, id i member]
    rfl
  refine (play_one (fun j (_ : j ∈ peersOf i deck.parties) => decodeList_pair declared _ _) (sums 0)
    (sums 1)).trans ?_
  beta_reduce
  rw [own]
  rfl

theorem departs (declared : F.IsDeclared) (authenticX : trusted → deck.Authentic x)
    (authenticY : trusted → deck.Authentic y) : Departs deck.parties (InStep deck config True)
    (InStep deck config trusted)
    (fun p : PartyId → Multiply F => ∃ z : PartyId → Share F,
      (∀ i, IsMember deck.parties i → (p i).output = some (z i)) ∧
      ∀ u v, IsSharing deck.parties deck.key x u → IsSharing deck.parties deck.key y v →
        IsSharing deck.parties deck.key z (u * v))
    1 0 (fun i => { x := x i, y := y i }) (fun _ => []) drawn (oneMore .triple drawn) := by
  intro S inStep
  obtain ⟨⟨a, b⟩, dealt⟩ := deck.isDealt .triple (drawn .triple)
  refine ⟨_, _, _, turns_zero inStep, inStep.drawing _ trivial,
    fun g S inStep => ⟨_, _, _, turns_one declared inStep.id fun i member => inStep.keyShare member,
      ?_, ⟨product deck x y _, fun i _ => rfl, fun u v => isSharing_product dealt⟩, rfl⟩⟩
  refine InStep.recording (InStep.recording inStep fun trust => ?_) fun trust => ?_
  · exact ((authenticX trust).sub dealt.1).authentic
  · exact ((authenticY trust).sub dealt.2.1).authentic

end Multiply

end Spdz
