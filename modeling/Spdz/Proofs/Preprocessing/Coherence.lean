import Spdz.Proofs.Field.Inverse
import Spdz.Proofs.Preprocessing.Answers
import Spdz.Proofs.Preprocessing.Deck

/-!
# Lots that fit together

The dealers of a group are asked for lots, each by its own party.  As long as all parties make the
same requests for each kind of item, it does not matter how a party mixes the kinds: the items that
the parties got for the same request are the shares of one item.

* `lotsOf`, `pipeLengths` — what was asked for of one kind, lot by lot and item by item.
* `Coherent` — what the shares of an item must satisfy.
* `Dealing.dealEach` — items of one kind, dealt one by one.
* `Dealer.received_answersTo` — what a dealer gives of one kind depends on the requests for that kind
  alone; `Dealing.dealEach_spec`, it is the same for all parties.
* **`Dealer.coherent`** — the items of all parties fit together.
-/

namespace Spdz

variable {F : FieldSpec} {γ : Type} {n : Nat} {key : Elem F} {item : Item}

/-! ## Requests -/

/-- The lots of one kind that were asked for, in order. -/
def lotsOf (item : Item) (requests : List (Item × Lot)) : List Lot :=
  (requests.filter fun request => request.1 = item).map (·.2)

/-- For each item of the lots, how many shares it has if it is a pipe. -/
def pipeLengths (lots : List Lot) : List Nat :=
  lots.flatMap fun lot => List.replicate lot.count lot.pipeLength

@[simp] theorem pipeLengths_cons (lot : Lot) (lots : List Lot) :
    pipeLengths (lot :: lots) = List.replicate lot.count lot.pipeLength ++ pipeLengths lots :=
  List.flatMap_cons

/-! ## Items that fit together -/

/-- **Coherent.**  What the parties hold of an item are authenticated shares: of two factors and their
product, of a value that the recipient of a mask knows and nobody else, of any element, of a bit, or
of the inverse of an element and its powers from the first on. -/
def Coherent (n : Nat) (key : Elem F) (length : Nat) :
    (item : Item) → (PartyId → item.Value F) → Prop
  | .triple, d => ∃ a b, IsSharing n key (fun i => (d i).a) a ∧ IsSharing n key (fun i => (d i).b) b ∧
      IsSharing n key (fun i => (d i).c) (a * b)
  | .mask toward, d => ∃ v, IsSharing n key (fun i => (d i).mask) v ∧
      ∀ i, (d i).real = if i = toward then some v else none
  | .element, d => ∃ v, IsSharing n key d v
  | .bit, d => ∃ v, (v = 0 ∨ v = 1) ∧ IsSharing n key d v
  | .pipe, d => (∀ i, (d i).length = length) ∧ ∃ r inverse, r ≠ 0 ∧ r * inverse = 1 ∧
      (0 < length → IsSharing n key (fun i => (d i).getD 0 0) inverse) ∧
      ∀ k, 1 ≤ k → k < length → IsSharing n key (fun i => (d i).getD k 0) (r ^ k)

/-- The shares of an item that is dealt fit together. -/
theorem IsDealt.fitTogether (prime : F.modulus.Prime) {length : Nat} {plain : item.Plain F}
    {d : PartyId → item.Value F} (dealt : IsDealt n key length item plain d) :
    Coherent n key length item d := by
  cases item with
  | triple => exact ⟨_, _, dealt⟩
  | mask toward => exact ⟨plain, dealt.1, fun i => by simp only [dealt.2 i, eq_comm]⟩
  | element => exact ⟨plain, dealt⟩
  | bit =>
      refine ⟨_, ?_, dealt⟩
      cases plain with
      | false => exact .inl rfl
      | true => exact .inr rfl
  | pipe =>
      obtain ⟨nonzero, lengths, sharings⟩ := dealt
      obtain ⟨inverse, computed, inverts⟩ := Elem.mul_invert_of_prime prime nonzero
      refine ⟨lengths, plain, inverse, nonzero, inverts, fun some => ?_, fun k first last => ?_⟩
      · have head := sharings 0 some
        obtain ⟨more, rfl⟩ : ∃ more, length = more + 1 := ⟨length - 1, by omega⟩
        simpa [Dealing.pipeValues, computed] using head
      · have entry := sharings k last
        obtain ⟨more, rfl⟩ : ∃ more, length = more + 1 := ⟨length - 1, by omega⟩
        obtain ⟨before, rfl⟩ : ∃ before, k = before + 1 := ⟨k - 1, by omega⟩
        have small : before < more := by omega
        simpa [Dealing.pipeValues, small, Elem.pow_eq] using entry

/-! ## Items of one kind -/

namespace Dealing

variable [WordSource γ]

/-- Deal items of one kind one by one, each with its own number of shares if it is a pipe. -/
def dealEach (dealing : Dealing F) (item : Item) : List Nat → γ → List (item.Value F) × γ
  | [], source => ([], source)
  | length :: lengths, source =>
    let (first, source) := dealing.deal length item source
    let (others, source) := dealing.dealEach item lengths source
    (first :: others, source)

theorem length_dealEach (dealing : Dealing F) (lengths : List Nat) (source : γ) :
    (dealing.dealEach item lengths source).1.length = lengths.length := by
  induction lengths generalizing source with
  | nil => rfl
  | cons length lengths ih => simp only [dealEach, List.length_cons, ih]

/-- A lot is dealt item by item. -/
theorem collect_deal (dealing : Dealing F) (length count : Nat) (source : γ) :
    WordSource.collect (dealing.deal length item) count source
      = dealing.dealEach item (List.replicate count length) source := by
  induction count generalizing source with
  | zero => rfl
  | succ count ih => simp only [WordSource.collect, List.replicate_succ, dealEach, ih]

/-- Some items and then some more. -/
theorem dealEach_append (dealing : Dealing F) (lengths more : List Nat) (source : γ) :
    dealing.dealEach item (lengths ++ more) source
      = ((dealing.dealEach item lengths source).1
            ++ (dealing.dealEach item more (dealing.dealEach item lengths source).2).1,
          (dealing.dealEach item more (dealing.dealEach item lengths source).2).2) := by
  induction lengths generalizing source with
  | nil => rfl
  | cons length lengths ih => simp only [List.cons_append, dealEach, ih]

variable (key) in
/-- **The parties deal the same items**, and each keeps its own shares. -/
theorem dealEach_spec (one : 1 ≤ n) (item : Item) (lengths : List Nat) (source : γ) :
    ∃ (d : List (PartyId → item.Value F)) (after : γ),
      (∀ i, (⟨i, n, key⟩ : Dealing F).dealEach item lengths source = (d.map (· i), after)) ∧
      List.Forall₂ (fun length d => ∃ plain, IsDealt n key length item plain d) lengths d := by
  induction lengths generalizing source with
  | nil => exact ⟨[], source, fun _ => rfl, .nil⟩
  | cons length lengths ih =>
      obtain ⟨plain, first, middle, reads, dealt⟩ := deal_spec key one length item source
      obtain ⟨d, after, others, all⟩ := ih middle
      refine ⟨first :: d, after, fun i => ?_, .cons ⟨plain, dealt⟩ all⟩
      simp only [dealEach, reads, others, List.map_cons]

end Dealing

/-! ## Dealers -/

namespace Dealer

variable {dealer : Dealer F}

/-- There is a stream for the items of the group only. -/
theorem within_of_stream? (masks : dealer.masks.length = n) {stream : Xoshiro}
    (here : dealer.stream? item = .ok stream) : item.Within n := by
  cases item with
  | mask toward =>
      cases toward with
      | zero => simp [stream?] at here
      | succ index =>
          have small : index < dealer.masks.length := by
            by_contra beyond
            simp [stream?, List.getElem?_eq_none (Nat.le_of_not_lt beyond)] at here
          exact ⟨Nat.succ_pos index, masks ▸ small⟩
  | _ => trivial

/-- A dealer goes on with a stream that was used. -/
theorem generate_ok {stream : Xoshiro} (here : dealer.stream? item = .ok stream) (lot : Lot) :
    dealer.generate item lot
      = (.ok (dealer.dealing.dealEach item (List.replicate lot.count lot.pipeLength) stream).1,
        dealer.setStream item
          (dealer.dealing.dealEach item (List.replicate lot.count lot.pipeLength) stream).2) := by
  simp only [generate, here, Dealing.collect_deal]

theorem generate_error {e : PreprocessingError} (none : dealer.stream? item = .error e) (lot : Lot) :
    dealer.generate item lot = (.error e, dealer) := by
  simp only [generate, none]

@[simp] theorem dealing_setStream (stream : Xoshiro) :
    (dealer.setStream item stream).dealing = dealer.dealing := by
  cases item <;> rfl

@[simp] theorem length_masks_setStream (stream : Xoshiro) :
    (dealer.setStream item stream).masks.length = dealer.masks.length := by
  cases item <;> simp [setStream]

/-- **Only requests for the same kind matter** for what a dealer gives of one kind. -/
theorem received_answersTo {stream : Xoshiro} (here : dealer.stream? item = .ok stream)
    (requests : List (Item × Lot)) : received item (answersTo requests dealer)
      = (dealer.dealing.dealEach item (pipeLengths (lotsOf item requests)) stream).1 := by
  induction requests generalizing dealer stream with
  | nil => rfl
  | cons request requests ih =>
      obtain ⟨kind, lot⟩ := request
      show received item (⟨kind, lot, (dealer.generate kind lot).1⟩
        :: answersTo requests (dealer.generate kind lot).2) = _
      rw [received_cons]
      by_cases same : kind = item
      · subst same
        have lots : lotsOf kind ((kind, lot) :: requests) = lot :: lotsOf kind requests := by
          simp [lotsOf]
        rw [generate_ok here, Answer.brought_ok, ih (stream?_setStream_self here _), dealing_setStream,
          lots, pipeLengths_cons, Dealing.dealEach_append]
      · -- a request of another kind leaves this stream where it is
        have others : lotsOf item ((kind, lot) :: requests) = lotsOf item requests := by
          simp [lotsOf, same]
        rw [Answer.brought_of_ne _ same, List.nil_append, others]
        cases found : dealer.stream? kind with
        | error e =>
            rw [generate_error found]
            exact ih here
        | ok stream' =>
            rw [generate_ok found, ih ((stream?_setStream_of_ne found (Ne.symm same) _).trans here),
              dealing_setStream]

/-- No masks come toward those who do not belong to the group. -/
theorem received_of_not_within (without : ¬ item.Within n) (masks : dealer.masks.length = n)
    (requests : List (Item × Lot)) : received (F := F) item (answersTo requests dealer) = [] := by
  induction requests generalizing dealer with
  | nil => rfl
  | cons request requests ih =>
      obtain ⟨kind, lot⟩ := request
      show received item (⟨kind, lot, (dealer.generate kind lot).1⟩
        :: answersTo requests (dealer.generate kind lot).2) = _
      cases found : dealer.stream? kind with
      | error e => simp [generate_error found, ih masks]
      | ok stream =>
          have differs : kind ≠ item := fun same =>
            without (same ▸ within_of_stream? masks found)
          rw [generate_ok found, received_cons, Answer.brought_of_ne _ differs, List.nil_append]
          exact ih ((length_masks_setStream _).trans masks)

/-- **Coherence.**  The dealers of `n` parties start from one seed, and for each kind of item all
parties make the same requests, mixed with those for other kinds in any way.  Then the items of each
kind that the parties got are, one by one, shares under the key that the parties' key shares add up
to, and there are as many of them as were asked for. -/
theorem coherent (prime : F.modulus.Prime) (two : 2 ≤ n) (seed : UInt8)
    {requests : PartyId → List (Item × Lot)}
    (same : ∀ item i j, IsMember n i → IsMember n j →
      lotsOf item (requests i) = lotsOf item (requests j)) (item : Item) :
    ∃ d : List (PartyId → item.Value F),
      (∀ i, IsMember n i →
        received item (answersTo (requests i) (Dealer.new F n i seed)) = d.map (· i)) ∧
      List.Forall₂
        (fun length d =>
          Coherent n (∑ i ∈ Finset.Icc 1 n, (Dealer.new F n i seed).keyShare) length item d)
        (if item.Within n then pipeLengths (lotsOf item (requests 1)) else []) d := by
  have one : 1 ≤ n := Nat.le_of_succ_le two
  -- the length of the deck's own pipes does not matter, since each lot brings its length
  obtain ⟨deck, rfl, -, dealers⟩ := exists_deck F one 0 seed
  have keys : ∑ i ∈ Finset.Icc 1 deck.parties, (Dealer.new F deck.parties i seed).keyShare
      = deck.key := by
    rw [← deck.keys]
    exact Finset.sum_congr rfl fun i _ => (dealers i).1
  rw [keys]
  have masks := fun i => (dealers i).2.masks
  by_cases within : item.Within deck.parties
  · have has : deck.Has item := by cases item <;> exact within
    obtain ⟨d, after, deals, all⟩ := Dealing.dealEach_spec deck.key deck.one item
      (pipeLengths (lotsOf item (requests 1))) (deck.source item)
    refine ⟨d, fun i member => ?_, ?_⟩
    · rw [received_answersTo ((dealers i).2.stream item has),
        same item i 1 member ⟨le_refl 1, one⟩, (dealers i).2.dealing]
      exact congrArg Prod.fst (deals i)
    · rw [if_pos within]
      exact all.imp fun length d ⟨plain, dealt⟩ => dealt.fitTogether prime
  · exact ⟨[], fun i _ => received_of_not_within within (masks i) _, by rw [if_neg within]; exact .nil⟩

/-- Requests for a triple and for pipes of different lengths, in an order that depends on the party. -/
def mixed (i : PartyId) : List (Item × Lot) :=
  if i = 1 then [(.pipe, ⟨1, 3⟩), (.triple, ⟨2, 3⟩), (.pipe, ⟨1, 0⟩)]
  else [(.triple, ⟨2, 3⟩), (.pipe, ⟨1, 3⟩), (.pipe, ⟨1, 0⟩)]

/-- Two parties that mix their requests differently get a pipe of three shares and an empty one, which
fit together. -/
theorem coherent_of_two : FieldSpec.f251.modulus.Prime ∧
    (∀ item i j, IsMember 2 i → IsMember 2 j → lotsOf item (mixed i) = lotsOf item (mixed j)) ∧
    ∃ d : List (PartyId → Item.pipe.Value .f251),
      (∀ i, IsMember 2 i → received .pipe (answersTo (mixed i) (new .f251 2 i 7)) = d.map (· i)) ∧
      List.Forall₂ (fun length d =>
        Coherent 2 (∑ i ∈ Finset.Icc 1 2, (new .f251 2 i 7).keyShare) length .pipe d) [3, 0] d := by
  have prime : FieldSpec.f251.modulus.Prime := by norm_num [FieldSpec.f251]
  have same : ∀ item i j, IsMember 2 i → IsMember 2 j →
      lotsOf item (mixed i) = lotsOf item (mixed j) := by
    intro item i j _ _
    simp only [mixed]
    cases item <;> split_ifs <;> rfl
  exact ⟨prime, same, coherent prime (le_refl 2) 7 same .pipe⟩

end Dealer

end Spdz
