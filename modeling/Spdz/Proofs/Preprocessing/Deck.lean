import Spdz.Proofs.Network.Joint
import Spdz.Proofs.Preprocessing.Dealing

/-!
# The deck

Since the parties of a group simulate the same dealing, there is one endless deck of items of each
kind for all of them, and each party sees its own side of the items.  A dealer knows how far it has
got in each kind.

* `Deck` — what is dealt to a group; `Deck.dealt`, a party's side of an item.
* **`Deck.isDealt`** — the parties' sides of an item fit together.
* `Deck.Holds` — a dealer that has got so far; `Deck.Holds.generate`, it deals a lot.
* `exists_deck` — dealers with equal seeds have a common deck.
-/

namespace Spdz

/-! ## Streams -/

namespace Dealer

variable {F : FieldSpec} {dealer : Dealer F} {item other : Item} {used : Xoshiro}

/-- The stream of a mask is the stream of a party that exists. -/
theorem stream?_mask {toward : PartyId} (here : dealer.stream? (.mask toward) = .ok used) :
    ∃ index, toward = index + 1 ∧ dealer.masks[index]? = some used := by
  cases toward with
  | zero => simp [stream?] at here
  | succ index =>
      refine ⟨index, rfl, ?_⟩
      cases found : dealer.masks[index]? with
      | none => simp [stream?, found] at here
      | some stream => simpa [stream?, found] using here

/-- There is a stream of masks toward each party. -/
theorem exists_stream?_mask {toward : PartyId} (member : IsMember dealer.masks.length toward) :
    ∃ stream, dealer.stream? (.mask toward) = .ok stream := by
  obtain ⟨index, rfl⟩ : ∃ index, toward = index + 1 :=
    ⟨toward - 1, (Nat.sub_add_cancel member.1).symm⟩
  have small : index < dealer.masks.length := member.2
  exact ⟨dealer.masks[index], by simp [stream?, small]⟩

/-- The stream that was set is there. -/
theorem stream?_setStream_self (here : dealer.stream? item = .ok used) (stream : Xoshiro) :
    (dealer.setStream item stream).stream? item = .ok stream := by
  cases item with
  | mask toward =>
      obtain ⟨index, rfl, found⟩ := stream?_mask here
      have small : index < dealer.masks.length := (List.getElem?_eq_some_iff.mp found).1
      simp [stream?, setStream, small]
  | _ => rfl

/-- The other streams stay. -/
theorem stream?_setStream_of_ne (here : dealer.stream? item = .ok used) (differs : other ≠ item)
    (stream : Xoshiro) : (dealer.setStream item stream).stream? other = dealer.stream? other := by
  cases item with
  | mask toward =>
      obtain ⟨index, rfl, -⟩ := stream?_mask here
      cases other with
      | mask recipient =>
          cases recipient with
          | zero => rfl
          | succ k =>
              have apart : index ≠ k := by
                rintro rfl
                exact differs rfl
              simp [stream?, setStream, apart]
      | _ => rfl
  | _ => cases other <;> first | rfl | exact absurd rfl differs

end Dealer

/-! ## The deck -/

/-- What is dealt to a group of parties. -/
structure Deck (F : FieldSpec) where
  parties : Nat
  key : Elem F
  /-- Each party's share of the key. -/
  keyShare : PartyId → Elem F
  /-- How many shares a pipe has. -/
  length : Nat
  /-- Where the items of each kind come from. -/
  source : Item → Xoshiro
  one : 1 ≤ parties
  keys : ∑ i ∈ Finset.Icc 1 parties, keyShare i = key

namespace Deck

variable {F : FieldSpec} (deck : Deck F)

/-- A party deals an item. -/
def read (i : PartyId) (item : Item) : Xoshiro → item.Value F × Xoshiro :=
  (⟨i, deck.parties, deck.key⟩ : Dealing F).deal deck.length item

/-- A party's side of an item. -/
def dealt (i : PartyId) (item : Item) (index : Nat) : item.Value F :=
  WordSource.drawn (deck.read i item) (deck.source item) index

/-- The items there are: masks toward members only. -/
def Has : Item → Prop
  | .mask toward => IsMember deck.parties toward
  | _ => True

/-- All parties read the same from a source. -/
theorem remaining_read (i j : PartyId) (item : Item) (count : Nat) (source : Xoshiro) :
    WordSource.remaining (deck.read i item) count source
      = WordSource.remaining (deck.read j item) count source := by
  induction count generalizing source with
  | zero => rfl
  | succ count ih =>
      obtain ⟨_, _, after, reads, -⟩ :=
        Dealing.deal_spec deck.key deck.one deck.length item source
      have same : ∀ i, (deck.read i item source).2 = after := fun i => by rw [read, reads]
      rw [WordSource.remaining, WordSource.remaining, same i, same j]
      exact ih after

/-- **Each item of the deck is an item dealt to all parties.** -/
theorem isDealt (item : Item) (index : Nat) : ∃ plain,
    IsDealt deck.parties deck.key deck.length item plain fun i => deck.dealt i item index := by
  obtain ⟨plain, d, after, reads, dealt⟩ := Dealing.deal_spec deck.key deck.one deck.length
    item (WordSource.remaining (deck.read 0 item) index (deck.source item))
  have same : (fun i => deck.dealt i item index) = d := funext fun i => by
    rw [Deck.dealt, WordSource.drawn_eq, deck.remaining_read i 0, read, reads]
  exact ⟨plain, same ▸ dealt⟩

/-! ## Dealers -/

/-- A party's dealer, from which so many items of each kind were taken. -/
structure Holds (i : PartyId) (count : Item → Nat) (dealer : Dealer F) : Prop where
  dealing : dealer.dealing = ⟨i, deck.parties, deck.key⟩
  stream : ∀ item, deck.Has item → dealer.stream? item
    = .ok (WordSource.remaining (deck.read i item) (count item) (deck.source item))
  masks : dealer.masks.length = deck.parties

variable {deck} {i : PartyId} {count : Item → Nat} {dealer : Dealer F}

/-- There is a stream for each item of the deck. -/
theorem exists_stream? {item : Item} (has : deck.Has item) (masks : dealer.masks.length = deck.parties) :
    ∃ used, dealer.stream? item = .ok used := by
  cases item with
  | mask toward => exact Dealer.exists_stream?_mask (masks ▸ has)
  | _ => exact ⟨_, rfl⟩

/-- The stream that was set is there, and the other streams stay. -/
theorem stream?_setStream {item other : Item} (has : deck.Has item)
    (masks : dealer.masks.length = deck.parties) (stream : Xoshiro) :
    (dealer.setStream item stream).stream? other
      = if other = item then .ok stream else dealer.stream? other := by
  obtain ⟨used, here⟩ := exists_stream? has masks
  by_cases same : other = item
  · subst same
    rw [if_pos rfl, Dealer.stream?_setStream_self here]
  · rw [if_neg same, Dealer.stream?_setStream_of_ne here same]

/-- A lot is dealt from the deck. -/
theorem Holds.generate (holds : deck.Holds i count dealer) {item : Item} (has : deck.Has item)
    (size : Nat) : ∃ after, dealer.generate item ⟨size, deck.length⟩
        = (.ok ((List.range' (count item) size).map (deck.dealt i item)), after) ∧
      deck.Holds i (Function.update count item (count item + size)) after := by
  have reader : dealer.dealing.deal deck.length item = deck.read i item := by
    rw [holds.dealing]
    rfl
  refine ⟨dealer.setStream item (WordSource.remaining (deck.read i item) (count item + size)
    (deck.source item)), ?_, ?_, fun other hasOther => ?_, ?_⟩
  · simp only [Dealer.generate, holds.stream item has, reader, WordSource.collect_remaining]
    rfl
  · rw [← holds.dealing]
    cases item <;> rfl
  · rw [stream?_setStream has holds.masks]
    by_cases same : other = item
    · rw [if_pos same, same, Function.update_self]
    · rw [if_neg same, Function.update_of_ne same, holds.stream other hasOther]
  · rw [← holds.masks]
    cases item <;> simp [Dealer.setStream]

end Deck

/-- The stream that an item's lots are dealt from. -/
def Dealer.source (dealer : Dealer F) : Item → Xoshiro
  | .triple => dealer.triples
  | .mask toward => dealer.masks.getD (toward - 1) dealer.triples
  | .element => dealer.elements
  | .bit => dealer.bits
  | .pipe => dealer.pipes

/-- **Dealers with equal seeds deal from one deck.** -/
theorem exists_deck (F : FieldSpec) {n : Nat} (one : 1 ≤ n) (length : Nat) (seed : UInt8) :
    ∃ deck : Deck F, deck.parties = n ∧ deck.length = length ∧ ∀ i,
      (Dealer.new F n i seed).keyShare = deck.keyShare i ∧
      deck.Holds i (fun _ => 0) (Dealer.new F n i seed) := by
  obtain ⟨keyShare, after, shares, keys⟩ := Dealing.share_spec
    (Elem.random F (Xoshiro.ofSeed (List.replicate 32 seed))).1 one
    (Elem.random F (Xoshiro.ofSeed (List.replicate 32 seed))).1
    (Elem.random F (Xoshiro.ofSeed (List.replicate 32 seed))).2
  have built : ∀ i, Dealer.new F n i seed = { (Dealer.new F n 0 seed) with
      dealing := ⟨i, n, (Elem.random F (Xoshiro.ofSeed (List.replicate 32 seed))).1⟩
      keyShare := keyShare i } := fun i => by
    simp only [Dealer.new, shares]
  have masks : (Dealer.new F n 0 seed).masks.length = n := by
    simp only [Dealer.new, WordSource.length_collect]
  generalize Dealer.new F n 0 seed = base at built masks
  refine ⟨⟨n, _, keyShare, length, base.source, one, keys⟩, rfl, rfl, fun i => ?_⟩
  rw [built]
  refine ⟨rfl, rfl, fun item has => ?_, masks⟩
  cases item with
  | mask toward =>
      obtain ⟨index, rfl⟩ : ∃ index, toward = index + 1 :=
        ⟨toward - 1, (Nat.sub_add_cancel has.1).symm⟩
      have small : index < base.masks.length := masks.symm ▸ has.2
      simp [Dealer.stream?, small, WordSource.remaining, Dealer.source]
  | _ => rfl

end Spdz
