import Spdz.Field.Sampling
import Spdz.Preprocessing.Supplier
import Spdz.Random.Xoshiro

/-!
# Simulated dealing

A generator that protects nothing: all parties derive the same plain values from one public seed,
and each keeps only its own shares. No messages are needed, and the shares of all parties fit
together because every party draws the shares of all.

* `Dealing` — the plain key, and whose shares are kept; `Dealing.share` splits a value.
* `Dealing.deal` — one item of any kind.
* `Dealer` — the generator, with a random stream for each kind of item and mask recipient.
* `DealerFactory` — builds the dealer of the party named in the parameters.
-/

namespace Spdz

/-! ## Dealing single values -/

/-- The plain key and the party whose shares are kept. -/
structure Dealing (F : FieldSpec) where
  party : PartyId
  parties : Nat
  /-- The authentication key in plain. -/
  key : Elem F

namespace Dealing

variable {F : FieldSpec} {γ : Type} [WordSource γ]

/-- This party's additive share of a value. Parties from the second on get random shares, and the
first gets the remainder. The shares of all are drawn, whichever is kept. -/
def share (dealing : Dealing F) (value : Elem F) (source : γ) : Elem F × γ :=
  let (others, source) := WordSource.collect (Elem.random F) (dealing.parties - 1) source
  let own := match dealing.party with
    | 0 => 0
    | 1 => others.foldl (· - ·) value
    | later + 2 => others.getD later 0
  (own, source)

/-- This party's authenticated share of a value. -/
def authenticate (dealing : Dealing F) (value : Elem F) (source : γ) : Share F × γ :=
  let (own, source) := dealing.share value source
  let (mac, source) := dealing.share (value * dealing.key) source
  (⟨own, mac⟩, source)

/-- This party's authenticated share of a random value, and the value. -/
def random (dealing : Dealing F) (source : γ) : (Share F × Elem F) × γ :=
  let (value, source) := Elem.random F source
  let (own, source) := dealing.authenticate value source
  ((own, value), source)

/-! ## Dealing items -/

/-- A random triple. -/
def triple (dealing : Dealing F) (source : γ) : Triple F × γ :=
  let ((a, plainA), source) := dealing.random source
  let ((b, plainB), source) := dealing.random source
  let (c, source) := dealing.authenticate (plainA * plainB) source
  (⟨a, b, c⟩, source)

/-- A mask, whose value only its recipient learns. -/
def mask (dealing : Dealing F) (toward : PartyId) (source : γ) : InputMask F × γ :=
  let ((mask, plain), source) := dealing.random source
  (⟨mask, if toward = dealing.party then some plain else none⟩, source)

/-- A random element. -/
def element (dealing : Dealing F) (source : γ) : Share F × γ :=
  let ((own, _), source) := dealing.random source
  (own, source)

/-- A random bit. -/
def bit (dealing : Dealing F) (source : γ) : Share F × γ :=
  let (isOne, source) := WordSource.coin source
  dealing.authenticate (if isOne then 1 else 0) source

/-- Shares of several values, one after the other. -/
def authenticateAll (dealing : Dealing F) : List (Elem F) → γ → List (Share F) × γ
  | [], source => ([], source)
  | value :: values, source =>
    let (own, source) := dealing.authenticate value source
    let (others, source) := dealing.authenticateAll values source
    (own :: others, source)

/-- The plain values of a pipe: the inverse of `r`, then `r` and its higher powers. -/
def pipeValues (r : Elem F) : (length : Nat) → List (Elem F)
  | 0 => []
  | length + 1 => (r.invert.getD 0) :: (List.range length).map fun i => r.pow (i + 1)

/-- A pipe of the given length. -/
def pipe (dealing : Dealing F) (length : Nat) (source : γ) : List (Share F) × γ :=
  let (r, source) := Elem.randomNonzero F source
  dealing.authenticateAll (pipeValues r length) source

/-- An item of any kind. -/
def deal (dealing : Dealing F) (pipeLength : Nat) : (item : Item) → γ → item.Value F × γ
  | .triple => dealing.triple
  | .mask toward => dealing.mask toward
  | .element => dealing.element
  | .bit => dealing.bit
  | .pipe => dealing.pipe pipeLength

end Dealing

/-! ## The generator -/

/-- A simulated generator. Items of one kind come from one stream, so what is dealt of one kind does
not depend on what was dealt of another. -/
structure Dealer (F : FieldSpec) where
  dealing : Dealing F
  /-- The party's share of the key. -/
  keyShare : Elem F
  triples : Xoshiro
  elements : Xoshiro
  bits : Xoshiro
  pipes : Xoshiro
  /-- A stream for the masks toward each party. -/
  masks : List Xoshiro

namespace Dealer

variable {F : FieldSpec}

/-- A stream whose seed is drawn from another stream. -/
def branch (source : Xoshiro) : Xoshiro × Xoshiro :=
  let (seed, source) := WordSource.seed source
  (Xoshiro.ofSeed seed, source)

/-- The dealer of a party. Parties with equal seeds get items that fit together. -/
def new (F : FieldSpec) (parties : Nat) (party : PartyId) (seed : UInt8) : Dealer F :=
  let source := Xoshiro.ofSeed (List.replicate 32 seed)
  let (key, source) := Elem.random F source
  let dealing : Dealing F := ⟨party, parties, key⟩
  let (keyShare, source) := dealing.share key source
  let (triples, source) := branch source
  let (elements, source) := branch source
  let (bits, source) := branch source
  let (pipes, source) := branch source
  let (masks, _) := WordSource.collect branch parties source
  { dealing, keyShare, triples, elements, bits, pipes, masks }

/-- The stream that items come from. There is none for masks toward a party that does not exist. -/
def stream? (dealer : Dealer F) : Item → Except PreprocessingError Xoshiro
  | .triple => .ok dealer.triples
  | .element => .ok dealer.elements
  | .bit => .ok dealer.bits
  | .pipe => .ok dealer.pipes
  | .mask toward =>
    match toward, dealer.masks[toward - 1]? with
    | _ + 1, some stream => .ok stream
    | _, _ => .error (.noSuchParty toward)

/-- The dealer with another stream for an item. -/
def setStream (dealer : Dealer F) (item : Item) (stream : Xoshiro) : Dealer F :=
  match item with
  | .triple => { dealer with triples := stream }
  | .element => { dealer with elements := stream }
  | .bit => { dealer with bits := stream }
  | .pipe => { dealer with pipes := stream }
  | .mask toward => { dealer with masks := dealer.masks.set (toward - 1) stream }

/-- Deal a lot of items. -/
def generate (item : Item) (lot : Lot) (dealer : Dealer F) :
    Except PreprocessingError (List (item.Value F)) × Dealer F :=
  match dealer.stream? item with
  | .error e => (.error e, dealer)
  | .ok stream =>
    let (items, stream) :=
      WordSource.collect (dealer.dealing.deal lot.pipeLength item) lot.count stream
    (.ok items, dealer.setStream item stream)

instance : BulkGenerator F (Dealer F) := ⟨generate⟩

end Dealer

/-! ## The factory -/

/-- Builds dealers for a group of parties. -/
structure DealerFactory (F : FieldSpec) where
  parties : Nat
  seed : UInt8
  /-- The share of the key under which the dealer of the party will authenticate. -/
  keyShare : Elem F

namespace DealerFactory

variable {F : FieldSpec}

/-- The factory of a party. -/
def new (F : FieldSpec) (parties : Nat) (party : PartyId) (seed : UInt8) : DealerFactory F :=
  ⟨parties, seed, (Dealer.new F parties party seed).keyShare⟩

/-- Build the dealer of the party that the parameters name. -/
def create (params : GeneratorParams) (factory : DealerFactory F) :
    Except PreprocessingError (Dealer F) × DealerFactory F :=
  if params.party = 0 ∨ params.party > factory.parties then
    (.error (.noSuchParty params.party), factory)
  else (.ok (Dealer.new F factory.parties params.party factory.seed), factory)

instance : GeneratorFactory (DealerFactory F) (Dealer F) := ⟨create⟩

end DealerFactory

end Spdz
