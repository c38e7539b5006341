import Spdz.Share

/-!
# Preprocessed items

The parties consume correlated random values that were prepared beforehand. There are five kinds,
and each item is used once.

* `Item` — what can be asked for, and `Item.Value`, what it is.
* `PreprocessingError` — why an item could not be had.
-/

namespace Spdz

/-- The kinds of preprocessed items. -/
inductive ItemKind where
  | triple
  | inputMask
  | randomElement
  | randomBit
  | expPipe
  deriving DecidableEq

/-- The kind in words. -/
def ItemKind.text : ItemKind → String
  | .triple => "Triple"
  | .inputMask => "InputMask"
  | .randomElement => "RandomElement"
  | .randomBit => "RandomBit"
  | .expPipe => "ExpPipe"

/-- An item that can be asked for. -/
inductive Item where
  | triple
  /-- A mask whose value is known to the given party. -/
  | mask (toward : PartyId)
  /-- A share of a random element. -/
  | element
  /-- A share of a random bit. -/
  | bit
  /-- Shares of the inverse of a random element other than zero, and of its powers from the first
  on. -/
  | pipe
  deriving DecidableEq

namespace Item

/-- What one party gets for an item. -/
abbrev Value (F : FieldSpec) : Item → Type
  | triple => Triple F
  | mask _ => InputMask F
  | element => Share F
  | bit => Share F
  | pipe => List (Share F)

/-- The kind of an item. -/
def kind : Item → ItemKind
  | triple => .triple
  | mask _ => .inputMask
  | element => .randomElement
  | bit => .randomBit
  | pipe => .expPipe

end Item

/-- Why an item could not be had. -/
inductive PreprocessingError where
  | generator (reason : String)
  | incompleteBatch (kind : ItemKind) (expected actual : Nat)
  /-- The party toward which a mask was dealt was not told the value. -/
  | missingMaskValue
  | noSuchParty (party : PartyId)
  deriving DecidableEq

/-- The reason in words. -/
def PreprocessingError.message : PreprocessingError → String
  | .generator reason => s!"bulk generator failed: {reason}"
  | .incompleteBatch kind expected actual =>
    s!"bulk generator returned {actual} of {expected} requested {kind.text} items"
  | .missingMaskValue => "input mask toward this party carries no real value"
  | .noSuchParty party => s!"no party with ID {party}"

end Spdz
