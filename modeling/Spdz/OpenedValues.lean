import Spdz.Share

/-!
# Opened values awaiting a check

An opening makes a value public before it is known to be right: each party only adds up what the
others claim. So every opening is recorded, and a later check over all records tells whether any
of them was tampered with.

* `OpenedValue` — the share that was opened and the value it opened to.
* `OpenedValues` — the records since the last check; they are only ever taken out all at once.
-/

namespace Spdz

/-- A record of one opening. -/
structure OpenedValue (F : FieldSpec) where
  share : Share F
  /-- What the shares of all parties were found to sum to. -/
  value : Elem F
  deriving DecidableEq

/-- The openings that no check has covered yet, the oldest first. -/
structure OpenedValues (F : FieldSpec) where
  toList : List (OpenedValue F) := []
  deriving DecidableEq

namespace OpenedValues

variable {F : FieldSpec}

/-- Record that `share` was opened to `value`. -/
def push (opened : OpenedValues F) (share : Share F) (value : Elem F) : OpenedValues F :=
  ⟨opened.toList ++ [⟨share, value⟩]⟩

/-- Number of pending records. -/
def size (opened : OpenedValues F) : Nat := opened.toList.length

/-- Whether no record is pending. -/
def isEmpty (opened : OpenedValues F) : Bool := opened.toList.isEmpty

/-- Whether so many records are pending that a check is due. -/
def reaches (opened : OpenedValues F) (threshold : Nat) : Bool := opened.size ≥ threshold

/-- All pending records and the emptied store. -/
def drain (opened : OpenedValues F) : List (OpenedValue F) × OpenedValues F :=
  (opened.toList, {})

@[simp] theorem toList_push (opened : OpenedValues F) (share : Share F) (value : Elem F) :
    (opened.push share value).toList = opened.toList ++ [⟨share, value⟩] := rfl

end OpenedValues

end Spdz
