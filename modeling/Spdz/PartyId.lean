/-!
# Party numbers

Parties are numbered from one. Zero is no party's number.

* `PartyId` — the number of a party.
* `peersOf` — all parties but one.
-/

namespace Spdz

/-- The number of a party, starting at one. -/
abbrev PartyId := Nat

/-- The parties other than `self` among parties `1` to `parties`, in ascending order. -/
def peersOf (self : PartyId) (parties : Nat) : List PartyId :=
  (List.range' 1 parties).filter (· ≠ self)

end Spdz
