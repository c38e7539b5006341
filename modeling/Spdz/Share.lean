import Spdz.Field.Elem
import Spdz.PartyId

/-!
# Authenticated shares

A secret `x` is split additively among the parties: their `value` shares sum to `x`, and their
`mac` shares sum to `alpha * x`, where `alpha` is a key that is itself split among the parties.
Both are linear in the secret, so every operation here is local to a party.

* `Share` — what one party holds of a secret; `Share.ofPublic` shares a public constant.
* `Triple`, `InputMask` — shares of correlated random values.
-/

namespace Spdz

/-- One party's share of a secret. -/
structure Share (F : FieldSpec) where
  /-- Additive share of the secret. -/
  value : Elem F
  /-- Additive share of the secret times the key. -/
  mac : Elem F
  deriving DecidableEq

namespace Share

variable {F : FieldSpec}

/-- The share of zero in which every party holds zero. -/
instance : Zero (Share F) := ⟨⟨0, 0⟩⟩
instance : Inhabited (Share F) := ⟨0⟩
instance : Add (Share F) := ⟨fun x y => ⟨x.value + y.value, x.mac + y.mac⟩⟩
instance : Sub (Share F) := ⟨fun x y => ⟨x.value - y.value, x.mac - y.mac⟩⟩
instance : Neg (Share F) := ⟨fun x => ⟨-x.value, -x.mac⟩⟩

@[simp] theorem value_add (x y : Share F) : (x + y).value = x.value + y.value := rfl
@[simp] theorem mac_add (x y : Share F) : (x + y).mac = x.mac + y.mac := rfl
@[simp] theorem value_sub (x y : Share F) : (x - y).value = x.value - y.value := rfl
@[simp] theorem mac_sub (x y : Share F) : (x - y).mac = x.mac - y.mac := rfl

/-- The share of twice the secret. -/
def double (x : Share F) : Share F := ⟨x.value.double, x.mac.double⟩

/-- The share of the secret times a public factor. -/
def scale (x : Share F) (factor : Elem F) : Share F := ⟨x.value * factor, x.mac * factor⟩

/-- The share of a public constant. Party 1 alone holds the value, and every party authenticates
it with its own share of the key. -/
def ofPublic (x keyShare : Elem F) (party : PartyId) : Share F :=
  ⟨if party = 1 then x else 0, x * keyShare⟩

/-- The share of the secret plus a public constant. -/
def addPublic (share : Share F) (x keyShare : Elem F) (party : PartyId) : Share F :=
  share + ofPublic x keyShare party

end Share

/-! ## Correlated randomness -/

/-- Shares of random `a`, `b` and of their product `c`. A triple serves one multiplication. -/
structure Triple (F : FieldSpec) where
  a : Share F
  b : Share F
  c : Share F
  deriving DecidableEq

/-- Share of a random value that one party knows in plain. -/
structure InputMask (F : FieldSpec) where
  mask : Share F
  /-- The masking value, at the party it was dealt toward. -/
  real : Option (Elem F)
  deriving DecidableEq

end Spdz
