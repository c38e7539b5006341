import Spdz.Field.Spec

/-!
# Field elements

An element is its canonical representative, a number below the modulus. Arithmetic is that of the
representatives, reduced after each operation.

* `Elem F` — an element of the field `F`.
* `Elem.invert`, `Elem.sqrt` — inverse and square root by exponentiation; the result of the
  latter is checked, so that a non-square has none.
* `Elem.ofDecimal?` — the element that a decimal numeral denotes.
* `Elem.text` — how an element is shown to a developer.
-/

namespace Spdz

/-- An element of `F`, as the representative below the modulus. -/
structure Elem (F : FieldSpec) where
  /-- The canonical representative. -/
  val : Nat
  isLt : val < F.modulus
  deriving DecidableEq

namespace Elem

variable {F : FieldSpec}

/-- Two elements with the same representative are equal. -/
theorem ext : {a b : Elem F} → a.val = b.val → a = b
  | ⟨_, _⟩, ⟨_, _⟩, rfl => rfl

/-! ## Arithmetic -/

/-- The element that a whole number denotes. -/
def ofNat (F : FieldSpec) (n : Nat) : Elem F := ⟨n % F.modulus, Nat.mod_lt _ F.modulus_pos⟩

instance : Zero (Elem F) := ⟨ofNat F 0⟩
instance : One (Elem F) := ⟨ofNat F 1⟩
instance : Inhabited (Elem F) := ⟨0⟩
instance : Add (Elem F) := ⟨fun a b => ofNat F (a.val + b.val)⟩
instance : Neg (Elem F) := ⟨fun a => ofNat F (F.modulus - a.val)⟩
instance : Sub (Elem F) := ⟨fun a b => ofNat F (a.val + (F.modulus - b.val))⟩
instance : Mul (Elem F) := ⟨fun a b => ofNat F (a.val * b.val)⟩

@[simp] theorem val_ofNat (n : Nat) : (ofNat F n).val = n % F.modulus := rfl

@[simp] theorem val_zero : (0 : Elem F).val = 0 := Nat.zero_mod _

@[simp] theorem val_one : (1 : Elem F).val = 1 := Nat.mod_eq_of_lt F.one_lt_modulus

@[simp] theorem ofNat_val (a : Elem F) : ofNat F a.val = a := ext (Nat.mod_eq_of_lt a.isLt)

/-- The sum of an element with itself. -/
def double (a : Elem F) : Elem F := a + a

/-- The product of an element with itself. -/
def square (a : Elem F) : Elem F := a * a

/-- The product of an element with its square. -/
def cube (a : Elem F) : Elem F := a * a * a

/-- Power by repeated squaring, from the lowest bit of the exponent. -/
def pow (a : Elem F) (exponent : Nat) : Elem F :=
  if exponent = 0 then 1
  else if exponent % 2 = 1 then a * pow (a * a) (exponent / 2)
  else pow (a * a) (exponent / 2)

/-- The sum of a list of elements. -/
def sum (elements : List (Elem F)) : Elem F := elements.foldl (· + ·) 0

/-! ## Distinguished elements, inverses and roots -/

/-- The declared generator of the multiplicative group. -/
def generator (F : FieldSpec) : Elem F := ofNat F F.generator

/-- The square root of one other than one: half of the group's order as an exponent. -/
def rootOfUnity (F : FieldSpec) : Elem F := (generator F).pow ((F.modulus - 1) / 2)

/-- Inverse, which zero does not have. The order of the group divides `modulus - 1`, so the
power before the last one inverts. -/
def invert (a : Elem F) : Option (Elem F) :=
  if a = 0 then none else some (a.pow (F.modulus - 2))

/-- Square root, if there is one. The moduli are 3 modulo 4, so the candidate below is a root
of every square, and squaring it tells whether `a` is one. -/
def sqrt (a : Elem F) : Option (Elem F) :=
  let root := a.pow ((F.modulus + 1) / 4)
  if root * root = a then some root else none

/-! ## Order and parity of representatives -/

instance : Ord (Elem F) := ⟨fun a b => compare a.val b.val⟩

/-- Whether the representative is odd. -/
def isOdd (a : Elem F) : Bool := a.val % 2 == 1

/-! ## Numerals and text -/

/-- Decimal numeral. Digits only, at least one of them, and no leading zero before another. -/
def ofDecimal? (F : FieldSpec) (numeral : String) : Option (Elem F) :=
  match numeral.toList with
  | [] => none
  | ['0'] => some 0
  | '0' :: _ => none
  | digits =>
    if digits.all Char.isDigit then
      some (digits.foldl (fun acc digit => acc * ofNat F 10 + ofNat F (digit.toNat - 48)) 0)
    else none

/-- The `digits` low hexadecimal digits of `n`, in lower case. -/
def hexDigits : (digits n : Nat) → List Char
  | 0, _ => []
  | digits + 1, n => hexDigits digits (n / 16) ++ [Nat.digitChar (n % 16)]

/-- Name of the field and representative in hexadecimal, with two digits for each encoded byte. -/
def text (a : Elem F) : String :=
  F.name ++ "(0x" ++ String.ofList (hexDigits (2 * F.byteLength) a.val) ++ ")"

end Elem

end Spdz
