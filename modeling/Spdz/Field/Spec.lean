/-!
# The prime fields

A share is computed over one of three prime fields. A `FieldSpec` collects what the computation
needs to know of a field: its modulus, the declared generator of its multiplicative group and the
width of its elements.

* `FieldSpec.f251` — the integers modulo 251, so small that a forged authentication tag passes
  with noticeable probability.
* `FieldSpec.mersenne61`, `FieldSpec.mersenne127` — the integers modulo `2^61 - 1` and `2^127 - 1`.
-/

namespace Spdz

-- Powers are those of the core library, whatever else is imported.
attribute [local instance (high)] instPowNat

/-- Parameters of a prime field. The element width is counted twice: in `bits`, which is the
length of the modulus, and in `limbs`, the 64-bit words that hold an element. -/
structure FieldSpec where
  /-- How the field is called in the text of an element. -/
  name : String
  modulus : Nat
  /-- Declared generator of the multiplicative group. -/
  generator : Nat
  /-- Length of the modulus in bits. -/
  bits : Nat
  /-- Number of 64-bit words that hold an element. -/
  limbs : Nat
  /-- Inverse of `2 ^ (64 * limbs)`, which turns a uniformly drawn word string into an element. -/
  unscale : Nat
  one_lt_modulus : 1 < modulus := by decide
  modulus_lt : modulus < 2 ^ bits := by decide
  bits_le : bits ≤ 64 * limbs := by decide
  unscale_spec : unscale * 2 ^ (64 * limbs) % modulus = 1 := by decide

namespace FieldSpec

variable (F : FieldSpec)

/-- Length of an encoded element in bytes: whole words, so that it depends on the field only. -/
def byteLength : Nat := 8 * F.limbs

/-- Number of bits that every value of that length fits. -/
def capacity : Nat := F.bits - 1

/-- The largest `s` such that `2 ^ s` divides `modulus - 1`: the powers of two that divide it,
counted from the first. -/
def twoAdicity : Nat :=
  ((List.range' 1 F.bits).filter fun s => (F.modulus - 1) % 2 ^ s = 0).length

theorem modulus_pos : 0 < F.modulus := Nat.lt_of_succ_lt F.one_lt_modulus

/-- An element fits its encoding. -/
theorem modulus_lt_byteLength : F.modulus < 256 ^ F.byteLength := by
  have grow : 2 ^ F.bits ≤ 2 ^ (64 * F.limbs) := Nat.pow_le_pow_right (by decide) F.bits_le
  have same : 256 ^ F.byteLength = 2 ^ (64 * F.limbs) := by
    rw [byteLength, show (256 : Nat) = 2 ^ (8 : Nat) from rfl, ← Nat.pow_mul]
    congr 1
    omega
  exact same ▸ Nat.lt_of_lt_of_le F.modulus_lt grow

/-! ## The three fields -/

/-- The integers modulo 251. -/
def f251 : FieldSpec where
  name := "F251"
  modulus := 251
  generator := 6
  bits := 8
  limbs := 1
  unscale := 211

/-- The integers modulo the Mersenne prime `2^61 - 1`. -/
def mersenne61 : FieldSpec where
  name := "Mersenne61"
  modulus := 0x1fffffffffffffff
  generator := 37
  bits := 61
  limbs := 1
  unscale := 0x400000000000000

/-- The integers modulo the Mersenne prime `2^127 - 1`. -/
def mersenne127 : FieldSpec where
  name := "Mersenne127"
  modulus := 0x7fffffffffffffffffffffffffffffff
  generator := 43
  bits := 127
  limbs := 2
  unscale := 0x40000000000000000000000000000000

end FieldSpec

end Spdz
