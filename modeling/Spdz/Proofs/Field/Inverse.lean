import Mathlib.FieldTheory.Finite.Basic
import Mathlib.NumberTheory.LucasLehmer
import Mathlib.Tactic.NormNum.Prime
import Spdz.Proofs.Field.Encoding
import Spdz.Proofs.Field.Ring

/-!
# Inverses

The moduli of the declared fields are prime, so every element but zero has an inverse, and the power
that is computed for it is one.

* `FieldSpec.IsDeclared.prime` — the moduli are prime.
* **`Elem.mul_invert_of_prime`**, `Elem.mul_invert` — what is computed is the inverse.
-/

namespace Spdz

variable {F : FieldSpec}

/-- The moduli of the declared fields are prime.  For two of them this is the test of Lucas and
Lehmer. -/
theorem FieldSpec.IsDeclared.prime (declared : F.IsDeclared) : F.modulus.Prime := by
  rcases declared with rfl | rfl | rfl
  · show Nat.Prime 251
    norm_num
  · exact lucas_lehmer_sufficiency 61 (by norm_num) (by norm_num)
  · exact lucas_lehmer_sufficiency 127 (by norm_num) (by norm_num)

namespace Elem

/-- **What is computed is the inverse**, when the modulus is prime. -/
theorem mul_invert_of_prime (prime : F.modulus.Prime) {a : Elem F} (nonzero : a ≠ 0) :
    ∃ b, a.invert = some b ∧ a * b = 1 := by
  refine ⟨_, if_neg nonzero, toZMod_injective ?_⟩
  have : Fact F.modulus.Prime := ⟨prime⟩
  have residue : a.toZMod ≠ 0 := fun zero => nonzero (toZMod_injective (zero.trans toZMod_zero.symm))
  have two : 2 ≤ F.modulus := F.one_lt_modulus
  rw [toZMod_mul, pow_eq, toZMod_pow, toZMod_one, ← pow_succ',
    show F.modulus - 2 + 1 = F.modulus - 1 by omega]
  exact ZMod.pow_card_sub_one_eq_one residue

/-- In the declared fields what is computed is the inverse. -/
theorem mul_invert (declared : F.IsDeclared) {a : Elem F} (nonzero : a ≠ 0) :
    ∃ b, a.invert = some b ∧ a * b = 1 :=
  mul_invert_of_prime declared.prime nonzero

end Elem

end Spdz
