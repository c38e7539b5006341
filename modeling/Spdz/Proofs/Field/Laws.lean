import Spdz.Proofs.Field.Order

/-!
# The declared parameters make fields

Over a prime modulus no product of elements other than zero is zero, and the power whose exponent is the
modulus gives each element back.  So what is computed as an inverse and as a square root is one, wherever
there is one.

* `Elem.isDomain`, `Elem.pow_modulus` — what primality gives.
* `Elem.invert_eq_some_iff` — the inverse is computed, and nothing else.
* `Elem.mul_self_of_sqrt`, `Elem.sqrt_mul_self` — a root is computed of squares, and only of squares.
* **`Elem.field_laws`** — all of this holds over the declared fields, whose generators generate.
-/

namespace Spdz

variable {F : FieldSpec}

/-- The declared moduli are 3 modulo 4. -/
theorem FieldSpec.IsDeclared.mod_four (declared : F.IsDeclared) : F.modulus % 4 = 3 := by
  rcases declared with rfl | rfl | rfl <;> rfl

namespace Elem

/-! ## Prime moduli -/

theorem isDomain (prime : F.modulus.Prime) : IsDomain (Elem F) :=
  have : Fact F.modulus.Prime := ⟨prime⟩
  toZMod_injective.isDomain (toZModHom F)

/-- The power whose exponent is the modulus is the element itself. -/
theorem pow_modulus (prime : F.modulus.Prime) (a : Elem F) : a ^ F.modulus = a := by
  have : Fact F.modulus.Prime := ⟨prime⟩
  refine toZMod_injective ?_
  rw [toZMod_pow, ZMod.pow_card]

/-! ## Inverses -/

/-- **What inverts is what is computed**, and zero has no inverse. -/
theorem invert_eq_some_iff (prime : F.modulus.Prime) {a b : Elem F} :
    a.invert = some b ↔ a * b = 1 := by
  have := nontrivial F
  by_cases zero : a = 0
  · have none : a.invert = none := if_pos zero
    rw [none, zero, zero_mul]
    exact iff_of_false nofun zero_ne_one
  · obtain ⟨inverse, computed, inverts⟩ := mul_invert_of_prime prime zero
    rw [computed, Option.some_inj]
    constructor
    · rintro rfl
      exact inverts
    · intro inverts'
      calc inverse = inverse * (a * b) := by rw [inverts', mul_one]
        _ = a * inverse * b := by ring
        _ = b := by rw [inverts, one_mul]

theorem isSome_invert_iff {a : Elem F} : a.invert.isSome ↔ a ≠ 0 := by
  unfold invert
  split_ifs with zero <;> simp [zero]

/-! ## Square roots -/

/-- The candidate is squared before it is given out. -/
theorem mul_self_of_sqrt {a b : Elem F} (root : a.sqrt = some b) : b * b = a := by
  unfold sqrt at root
  simp only at root
  split_ifs at root with square
  cases root
  exact square

/-- **A square has a root**, over a prime that is 3 modulo 4. -/
theorem exists_sqrt_mul_self (prime : F.modulus.Prime) (three : F.modulus % 4 = 3) (b : Elem F) :
    ∃ root, (b * b).sqrt = some root := by
  have exponent : (F.modulus + 1) / 4 * 4 = F.modulus + 1 := by omega
  have square : (b * b).pow ((F.modulus + 1) / 4) * (b * b).pow ((F.modulus + 1) / 4) = b * b :=
    calc (b * b).pow ((F.modulus + 1) / 4) * (b * b).pow ((F.modulus + 1) / 4)
        = (b ^ ((F.modulus + 1) / 4)) ^ 4 := by rw [pow_eq]; ring
      _ = b ^ F.modulus * b := by rw [← pow_mul, exponent, pow_succ]
      _ = b * b := by rw [pow_modulus prime]
  exact ⟨_, if_pos square⟩

/-! ## The laws -/

/-- **The declared parameters make fields.**  Over each of the three moduli, with the generator declared
for it, an element has an inverse unless it is zero, and what is computed is the element that inverts it;
a product is zero only if a factor is; a root is computed of each square, and what is computed is a root;
and the declared generator has all elements but zero among its powers, its order being their number. -/
theorem field_laws (declared : F.IsDeclared) :
    (F.modulus, F.generator) ∈ [(251, 6), (2 ^ 61 - 1, 37), (2 ^ 127 - 1, 43)] ∧
    (∀ a : Elem F, (a.invert.isSome ↔ a ≠ 0) ∧ ∀ b, a.invert = some b ↔ a * b = 1) ∧
    (∀ a b : Elem F, a * b = 0 ↔ a = 0 ∨ b = 0) ∧
    (∀ a : Elem F, (∀ b, a.sqrt = some b → b * b = a) ∧ (a.sqrt.isSome ↔ ∃ b, b * b = a)) ∧
    orderOf (generator F) = F.modulus - 1 ∧
    ∀ a : Elem F, a ≠ 0 → ∃ k < F.modulus - 1, (generator F).pow k = a := by
  have prime := declared.prime
  have := isDomain prime
  refine ⟨?_, fun a => ⟨isSome_invert_iff, fun b => invert_eq_some_iff prime⟩, fun a b => mul_eq_zero,
    fun a => ⟨fun b => mul_self_of_sqrt, ?_⟩, orderOf_generator declared, fun a nonzero => ?_⟩
  · rcases declared with rfl | rfl | rfl <;> decide
  · rw [Option.isSome_iff_exists]
    constructor
    · rintro ⟨b, root⟩
      exact ⟨b, mul_self_of_sqrt root⟩
    · rintro ⟨b, rfl⟩
      exact exists_sqrt_mul_self prime declared.mod_four b
  · simp only [pow_eq]
    exact exists_pow_of_orderOf (orderOf_generator declared) nonzero

/-- Modulo `2^61 - 1` half of one is `2^60`, two is a square, and it is a power of 37. -/
theorem field_laws_of_two : FieldSpec.IsDeclared .mersenne61 ∧
    (ofNat .mersenne61 2).invert = some (ofNat .mersenne61 (2 ^ 60)) ∧
    (ofNat .mersenne61 2).sqrt.isSome ∧
    ∃ k < 2 ^ 61 - 2, (ofNat .mersenne61 37).pow k = ofNat .mersenne61 2 := by
  have declared : FieldSpec.IsDeclared .mersenne61 := .inr (.inl rfl)
  obtain ⟨-, inverse, -, root, -, power⟩ := field_laws declared
  exact ⟨declared, ((inverse _).2 _).mpr (by decide), (root _).2.mpr ⟨ofNat .mersenne61 (2 ^ 31), by decide⟩,
    power _ (by decide)⟩

end Elem

end Spdz
