import Mathlib.NumberTheory.LucasPrimality
import Spdz.Proofs.Field.Count

/-!
# The order of a generator

A number is the order of `a` modulo `m` if the power of `a` with this exponent is one, and is not one any
more when the exponent is divided by one of its prime factors.  So the prime factors of `m - 1` certify that
`a` generates all residues but zero, and then `m` is prime.  The factors that are needed for the declared
fields are small, one apart, and that one has a certificate of its own.

* `powMod` — a power modulo `m`, reduced after each multiplication.
* `Certificate` — the prime factors of `m - 1`, with the powers that they ask for.
* `Certificate.orderOf_eq`, `Certificate.prime` — what a certificate shows.
* **`Elem.orderOf_generator`** — the declared generators generate.
* `Elem.exists_pow_of_orderOf` — so every element but zero is one of their powers.
-/

namespace Spdz

/-! ## Powers of numbers -/

/-- A power modulo `m` by repeated squaring, from the lowest bit of an exponent of so many bits. -/
def powMod (m : Nat) : (bits a exponent : Nat) → Nat
  | 0, _, _ => 1 % m
  | bits + 1, a, exponent =>
    if exponent % 2 = 1 then a * powMod m bits (a * a % m) (exponent / 2) % m
    else powMod m bits (a * a % m) (exponent / 2)

variable {m bits a exponent : Nat}

theorem powMod_lt (positive : 0 < m) : powMod m bits a exponent < m := by
  induction bits generalizing a exponent with
  | zero => exact Nat.mod_lt _ positive
  | succ bits ih =>
      rw [powMod]
      split_ifs
      · exact Nat.mod_lt _ positive
      · exact ih

theorem natCast_powMod (small : exponent < 2 ^ bits) :
    (powMod m bits a exponent : ZMod m) = (a : ZMod m) ^ exponent := by
  induction bits generalizing a exponent with
  | zero =>
      obtain rfl : exponent = 0 := by simpa using small
      simp [powMod]
  | succ bits ih =>
      have half : exponent / 2 < 2 ^ bits := by
        rw [pow_succ] at small
        omega
      have square : (powMod m bits (a * a % m) (exponent / 2) : ZMod m)
          = (a : ZMod m) ^ (2 * (exponent / 2)) := by
        rw [ih half, ZMod.natCast_mod, Nat.cast_mul, ← pow_two, ← pow_mul]
      rw [powMod]
      split_ifs with odd
      · rw [ZMod.natCast_mod, Nat.cast_mul, square, ← pow_succ']
        congr 1
        omega
      · rw [square]
        congr 1
        omega

theorem powMod_eq_one_iff (two : 1 < m) (small : exponent < 2 ^ bits) :
    powMod m bits a exponent = 1 ↔ (a : ZMod m) ^ exponent = 1 := by
  have reduced : powMod m bits a exponent < m := powMod_lt (Nat.lt_of_succ_lt two)
  have one : ((1 : ℕ) : ZMod m) = 1 := Nat.cast_one
  rw [← natCast_powMod small, ← one, ZMod.natCast_eq_natCast_iff', Nat.mod_eq_of_lt reduced,
    Nat.mod_eq_of_lt two]

/-! ## Certificates -/

/-- The prime factors of `m - 1`, and the powers which show that the order of `a` modulo `m` is `m - 1`. -/
structure Certificate (m a : Nat) where
  /-- As many bits as `m` has. -/
  bits : Nat
  /-- The prime factors of `m - 1`, each as often as it divides. -/
  factors : List Nat
  two : 1 < m := by decide
  fits : m ≤ 2 ^ bits := by decide
  primes : ∀ q ∈ factors, q.Prime := by norm_num
  product : factors.prod = m - 1 := by decide +kernel
  whole : powMod m bits a (m - 1) = 1 := by decide +kernel
  proper : ∀ q ∈ factors, powMod m bits a ((m - 1) / q) ≠ 1 := by decide +kernel

namespace Certificate

variable (certificate : Certificate m a)

include certificate

theorem pow_eq_one : (a : ZMod m) ^ (m - 1) = 1 := by
  have two := certificate.two
  have fits := certificate.fits
  exact (powMod_eq_one_iff two (by omega)).mp certificate.whole

/-- A prime factor of `m - 1` is one of those in the certificate. -/
theorem pow_ne_one {q : Nat} (prime : q.Prime) (divides : q ∣ m - 1) :
    (a : ZMod m) ^ ((m - 1) / q) ≠ 1 := by
  have two := certificate.two
  have fits := certificate.fits
  have less : (m - 1) / q ≤ m - 1 := Nat.div_le_self _ _
  rw [← certificate.product] at divides
  obtain ⟨factor, mem, divides⟩ := (Prime.dvd_prod_iff prime.prime).mp divides
  obtain rfl := (Nat.prime_dvd_prime_iff_eq prime (certificate.primes factor mem)).mp divides
  exact fun one => certificate.proper q mem ((powMod_eq_one_iff two (by omega)).mpr one)

/-- **The order** that is certified. -/
theorem orderOf_eq : orderOf (a : ZMod m) = m - 1 :=
  orderOf_eq_of_pow_and_pow_div_prime (Nat.sub_pos_of_lt certificate.two) certificate.pow_eq_one
    fun _ => certificate.pow_ne_one

/-- Only modulo a prime is the order so large. -/
theorem prime : m.Prime :=
  lucas_primality m a certificate.pow_eq_one fun _ => certificate.pow_ne_one

end Certificate

/-! ## The declared generators -/

/-- The largest factor that is needed is prime itself. -/
def largestFactor : Certificate 77158673929 11 where
  bits := 37
  factors := [2, 2, 2, 3, 3, 3, 7, 73, 699053]

namespace FieldSpec

/-- That 6 generates modulo 251. -/
def f251Order : Certificate f251.modulus f251.generator where
  bits := 8
  factors := [2, 5, 5, 5]

/-- That 37 generates modulo `2^61 - 1`. -/
def mersenne61Order : Certificate mersenne61.modulus mersenne61.generator where
  bits := 61
  factors := [2, 3, 3, 5, 5, 7, 11, 13, 31, 41, 61, 151, 331, 1321]

/-- That 43 generates modulo `2^127 - 1`. -/
def mersenne127Order : Certificate mersenne127.modulus mersenne127.generator where
  bits := 127
  factors := [2, 3, 3, 3, 7, 7, 19, 43, 73, 127, 337, 5419, 92737, 649657] ++ [77158673929]
  primes := List.forall_mem_append.mpr
    ⟨by norm_num, List.forall_mem_singleton.mpr largestFactor.prime⟩

/-- Each declared generator has a certificate. -/
theorem IsDeclared.certified {F : FieldSpec} (declared : F.IsDeclared) :
    Nonempty (Certificate F.modulus F.generator) := by
  rcases declared with rfl | rfl | rfl
  · exact ⟨f251Order⟩
  · exact ⟨mersenne61Order⟩
  · exact ⟨mersenne127Order⟩

end FieldSpec

namespace Elem

variable {F : FieldSpec} {g a : Elem F}

/-- **The order of a declared generator** is the number of elements that are not zero. -/
theorem orderOf_generator (declared : F.IsDeclared) : orderOf (generator F) = F.modulus - 1 := by
  obtain ⟨certificate⟩ := declared.certified
  have residue : orderOf (generator F).toZMod = orderOf (generator F) :=
    orderOf_injective (toZModHom F).toMonoidHom toZMod_injective (generator F)
  rw [← residue, generator, toZMod_ofNat]
  exact certificate.orderOf_eq

/-- An element of so large an order has every element but zero among its powers: they are all
different, and there are as many of them. -/
theorem exists_pow_of_orderOf (order : orderOf g = F.modulus - 1) (nonzero : a ≠ 0) :
    ∃ k < F.modulus - 1, g ^ k = a := by
  have := nontrivial F
  have positive : F.modulus - 1 ≠ 0 := Nat.sub_ne_zero_of_lt F.one_lt_modulus
  have unit : IsUnit g := .of_pow_eq_one (order ▸ pow_orderOf_eq_one g) positive
  have inside : (Finset.range (F.modulus - 1)).image (g ^ ·) ⊆ Finset.univ.erase 0 := by
    intro b mem
    obtain ⟨k, -, rfl⟩ := Finset.mem_image.mp mem
    exact Finset.mem_erase.mpr ⟨(unit.pow k).ne_zero, Finset.mem_univ _⟩
  have different : Set.InjOn (g ^ ·) (Finset.range (F.modulus - 1) : Set ℕ) := by
    rw [Finset.coe_range, ← order]
    exact pow_injOn_Iio_orderOf
  have all : (Finset.range (F.modulus - 1)).image (g ^ ·) = Finset.univ.erase 0 := by
    refine Finset.eq_of_subset_of_card_le inside ?_
    rw [Finset.card_image_of_injOn different, Finset.card_range, Finset.card_erase_of_mem (Finset.mem_univ _),
      Finset.card_univ, card]
  obtain ⟨k, small, power⟩ :=
    Finset.mem_image.mp (all ▸ Finset.mem_erase.mpr ⟨nonzero, Finset.mem_univ a⟩)
  exact ⟨k, Finset.mem_range.mp small, power⟩

end Elem

end Spdz
