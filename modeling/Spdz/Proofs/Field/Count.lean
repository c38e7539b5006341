import Mathlib.Algebra.BigOperators.Fin
import Mathlib.Data.Fintype.BigOperators
import Mathlib.GroupTheory.Index
import Spdz.Proofs.Field.Inverse

/-!
# Counting elements and vectors

A field has as many elements as its modulus says.  A combination of the entries of a vector, with weights
that are not all zero, takes each value for equally many vectors.

* `Elem.card` — the number of elements.
* `Elem.combine` — the combination of the entries of a vector, as a map of groups.
* **`Elem.card_combine_eq_zero`** — the number of vectors for which it vanishes.
-/

namespace Spdz

namespace Elem

variable {F : FieldSpec} {m : Nat}

/-- Elements are the numbers below the modulus. -/
def equivFin (F : FieldSpec) : Fin F.modulus ≃ Elem F where
  toFun k := ⟨k, k.isLt⟩
  invFun a := ⟨a.val, a.isLt⟩
  left_inv _ := rfl
  right_inv _ := rfl

instance : Fintype (Elem F) := .ofEquiv _ (equivFin F)

theorem card (F : FieldSpec) : Fintype.card (Elem F) = F.modulus :=
  (Fintype.card_congr (equivFin F)).symm.trans (Fintype.card_fin _)

theorem card_vectors (F : FieldSpec) (m : Nat) : Fintype.card (Fin m → Elem F) = F.modulus ^ m := by
  rw [Fintype.card_fun, card, Fintype.card_fin]

/-- The combination of the entries of a vector with given weights. -/
def combine (weight : Fin m → Elem F) : (Fin m → Elem F) →+ Elem F where
  toFun r := ∑ j, r j * weight j
  map_zero' := by simp
  map_add' r s := by simp [add_mul, Finset.sum_add_distrib]

@[simp] theorem combine_apply (weight r : Fin m → Elem F) :
    combine weight r = ∑ j, r j * weight j := rfl

/-- Where one weight is not zero, every value can be reached through the entry that it belongs to. -/
theorem combine_surjective (prime : F.modulus.Prime) {weight : Fin m → Elem F} {k : Fin m}
    (nonzero : weight k ≠ 0) : Function.Surjective (combine weight) := by
  intro v
  obtain ⟨b, -, inverse⟩ := mul_invert_of_prime prime nonzero
  let r : Fin m → Elem F := Pi.single k (b * v)
  have other : ∀ j ∈ Finset.univ, j ≠ k → r j * weight j = 0 := by
    intro j _ apart
    rw [show r j = 0 from Pi.single_eq_of_ne apart _, zero_mul]
  refine ⟨r, ?_⟩
  rw [combine_apply, Finset.sum_eq_single_of_mem k (Finset.mem_univ k) other,
    show r k = b * v from Pi.single_eq_same k _, mul_comm, ← mul_assoc, inverse, one_mul]

/-- **How many vectors vanish.**  If some weight is not zero, one in `p` vectors does. -/
theorem card_combine_eq_zero (prime : F.modulus.Prime) {weight : Fin m → Elem F} {k : Fin m}
    (nonzero : weight k ≠ 0) :
    Fintype.card {r : Fin m → Elem F // ∑ j, r j * weight j = 0} = F.modulus ^ (m - 1) := by
  have onto : (combine weight).range = ⊤ :=
    AddMonoidHom.range_eq_top.mpr (combine_surjective prime nonzero)
  have split : Nat.card (combine weight).ker * F.modulus = F.modulus ^ m := by
    have index := (combine weight).ker.card_mul_index
    rwa [AddSubgroup.index_ker, onto, Nat.card_congr AddSubgroup.topEquiv.toEquiv,
      Nat.card_eq_fintype_card (α := Elem F), card, Nat.card_eq_fintype_card (α := Fin m → Elem F),
      card_vectors] at index
  have whole : F.modulus ^ m = F.modulus ^ (m - 1) * F.modulus := by
    rw [← pow_succ, Nat.sub_add_cancel (Nat.one_le_of_lt k.isLt)]
  rw [← Nat.card_eq_fintype_card]
  exact Nat.eq_of_mul_eq_mul_right F.modulus_pos (split.trans whole)

end Elem

end Spdz
