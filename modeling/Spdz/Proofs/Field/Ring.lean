import Mathlib.Algebra.BigOperators.Intervals
import Mathlib.Algebra.BigOperators.Ring.Finset
import Mathlib.Data.ZMod.Basic
import Mathlib.Tactic.Ring
import Spdz.Field.Elem
import Spdz.PartyId

/-!
# The ring of field elements

Elements are representatives that are reduced after each operation, and so they obey the laws of the
integers modulo the modulus.  All reasoning about shares goes through these laws.

* `Elem.toZMod` — the residue class of an element.
* **`CommRing (Elem F)`** — the operations of elements are those of a commutative ring;
  `Elem.toZModHom`, taking residue classes is a map of rings.
* `Elem.sum_eq`, `Elem.pow_eq` — sums and powers are those of the ring.
* `sum_peersOf` — a sum over the peers of a party, completed to a sum over all parties.
-/

namespace Spdz

namespace Elem

variable {F : FieldSpec}

/-! ## Residue classes -/

/-- The residue class of an element. -/
def toZMod (a : Elem F) : ZMod F.modulus := a.val

theorem toZMod_injective : Function.Injective (toZMod (F := F)) := by
  intro a b same
  have vals := (ZMod.natCast_eq_natCast_iff' a.val b.val F.modulus).mp same
  rw [Nat.mod_eq_of_lt a.isLt, Nat.mod_eq_of_lt b.isLt] at vals
  exact ext vals

@[simp] theorem toZMod_ofNat (n : Nat) : (ofNat F n).toZMod = n := ZMod.natCast_mod n F.modulus

@[simp] theorem toZMod_zero : (0 : Elem F).toZMod = 0 :=
  (toZMod_ofNat 0).trans Nat.cast_zero

@[simp] theorem toZMod_one : (1 : Elem F).toZMod = 1 :=
  (toZMod_ofNat 1).trans Nat.cast_one

@[simp] theorem toZMod_add (a b : Elem F) : (a + b).toZMod = a.toZMod + b.toZMod :=
  (toZMod_ofNat (a.val + b.val)).trans (Nat.cast_add ..)

@[simp] theorem toZMod_mul (a b : Elem F) : (a * b).toZMod = a.toZMod * b.toZMod :=
  (toZMod_ofNat (a.val * b.val)).trans (Nat.cast_mul ..)

@[simp] theorem toZMod_neg (a : Elem F) : (-a).toZMod = -a.toZMod := by
  refine (toZMod_ofNat (F.modulus - a.val)).trans ?_
  rw [Nat.cast_sub a.isLt.le, ZMod.natCast_self, zero_sub, toZMod]

@[simp] theorem toZMod_sub (a b : Elem F) : (a - b).toZMod = a.toZMod - b.toZMod := by
  refine (toZMod_ofNat (a.val + (F.modulus - b.val))).trans ?_
  rw [Nat.cast_add, Nat.cast_sub b.isLt.le, ZMod.natCast_self, zero_sub, ← sub_eq_add_neg, toZMod,
    toZMod]

/-! ## The laws -/

/-- Elements form a commutative ring under their own operations. -/
instance : CommRing (Elem F) where
  add_assoc a b c := toZMod_injective (by simp [add_assoc])
  zero_add a := toZMod_injective (by simp)
  add_zero a := toZMod_injective (by simp)
  add_comm a b := toZMod_injective (by simp [add_comm])
  mul_assoc a b c := toZMod_injective (by simp [mul_assoc])
  mul_comm a b := toZMod_injective (by simp [mul_comm])
  one_mul a := toZMod_injective (by simp)
  mul_one a := toZMod_injective (by simp)
  left_distrib a b c := toZMod_injective (by simp [mul_add])
  right_distrib a b c := toZMod_injective (by simp [add_mul])
  zero_mul a := toZMod_injective (by simp)
  mul_zero a := toZMod_injective (by simp)
  neg_add_cancel a := toZMod_injective (by simp)
  sub_eq_add_neg a b := toZMod_injective (by simp [sub_eq_add_neg])
  nsmul := nsmulRec
  zsmul := zsmulRec

/-- Residue classes are added and multiplied as the elements are. -/
def toZModHom (F : FieldSpec) : Elem F →+* ZMod F.modulus where
  toFun := toZMod
  map_zero' := toZMod_zero
  map_one' := toZMod_one
  map_add' := toZMod_add
  map_mul' := toZMod_mul

theorem toZMod_pow (a : Elem F) (exponent : Nat) : (a ^ exponent).toZMod = a.toZMod ^ exponent :=
  map_pow (toZModHom F) a exponent

/-- There is more than one element. -/
theorem nontrivial (F : FieldSpec) : Nontrivial (Elem F) :=
  ⟨0, 1, fun same => by simpa using congrArg val same⟩

/-- Adding up from the left is the sum. -/
theorem foldl_add {α : Type} (f : α → Elem F) (terms : List α) (start : Elem F) :
    terms.foldl (fun sum term => sum + f term) start = start + (terms.map f).sum := by
  induction terms generalizing start with
  | nil => simp
  | cons term terms ih => simp [ih, add_assoc]

theorem sum_eq (terms : List (Elem F)) : sum terms = terms.sum := by
  have fold := foldl_add id terms 0
  simpa [sum] using fold

/-- Taking off from the left is subtracting the sum. -/
theorem foldl_sub (terms : List (Elem F)) (start : Elem F) :
    terms.foldl (· - ·) start = start - terms.sum := by
  induction terms generalizing start with
  | nil => simp
  | cons term terms ih => simp [ih, sub_sub]

/-- Repeated squaring computes the power. -/
theorem pow_eq (a : Elem F) (exponent : Nat) : a.pow exponent = a ^ exponent := by
  induction exponent using Nat.strong_induction_on generalizing a with
  | _ exponent ih =>
      rw [pow]
      split_ifs with none odd
      · rw [none, pow_zero]
      all_goals
        have half : exponent / 2 < exponent := Nat.div_lt_self (Nat.pos_of_ne_zero none) (by decide)
        rw [ih _ half, ← pow_two, ← pow_mul]
      · rw [← pow_succ']
        congr 1
        omega
      · congr 1
        omega

end Elem

/-! ## Sums over parties -/

section Parties

variable {M : Type} [AddCommMonoid M] {n : Nat}

/-- A sum over all parties in order. -/
theorem sum_range' (f : PartyId → M) :
    ((List.range' 1 n).map f).sum = ∑ i ∈ Finset.Icc 1 n, f i := by
  rw [← List.sum_toFinset f List.nodup_range']
  refine Finset.sum_congr (Finset.ext fun i => ?_) fun _ _ => rfl
  simp [List.mem_range'_1, Nat.add_comm 1]

/-- A party's own term and those of its peers are the terms of all parties. -/
theorem sum_peersOf (f : PartyId → M) {self : PartyId} (member : self ∈ Finset.Icc 1 n) :
    f self + ((peersOf self n).map f).sum = ∑ i ∈ Finset.Icc 1 n, f i := by
  have nodup : (peersOf self n).Nodup := List.Nodup.filter _ List.nodup_range'
  have peers : (peersOf self n).toFinset = (Finset.Icc 1 n).erase self := by
    ext i
    simp [peersOf, List.mem_range'_1, Nat.add_comm 1, and_comm]
  rw [← List.sum_toFinset f nodup, peers, Finset.add_sum_erase _ _ member]

end Parties

end Spdz
