import Mathlib.Tactic.LinearCombination
import Spdz.Proofs.Evaluation.Verdict
import Spdz.Proofs.Field.Count

/-!
# How much a check lets pass

A check combines the records of all parties with public coefficients.  By how much each record is off is
one element, and the check accepts when the combination of these elements vanishes.  So if any record is
off, however the others were changed along with it, one vector of coefficients in `p` is accepted.

* `MacCheck.Accepts` — the sigmas for given coefficients sum to zero.
* `MacCheck.offset` — by how much a record is off.
* `MacCheck.accepts_iff` — acceptance as one linear equation in the coefficients.
* **`MacCheck.exact_soundness`** — how many vectors of coefficients are accepted.
-/

namespace Spdz

namespace MacCheck

variable {F : FieldSpec} {σ : Type} {m n : Nat} {keyShare : PartyId → Elem F}
  {records : PartyId → List (OpenedValue F)}

/-! ## Acceptance -/

/-- **Accepts.**  With the given coefficients the sigmas of all parties sum to zero. -/
def Accepts (n : Nat) (keyShare : PartyId → Elem F) (records : PartyId → List (OpenedValue F))
    (coefficients : List (Elem F)) : Prop :=
  Elem.sum ((List.range' 1 n).map fun i => sigma (keyShare i) coefficients (records i)) = 0

instance (coefficients : List (Elem F)) : Decidable (Accepts n keyShare records coefficients) :=
  inferInstanceAs (Decidable (_ = _))

/-- By how much a record is off: what its mac shares sum to, less what the parties' shares of the key
make of the values that they have. -/
def offset (n : Nat) (keyShare : PartyId → Elem F) (records : PartyId → List (OpenedValue F))
    (j : Nat) : Elem F :=
  ∑ i ∈ Finset.Icc 1 n, macAt (records i) j - ∑ i ∈ Finset.Icc 1 n, keyShare i * valueAt (records i) j

/-- The terms of a sigma, for coefficients given by their place. -/
theorem sum_zip_ofFn {records : List (OpenedValue F)} (length : records.length = m)
    (r : Fin m → Elem F) (f : OpenedValue F → Elem F) :
    (((List.ofFn r).zip records).map fun (c, record) => c * f record).sum
      = ∑ j, r j * (records[(j : Nat)]?.map f).getD 0 := by
  have terms : ((List.ofFn r).zip records).map (fun (c, record) => c * f record)
      = List.ofFn fun j => r j * (records[(j : Nat)]?.map f).getD 0 := by
    refine List.ext_getElem (by simp [length]) fun j inside _ => ?_
    have small : j < records.length := by simp at inside; omega
    simp [small]
  rw [terms, List.sum_ofFn]

theorem sigma_ofFn {records : List (OpenedValue F)} (length : records.length = m)
    (keyShare : Elem F) (r : Fin m → Elem F) :
    sigma keyShare (List.ofFn r) records
      = ∑ j, r j * (macAt records j - keyShare * valueAt records j) := by
  have macs := sum_zip_ofFn length r fun record => record.share.mac
  have values := sum_zip_ofFn length r fun record => record.value
  simp only [sigma, Elem.sum_eq, mul_sub, Finset.sum_sub_distrib]
  rw [macs, values, Finset.mul_sum]
  simp only [macAt, valueAt, mul_left_comm]

/-- **Acceptance is one linear equation**, with the offsets of the records as its weights. -/
theorem accepts_iff (length : ∀ i, IsMember n i → (records i).length = m) (r : Fin m → Elem F) :
    Accepts n keyShare records (List.ofFn r) ↔ ∑ j, r j * offset n keyShare records j = 0 := by
  have sigmas : ∀ i ∈ Finset.Icc 1 n, sigma (keyShare i) (List.ofFn r) (records i)
      = ∑ j, r j * (macAt (records i) j - keyShare i * valueAt (records i) j) := fun i mem =>
    sigma_ofFn (length i (Finset.mem_Icc.mp mem)) (keyShare i) r
  have total : ∑ i ∈ Finset.Icc 1 n, sigma (keyShare i) (List.ofFn r) (records i)
      = ∑ j, r j * offset n keyShare records j := by
    rw [Finset.sum_congr rfl sigmas, Finset.sum_comm]
    refine Finset.sum_congr rfl fun j _ => ?_
    rw [← Finset.mul_sum, Finset.sum_sub_distrib, offset]
  rw [Accepts, Elem.sum_eq, sum_range', total]

/-! ## Tampering with one value -/

/-- The value of one record is changed. -/
def shift (j : Nat) (δ : Elem F) (records : List (OpenedValue F)) : List (OpenedValue F) :=
  records.modify j fun record => { record with value := record.value + δ }

theorem macAt_shift (records : List (OpenedValue F)) (j k : Nat) (δ : Elem F) :
    macAt (shift j δ records) k = macAt records k := by
  simp only [macAt, shift, List.getElem?_modify]
  by_cases same : j = k
  · simp [same, Function.comp_def]
  · simp [same]

theorem valueAt_shift {records : List (OpenedValue F)} {j : Nat} (inside : j < records.length)
    (k : Nat) (δ : Elem F) :
    valueAt (shift j δ records) k = valueAt records k + if j = k then δ else 0 := by
  simp only [valueAt, shift, List.getElem?_modify]
  by_cases same : j = k
  · subst same
    simp [inside]
  · simp [same]

/-- The `m` records of all parties are those of the same openings, each rightly authenticated. -/
structure Consistent (n m : Nat) (key : Elem F) (records : PartyId → List (OpenedValue F))
    (value : Nat → Elem F) : Prop where
  common : ∀ i, IsMember n i → ∀ j < m, valueAt (records i) j = value j
  authentic : ∀ j < m, ∑ i ∈ Finset.Icc 1 n, macAt (records i) j = key * value j

/-- If one value of consistent records is changed for all parties, only this record is off. -/
theorem offset_shift (length : ∀ i, IsMember n i → (records i).length = m) {value : Nat → Elem F}
    (consistent : Consistent n m (∑ i ∈ Finset.Icc 1 n, keyShare i) records value) {j k : Nat}
    (here : j < m) (there : k < m) (δ : Elem F) :
    offset n keyShare (fun i => shift j δ (records i)) k
      = if j = k then -((∑ i ∈ Finset.Icc 1 n, keyShare i) * δ) else 0 := by
  have values : ∀ i ∈ Finset.Icc 1 n, keyShare i * valueAt (shift j δ (records i)) k
      = keyShare i * (value k + if j = k then δ else 0) := by
    intro i mem
    have member : IsMember n i := Finset.mem_Icc.mp mem
    rw [valueAt_shift (here.trans_eq (length i member).symm), consistent.common i member k there]
  simp only [offset, macAt_shift]
  rw [Finset.sum_congr rfl values, ← Finset.sum_mul, consistent.authentic k there]
  split_ifs <;> ring

/-! ## Counting -/

/-- Records that are not off are accepted with any coefficients. -/
theorem accepts_of_offset_eq_zero (length : ∀ i, IsMember n i → (records i).length = m)
    (none : ∀ j < m, offset n keyShare records j = 0) (r : Fin m → Elem F) :
    Accepts n keyShare records (List.ofFn r) := by
  refine (accepts_iff length r).mpr (Finset.sum_eq_zero fun j _ => ?_)
  rw [none j j.isLt, mul_zero]

/-- One vector in `p` is accepted if any record is off. -/
theorem card_accepting (prime : F.modulus.Prime)
    (length : ∀ i, IsMember n i → (records i).length = m) {j : Nat} (inside : j < m)
    (off : offset n keyShare records j ≠ 0) :
    Fintype.card {r : Fin m → Elem F // Accepts n keyShare records (List.ofFn r)}
      = F.modulus ^ (m - 1) := by
  have vanishing : Fintype.card {r : Fin m → Elem F // ∑ j, r j * offset n keyShare records j = 0}
      = F.modulus ^ (m - 1) := Elem.card_combine_eq_zero prime (k := ⟨j, inside⟩) off
  rw [← vanishing]
  exact Fintype.card_congr (Equiv.subtypeEquivRight fun r => accepts_iff length r)

/-- A shifted value is accepted if its coefficient times the key is zero, and not otherwise. -/
theorem accepts_shift_iff (prime : F.modulus.Prime)
    (length : ∀ i, IsMember n i → (records i).length = m) {value : Nat → Elem F}
    (consistent : Consistent n m (∑ i ∈ Finset.Icc 1 n, keyShare i) records value) (j : Fin m)
    {δ : Elem F} (nonzero : δ ≠ 0) (r : Fin m → Elem F) :
    Accepts n keyShare (fun i => shift j δ (records i)) (List.ofFn r)
      ↔ r j * ∑ i ∈ Finset.Icc 1 n, keyShare i = 0 := by
  have lengths : ∀ i, IsMember n i → (shift j δ (records i)).length = m := fun i member => by
    rw [shift, List.length_modify, length i member]
  have one : ∀ k ∈ Finset.univ, k ≠ j →
      r k * offset n keyShare (fun i => shift j δ (records i)) k = 0 := by
    intro k _ apart
    have other : (j : Nat) ≠ k := fun same => apart (Fin.ext same.symm)
    rw [offset_shift length consistent j.isLt k.isLt, if_neg other, mul_zero]
  obtain ⟨b, -, inverse⟩ := Elem.mul_invert_of_prime prime nonzero
  rw [accepts_iff lengths, Finset.sum_eq_single_of_mem j (Finset.mem_univ j) one,
    offset_shift length consistent j.isLt j.isLt, if_pos rfl]
  generalize ∑ i ∈ Finset.Icc 1 n, keyShare i = key
  constructor
  · intro zero
    have cancelled : r j * key = -(r j * -(key * δ)) * b := by
      linear_combination -(r j * key) * inverse
    rw [cancelled, zero, neg_zero, zero_mul]
  · intro zero
    linear_combination (-δ) * zero

/-- The discrepancy of a check of all parties vanishes when the coefficients that their coins expand to
are accepted. -/
theorem discrepancy_eq_zero_iff [Supplier F σ] {S : PartyId → Party F σ}
    (length : ∀ i, IsMember n i → (records i).length = m)
    (holds : ∀ i, IsMember n i → (S i).keyShare = keyShare i ∧ (S i).opened.toList = records i) :
    discrepancy n S = 0 ↔ Accepts n keyShare records
      (coefficients ((List.range' 1 n).map fun i => coinOf (S i)) m) := by
  have coins : ((List.range' 1 n).map fun i => coinOf (S i)).sum
      = ∑ i ∈ Finset.Icc 1 n, coinOf (S i) := sum_range' _
  have shares : ∀ i ∈ Finset.Icc 1 n, discrepancyShare n S i = sigma (keyShare i)
      (coefficients ((List.range' 1 n).map fun i => coinOf (S i)) m) (records i) := by
    intro i mem
    have member : IsMember n i := Finset.mem_Icc.mp mem
    obtain ⟨key, opened⟩ := holds i member
    rw [← length i member, sigma_eq, coins, discrepancyShare, combination, key, opened]
    rfl
  rw [discrepancy, Accepts, Elem.sum_eq, sum_range', Finset.sum_congr rfl shares]

/-- **Exact soundness.**  There are `m` records, any shares of the key, and any number of parties that
hold them, in a field of `p` elements.  If any record is off, then exactly `p ^ (m - 1)` of the `p ^ m`
vectors of coefficients are accepted, and if none is, then all of them are.  If one value of consistent
records is shifted for all parties, acceptance is that its coefficient times the key is zero.  In a check
of all parties it is the coefficients of their coins that are accepted or not. -/
theorem exact_soundness [Supplier F σ] (prime : F.modulus.Prime)
    (length : ∀ i, IsMember n i → (records i).length = m) :
    Fintype.card (Fin m → Elem F) = F.modulus ^ m ∧
    ((∃ j < m, offset n keyShare records j ≠ 0) →
      Fintype.card {r : Fin m → Elem F // Accepts n keyShare records (List.ofFn r)}
        = F.modulus ^ (m - 1)) ∧
    ((∀ j < m, offset n keyShare records j = 0) →
      ∀ r : Fin m → Elem F, Accepts n keyShare records (List.ofFn r)) ∧
    (∀ value, Consistent n m (∑ i ∈ Finset.Icc 1 n, keyShare i) records value →
      ∀ (j : Fin m) (δ : Elem F), δ ≠ 0 → ∀ r : Fin m → Elem F,
        (Accepts n keyShare (fun i => shift j δ (records i)) (List.ofFn r)
          ↔ r j * ∑ i ∈ Finset.Icc 1 n, keyShare i = 0)) ∧
    ∀ S : PartyId → Party F σ,
      (∀ i, IsMember n i → (S i).keyShare = keyShare i ∧ (S i).opened.toList = records i) →
        (discrepancy n S = 0 ↔ Accepts n keyShare records
          (coefficients ((List.range' 1 n).map fun i => coinOf (S i)) m)) := by
  refine ⟨Elem.card_vectors F m, ?_, accepts_of_offset_eq_zero length, ?_, ?_⟩
  · rintro ⟨j, inside, off⟩
    exact card_accepting prime length inside off
  · intro value consistent j δ nonzero r
    exact accepts_shift_iff prime length consistent j nonzero r
  · intro S holds
    exact discrepancy_eq_zero_iff length holds

/-- Two records of zero, of which the first was opened to one. -/
def forged (_ : PartyId) : List (OpenedValue .f251) := [⟨0, 1⟩, ⟨0, 0⟩]

/-- With shares of the key that sum to three, 251 of the 251² pairs of coefficients let it pass. -/
theorem exact_soundness_forged : FieldSpec.f251.modulus.Prime ∧
    (∀ i, IsMember 2 i → (forged i).length = 2) ∧
    offset 2 (Elem.ofNat .f251) forged 0 ≠ 0 ∧
    Fintype.card {r : Fin 2 → Elem .f251 // Accepts 2 (Elem.ofNat .f251) forged (List.ofFn r)} = 251 := by
  have prime : FieldSpec.f251.modulus.Prime := FieldSpec.IsDeclared.prime (.inl rfl)
  have off : offset 2 (Elem.ofNat .f251) forged 0 ≠ 0 := by decide
  obtain ⟨-, count, -⟩ := @exact_soundness .f251 (Party.SimulatedSupplier .f251) 2 2 (Elem.ofNat .f251)
    forged _ prime fun _ _ => rfl
  exact ⟨prime, fun _ _ => rfl, off, count ⟨0, by decide, off⟩⟩

end MacCheck

end Spdz
