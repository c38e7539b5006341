import Spdz.Proofs.Field.Ring
import Spdz.Share

/-!
# Sharings

What all parties hold of one secret is a sharing: their value shares add up to the secret, and their
mac shares to the secret times the key.  Every operation on shares is linear, so it turns sharings
into a sharing of what the operation does to the secrets.

* `IsSharing` — a sharing of a value under a key.
* `IsSharing.add`, `IsSharing.scale`, `IsSharing.addPublic`, … — the operations.
-/

namespace Spdz

variable {F : FieldSpec} {n : Nat} {key v w : Elem F} {x y : PartyId → Share F}

/-- What the parties `1` to `n` hold of the secret `v` under the key. -/
structure IsSharing (n : Nat) (key : Elem F) (x : PartyId → Share F) (v : Elem F) : Prop where
  value : ∑ i ∈ Finset.Icc 1 n, (x i).value = v
  mac : ∑ i ∈ Finset.Icc 1 n, (x i).mac = key * v

namespace IsSharing

/-- A sharing determines its secret. -/
theorem unique (hv : IsSharing n key x v) (hw : IsSharing n key x w) : v = w :=
  hv.value.symm.trans hw.value

theorem zero : IsSharing n key (fun _ => 0) 0 where
  value := Finset.sum_const_zero
  mac := by rw [mul_zero]; exact Finset.sum_const_zero

theorem add (hx : IsSharing n key x v) (hy : IsSharing n key y w) :
    IsSharing n key (fun i => x i + y i) (v + w) where
  value := by simp only [Share.value_add, Finset.sum_add_distrib, hx.value, hy.value]
  mac := by simp only [Share.mac_add, Finset.sum_add_distrib, hx.mac, hy.mac, mul_add]

theorem sub (hx : IsSharing n key x v) (hy : IsSharing n key y w) :
    IsSharing n key (fun i => x i - y i) (v - w) where
  value := by simp only [Share.value_sub, Finset.sum_sub_distrib, hx.value, hy.value]
  mac := by simp only [Share.mac_sub, Finset.sum_sub_distrib, hx.mac, hy.mac, mul_sub]

theorem neg (hx : IsSharing n key x v) : IsSharing n key (fun i => -x i) (-v) where
  value := (Finset.sum_neg_distrib _).trans (congrArg _ hx.value)
  mac := (Finset.sum_neg_distrib _).trans (by rw [hx.mac, mul_neg])

theorem double (hx : IsSharing n key x v) : IsSharing n key (fun i => (x i).double) v.double :=
  hx.add hx

theorem scale (hx : IsSharing n key x v) (factor : Elem F) :
    IsSharing n key (fun i => (x i).scale factor) (v * factor) where
  value := by simp only [Share.scale, ← Finset.sum_mul, hx.value]
  mac := by simp only [Share.scale, ← Finset.sum_mul, hx.mac, mul_assoc]

/-- A public constant is shared by all parties together, if they have the key together. -/
theorem ofPublic {keyShare : PartyId → Elem F} (keys : ∑ i ∈ Finset.Icc 1 n, keyShare i = key)
    (some : 1 ≤ n) (v : Elem F) : IsSharing n key (fun i => .ofPublic v (keyShare i) i) v where
  value := by
    have first : (1 : PartyId) ∈ Finset.Icc 1 n := Finset.mem_Icc.mpr ⟨le_refl 1, some⟩
    simp only [Share.ofPublic, Finset.sum_ite_eq', if_pos first]
  mac := by rw [mul_comm]; simp only [Share.ofPublic, ← Finset.mul_sum, keys]

theorem addPublic {keyShare : PartyId → Elem F} (keys : ∑ i ∈ Finset.Icc 1 n, keyShare i = key)
    (some : 1 ≤ n) (hx : IsSharing n key x v) (w : Elem F) :
    IsSharing n key (fun i => (x i).addPublic w (keyShare i) i) (v + w) :=
  hx.add (ofPublic keys some w)

/-- **What a triple makes of two public values is a sharing of a product.**  The factors differ from
those of the triple by these values. -/
theorem combine {keyShare : PartyId → Elem F} {t : PartyId → Triple F} {a b : Elem F}
    (keys : ∑ i ∈ Finset.Icc 1 n, keyShare i = key) (some : 1 ≤ n)
    (ha : IsSharing n key (fun i => (t i).a) a) (hb : IsSharing n key (fun i => (t i).b) b)
    (hc : IsSharing n key (fun i => (t i).c) (a * b)) (e d : Elem F) :
    IsSharing n key (fun i => ((t i).c + (t i).b.scale e + (t i).a.scale d).addPublic (e * d)
      (keyShare i) i) ((a + e) * (b + d)) := by
  have all := ((hc.add (hb.scale e)).add (ha.scale d)).addPublic keys some (e * d)
  have product : a * b + b * e + a * d + e * d = (a + e) * (b + d) := by ring
  rwa [product] at all

end IsSharing

end Spdz
