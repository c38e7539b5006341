import Spdz.Proofs.Sharing

/-!
# Linear expressions

What parties compute by themselves are linear expressions: sums, differences, public multiples and
public constants, nested in any way.  Each party goes through the expression with its own shares.  It
uses its own share of the key, and one party treats public constants differently from all others, so
the parties do not even compute the same thing.  Their results fit together all the same.

* `Expression` — a linear expression over secrets that have names.
* `Expression.plain` — its value, as one computes it who knows the secrets.
* `Expression.ofParty` — what a party makes of it with its shares of the secrets.
* **`Expression.linear`** — together these are a sharing of the value.
-/

namespace Spdz

/-- A linear expression over secrets, which have names in `ι`, and public elements. -/
inductive Expression (F : FieldSpec) (ι : Type) where
  | secret (name : ι)
  | add (x y : Expression F ι)
  | sub (x y : Expression F ι)
  | neg (x : Expression F ι)
  | double (x : Expression F ι)
  | scale (x : Expression F ι) (factor : Elem F)
  | addPublic (x : Expression F ι) (constant : Elem F)
  | ofPublic (constant : Elem F)
  | zero
  /-- A share that was never set. -/
  | unset

namespace Expression

variable {F : FieldSpec} {ι : Type}

/-- The value of the expression, for given secrets. -/
def plain (secrets : ι → Elem F) : Expression F ι → Elem F
  | secret name => secrets name
  | add x y => x.plain secrets + y.plain secrets
  | sub x y => x.plain secrets - y.plain secrets
  | neg x => -x.plain secrets
  | double x => x.plain secrets + x.plain secrets
  | scale x factor => x.plain secrets * factor
  | addPublic x constant => x.plain secrets + constant
  | ofPublic constant => constant
  | zero | unset => 0

/-- What a party computes from its shares of the secrets, with its share of the key and its number. -/
def ofParty (keyShare : Elem F) (party : PartyId) (shares : ι → Share F) : Expression F ι → Share F
  | secret name => shares name
  | add x y => x.ofParty keyShare party shares + y.ofParty keyShare party shares
  | sub x y => x.ofParty keyShare party shares - y.ofParty keyShare party shares
  | neg x => -x.ofParty keyShare party shares
  | double x => (x.ofParty keyShare party shares).double
  | scale x factor => (x.ofParty keyShare party shares).scale factor
  | addPublic x constant => (x.ofParty keyShare party shares).addPublic constant keyShare party
  | ofPublic constant => .ofPublic constant keyShare party
  | zero => 0
  | unset => Inhabited.default

/-- **Linear expressions keep sharings.**  Whatever the parties' shares of the key are, and whatever
the sharings of the secrets under this key: when each party goes through an expression by itself, the
value shares of all parties sum to the value of the expression, and their mac shares to the key times
that value. -/
theorem linear {n : Nat} (inhabited : 1 ≤ n) {key : Elem F} {keyShare : PartyId → Elem F}
    (keys : ∑ i ∈ Finset.Icc 1 n, keyShare i = key) {secrets : ι → Elem F}
    {shares : ι → PartyId → Share F} (sharings : ∀ name, IsSharing n key (shares name) (secrets name))
    (x : Expression F ι) :
    ∑ i ∈ Finset.Icc 1 n, (x.ofParty (keyShare i) i fun name => shares name i).value
        = x.plain secrets ∧
      ∑ i ∈ Finset.Icc 1 n, (x.ofParty (keyShare i) i fun name => shares name i).mac
        = key * x.plain secrets := by
  suffices all : IsSharing n key (fun i => x.ofParty (keyShare i) i fun name => shares name i)
      (x.plain secrets) from ⟨all.value, all.mac⟩
  -- each operation has its own law, so the induction is on the expression only
  induction x with
  | secret name => exact sharings name
  | add x y ihx ihy => exact ihx.add ihy
  | sub x y ihx ihy => exact ihx.sub ihy
  | neg x ih => exact ih.neg
  | double x ih => exact ih.double
  | scale x factor ih => exact ih.scale factor
  | addPublic x constant ih => exact ih.addPublic keys inhabited constant
  | ofPublic constant => exact .ofPublic keys inhabited constant
  | zero => exact .zero
  | unset => exact .zero

/-- Three parties with the key 19 share 7 and 20, in shares whose sums wrap around, and compute
`2 * (7 + 100) + 20 + 5`. -/
theorem linear_of_three :
    let element := Elem.ofNat .f251
    let keyShare : PartyId → Elem .f251 := fun
      | 1 => element 3
      | 2 => element 5
      | _ => element 11
    let secrets : Bool → Elem .f251 := fun name => if name then element 7 else element 20
    let shares : Bool → PartyId → Share .f251 := fun
      | true, 1 => ⟨element 250, element 1⟩
      | true, 2 => ⟨element 4, element 130⟩
      | true, _ => ⟨element 4, element 2⟩
      | false, 1 => ⟨element 200, element 9⟩
      | false, 2 => ⟨element 70, element 120⟩
      | false, _ => ⟨element 1, element 0⟩
    let x : Expression .f251 Bool :=
      .addPublic (.sub (.double (.addPublic (.secret true) (element 100))) (.neg (.secret false)))
        (element 5)
    1 ≤ 3 ∧ ∑ i ∈ Finset.Icc 1 3, keyShare i = element 19 ∧
      (∀ name, IsSharing 3 (element 19) (shares name) (secrets name)) ∧
      ∑ i ∈ Finset.Icc 1 3, (x.ofParty (keyShare i) i fun name => shares name i).value
        = element 239 ∧
      ∑ i ∈ Finset.Icc 1 3, (x.ofParty (keyShare i) i fun name => shares name i).mac
        = element 19 * element 239 := by
  intro element keyShare secrets shares x
  have keys : ∑ i ∈ Finset.Icc 1 3, keyShare i = element 19 := by decide
  have sharings : ∀ name, IsSharing 3 (element 19) (shares name) (secrets name) := by
    intro name
    cases name <;> exact ⟨by decide, by decide⟩
  have plain : x.plain secrets = element 239 := by decide
  have both := linear (by decide : 1 ≤ 3) keys sharings x
  rw [plain] at both
  exact ⟨by decide, keys, sharings, both⟩

end Expression

end Spdz
