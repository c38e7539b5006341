import Spdz.Proofs.Gates.Opened

/-!
# Openings that are tampered with

The messages of an opening may be altered on their way.  If all parties still add up the same, then
what they open is off by what was added, and so is what they go on to compute.  But it is off in the
record too, and a record that tells the truth about its sharing proves that nothing was added.

* `Tampered` — messages that are off by the same at all parties.
* `Conducts` — what all parties do in the two rounds of an opening.
* `Truthful` — records that hold what was shared.
* **`deviations_recorded`** — every deviation of an opening is in its records.
-/

namespace Spdz

variable {F : FieldSpec} {σ P : Type} {n : Nat} {key u v : Elem F} {x y : PartyId → Share F}

/-! ## Messages -/

/-- Messages `message i j` that each party `i` gets in place of the elements that are due from `j`.
They can be read, and at every position they add up to what is due and the offset. -/
def Tampered (n : Nat) (due : PartyId → List (Elem F)) (message : PartyId → PartyId → Bytes)
    (offset : List (Elem F)) : Prop :=
  ∃ got : PartyId → PartyId → List (Elem F), ∀ i, IsMember n i →
    (∀ j ∈ peersOf i n, Elem.decodeList F (message i j) offset.length = some (.ok (got i j))) ∧
    ∀ k < offset.length, ((peersOf i n).map fun j => (got i j).getD k 0).sum
      = ((peersOf i n).map fun j => (due j).getD k 0).sum + offset.getD k 0

/-- What a party adds up is off by what was added. -/
theorem sumAt_tampered {i : PartyId} (member : IsMember n i) {due : PartyId → List (Elem F)}
    {got : PartyId → List (Elem F)} {k : Nat} {d : Elem F}
    (off : ((peersOf i n).map fun j => (got j).getD k 0).sum
      = ((peersOf i n).map fun j => (due j).getD k 0).sum + d) :
    sumAt ((due i).getD k 0) (receivedFrom (peersOf i n) got) k
      = ∑ j ∈ Finset.Icc 1 n, (due j).getD k 0 + d := by
  rw [sumAt_receivedFrom, off, ← add_assoc]
  exact congrArg (· + d) (sum_peersOf (fun j => (due j).getD k 0) (Finset.mem_Icc.mpr member))

/-- **Any offset can be caused.**  It is enough that every party gets one message with the offset
added. -/
theorem exists_tampered (declared : F.IsDeclared) (two : 2 ≤ n) (due : PartyId → List (Elem F))
    (offset : List (Elem F)) (few : offset.length ≤ 2)
    (length : ∀ j, (due j).length = offset.length) :
    ∃ message, Tampered n due message offset := by
  let liar (i : PartyId) : PartyId := if i = 1 then 2 else 1
  let got (i j : PartyId) : List (Elem F) :=
    if j = liar i then List.zipWith (· + ·) (due j) offset else due j
  have long (i j : PartyId) : (got i j).length = offset.length := by
    by_cases lies : j = liar i
    · simp [got, if_pos lies, length]
    · simp [got, if_neg lies, length]
  refine ⟨fun i j => Elem.encodeList (got i j), got, fun i member => ⟨fun j _ => ?_, fun k lt => ?_⟩⟩
  · rw [← long i j]
    exact Elem.decodeList_encodeList _ (declared.fits (long i j ▸ few))
  · have mem : liar i ∈ peersOf i n := by
      rw [mem_peersOf]
      obtain rfl | other := eq_or_ne i 1
      · exact ⟨⟨by decide, two⟩, by decide⟩
      · simpa only [liar, if_neg other] using ⟨⟨le_refl 1, le_of_lt two⟩, other.symm⟩
    have once : (peersOf i n).count (liar i) = 1 :=
      List.count_eq_one_of_mem (nodup_peersOf i) mem
    have each (j : PartyId) : (got i j).getD k 0
        = if j = liar i then (due j).getD k 0 + offset.getD k 0 else (due j).getD k 0 := by
      by_cases lies : j = liar i
      · simp [got, if_pos lies, List.getD_eq_getElem?_getD, lt, length]
      · simp only [got, if_neg lies]
    simp only [each]
    rw [List.sum_map_ite_eq, once, one_smul, add_sub_cancel_left, add_comm]

/-! ## Runs -/

/-- **The two rounds of an opening.**  In the first one every party `i` sends the elements that are due
from it and records nothing.  In the second one, where it may have become any party `T i`, it gets the
messages, ends in the state `ended i`, and has the given records more than before. -/
def Conducts [Protocol F σ P] (n : Nat) (S T : PartyId → Party F σ) (p : PartyId → P)
    (due : PartyId → List (Elem F)) (message : PartyId → PartyId → Bytes) (ended : PartyId → P)
    (records : List (JointRecord F)) : Prop :=
  ∀ i, IsMember n i → ∃ (middle : P) (S' : Party F σ), S'.opened = (S i).opened ∧
    (Protocol.evaluate 0 : Round F σ P Status).play (peersOf i n) (p i) (S i)
        (.among (peersOf i n) (fun _ => []) [])
      = some (((.ok .hasMoreRounds, middle), S'),
          .among (peersOf i n) (fun _ => []) [Elem.encodeList (due i)]) ∧
    (Protocol.evaluate 1 : Round F σ P Status).play (peersOf i n) middle (T i)
        (.among (peersOf i n) (fun j => [message i j]) [])
      = some (((.ok .isDone, ended i),
          { T i with opened := ⟨(T i).opened.toList ++ records.map (·.ofParty i)⟩ }),
          .among (peersOf i n) (fun _ => []) [])

/-- Every record holds the plaintext of its sharing. -/
def Truthful (n : Nat) (key : Elem F) (records : List (JointRecord F)) : Prop :=
  ∀ record ∈ records, ∀ w, IsSharing n key record.share w → record.value = w

variable {S T : PartyId → Party F σ} {message : PartyId → PartyId → Bytes}

/-! ## Opening to all -/

theorem Open.conducts {d : Elem F} (hx : IsSharing n key x u)
    (tampered : Tampered n (fun j => [(x j).value]) message [d]) :
    Conducts n S T (fun i => ({ share := x i } : Open F)) (fun j => [(x j).value]) message
      (fun i => { share := x i, output := some (u + d) }) [⟨x, u + d⟩] := by
  obtain ⟨got, off⟩ := tampered
  intro i member
  have sum : sumAt (x i).value (receivedFrom (peersOf i n) (got i)) 0 = u + d :=
    (sumAt_tampered member ((off i member).2 0 Nat.one_pos)).trans (congrArg (· + d) hx.value)
  exact ⟨_, _, rfl, Open.play_zero, Open.play_one (off i member).1 sum⟩

/-! ## Opening to one party -/

variable [Supplier F σ]

theorem OpenTo.conducts {target : PartyId} {mask : PartyId → InputMask F} {r d : Elem F}
    (id : ∀ i, IsMember n i → (T i).id = i)
    (drawn : ∀ i, IsMember n i →
      (Supplier.draw (F := F) (.mask target) (S i).supplier).1 = .ok (mask i))
    (real : (mask target).real = some r) (hx : IsSharing n key x u)
    (hmask : IsSharing n key (fun i => (mask i).mask) r)
    (tampered : Tampered n (fun j => [(x j - (mask j).mask).value]) message [d]) :
    Conducts n S T (fun i => ({ share := x i, target } : OpenTo F))
      (fun j => [(x j - (mask j).mask).value]) message
      (fun i => {
        share := x i, target, mask := some (mask i)
        output := some (if i = target then some (u + d) else none) })
      [⟨fun i => x i - (mask i).mask, u - r + d⟩] := by
  obtain ⟨got, off⟩ := tampered
  intro i member
  have sum : sumAt (x i - (mask i).mask).value (receivedFrom (peersOf i n) (got i)) 0 = u - r + d :=
    (sumAt_tampered member ((off i member).2 0 Nat.one_pos)).trans
      (congrArg (· + d) (hx.sub hmask).value)
  have known : (T i).id = target → (mask i).real = some r := fun here => by
    rw [← id i member, here, real]
  have own : (if i = target then some (u + d) else none)
      = if (T i).id = target then some (u - r + d + r) else none := by
    rw [id i member, sub_add_eq_add_sub, sub_add_cancel]
  refine ⟨_, _, ?_, OpenTo.play_zero (drawn i member), ?_⟩
  · rfl
  · beta_reduce
    rw [own]
    exact OpenTo.play_one (off i member).1 known sum

/-! ## Multiplying -/

theorem Multiply.conducts {keyShare : PartyId → Elem F} {t : PartyId → Triple F} {a b e d : Elem F}
    (one : 1 ≤ n) (keys : ∑ i ∈ Finset.Icc 1 n, keyShare i = key)
    (id : ∀ i, IsMember n i → (T i).id = i)
    (keyShares : ∀ i, IsMember n i → (T i).keyShare = keyShare i)
    (drawn : ∀ i, IsMember n i → (Supplier.draw (F := F) .triple (S i).supplier).1 = .ok (t i))
    (ha : IsSharing n key (fun i => (t i).a) a) (hb : IsSharing n key (fun i => (t i).b) b)
    (hc : IsSharing n key (fun i => (t i).c) (a * b)) (hx : IsSharing n key x u)
    (hy : IsSharing n key y v)
    (tampered : Tampered n (fun j => [(x j - (t j).a).value, (y j - (t j).b).value]) message [e, d]) :
    ∃ z : PartyId → Share F, IsSharing n key z ((u + e) * (v + d)) ∧
      Conducts n S T (fun i => ({ x := x i, y := y i } : Multiply F))
        (fun j => [(x j - (t j).a).value, (y j - (t j).b).value]) message
        (fun i => { x := x i, y := y i, triple := some (t i), output := some (z i) })
        [⟨fun i => x i - (t i).a, u - a + e⟩, ⟨fun i => y i - (t i).b, v - b + d⟩] := by
  obtain ⟨got, off⟩ := tampered
  have product := IsSharing.combine keys one ha hb hc (u - a + e) (v - b + d)
  rw [← add_assoc, add_sub_cancel, ← add_assoc, add_sub_cancel] at product
  refine ⟨_, product, fun i member => ?_⟩
  have sumE : sumAt (x i - (t i).a).value (receivedFrom (peersOf i n) (got i)) 0 = u - a + e :=
    (sumAt_tampered member ((off i member).2 0 Nat.two_pos)).trans
      (congrArg (· + e) (hx.sub ha).value)
  have sumD : sumAt (y i - (t i).b).value (receivedFrom (peersOf i n) (got i)) 1 = v - b + d :=
    (sumAt_tampered member ((off i member).2 1 Nat.one_lt_two)).trans
      (congrArg (· + d) (hy.sub hb).value)
  have own (z : Share F) (w : Elem F) :
      z.addPublic w (keyShare i) i = z.addPublic w (T i).keyShare (T i).id := by
    rw [id i member, keyShares i member]
  refine ⟨_, _, ?_, Multiply.play_zero (drawn i member), ?_⟩
  · rfl
  · refine (Multiply.play_one (S := T i) (off i member).1 sumE sumD).trans ?_
    beta_reduce
    rw [own, OpenedValues.push, OpenedValues.toList_push, List.append_assoc]
    rfl

/-! ## Every deviation is recorded -/

/-- A record tells the truth about a sharing if nothing was added. -/
theorem Truthful.eq {records : List (JointRecord F)} {z : PartyId → Share F} {w d : Elem F}
    (truthful : Truthful n key records) (mem : ⟨z, w + d⟩ ∈ records) (hz : IsSharing n key z w) :
    d = 0 :=
  add_eq_left.mp (truthful _ mem w hz)

/-- **Every deviation in an opening lands in the records.**  Let the parties hold sharings of `u` and of
`v`, and let messages be tampered with.  An opening gives a value that is off by the offset, with a
record of the same.  At the target of an opening it is the same, and its record is off by as much.  A
multiplication ends with a sharing of the product of factors that are both off, and so are its records.
So if the records hold what was shared, then all results are right. -/
theorem deviations_recorded {keyShare : PartyId → Elem F} (one : 1 ≤ n)
    (keys : ∑ i ∈ Finset.Icc 1 n, keyShare i = key) (id : ∀ i, IsMember n i → (T i).id = i)
    (keyShares : ∀ i, IsMember n i → (T i).keyShare = keyShare i) (hx : IsSharing n key x u)
    (hy : IsSharing n key y v) :
    (∀ message d, Tampered n (fun j => [(x j).value]) message [d] →
      Conducts n S T (fun i => ({ share := x i } : Open F)) (fun j => [(x j).value]) message
        (fun i => { share := x i, output := some (u + d) }) [⟨x, u + d⟩] ∧
      (Truthful n key [⟨x, u + d⟩] → u + d = u)) ∧
    (∀ target (mask : PartyId → InputMask F) r message d,
      (∀ i, IsMember n i →
        (Supplier.draw (F := F) (.mask target) (S i).supplier).1 = .ok (mask i)) →
      (mask target).real = some r → IsSharing n key (fun i => (mask i).mask) r →
      Tampered n (fun j => [(x j - (mask j).mask).value]) message [d] →
      Conducts n S T (fun i => ({ share := x i, target } : OpenTo F))
        (fun j => [(x j - (mask j).mask).value]) message
        (fun i => {
          share := x i, target, mask := some (mask i)
          output := some (if i = target then some (u + d) else none) })
        [⟨fun i => x i - (mask i).mask, u - r + d⟩] ∧
      IsSharing n key (fun i => x i - (mask i).mask) (u - r) ∧
      (Truthful n key [⟨fun i => x i - (mask i).mask, u - r + d⟩] → u + d = u)) ∧
    ∀ (t : PartyId → Triple F) a b message e d,
      (∀ i, IsMember n i → (Supplier.draw (F := F) .triple (S i).supplier).1 = .ok (t i)) →
      IsSharing n key (fun i => (t i).a) a → IsSharing n key (fun i => (t i).b) b →
      IsSharing n key (fun i => (t i).c) (a * b) →
      Tampered n (fun j => [(x j - (t j).a).value, (y j - (t j).b).value]) message [e, d] →
      ∃ z : PartyId → Share F,
        Conducts n S T (fun i => ({ x := x i, y := y i } : Multiply F))
          (fun j => [(x j - (t j).a).value, (y j - (t j).b).value]) message
          (fun i => { x := x i, y := y i, triple := some (t i), output := some (z i) })
          [⟨fun i => x i - (t i).a, u - a + e⟩, ⟨fun i => y i - (t i).b, v - b + d⟩] ∧
        IsSharing n key (fun i => x i - (t i).a) (u - a) ∧
        IsSharing n key (fun i => y i - (t i).b) (v - b) ∧
        IsSharing n key z ((u + e) * (v + d)) ∧
        (Truthful n key [⟨fun i => x i - (t i).a, u - a + e⟩, ⟨fun i => y i - (t i).b, v - b + d⟩] →
          (u + e) * (v + d) = u * v) := by
  refine ⟨fun message d tampered => ⟨Open.conducts hx tampered, fun truthful => ?_⟩,
    fun target mask r message d drawn real hmask tampered =>
      ⟨OpenTo.conducts id drawn real hx hmask tampered, hx.sub hmask, fun truthful => ?_⟩,
    fun t a b message e d drawn ha hb hc tampered => ?_⟩
  · rw [truthful.eq (List.mem_singleton.mpr rfl) hx, add_zero]
  · rw [truthful.eq (List.mem_singleton.mpr rfl) (hx.sub hmask), add_zero]
  · obtain ⟨z, product, conducts⟩ :=
      Multiply.conducts one keys id keyShares drawn ha hb hc hx hy tampered
    refine ⟨z, conducts, hx.sub ha, hy.sub hb, product, fun truthful => ?_⟩
    rw [truthful.eq (.head _) (hx.sub ha), truthful.eq (.tail _ (.head _)) (hy.sub hb), add_zero,
      add_zero]

/-- Shares of a constant, under a key of which every party has the share one. -/
def constantly (v : Elem .f251) (i : PartyId) : Share .f251 := .ofPublic v 1 i

/-- Shares of two elements and their product. -/
def constantTriple (a b : Elem .f251) (i : PartyId) : Triple .f251 :=
  ⟨constantly a i, constantly b i, constantly (a * b) i⟩

/-- Shares of an element that the first party knows. -/
def constantMask (r : Elem .f251) (i : PartyId) : InputMask .f251 :=
  ⟨constantly r i, if i = 1 then some r else none⟩

/-- A party of two that has such a triple and such a mask in stock. -/
def suppliedParty (a b r : Elem .f251) (i : PartyId) : Party .f251 (Party.SimulatedSupplier .f251) where
  id := i
  parties := 2
  config := {}
  supplier :=
    { party := i, parties := 2, keyShare := 1, batchSize := 1, pipeLength := 1, seed := []
      factory := ⟨2, 0, 1⟩
      stock := { triples := [constantTriple a b i], masks := [(1, [constantMask r i])] } }
  rng := ChaCha.ofSeed []

/-- Two such parties open `3` as `4` if one is added, and multiply it by `6` in place of `4` if two is
added there. -/
theorem deviations_recorded_supplied :
    ∑ i ∈ Finset.Icc 1 2, (fun _ : PartyId => (1 : Elem .f251)) i = 2 ∧
    (∀ i, IsMember 2 i → (suppliedParty 5 6 7 i).id = i ∧ (suppliedParty 5 6 7 i).keyShare = 1) ∧
    IsSharing 2 2 (constantly 3) 3 ∧ IsSharing 2 2 (constantly 4) 4 ∧
    (∃ message, Conducts 2 (suppliedParty 5 6 7) (suppliedParty 5 6 7)
      (fun i => ({ share := constantly 3 i } : Open .f251)) (fun j => [(constantly 3 j).value]) message
      (fun i => { share := constantly 3 i, output := some (3 + 1) }) [⟨constantly 3, 3 + 1⟩]) ∧
    (∃ message, Conducts 2 (suppliedParty 5 6 7) (suppliedParty 5 6 7)
      (fun i => ({ share := constantly 3 i, target := 1 } : OpenTo .f251))
      (fun j => [(constantly 3 j - constantly 7 j).value]) message
      (fun i => {
        share := constantly 3 i, target := 1, mask := some (constantMask 7 i)
        output := some (if i = 1 then some (3 + 1) else none) })
      [⟨fun i => constantly 3 i - constantly 7 i, 3 - 7 + 1⟩]) ∧
    ∃ message z, IsSharing 2 2 z ((3 + 1) * (4 + 2)) ∧
      Conducts 2 (suppliedParty 5 6 7) (suppliedParty 5 6 7)
      (fun i => ({ x := constantly 3 i, y := constantly 4 i } : Multiply .f251))
      (fun j => [(constantly 3 j - constantly 5 j).value, (constantly 4 j - constantly 6 j).value])
      message
      (fun i => {
        x := constantly 3 i, y := constantly 4 i, triple := some (constantTriple 5 6 i)
        output := some (z i) })
      [⟨fun i => constantly 3 i - constantly 5 i, 3 - 5 + 1⟩,
        ⟨fun i => constantly 4 i - constantly 6 i, 4 - 6 + 2⟩] := by
  have declared : FieldSpec.f251.IsDeclared := .inl rfl
  have keys : ∑ i ∈ Finset.Icc 1 2, (fun _ : PartyId => (1 : Elem .f251)) i = 2 := by decide
  have shared (v : Elem .f251) : IsSharing 2 2 (constantly v) v :=
    .ofPublic keys one_le_two v
  obtain ⟨opened, openedTo, multiplied⟩ := deviations_recorded (S := suppliedParty 5 6 7)
    (T := suppliedParty 5 6 7) one_le_two keys (fun _ _ => rfl) (fun _ _ => rfl) (shared 3) (shared 4)
  refine ⟨keys, fun _ _ => ⟨rfl, rfl⟩, shared 3, shared 4, ?_, ?_, ?_⟩
  · obtain ⟨message, tampered⟩ := exists_tampered declared (le_refl 2)
      (fun j => [(constantly 3 j).value]) [1] one_le_two fun _ => rfl
    exact ⟨message, (opened message 1 tampered).1⟩
  · obtain ⟨message, tampered⟩ := exists_tampered declared (le_refl 2)
      (fun j => [(constantly 3 j - constantly 7 j).value]) [1] one_le_two fun _ => rfl
    exact ⟨message, (openedTo 1 (constantMask 7) 7 message 1 (fun _ _ => rfl) rfl (shared 7) tampered).1⟩
  · obtain ⟨message, tampered⟩ := exists_tampered declared (le_refl 2)
      (fun j => [(constantly 3 j - constantly 5 j).value, (constantly 4 j - constantly 6 j).value])
      [1, 2] (le_refl 2) fun _ => rfl
    obtain ⟨z, conducts, -, -, product, -⟩ := multiplied (constantTriple 5 6) 5 6 message 1 2
      (fun _ _ => rfl) (shared 5) (shared 6) (shared (5 * 6)) tampered
    exact ⟨message, z, product, conducts⟩

end Spdz
