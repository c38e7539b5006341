import Spdz.Commitment
import Spdz.Proofs.Field.Encoding

/-!
# What a digest fixes

A commitment fixes an opening and the digest of a list fixes the list, as long as no two different
byte strings with one digest turn up.  What has to be shown for this is that bytes can be read in
one way only, so that different openings and different lists are different byte strings.

* `Opening.ofBytes_toBytes`, `Opening.toBytes_of_ofBytes` — an opening and its bytes.
* `Opening.toBytes_injective` — openings with the same bytes are equal, however long the random part.
* `broadcastInput_inj` — a list of strings of one length can be told from what is hashed for it.
* `readBroadcast` — reading a list back; it accepts what is hashed for a list and nothing else.
* `Collision` — two different byte strings with one digest.
* **`broadcastInput_decodable`** — a list can be decoded from what is hashed for it.
* **`Commitment.binding`** — a commitment opens in one way only, or a collision is at hand.
-/

namespace Spdz

variable {F : FieldSpec}

/-! ## Openings -/

/-- The random bytes of a commitment are as many as they should be. -/
theorem ChaCha.length_fill (length : Nat) (rng : ChaCha) : (rng.fill length).1.length = length := by
  have words : ∀ (count : Nat) (rng : ChaCha),
      ((WordSource.collect ChaCha.next count rng).1.flatMap fun word =>
        Bytes.littleEndian 4 word.toNat).length = 4 * count := by
    intro count
    induction count with
    | zero => exact fun _ => rfl
    | succ count ih =>
        intro rng
        simp only [WordSource.collect, List.flatMap_cons, List.length_append,
          Bytes.length_littleEndian, ih]
        omega
  simp only [ChaCha.fill, List.length_take, words]
  omega

namespace Opening

/-- The random bytes are as many as they should be. -/
def IsWhole (opening : Opening F) : Prop := opening.randomness.length = randomnessLength F

theorem length_toBytes {opening : Opening F} (whole : opening.IsWhole) :
    opening.toBytes.length = F.byteLength + randomnessLength F := by
  rw [toBytes, List.length_append, Elem.length_encode, whole]

/-- An opening is read from its bytes. -/
theorem ofBytes_toBytes {opening : Opening F} (whole : opening.IsWhole) :
    ofBytes F opening.toBytes = .ok opening := by
  have length := Elem.length_encode opening.value
  have value : opening.toBytes.take F.byteLength = opening.value.encode := List.take_left' length
  have rest : opening.toBytes.drop F.byteLength = opening.randomness := List.drop_left' length
  simp only [ofBytes, length_toBytes whole, ne_eq, not_true_eq_false, if_false, value, rest,
    Elem.decode_encode]
  rfl

/-- The bytes that an opening is read from are its bytes. -/
theorem toBytes_of_ofBytes {bytes : Bytes} {opening : Opening F}
    (read : ofBytes F bytes = .ok opening) : opening.toBytes = bytes ∧ opening.IsWhole := by
  unfold ofBytes at read
  by_cases length : bytes.length = F.byteLength + randomnessLength F
  · cases value : Elem.decode F (bytes.take F.byteLength) with
    | error e => simp [length, value, bind, Except.bind] at read
    | ok a =>
        simp only [length, ne_eq, not_true_eq_false, if_false, value, bind, pure, Except.bind,
          Except.pure, Except.ok.injEq] at read
        subst read
        refine ⟨?_, ?_⟩
        · rw [toBytes, Elem.encode_of_decode value, List.take_append_drop]
        · rw [IsWhole, List.length_drop, length, Nat.add_sub_cancel_left]
  · simp [length, bind, Except.bind, throw, throwThe, MonadExceptOf.throw] at read

/-- Openings with the same bytes are equal.  Elements take a fixed number of bytes, so this needs no
assumption on the random bytes, not even that they are equally many. -/
theorem toBytes_injective {a b : Opening F} (same : a.toBytes = b.toBytes) : a = b := by
  obtain ⟨v, r⟩ := a
  obtain ⟨w, s⟩ := b
  simp only [toBytes] at same
  have lengths : v.encode.length = w.encode.length := by simp
  obtain ⟨values, rests⟩ := List.append_inj same lengths
  rw [Elem.encode_injective values, rests]

end Opening

/-- A fresh opening is whole, and its commitment is to it. -/
theorem Commitment.commit_spec (value : Elem F) (rng : ChaCha) :
    (Commitment.commit value rng).1.2.IsWhole ∧ (Commitment.commit value rng).1.2.value = value ∧
      (Commitment.commit value rng).1.1 = ⟨(Commitment.commit value rng).1.2.digest⟩ :=
  ⟨ChaCha.length_fill _ _, rfl, rfl⟩

/-- Any bytes that are as many as those of a digest are read as a commitment. -/
theorem Commitment.ofBytes_of_length {bytes : Bytes} (length : bytes.length = digestLength) :
    Commitment.ofBytes bytes = .ok ⟨bytes⟩ := if_neg (not_not_intro length)

theorem Commitment.ofBytes_of_length_ne {bytes : Bytes} (wrong : bytes.length ≠ digestLength) :
    Commitment.ofBytes bytes = .error (.invalidLength digestLength bytes.length) := if_pos wrong

/-- The digest that a commitment consists of is read as that commitment. -/
theorem Commitment.ofBytes_digest (opening : Opening F) :
    Commitment.ofBytes opening.digest = .ok ⟨opening.digest⟩ :=
  Commitment.ofBytes_of_length (by simp [Opening.digest])

/-! ## Lists -/

/-- **A list can be told from what is hashed for it**, when all strings have the same length. -/
theorem broadcastInput_inj {length : Nat} {xs ys : List Bytes}
    (hx : ∀ x ∈ xs, x.length = length) (hy : ∀ y ∈ ys, y.length = length)
    (same : broadcastInput xs = broadcastInput ys) : xs = ys := by
  induction xs generalizing ys with
  | nil =>
      cases ys with
      | nil => rfl
      | cons y ys => simp [broadcastInput, Bytes.littleEndian] at same
  | cons x xs ih =>
      cases ys with
      | nil => simp [broadcastInput, Bytes.littleEndian] at same
      | cons y ys =>
          obtain ⟨hx, restX⟩ := List.forall_mem_cons.mp hx
          obtain ⟨hy, restY⟩ := List.forall_mem_cons.mp hy
          simp only [broadcastInput, List.flatMap_cons, List.append_assoc] at same
          obtain ⟨-, same⟩ := List.append_inj same (by simp)
          obtain ⟨first, others⟩ := List.append_inj same (hx.trans hy.symm)
          rw [first, ih restX restY others]

/-! ## Reading a list back

When the strings differ in length, where one ends is known only from the bytes before it.  A string can
hold what looks like a length, so a list is told from its bytes by reading these from the front. -/

/-- A length that fits eight bytes is read from them. -/
theorem Bytes.ofLittleEndian_length {bytes : Bytes} (short : bytes.length < UInt64.size) :
    Bytes.ofLittleEndian (Bytes.littleEndian 8 bytes.length) = bytes.length :=
  (Bytes.ofLittleEndian_littleEndian 8 bytes.length).trans (Nat.mod_eq_of_lt short)

/-- How long the first string of a list is: the number that eight bytes stand for. -/
def leadingLength (bytes : Bytes) : Nat := Bytes.ofLittleEndian (bytes.take 8)

/-- Reading.  The first string follows the eight bytes that say how long it is, and what is left
stands for the rest of the list. -/
def readBroadcast (bytes : Bytes) : Option (List Bytes) :=
  if bytes = [] then some []
  else if 8 + leadingLength bytes ≤ bytes.length then
    (readBroadcast (bytes.drop (8 + leadingLength bytes))).map
      ((bytes.drop 8).take (leadingLength bytes) :: ·)
  else none
termination_by bytes.length
decreasing_by
  rw [List.length_drop]
  omega

/-- **What is hashed for a list is read back as that list**, when the length of each string fits the
eight bytes that stand for it. -/
theorem readBroadcast_broadcastInput {xs : List Bytes} (short : ∀ x ∈ xs, x.length < UInt64.size) :
    readBroadcast (broadcastInput xs) = some xs := by
  induction xs with
  | nil => rw [broadcastInput, List.flatMap_nil, readBroadcast, if_pos rfl]
  | cons x xs ih =>
      have number := Bytes.ofLittleEndian_length (short x List.mem_cons_self)
      have input : broadcastInput (x :: xs) =
          Bytes.littleEndian 8 x.length ++ (x ++ broadcastInput xs) := by
        rw [broadcastInput, List.flatMap_cons, List.append_assoc, broadcastInput]
      have prefixed := Bytes.length_littleEndian 8 x.length
      have leading : leadingLength (broadcastInput (x :: xs)) = x.length := by
        rw [leadingLength, input, List.take_left' prefixed, number]
      have nonempty : broadcastInput (x :: xs) ≠ [] := fun empty => by
        rw [input, List.append_eq_nil_iff] at empty
        simp [empty.1] at prefixed
      have enough : 8 + x.length ≤ (broadcastInput (x :: xs)).length := by
        simp only [input, List.length_append, prefixed]
        omega
      rw [readBroadcast, leading, if_neg nonempty, if_pos enough, ← List.drop_drop, input,
        List.drop_left' prefixed, List.drop_left, List.take_left,
        ih fun a member => short a (List.mem_cons_of_mem x member), Option.map_some]

/-- What is read as a list is what is hashed for it. -/
theorem broadcastInput_of_readBroadcast {bytes : Bytes} {xs : List Bytes}
    (read : readBroadcast bytes = some xs) :
    broadcastInput xs = bytes ∧ ∀ x ∈ xs, x.length < UInt64.size := by
  induction bytes using readBroadcast.induct generalizing xs with
  | case1 =>
    rw [readBroadcast, if_pos rfl, Option.some.injEq] at read
    subst read
    exact ⟨rfl, by simp⟩
  | case2 bytes nonempty enough ih =>
      rw [readBroadcast, if_neg nonempty, if_pos enough, Option.map_eq_some_iff] at read
      obtain ⟨rest, read, rfl⟩ := read
      obtain ⟨input, short⟩ := ih read
      have counted : (bytes.take 8).length = 8 := by
        rw [List.length_take]
        omega
      have first : ((bytes.drop 8).take (leadingLength bytes)).length = leadingLength bytes := by
        rw [List.length_take, List.length_drop]
        omega
      have prefixed : Bytes.littleEndian 8 (leadingLength bytes) = bytes.take 8 := by
        have written := Bytes.littleEndian_ofLittleEndian (bytes.take 8)
        rwa [counted] at written
      have fits : leadingLength bytes < UInt64.size := by
        have fits := Bytes.ofLittleEndian_lt (bytes.take 8)
        rwa [counted] at fits
      have remaining : broadcastInput rest = (bytes.drop 8).drop (leadingLength bytes) :=
        input.trans List.drop_drop.symm
      refine ⟨?_, List.forall_mem_cons.mpr ⟨by rwa [first], short⟩⟩
      rw [broadcastInput, List.flatMap_cons, first, prefixed, List.append_assoc, ← broadcastInput,
        remaining, List.take_append_drop, List.take_append_drop]
  | case3 bytes nonempty scarce =>
    rw [readBroadcast, if_neg nonempty, if_neg scarce] at read
    cases read

/-- The reader accepts exactly what is hashed for a list of strings whose lengths fit eight bytes. -/
theorem readBroadcast_eq_some_iff {bytes : Bytes} {xs : List Bytes} :
    readBroadcast bytes = some xs ↔
      broadcastInput xs = bytes ∧ ∀ x ∈ xs, x.length < UInt64.size := by
  refine ⟨broadcastInput_of_readBroadcast, ?_⟩
  rintro ⟨rfl, short⟩
  exact readBroadcast_broadcastInput short

/-- A list can be told from what is hashed for it, when the length of each string fits the eight bytes
that stand for it. -/
theorem broadcastInput_inj_of_lt {xs ys : List Bytes} (hx : ∀ x ∈ xs, x.length < UInt64.size)
    (hy : ∀ y ∈ ys, y.length < UInt64.size) (same : broadcastInput xs = broadcastInput ys) :
    xs = ys := by
  have read := readBroadcast_broadcastInput hx
  rw [same, readBroadcast_broadcastInput hy] at read
  exact (Option.some.inj read).symm

/-! ## Collisions -/

/-- Two different byte strings with the same digest. -/
def Collision (a b : Bytes) : Prop := a ≠ b ∧ sha3 a = sha3 b

/-- Two byte strings with one digest are equal, or they collide. -/
theorem eq_or_collision {a b : Bytes} (same : sha3 a = sha3 b) : a = b ∨ Collision a b := by
  by_cases equal : a = b
  · exact .inl equal
  · exact .inr ⟨equal, same⟩

/-- **A list can be decoded from what is hashed for it**, in one way only, whatever the lengths of its
strings are as long as they fit eight bytes.  So two different lists with one digest show two different
byte strings with one digest. -/
theorem broadcastInput_decodable {xs ys : List Bytes} (hx : ∀ x ∈ xs, x.length < UInt64.size)
    (hy : ∀ y ∈ ys, y.length < UInt64.size) :
    readBroadcast (broadcastInput xs) = some xs ∧
      (broadcastInput xs = broadcastInput ys ↔ xs = ys) ∧
      (xs ≠ ys → broadcastDigest xs = broadcastDigest ys →
        Collision (broadcastInput xs) (broadcastInput ys)) := by
  have told : broadcastInput xs = broadcastInput ys → xs = ys := broadcastInput_inj_of_lt hx hy
  refine ⟨readBroadcast_broadcastInput hx, ⟨told, congrArg broadcastInput⟩, ?_⟩
  intro different same
  exact ⟨fun equal => different (told equal), same⟩

/-- Two empty strings give sixteen bytes, all of them zero, and so many does one string of eight zero
bytes give, which is what a length looks like.  The first byte tells the two lists apart. -/
theorem broadcastInput_decodable_of_empty :
    readBroadcast (broadcastInput [[], []]) = some [[], []] ∧
      broadcastInput [[], []] ≠ broadcastInput [List.replicate 8 0] ∧
      (broadcastDigest [[], []] = broadcastDigest [List.replicate 8 0] →
        Collision (broadcastInput [[], []]) (broadcastInput [List.replicate 8 0])) := by
  have ⟨read, told, collide⟩ :=
    @broadcastInput_decodable [[], []] [List.replicate 8 0] (by decide) (by decide)
  have different : [[], []] ≠ [List.replicate 8 (0 : UInt8)] := by decide
  exact ⟨read, fun same => different (told.mp same), collide different⟩

/-! ## Binding -/

namespace Commitment

theorem verify_iff {c : Commitment} {o : Opening F} : c.verify o = true ↔ c.digest = o.digest := by
  simp [verify]

/-- Two openings of one commitment are equal, or what is hashed for them collides. -/
theorem eq_or_collision_of_verify {c : Commitment} {a b : Opening F} (opensA : c.verify a = true)
    (opensB : c.verify b = true) : a = b ∨ Collision a.toBytes b.toBytes := by
  rw [verify_iff] at opensA opensB
  have same : sha3 a.toBytes = sha3 b.toBytes := opensA.symm.trans opensB
  rcases eq_or_collision same with equal | collision
  · exact .inl (Opening.toBytes_injective equal)
  · exact .inr collision

/-- **A commitment binds.**  The commitment to `v₁` is opened by the opening that was made with it, and
both come back the same from their bytes.  Whatever else opens it is the same value with the same random
bytes, or else what was hashed for the one and for the other are two byte strings with one digest.  So it
is with any two openings of any commitment that is read from bytes, wherever these come from and however
many random bytes the openings have. -/
theorem binding (v₁ v₂ : Elem F) (rng : ChaCha) (r₂ : Bytes) :
    let ((c, o₁), _) := commit v₁ rng
    (o₁.value = v₁ ∧ c.verify o₁ = true ∧
      ofBytes c.digest = .ok c ∧ Opening.ofBytes F o₁.toBytes = .ok o₁) ∧
    (c.verify ⟨v₂, r₂⟩ = true →
      (v₁ = v₂ ∧ r₂ = o₁.randomness) ∨ Collision (v₁.encode ++ o₁.randomness) (v₂.encode ++ r₂)) ∧
    ∀ bytes : Bytes, bytes.length = digestLength → ∃ c', ofBytes bytes = .ok c' ∧
      ∀ a b : Opening F, c'.verify a = true → c'.verify b = true →
        (a.value = b.value ∧ a.randomness = b.randomness) ∨
          Collision (a.value.encode ++ a.randomness) (b.value.encode ++ b.randomness) := by
  obtain ⟨whole, value, made⟩ := commit_spec v₁ rng
  rcases committed : commit v₁ rng with ⟨⟨c, o₁⟩, after⟩
  simp only [committed] at whole value made ⊢
  subst made
  have opens : (⟨o₁.digest⟩ : Commitment).verify o₁ = true := verify_iff.mpr rfl
  refine ⟨⟨value, opens, ofBytes_digest o₁, Opening.ofBytes_toBytes whole⟩, ?_, ?_⟩
  · intro opens₂
    rcases eq_or_collision_of_verify opens opens₂ with equal | collision
    · rw [equal] at value ⊢
      exact .inl ⟨value.symm, rfl⟩
    · rw [Opening.toBytes, Opening.toBytes, value] at collision
      exact .inr collision
  · intro bytes length
    refine ⟨⟨bytes⟩, ofBytes_of_length length, ?_⟩
    intro a b opensA opensB
    rcases eq_or_collision_of_verify opensA opensB with rfl | collision
    · exact .inl ⟨rfl, rfl⟩
    · exact .inr collision

/-- In the field of 251 elements 254 is 3, so it opens a commitment to 3 with the same random bytes. -/
theorem binding_of_three :
    let ((c, o), _) := commit (Elem.ofNat .f251 3) (ChaCha.ofSeed (List.replicate 32 7))
    c.verify ⟨Elem.ofNat .f251 254, o.randomness⟩ = true ∧
      ((Elem.ofNat .f251 3 = Elem.ofNat .f251 254 ∧ o.randomness = o.randomness) ∨
        Collision ((Elem.ofNat .f251 3).encode ++ o.randomness)
          ((Elem.ofNat .f251 254).encode ++ o.randomness)) ∧
      c.digest.length = digestLength ∧ ∃ c', ofBytes c.digest = .ok c' ∧ c'.verify o = true ∧
        c'.verify ⟨Elem.ofNat .f251 254, o.randomness⟩ = true ∧
        ((o.value = Elem.ofNat .f251 254 ∧ o.randomness = o.randomness) ∨
          Collision (o.value.encode ++ o.randomness)
            ((Elem.ofNat .f251 254).encode ++ o.randomness)) := by
  have same : Elem.ofNat .f251 3 = Elem.ofNat .f251 254 := by decide
  have bound := fun r => binding (Elem.ofNat .f251 3) (Elem.ofNat .f251 254)
    (ChaCha.ofSeed (List.replicate 32 7)) r
  generalize commit (Elem.ofNat .f251 3) (ChaCha.ofSeed (List.replicate 32 7)) = made at bound ⊢
  obtain ⟨⟨c, o⟩, after⟩ := made
  obtain ⟨⟨value, opens, readC, -⟩, -, any⟩ := bound []
  have own : (⟨Elem.ofNat .f251 254, o.randomness⟩ : Opening .f251) = o :=
    congrArg (Opening.mk · o.randomness) (same.symm.trans value.symm)
  have opens' : c.verify ⟨Elem.ofNat .f251 254, o.randomness⟩ = true := own.symm ▸ opens
  have length : c.digest.length = digestLength := by
    rw [verify_iff.mp opens, Opening.digest, length_sha3]
  obtain ⟨c', read, all⟩ := any c.digest length
  obtain rfl : c = c' := Except.ok.inj (readC.symm.trans read)
  exact ⟨opens', (bound o.randomness).2.1 opens', length, c, readC, opens, opens', all _ _ opens opens'⟩

end Commitment

end Spdz
