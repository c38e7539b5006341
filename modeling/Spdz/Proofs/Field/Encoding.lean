import Mathlib.Tactic.SplitIfs
import Spdz.Field.Codec

/-!
# Reading what was written

A message of elements is read back as the elements that were sent.  The receiver compares lengths in
a machine word, so this needs lists that are short enough; over a declared field a few elements
always are.

* `FieldSpec.IsDeclared` — one of the fields that computations are run over.
* `Elem.encode_of_decode` — bytes that are read are the bytes of what was read.
* **`Elem.decodeList_encodeList`** — a message of elements gives these elements.
-/

namespace Spdz

/-! ## Declared fields -/

namespace FieldSpec

/-- The fields that computations are run over. -/
def IsDeclared (F : FieldSpec) : Prop := F = f251 ∨ F = mersenne61 ∨ F = mersenne127

/-- Elements of a declared field take one word or two. -/
theorem IsDeclared.byteLength_le {F : FieldSpec} (declared : F.IsDeclared) : F.byteLength ≤ 16 := by
  rcases declared with rfl | rfl | rfl <;> decide

/-- One or two elements can always be read from a message. -/
theorem IsDeclared.fits {F : FieldSpec} (declared : F.IsDeclared) {count : Nat} (few : count ≤ 2) :
    count * F.byteLength < UInt64.size := by
  have bound : count * F.byteLength ≤ 2 * 16 := Nat.mul_le_mul few declared.byteLength_le
  exact Nat.lt_of_le_of_lt bound (by decide)

/-- An element takes some bytes, since there is more than one element. -/
theorem byteLength_pos (F : FieldSpec) : 0 < F.byteLength := by
  rcases Nat.eq_zero_or_pos F.byteLength with none | some
  · have small := F.modulus_lt_byteLength
    rw [none, Nat.pow_zero] at small
    exact absurd small (Nat.not_lt.mpr F.modulus_pos)
  · exact some

end FieldSpec

namespace Elem

variable {F : FieldSpec}

/-! ## One element -/

/-- Each element has one encoding. -/
theorem encode_of_decode {bytes : Bytes} {a : Elem F} (read : decode F bytes = .ok a) :
    a.encode = bytes := by
  unfold decode at read
  split_ifs at read with length canonical
  cases read
  rw [encode, ← Decidable.not_not.mp length]
  exact Bytes.littleEndian_ofLittleEndian bytes

theorem encode_injective {a b : Elem F} (same : a.encode = b.encode) : a = b := by
  have read := decode_encode a
  rw [same, decode_encode] at read
  exact (Except.ok.inj read).symm

/-! ## Lists -/

theorem length_encodeList (elements : List (Elem F)) :
    (encodeList elements).length = elements.length * F.byteLength := by
  induction elements with
  | nil => simp [encodeList]
  | cons a elements ih =>
      simp only [encodeList, List.flatMap_cons, List.length_append, length_encode] at ih ⊢
      rw [ih, List.length_cons, Nat.succ_mul, Nat.add_comm]

/-- Pieces of the right length are the encodings. -/
theorem chunks_encodeList (elements : List (Elem F)) :
    Bytes.chunks F.byteLength elements.length (encodeList elements) = elements.map encode := by
  induction elements with
  | nil => rfl
  | cons a elements ih =>
      have length := length_encode a
      simp only [encodeList, List.flatMap_cons, List.length_cons, Bytes.chunks, List.map_cons] at ih ⊢
      rw [List.take_left' length, List.drop_left' length, ih]

theorem mapM_decode (elements : List (Elem F)) :
    (elements.map encode).mapM (decode F) = .ok elements := by
  induction elements with
  | nil => rfl
  | cons a elements ih =>
      rw [List.map_cons, List.mapM_cons, decode_encode, ih]
      rfl

/-- **A message of elements gives these elements**, if its length fits a machine word. -/
theorem decodeList_encodeList (elements : List (Elem F))
    (fits : elements.length * F.byteLength < UInt64.size) :
    decodeList F (encodeList elements) elements.length = some (.ok elements) := by
  have length : (encodeList elements).length = elements.length * F.byteLength :=
    length_encodeList elements
  have count : (encodeList elements).length / F.byteLength = elements.length := by
    rw [length, Nat.mul_div_cancel _ F.byteLength_pos]
  rw [decodeList, wordMul_of_lt fits, Option.map_some, if_neg (not_not_intro length), count,
    chunks_encodeList, mapM_decode]

end Elem

end Spdz
