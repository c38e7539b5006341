import Spdz.Bytes
import Spdz.Field.Elem

/-!
# Encoding of field elements

An element is written as its representative in little-endian order, in as many bytes as the field
prescribes. The length does not depend on the value, so the encodings of a list simply follow one
another. Reading accepts canonical encodings only.

* `Elem.encode`, `Elem.encodeList` — the bytes of one element and of a list.
* `Elem.decode`, `Elem.decodeList` — the reverse, for a single element and for a given number.
* `CodecError` — why bytes are no encoding.
-/

namespace Spdz

/-- Why a byte string is no encoding of the elements asked for. -/
inductive CodecError where
  | invalidLength (expected actual : Nat)
  | nonCanonical
  deriving DecidableEq

/-- The reason in words. -/
def CodecError.message : CodecError → String
  | .invalidLength expected actual => s!"expected {expected} bytes, got {actual}"
  | .nonCanonical => "encoding is not a canonical field element"

/-- A product that a machine word must hold. The program stops if it does not. -/
def wordMul (a b : Nat) : Option Nat := if a * b < UInt64.size then some (a * b) else none

theorem wordMul_of_lt {a b : Nat} (fits : a * b < UInt64.size) : wordMul a b = some (a * b) := if_pos fits

theorem wordMul_of_le {a b : Nat} (large : UInt64.size ≤ a * b) : wordMul a b = none :=
  if_neg (Nat.not_lt.mpr large)

namespace Elem

variable {F : FieldSpec}

/-! ## One element -/

/-- The bytes of an element. -/
def encode (a : Elem F) : Bytes := Bytes.littleEndian F.byteLength a.val

/-- The element with the given encoding. -/
def decode (F : FieldSpec) (bytes : Bytes) : Except CodecError (Elem F) :=
  if bytes.length ≠ F.byteLength then
    .error (.invalidLength F.byteLength bytes.length)
  else if h : Bytes.ofLittleEndian bytes < F.modulus then
    .ok ⟨Bytes.ofLittleEndian bytes, h⟩
  else
    .error .nonCanonical

@[simp] theorem length_encode (a : Elem F) : a.encode.length = F.byteLength :=
  Bytes.length_littleEndian _ _

/-- Reading what was written gives the element back. -/
theorem decode_encode (a : Elem F) : decode F a.encode = .ok a := by
  have value : Bytes.ofLittleEndian a.encode = a.val := by
    rw [encode, Bytes.ofLittleEndian_littleEndian]
    exact Nat.mod_eq_of_lt (Nat.lt_trans a.isLt F.modulus_lt_byteLength)
  have canonical : Bytes.ofLittleEndian a.encode < F.modulus := value ▸ a.isLt
  rw [decode, if_neg (by simp), dif_pos canonical]
  exact congrArg _ (ext value)

/-! ## Lists of elements -/

/-- The bytes of a list of elements, one encoding after the other. -/
def encodeList (elements : List (Elem F)) : Bytes := elements.flatMap encode

/-- The `count` elements whose encodings make up the bytes. The number of bytes to expect is the
product of `count` and the length of one encoding, and there is no result where that product is too
large for a machine word. -/
def decodeList (F : FieldSpec) (bytes : Bytes) (count : Nat) :
    Option (Except CodecError (List (Elem F))) :=
  (wordMul count F.byteLength).map fun expected =>
    if bytes.length ≠ expected then
      .error (.invalidLength expected bytes.length)
    else
      (Bytes.chunks F.byteLength (bytes.length / F.byteLength) bytes).mapM (decode F)

end Elem

end Spdz
