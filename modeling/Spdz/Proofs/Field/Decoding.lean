import Mathlib.Data.List.Basic
import Spdz.Proofs.Field.Encoding

/-!
# Which bytes are an encoding

A list of elements has one encoding, and no other bytes are read as that list.  So bytes can stand for
the elements, for instance where digests of messages are compared.  What is refused is refused for one
of two reasons, and it is said here for which bytes it is which: a wrong number of bytes comes first, and
only then does it matter whether each piece is a number below the modulus.

* `Bytes.piece` — the pieces of equal length that a message is cut into.
* `Elem.decode_eq_ok_iff`, `Elem.decode_eq_nonCanonical_iff` — one element.
* `Elem.mapM_decode_eq_ok_iff`, `Elem.mapM_decode_eq_error_iff` — all pieces of a message.
* **`Elem.decodeList_exact`** — lists of elements: what is read, and why anything else is not.
-/

namespace Spdz

/-! ## Pieces -/

namespace Bytes

variable {size count : Nat} {bytes : Bytes}

/-- The piece number `k` of those that have `size` bytes each, counted from zero. -/
def piece (size k : Nat) (bytes : Bytes) : Bytes := (bytes.drop (k * size)).take size

theorem chunks_eq_map (size count : Nat) (bytes : Bytes) :
    chunks size count bytes = (List.range count).map fun k => piece size k bytes := by
  induction count generalizing bytes with
  | zero => rfl
  | succ count ih =>
      have later : ∀ k, piece size k (bytes.drop size) = piece size (k + 1) bytes := by
        intro k
        rw [piece, piece, List.drop_drop, Nat.succ_mul, Nat.add_comm]
      have first : piece size 0 bytes = bytes.take size := by simp [piece]
      rw [chunks, ih, List.range_succ_eq_map, List.map_cons, List.map_map, first]
      simp only [later, Function.comp_def, Nat.succ_eq_add_one]

theorem length_piece (length : bytes.length = count * size) {k : Nat} (small : k < count) :
    (piece size k bytes).length = size := by
  have room : (k + 1) * size ≤ count * size := Nat.mul_le_mul_right size small
  rw [Nat.succ_mul] at room
  rw [piece, List.length_take, List.length_drop, length]
  omega

theorem length_of_mem_chunks (length : bytes.length = count * size) :
    ∀ chunk ∈ chunks size count bytes, chunk.length = size := by
  intro chunk mem
  rw [chunks_eq_map] at mem
  obtain ⟨k, small, rfl⟩ := List.mem_map.mp mem
  exact length_piece length (List.mem_range.mp small)

/-- Nothing is lost when a message is cut into pieces. -/
theorem flatten_chunks (length : bytes.length = count * size) :
    (chunks size count bytes).flatten = bytes := by
  induction count generalizing bytes with
  | zero =>
      rw [Nat.zero_mul] at length
      rw [List.length_eq_zero_iff.mp length]
      rfl
  | succ count ih =>
      have rest : (bytes.drop size).length = count * size := by
        rw [List.length_drop, length, Nat.succ_mul, Nat.add_sub_cancel]
      rw [chunks, List.flatten_cons, ih rest, List.take_append_drop]

end Bytes

namespace Elem

variable {F : FieldSpec} {bytes : Bytes} {count : Nat}

/-! ## One element -/

/-- **One element is read from its encoding and from nothing else.** -/
theorem decode_eq_ok_iff {a : Elem F} : decode F bytes = .ok a ↔ bytes = a.encode := by
  constructor
  · intro read
    exact (encode_of_decode read).symm
  · rintro rfl
    exact decode_encode a

theorem decode_eq_nonCanonical_iff : decode F bytes = .error .nonCanonical
    ↔ bytes.length = F.byteLength ∧ F.modulus ≤ Bytes.ofLittleEndian bytes := by
  unfold decode
  split_ifs with wrong canonical
  · simp [wrong]
  · simp [canonical]
  · simpa using ⟨not_not.mp wrong, Nat.le_of_not_lt canonical⟩

/-! ## All pieces -/

/-- All pieces are read if each of them is the encoding of an element. -/
theorem mapM_decode_eq_ok_iff {pieces : List Bytes} {elements : List (Elem F)} :
    pieces.mapM (decode F) = .ok elements ↔ pieces = elements.map encode := by
  constructor
  · intro read
    induction pieces generalizing elements with
    | nil =>
        cases read
        rfl
    | cons piece pieces ih =>
        rw [List.mapM_cons] at read
        cases first : decode F piece with
        | error e => simp [first, bind, Except.bind] at read
        | ok a =>
            cases rest : pieces.mapM (decode F) with
            | error e => simp [first, rest, bind, Except.bind] at read
            | ok others =>
                simp only [first, rest, bind, pure, Except.bind, Except.pure, Except.ok.injEq] at read
                rw [← read, List.map_cons, ← ih rest, decode_eq_ok_iff.mp first]
  · rintro rfl
    exact mapM_decode elements

/-- Among pieces of the right length, one that is no number below the modulus spoils all. -/
theorem mapM_decode_eq_error_iff {pieces : List Bytes} {e : CodecError}
    (whole : ∀ piece ∈ pieces, piece.length = F.byteLength) :
    pieces.mapM (decode F) = .error e
      ↔ e = .nonCanonical ∧ ∃ piece ∈ pieces, F.modulus ≤ Bytes.ofLittleEndian piece := by
  induction pieces with
  | nil => simp [pure, Except.pure]
  | cons piece pieces ih =>
      obtain ⟨here, later⟩ := List.forall_mem_cons.mp whole
      rw [List.mapM_cons]
      rcases Nat.lt_or_ge (Bytes.ofLittleEndian piece) F.modulus with small | large
      · have first : decode F piece = .ok ⟨_, small⟩ := by
          rw [decode, if_neg (not_not_intro here), dif_pos small]
        have head : ¬ F.modulus ≤ Bytes.ofLittleEndian piece := Nat.not_le.mpr small
        rw [first]
        cases rest : pieces.mapM (decode F) with
        | error e' => simp [← ih later, rest, head, bind, Except.bind]
        | ok others =>
            have fine : ¬ (e = .nonCanonical ∧ ∃ piece ∈ pieces,
                F.modulus ≤ Bytes.ofLittleEndian piece) := by
              rw [← ih later, rest]
              simp
            simp only [List.mem_cons, exists_eq_or_imp, head, false_or, fine, iff_false]
            simp [bind, Except.bind, pure, Except.pure]
      · have first : decode F piece = .error .nonCanonical :=
          decode_eq_nonCanonical_iff.mpr ⟨here, large⟩
        simp [first, large, bind, Except.bind, eq_comm]

/-! ## Lists -/

/-- The encodings of two lists follow one another. -/
theorem encodeList_append (xs ys : List (Elem F)) :
    encodeList (xs ++ ys) = encodeList xs ++ encodeList ys := List.flatMap_append

/-- Each list has an encoding of its own. -/
theorem encodeList_injective : Function.Injective (encodeList (F := F)) := by
  intro xs ys same
  have lengths : xs.length * F.byteLength = ys.length * F.byteLength := by
    rw [← length_encodeList, ← length_encodeList, same]
  have equal : xs.length = ys.length := Nat.eq_of_mul_eq_mul_right F.byteLength_pos lengths
  have pieces : xs.map encode = ys.map encode := by
    rw [← chunks_encodeList, ← chunks_encodeList, equal, same]
  exact List.map_injective_iff.mpr (fun _ _ => encode_injective) pieces

/-- There is a result where a machine word holds the number of bytes. -/
theorem decodeList_of_fits (fits : count * F.byteLength < UInt64.size) :
    decodeList F bytes count = some
      (if bytes.length = count * F.byteLength then
        (Bytes.chunks F.byteLength count bytes).mapM (decode F)
      else .error (.invalidLength (count * F.byteLength) bytes.length)) := by
  rw [decodeList, wordMul_of_lt fits, Option.map_some]
  by_cases length : bytes.length = count * F.byteLength
  · have pieces : bytes.length / F.byteLength = count := by
      rw [length, Nat.mul_div_cancel _ F.byteLength_pos]
    rw [if_neg (not_not_intro length), if_pos length, pieces]
  · rw [if_pos length, if_neg length]

theorem exists_decodeList_of_fits (fits : count * F.byteLength < UInt64.size) (bytes : Bytes) :
    ∃ result, decodeList F bytes count = some result := ⟨_, decodeList_of_fits fits⟩

/-- The pieces of a message are the encodings of elements if the message is that of their list. -/
theorem chunks_eq_map_encode_iff (length : bytes.length = count * F.byteLength)
    {elements : List (Elem F)} : Bytes.chunks F.byteLength count bytes = elements.map encode
      ↔ elements.length = count ∧ bytes = encodeList elements := by
  constructor
  · intro pieces
    have lengths := congrArg List.length pieces
    rw [Bytes.length_chunks, List.length_map] at lengths
    refine ⟨lengths.symm, ?_⟩
    rw [encodeList, List.flatMap_def, ← pieces, Bytes.flatten_chunks length]
  · rintro ⟨rfl, rfl⟩
    exact chunks_encodeList elements

/-- The encoding of a list of the right length is read as that list, and nothing else is. -/
theorem decodeList_eq_ok_iff (fits : count * F.byteLength < UInt64.size) (bytes : Bytes)
    (elements : List (Elem F)) : decodeList F bytes count = some (.ok elements)
      ↔ elements.length = count ∧ bytes = encodeList elements := by
  rw [decodeList_of_fits fits, Option.some_inj]
  by_cases length : bytes.length = count * F.byteLength
  · rw [if_pos length, mapM_decode_eq_ok_iff, chunks_eq_map_encode_iff length]
  · rw [if_neg length]
    refine iff_of_false (by simp) ?_
    rintro ⟨rfl, rfl⟩
    exact length (length_encodeList elements)

/-- A list of one element is read as that element is. -/
theorem decodeList_one (declared : F.IsDeclared) (bytes : Bytes) :
    decodeList F bytes 1 = some ((decode F bytes).map fun a => [a]) := by
  have fits : 1 * F.byteLength < UInt64.size := declared.fits (by decide)
  rw [decodeList_of_fits fits, Nat.one_mul]
  by_cases length : bytes.length = F.byteLength
  · have single : Bytes.chunks F.byteLength 1 bytes = [bytes] := by
      rw [Bytes.chunks, Bytes.chunks, List.take_of_length_le (Nat.le_of_eq length)]
    rw [if_pos length, single, List.mapM_cons]
    cases decode F bytes <;> rfl
  · rw [if_neg length, decode, if_pos length]
    rfl

/-- **The codec accepts exactly its image.**  As long as a machine word holds the number of bytes that
a count asks for, the program does not stop: exactly the encoding of a list of so many elements is read as
that list; a wrong number of bytes is the reason given if and only if there is a wrong number of bytes; and a number that is not
canonical is the reason if and only if the number of bytes is right and some piece is not below the
modulus.  Different lists have different encodings, the encoding of two lists put together is that of
the one and then that of the other, and a single element is treated as a list of one. -/
theorem decodeList_exact (declared : F.IsDeclared) :
    (∀ (bytes : Bytes) (count : Nat), count * F.byteLength < UInt64.size →
      (∀ elements, decodeList F bytes count = some (.ok elements)
        ↔ elements.length = count ∧ bytes = encodeList elements) ∧
      (∀ expected actual, decodeList F bytes count = some (.error (.invalidLength expected actual))
        ↔ bytes.length ≠ count * F.byteLength ∧
          expected = count * F.byteLength ∧ actual = bytes.length) ∧
      (decodeList F bytes count = some (.error .nonCanonical)
        ↔ bytes.length = count * F.byteLength ∧
          ∃ k < count, F.modulus ≤ Bytes.ofLittleEndian (Bytes.piece F.byteLength k bytes))) ∧
    Function.Injective (encodeList (F := F)) ∧
    (∀ xs ys : List (Elem F), encodeList (xs ++ ys) = encodeList xs ++ encodeList ys) ∧
    (∀ a : Elem F, encodeList [a] = a.encode) ∧
    ∀ bytes : Bytes, decodeList F bytes 1 = some ((decode F bytes).map fun a => [a]) := by
  refine ⟨fun bytes count fits => ?_, encodeList_injective, encodeList_append,
    fun a => List.flatMap_singleton .., decodeList_one declared⟩
  refine ⟨decodeList_eq_ok_iff fits bytes, ?_⟩
  rw [decodeList_of_fits fits]
  by_cases length : bytes.length = count * F.byteLength
  · have whole := Bytes.length_of_mem_chunks length
    rw [if_pos length]
    refine ⟨fun expected actual => ?_, ?_⟩
    · simp [mapM_decode_eq_error_iff whole, length]
    · rw [Option.some_inj, mapM_decode_eq_error_iff whole, Bytes.chunks_eq_map]
      simp [length]
  · rw [if_neg length]
    refine ⟨fun expected actual => ?_, ?_⟩
    · simp [length, eq_comm]
    · simp [length]

/-- In the field of 251 elements the second of two pieces may be 250 and not 251, which would be zero
once more. -/
theorem decodeList_exact_second :
    let zeros : Bytes := List.replicate 7 0
    FieldSpec.IsDeclared .f251 ∧ 2 * FieldSpec.byteLength .f251 < UInt64.size ∧
      decodeList .f251 (3 :: zeros ++ 250 :: zeros) 2 = some (.ok [ofNat .f251 3, ofNat .f251 250]) ∧
      decodeList .f251 (3 :: zeros ++ 251 :: zeros) 2 = some (.error .nonCanonical) ∧
      decodeList .f251 (3 :: zeros ++ 251 :: zeros) 3 = some (.error (.invalidLength 24 16)) := by
  intro zeros
  have declared : FieldSpec.IsDeclared .f251 := .inl rfl
  have two : 2 * FieldSpec.byteLength .f251 < UInt64.size := by decide
  have three : 3 * FieldSpec.byteLength .f251 < UInt64.size := by decide
  have codec := (decodeList_exact declared).1
  refine ⟨declared, two, ?_, ?_, ?_⟩
  · exact ((codec _ 2 two).1 _).mpr ⟨by decide, by decide⟩
  · exact (codec _ 2 two).2.2.mpr ⟨by decide, 1, by decide, by decide⟩
  · exact ((codec _ 3 three).2.1 _ _).mpr ⟨by decide, by decide, by decide⟩

end Elem

end Spdz
