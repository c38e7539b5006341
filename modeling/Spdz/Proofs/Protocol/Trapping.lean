import Spdz.Proofs.Field.Decoding
import Spdz.Proofs.Field.Ring
import Spdz.Protocol.Reveal

/-!
# Operations that may be out of range

The functions of this library are total: a list is read with a default, a piece of a message is as
long as it happens to be.  A machine has no such defaults.  It stops when an index, a piece or a copy is
out of range, which is called a trap.  Here the same is written with operations that may trap.  What was
written twice is shown to be the same, so that nothing traps.

* `Trapping.copy`, `Trapping.split`, `Trapping.chunks`, `Trapping.write`, … — the operations.
* `Trapping.run_decodeList`, `Trapping.run_openingOfBytes` — nothing traps where messages are read, the
  product of a count and a length apart.
* **`Trapping.exact_count_unless_stopped`** — that product stops the program if and only if it is too large
  for a word, and otherwise a list that is read is as long as was asked.
* `Trapping.Round` — a round that may trap; `Trapping.sure` — one that does not.
* **`Trapping.sure_bind`** — rounds put together from parts that do not trap do not trap.
* `Trapping.receiveElements_eq`, `Trapping.getElem?_sums`, `Trapping.readSlot_eq`, … — such parts.
-/

namespace Spdz

namespace Trapping

variable {F : FieldSpec} {σ P Q α β : Type}

/-! ## Operations -/

/-- A difference of words, which must not be negative. -/
def sub (a b : Nat) : Option Nat := if b ≤ a then some (a - b) else none

/-- Put an entry at an index, which must be there. -/
def write (entries : List α) (index : Nat) (entry : α) : Option (List α) :=
  if index < entries.length then some (entries.set index entry) else none

/-- Copy bytes into a buffer of a given length, which must be theirs. -/
def copy (length : Nat) (bytes : Bytes) : Option Bytes :=
  if bytes.length = length then some bytes else none

/-- Cut bytes in two at a point that must not lie beyond the end. -/
def split (point : Nat) (bytes : Bytes) : Option (Bytes × Bytes) :=
  if point ≤ bytes.length then some (bytes.take point, bytes.drop point) else none

/-- Cut bytes into pieces of a size that must not be zero.  The last piece may be shorter. -/
def chunks (size : Nat) (bytes : Bytes) : Option (List Bytes) :=
  if size = 0 then none else some (Bytes.chunks size ((bytes.length + size - 1) / size) bytes)

theorem split_of_le {point : Nat} {bytes : Bytes} (enough : point ≤ bytes.length) :
    split point bytes = some (bytes.take point, bytes.drop point) := if_pos enough

/-- Where the pieces come out even there is no shorter one. -/
theorem chunks_of_length {size count : Nat} (positive : 0 < size) {bytes : Bytes}
    (length : bytes.length = count * size) :
    chunks size bytes = some (Bytes.chunks size count bytes) := by
  have whole : (bytes.length + size - 1) / size = count := by
    rw [length, Nat.add_sub_assoc positive, Nat.add_comm, Nat.add_mul_div_right _ _ positive,
      Nat.div_eq_of_lt (by omega), Nat.zero_add]
  rw [chunks, if_neg (Nat.ne_of_gt positive), whole]

example : chunks 2 [1, 2, 3] = some [[1, 2], [3]] := by decide

example : split 3 [1, 2] = none := by decide

/-! ## Reading messages -/

/-- What is read from bytes, if nothing traps. -/
abbrev Decoder := ExceptT CodecError Option

/-- An element. -/
def decode (F : FieldSpec) (bytes : Bytes) : Decoder (Elem F) := do
  if bytes.length ≠ F.byteLength then throw (.invalidLength F.byteLength bytes.length)
  let buffer ← copy F.byteLength bytes
  if h : Bytes.ofLittleEndian buffer < F.modulus then return ⟨Bytes.ofLittleEndian buffer, h⟩
  else throw .nonCanonical

/-- A list of elements. -/
def decodeList (F : FieldSpec) (bytes : Bytes) (count : Nat) : Decoder (List (Elem F)) := do
  let expected ← wordMul count F.byteLength
  if bytes.length ≠ expected then throw (.invalidLength expected bytes.length)
  (← chunks F.byteLength bytes).mapM (decode F)

/-- An opening. -/
def openingOfBytes (F : FieldSpec) (bytes : Bytes) : Decoder (Opening F) := do
  let expected := F.byteLength + randomnessLength F
  if bytes.length ≠ expected then throw (.invalidLength expected bytes.length)
  let (value, randomness) ← split F.byteLength bytes
  return ⟨← decode F value, randomness⟩

/-- An operation that was in range gives its result. -/
@[simp] theorem liftM_some_bind (a : α) (f : α → Decoder β) :
    (liftM (some a) : Decoder α) >>= f = f a := rfl

theorem run_decode (bytes : Bytes) : (decode F bytes).run = some (Elem.decode F bytes) := by
  unfold decode Elem.decode
  by_cases length : bytes.length = F.byteLength
  · have copied : copy F.byteLength bytes = some bytes := if_pos length
    simp only [length, copied, liftM_some_bind, ne_eq, not_true_eq_false, if_false]
    split_ifs <;> rfl
  · simp only [length, ne_eq, not_false_eq_true, if_true]
    rfl

theorem run_mapM_decode (pieces : List Bytes) :
    (pieces.mapM (decode F)).run = some (pieces.mapM (Elem.decode F)) := by
  induction pieces with
  | nil => rfl
  | cons piece pieces ih =>
      rw [List.mapM_cons, List.mapM_cons, ExceptT.run_bind, run_decode]
      cases Elem.decode F piece with
      | error e => rfl
      | ok a =>
          simp only [Option.bind_eq_bind, Option.bind_some, ExceptT.run_bind, ih]
          cases pieces.mapM (Elem.decode F) <;> rfl

/-- The product is all that can trap where elements are read. -/
theorem run_decodeList (bytes : Bytes) (count : Nat) :
    (decodeList F bytes count).run = Elem.decodeList F bytes count := by
  by_cases fits : count * F.byteLength < UInt64.size
  · rw [decodeList, wordMul_of_lt fits, Elem.decodeList_of_fits fits]
    by_cases length : bytes.length = count * F.byteLength
    · rw [if_pos length, chunks_of_length F.byteLength_pos length]
      simp only [liftM_some_bind, length, ne_eq, not_true_eq_false, if_false]
      exact run_mapM_decode _
    · rw [if_neg length]
      simp only [liftM_some_bind, length, ne_eq, not_false_eq_true, if_true]
      rfl
  · rw [decodeList, Elem.decodeList, wordMul_of_le (Nat.le_of_not_lt fits)]
    rfl

/-- **A list that is read has as many elements as were asked for, unless the program stops.**  Of all the
operations on the way only the product of the count and the length of an element can trap.  It does if and
only if a machine word cannot hold it. -/
theorem exact_count_unless_stopped (F : FieldSpec) (bytes : Bytes) (count : Nat) :
    (decodeList F bytes count).run = Elem.decodeList F bytes count ∧
    ((decodeList F bytes count).run = none ↔ UInt64.size ≤ count * F.byteLength) ∧
    ∀ elements, Elem.decodeList F bytes count = some (.ok elements) → elements.length = count := by
  refine ⟨run_decodeList bytes count, ?_⟩
  rw [run_decodeList]
  by_cases fits : count * F.byteLength < UInt64.size
  · obtain ⟨result, read⟩ := Elem.exists_decodeList_of_fits fits bytes
    refine ⟨iff_of_false (by simp [read]) (Nat.not_le.mpr fits), fun elements whole => ?_⟩
    exact ((Elem.decodeList_eq_ok_iff fits bytes elements).mp whole).1
  · have large : UInt64.size ≤ count * F.byteLength := Nat.le_of_not_lt fits
    have stopped : Elem.decodeList F bytes count = none := by
      rw [Elem.decodeList, wordMul_of_le large, Option.map_none]
    refine ⟨iff_of_true stopped large, fun elements whole => ?_⟩
    rw [stopped] at whole
    cases whole

/-- **The program stops where `2^61` elements are asked for.**  A word can hold this count but not the
number of its bytes, so the empty message is not refused for its length. -/
theorem stops_for_huge_count : 2 ^ 61 < UInt64.size ∧
    (decodeList .mersenne61 [] (2 ^ 61)).run = none ∧
    Elem.decodeList .mersenne61 [] (2 ^ 61) = none := by
  have stopped : Elem.decodeList .mersenne61 [] (2 ^ 61) = none := by
    rw [Elem.decodeList, wordMul_of_le (by decide), Option.map_none]
  exact ⟨by decide, (run_decodeList [] (2 ^ 61)).trans stopped, stopped⟩

theorem run_openingOfBytes (bytes : Bytes) :
    (openingOfBytes F bytes).run = some (Opening.ofBytes F bytes) := by
  unfold openingOfBytes Opening.ofBytes
  by_cases length : bytes.length = F.byteLength + randomnessLength F
  · have enough : F.byteLength ≤ bytes.length := length ▸ Nat.le_add_right _ _
    rw [split_of_le enough]
    simp only [length, liftM_some_bind, ne_eq, not_true_eq_false, if_false, ExceptT.run_bind,
      run_decode, Option.bind_eq_bind, Option.bind_some]
    cases Elem.decode F (bytes.take F.byteLength) <;> rfl
  · simp only [length, ne_eq, not_false_eq_true, if_true]
    rfl

/-! ## Rounds -/

/-- A round of a protocol that may trap.  Nothing is left of one that does. -/
abbrev Round (F : FieldSpec) (σ P : Type) :=
  ExceptT Error (StateT P (StateT (Party F σ) (OptionT Exchange)))

/-- A round in which nothing traps. -/
def sure (round : Spdz.Round F σ P α) : Round F σ P α :=
  ExceptT.mk fun p S => OptionT.mk (some <$> (round.run p).run S)

/-- The result of an operation that may trap. -/
def attempt (operation : Option α) : Round F σ P α :=
  ExceptT.mk fun p S => OptionT.mk (pure (operation.map fun a => ((.ok a, p), S)))

/-- A round of a part of the protocol. -/
def within (part : P → Q) (replace : Q → P → P) (round : Round F σ Q α) : Round F σ P α :=
  ExceptT.mk fun state => do
    let (result, inner) ← round.run (part state)
    return (result, replace inner state)

/-- A round of another protocol, whose state is lost when it fails. -/
def apart (inner : Q) (round : Round F σ Q α) : Round F σ P (α × Q) :=
  ExceptT.mk fun state => do
    let (result, inner) ← round.run inner
    return (result.map fun value => (value, inner), state)

/-- What a decoder reads, or the error that stands in its place. -/
def decoded (wrap : CodecError → Error) (decoder : Decoder α) : Round F σ P α := do
  match ← attempt decoder.run with
  | .ok result => return result
  | .error e => throw (wrap e)

@[simp] theorem attempt_some (a : α) : (attempt (some a) : Round F σ P α) = pure a := rfl

@[simp] theorem sure_pure (a : α) : sure (pure a : Spdz.Round F σ P α) = pure a := rfl

@[simp] theorem sure_throw (e : Error) : sure (throw e : Spdz.Round F σ P α) = throw e := rfl

@[simp] theorem sure_get : sure (get : Spdz.Round F σ P P) = get := rfl

@[simp] theorem sure_set (p : P) : sure (set p : Spdz.Round F σ P PUnit) = set p := rfl

@[simp] theorem sure_setParty (S : Party F σ) : sure (set S : Spdz.Round F σ P PUnit) = set S := rfl

@[simp] theorem sure_modify (f : P → P) : sure (modify f : Spdz.Round F σ P PUnit) = modify f := rfl

@[simp] theorem sure_ite {c : Prop} [Decidable c] (x y : Spdz.Round F σ P α) :
    sure (if c then x else y) = if c then sure x else sure y := apply_ite sure c x y

/-- **Rounds put together from parts in which nothing traps.** -/
@[simp] theorem sure_bind (x : Spdz.Round F σ P α) (f : α → Spdz.Round F σ P β) :
    sure (x >>= f) = sure x >>= fun a => sure (f a) := by
  funext p S
  show some <$> ((x.run p).run S >>= _) = (some <$> (x.run p).run S) >>= _
  rw [map_bind, bind_map_left]
  -- an error of the first round ends both sides, and otherwise both hand its state on
  refine congrArg _ (funext ?_)
  rintro ⟨⟨result | a, p⟩, S⟩ <;> rfl

@[simp] theorem sure_map (f : α → β) (x : Spdz.Round F σ P α) : sure (f <$> x) = f <$> sure x := by
  rw [map_eq_pure_bind, map_eq_pure_bind, sure_bind]
  rfl

@[simp] theorem sure_discard (x : Spdz.Round F σ P α) : sure (discard x) = discard (sure x) :=
  sure_map _ x

theorem decoded_eq (wrap : CodecError → Error) {decoder : Decoder α} {result : Except CodecError α}
    (read : decoder.run = some result) :
    (decoded wrap decoder : Round F σ P α) = sure (Spdz.Round.ofExcept wrap result) := by
  cases result <;> simp [decoded, read, Spdz.Round.ofExcept]

@[simp] theorem within_sure (part : P → Q) (replace : Q → P → P) (round : Spdz.Round F σ Q α) :
    within part replace (sure round) = sure (Spdz.Round.within part replace round) := by
  funext p S
  show (some <$> (round.run (part p)).run S) >>= _ = some <$> ((round.run (part p)).run S >>= _)
  rw [map_bind, bind_map_left]
  rfl

@[simp] theorem apart_sure (inner : Q) (round : Spdz.Round F σ Q α) :
    (apart inner (sure round) : Round F σ P _) = sure (Spdz.Round.apart inner round) := by
  funext p S
  show (some <$> (round.run inner).run S) >>= _ = some <$> ((round.run inner).run S >>= _)
  rw [map_bind, bind_map_left]
  rfl

theorem mapM_sure (f : α → Spdz.Round F σ P β) (items : List α) :
    (items.mapM fun item => sure (f item)) = sure (items.mapM f) := by
  induction items with
  | nil => rfl
  | cons item items ih => simp only [List.mapM_cons, sure_bind, sure_pure, ih]

theorem forM_sure (f : α → Spdz.Round F σ P PUnit) (items : List α) :
    (items.forM fun item => sure (f item)) = sure (items.forM f) := by
  induction items with
  | nil => rfl
  | cons item items ih =>
      have first := sure_bind (f item) fun _ => items.forM f
      exact (congrArg (sure (f item) >>= ·) (funext fun _ => ih)).trans first.symm

theorem foldlM_sure (f : β → α → Spdz.Round F σ P β) (items : List α) (start : β) :
    (items.foldlM (fun all item => sure (f all item)) start) = sure (items.foldlM f start) := by
  induction items generalizing start with
  | nil => rfl
  | cons item items ih => simp only [List.foldlM_cons, sure_bind, ih]

/-! ## Elements that are received -/

/-- The elements that a party sent in a message. -/
def decodeFrom (peer : PartyId) (message : Bytes) (count : Nat) : Round F σ P (List (Elem F)) :=
  decoded (.malformedMessage peer) (decodeList F message count)

/-- Receive `count` elements from a party. -/
def receiveElements (peer : PartyId) (count : Nat) : Round F σ P (List (Elem F)) := do
  decodeFrom peer (← sure (Round.call (.receive peer))) count

/-- Receive a single element from a party. -/
def receiveElement (peer : PartyId) : Round F σ P (Elem F) := do
  attempt (← receiveElements peer 1)[0]?

/-- Receive `count` elements from every other party. -/
def receiveElementsFromAll (count : Nat) : Round F σ P (List (PartyId × List (Elem F))) := do
  (← sure (Round.call .receiveAll)).mapM fun (peer, message) => do
    return (peer, ← decodeFrom peer message count)

section Received

variable (declared : F.IsDeclared)

include declared

theorem decodeFrom_eq (peer : PartyId) (message : Bytes) {count : Nat} (few : count ≤ 2) :
    (decodeFrom peer message count : Round F σ P _) = sure (Round.decodeFrom peer message count) := by
  obtain ⟨result, read⟩ := Elem.exists_decodeList_of_fits (declared.fits few) message
  rw [Round.decodeFrom_of_eq peer read]
  exact decoded_eq _ ((run_decodeList message count).trans read)

theorem receiveElements_eq (peer : PartyId) {count : Nat} (few : count ≤ 2) :
    (receiveElements peer count : Round F σ P _) = sure (Round.receiveElements peer count) := by
  simp only [receiveElements, Round.receiveElements, sure_bind, decodeFrom_eq declared _ _ few]

/-- A message of one element has a first one. -/
theorem receiveElement_eq (peer : PartyId) : (receiveElement peer : Round F σ P _)
    = sure (do return (← Round.receiveElements peer 1).headD 0) := by
  simp only [receiveElement, receiveElements_eq declared peer one_le_two, Round.receiveElements,
    Round.decodeFrom_of_eq _ (Elem.decodeList_one declared _), sure_bind, bind_assoc]
  refine bind_congr fun message => ?_
  cases Elem.decode F message <;> rfl

theorem receiveElementsFromAll_eq {count : Nat} (few : count ≤ 2) :
    (receiveElementsFromAll count : Round F σ P _) = sure (Round.receiveElementsFromAll count) := by
  unfold receiveElementsFromAll Round.receiveElementsFromAll
  rw [sure_bind]
  refine bind_congr fun messages => ?_
  rw [← mapM_sure]
  simp only [decodeFrom_eq declared _ _ few, sure_bind, sure_pure]

end Received

/-! ## Sums of what is received -/

/-- Add elements to sums, one by one, as long as there are both. -/
def addEach : (sums elements : List (Elem F)) → List (Elem F)
  | sum :: sums, element :: elements => (sum + element) :: addEach sums elements
  | sums, _ => sums

/-- The sums of this party's own elements and those that the others sent. -/
def sums (own : List (Elem F)) (received : List (PartyId × List (Elem F))) : List (Elem F) :=
  received.foldl (fun sums (_, elements) => addEach sums elements) own

theorem getElem?_addEach (sums elements : List (Elem F)) (position : Nat) :
    (addEach sums elements)[position]? = sums[position]?.map (· + elements.getD position 0) := by
  induction sums generalizing elements position with
  | nil => rfl
  | cons sum sums ih =>
      cases elements with
      | nil => simp [addEach]
      | cons element elements =>
          cases position with
          | zero => rfl
          | succ position => simpa [addEach] using ih elements position

/-- There is a sum at each position of the own elements, whatever was received. -/
theorem getElem?_sums (own : List (Elem F)) (received : List (PartyId × List (Elem F)))
    (position : Nat) :
    (sums own received)[position]? = own[position]?.map (sumAt · received position) := by
  induction received generalizing own with
  | nil => simp [sums, sumAt]
  | cons entry received ih =>
      -- the sums so far stand where the own elements stood
      refine (ih (addEach own entry.2)).trans ?_
      rw [getElem?_addEach, Option.map_map]
      rfl

/-! ## Places -/

/-- The index of the place of a party. -/
def slotOf (places : List (Option α)) (party : PartyId) : Except Error Nat :=
  match party with
  | 0 => .error (.transport (.unknownParty 0))
  | index + 1 =>
    if index < places.length then .ok index else .error (.transport (.unknownParty party))

/-- The entry in the place of a party. -/
def readSlot (places : List (Option α)) (party : PartyId) : Round F σ P (Option α) := do
  let index ← sure (Round.ofExcept id (slotOf places party))
  attempt places[index]?

/-- Put an entry in the place of a party. -/
def fillSlot (places : List (Option α)) (party : PartyId) (entry : α) :
    Round F σ P (List (Option α)) := do
  let index ← sure (Round.ofExcept id (slotOf places party))
  attempt (write places index (some entry))

theorem readSlot_eq (places : List (Option α)) (party : PartyId) :
    (readSlot places party : Round F σ P _) = sure (Round.ofExcept id (placeOf places party)) := by
  cases party with
  | zero => rfl
  | succ index =>
      by_cases small : index < places.length <;>
        simp [readSlot, slotOf, placeOf, small, Round.ofExcept]

theorem fillSlot_eq (places : List (Option α)) (party : PartyId) (entry : α) :
    (fillSlot places party entry : Round F σ P _)
      = sure (Round.ofExcept id (place places party entry)) := by
  cases party with
  | zero => rfl
  | succ index =>
      by_cases small : index < places.length <;>
        simp [fillSlot, slotOf, place, placeOf, small, write, Round.ofExcept]

end Trapping

end Spdz
