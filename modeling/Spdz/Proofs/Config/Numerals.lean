import Mathlib.Tactic.IntervalCases
import Spdz.Proofs.Config.Json
import Spdz.Proofs.Config.Steps

/-!
# Reading numbers

A number is read digit by digit.  Where it ends is told by what stands after it, so everything here is
about a number with some text behind it that does not continue it.

* `digitsOf` — the digits of a whole number; `digitsOf_induction` goes from a number to the one without
  its last digit.
* `Apart` — that a text does not continue a number before it.
* **`Reader.number_of_lt`** — an integer of 64 bits is read exactly.
* **`Reader.number_not_isNatural`** — anything else is never taken for a natural number: a fraction, an
  exponent, a minus sign and too many digits all lead to a binary64 number or to a fault.
* **`Reader.skipNumber_magnitude`** — a number is skipped to its end, whatever its form.
-/

namespace Spdz.Config

/-! ## Decimal digits -/

/-- The digits of a whole number. -/
def digitsOf (n : Nat) : List Nat := (Nat.toDigits 10 n).map fun c => c.toNat - 0x30

theorem digitsOf_of_lt {n : Nat} (small : n < 10) : digitsOf n = [n] := by
  rw [digitsOf, Nat.toDigits_of_lt_base small]
  interval_cases n <;> rfl

theorem digitsOf_of_le {n : Nat} (large : 10 ≤ n) : digitsOf n = digitsOf (n / 10) ++ [n % 10] := by
  have last : n % 10 < 10 := Nat.mod_lt _ (by decide)
  have lastDigit := digitsOf_of_lt last
  rw [digitsOf, Nat.toDigits_of_lt_base last] at lastDigit
  rw [digitsOf, Nat.toDigits_of_base_le (by decide) large, List.map_append, lastDigit, digitsOf]

/-- A property of digits that holds of one digit, and stays when a digit follows, holds of the digits
of all numbers. -/
theorem digitsOf_induction {motive : Nat → List Nat → Prop}
    (short : ∀ n < 10, motive n [n])
    (long : ∀ n, 10 ≤ n → motive (n / 10) (digitsOf (n / 10)) →
      motive n (digitsOf (n / 10) ++ [n % 10])) (n : Nat) : motive n (digitsOf n) := by
  induction n using Nat.strongRecOn with
  | _ n ih =>
    rcases Nat.lt_or_ge n 10 with small | large
    · rw [digitsOf_of_lt small]
      exact short n small
    · rw [digitsOf_of_le large]
      exact long n large (ih (n / 10) (by omega))

/-- Digits are below ten. -/
theorem lt_of_mem_digitsOf (n : Nat) : ∀ digit ∈ digitsOf n, digit < 10 := by
  induction n using digitsOf_induction with
  | short n small => simpa using small
  | long n large ih =>
    intro digit present
    rcases List.mem_append.mp present with early | last
    · exact ih digit early
    · rw [List.mem_singleton.mp last]
      exact Nat.mod_lt _ (by decide)

/-- The number that digits continue a number to. -/
def continued (start : Nat) (digits : List Nat) : Nat :=
  digits.foldl (fun value digit => 10 * value + digit) start

/-- The digits of a number continue zero to the number. -/
theorem continued_digitsOf (n : Nat) : continued 0 (digitsOf n) = n := by
  induction n using digitsOf_induction with
  | short n small => simp [continued]
  | long n large ih =>
    rw [continued, List.foldl_append]
    have split := Nat.div_add_mod n 10
    simp only [continued] at ih
    simp only [ih, List.foldl_cons, List.foldl_nil]
    exact split

/-- Only zero begins with the digit zero. -/
theorem digitsOf_eq_zero_cons (n : Nat) : ∀ more, digitsOf n = 0 :: more → n = 0 := by
  induction n using digitsOf_induction with
  | short n small =>
    intro more same
    exact (List.cons.inj same).1
  | long n large ih =>
    intro more same
    rcases hd : digitsOf (n / 10) with _ | ⟨first, others⟩
    · have impossible := continued_digitsOf (n / 10)
      rw [hd] at impossible
      simp only [continued, List.foldl_nil] at impossible
      omega
    · rw [hd] at same
      have zero := ih others (by rw [hd, (List.cons.inj same).1])
      omega

theorem digitsOf_ne_nil (n : Nat) : digitsOf n ≠ [] := by
  rcases Nat.lt_or_ge n 10 with small | large
  · simp [digitsOf_of_lt small]
  · simp [digitsOf_of_le large]

/-- No superfluous zero stands before the digits of a number. -/
theorem digitsOf_ne_zero_cons_cons (n second : Nat) (more : List Nat) :
    digitsOf n ≠ 0 :: second :: more := by
  intro same
  have zero := digitsOf_eq_zero_cons n _ same
  rw [zero, digitsOf_of_lt (by decide)] at same
  exact nomatch same

/-- A whole number is written with its digits. -/
theorem decimal_eq (n : Nat) : decimal n = (digitsOf n).map digitByte := by
  rw [decimal, digitsOf, List.map_map]
  apply List.map_congr_left
  intro c present
  have digit := Nat.isDigit_of_mem_toDigits (by decide) (by decide) present
  have low : 0x30 ≤ c.toNat := by
    simp only [Char.isDigit, Bool.and_eq_true, decide_eq_true_eq] at digit
    exact UInt32.le_iff_toNat_le.mp digit.1
  change c.toUInt8 = UInt8.ofNat (0x30 + (c.toNat - 0x30))
  rw [Nat.add_sub_cancel' low]
  rfl

/-! ## Where a number ends -/

/-- The byte is a decimal digit. -/
def IsDigit (byte : UInt8) : Prop := 0x30 ≤ byte ∧ byte ≤ 0x39

/-- The bytes do not continue a number that stands before them. -/
def Apart (bytes : Bytes) : Prop :=
  ∀ byte ∈ bytes.head?, ¬IsDigit byte ∧ byte ∉ [0x2e, 0x45, 0x65]

/-- A digit is written as one. -/
theorem isDigit_digitByte {digit : Nat} (small : digit < 10) : IsDigit (digitByte digit) := by
  unfold IsDigit
  interval_cases digit <;> decide

theorem toNat_digitByte {digit : Nat} (small : digit < 10) :
    (digitByte digit).toNat - 0x30 = digit := by
  interval_cases digit <;> rfl

/-- Different bytes are different characters. -/
theorem ofUInt8_injective : Function.Injective Char.ofUInt8 := by
  intro a b same
  have values : a.toUInt32 = b.toUInt32 := congrArg Char.val same
  apply UInt8.toNat_inj.mp
  rw [← UInt8.toNat_toUInt32, ← UInt8.toNat_toUInt32, values]

/-- No point and no exponent stands after a number. -/
theorem Apart.front_ne {after : Bytes} (apart : Apart after) (byte : UInt8)
    (special : byte ∈ [0x2e, 0x45, 0x65]) :
    after.head?.map Char.ofUInt8 ≠ some (Char.ofUInt8 byte) := by
  intro same
  obtain ⟨found, here, sameChar⟩ := Option.map_eq_some_iff.mp same
  exact (apart found here).2 (ofUInt8_injective sameChar ▸ special)

/-- No digit stands after a number. -/
theorem Apart.ended {after : Bytes} (apart : Apart after) : ∀ byte ∈ after.head?, ¬IsDigit byte :=
  fun byte here => (apart byte here).1

/-- Neither the point nor the letter of an exponent is a digit. -/
theorem not_isDigit_of_special {byte : UInt8} (special : byte ∈ [0x2e, 0x45, 0x65]) :
    ¬IsDigit byte := by
  simp only [List.mem_cons, List.not_mem_nil, or_false] at special
  unfold IsDigit
  rcases special with rfl | rfl | rfl <;> decide

namespace Numeral

/-- Nothing follows the whole part of a plain number. -/
theorem remainder_of_isPlain {numeral : Numeral} (plain : numeral.isPlain) :
    numeral.remainder = [] := by
  simp only [isPlain, Bool.and_eq_true, Option.isNone_iff_eq_none] at plain
  rw [remainder, plain.1, plain.2]
  rfl

/-- A point or an exponent follows the whole part of a number that is not plain. -/
theorem remainder_of_not_isPlain {numeral : Numeral} (special : ¬numeral.isPlain) :
    ∃ byte ∈ [0x2e, 0x45, 0x65], ∃ more, numeral.remainder = byte :: more := by
  obtain ⟨negative, whole, _ | figures, _ | ⟨capital, sign, figures'⟩⟩ := numeral
  · exact absurd rfl special
  · cases capital with
    | false => exact ⟨0x65, by decide, _, rfl⟩
    | true => exact ⟨0x45, by decide, _, rfl⟩
  · exact ⟨0x2e, by decide, _, rfl⟩
  · exact ⟨0x2e, by decide, _, rfl⟩

end Numeral

namespace Reader

/-- The bytes that `digits` takes. -/
def isDigit (byte : UInt8) : Bool := 0x30 ≤ byte && byte ≤ 0x39

theorem isDigit_iff {byte : UInt8} : isDigit byte ↔ IsDigit byte := by
  simp [isDigit, IsDigit]

theorem digits_eq (bytes : Bytes) :
    digits bytes =
      .ok ((bytes.takeWhile isDigit).map (·.toNat - 0x30), bytes.dropWhile isDigit) := rfl

/-- All digits that stand there are read. -/
theorem digits_append {shown : List Nat} (small : ∀ digit ∈ shown, digit < 10) {rest : Bytes}
    (ended : ∀ byte ∈ rest.head?, ¬IsDigit byte) :
    digits (shown.map digitByte ++ rest) = .ok (shown, rest) := by
  have digitBytes : ∀ byte ∈ shown.map digitByte, isDigit byte := by
    intro byte present
    obtain ⟨digit, among, rfl⟩ := List.mem_map.mp present
    exact isDigit_iff.mpr (isDigit_digitByte (small digit among))
  have stops : rest.takeWhile isDigit = [] ∧ rest.dropWhile isDigit = rest := by
    cases rest with
    | nil => exact ⟨rfl, rfl⟩
    | cons byte later =>
      have other : ¬isDigit byte := fun digit => ended byte rfl (isDigit_iff.mp digit)
      exact ⟨List.takeWhile_cons_of_neg other, List.dropWhile_cons_of_neg other⟩
  have values : (shown.map digitByte).map (·.toNat - 0x30) = shown := by
    rw [List.map_map]
    exact (List.map_congr_left fun digit among => toNat_digitByte (small digit among)).trans
      (List.map_id shown)
  rw [digits_eq, List.takeWhile_append_of_pos digitBytes, List.dropWhile_append_of_pos digitBytes,
    stops.1, stops.2, List.append_nil, values]

/-! ## Numbers of 64 bits -/

/-- Digits never make a number smaller. -/
theorem le_continued (start : Nat) (digits : List Nat) : start ≤ continued start digits := by
  induction digits generalizing start with
  | nil => exact Nat.le_refl _
  | cons digit later ih =>
    have step := ih (10 * start + digit)
    simp only [continued, List.foldl_cons] at step ⊢
    omega

/-- A number that fits is taken as a whole. -/
theorem accumulate_of_lt {start : Nat} {digits : List Nat}
    (fits : continued start digits < UInt64.size) :
    accumulate start digits = (continued start digits, digits.length, 0) := by
  induction digits generalizing start with
  | nil => rfl
  | cons digit later ih =>
    have next : 10 * start + digit < UInt64.size := Nat.lt_of_le_of_lt (le_continued _ _) fits
    rw [accumulate, if_pos next, ih fits]
    rfl

/-- Of a number that does not fit some digits are left. -/
theorem left_of_le {start : Nat} {digits : List Nat} (below : start < UInt64.size)
    (large : UInt64.size ≤ continued start digits) : (accumulate start digits).2.2 ≠ 0 := by
  induction digits generalizing start with
  | nil => exact absurd below (Nat.not_lt.mpr large)
  | cons digit later ih =>
    by_cases next : 10 * start + digit < UInt64.size
    · rw [accumulate, if_pos next]
      exact ih next large
    · rw [accumulate, if_neg next]
      exact Nat.succ_ne_zero _

/-! ## Numbers with a fraction or an exponent -/

/-- The number is a natural one. -/
def Number.IsNatural : Number → Prop
  | .whole value => 0 ≤ value
  | .decimal _ => False

/-- No natural number is ever read. -/
abbrev NeverNatural (read : Reader Number) : Prop := read.Yields fun number => ¬number.IsNatural

/-- A number that was scaled is a binary64 number. -/
theorem scaled_neverNatural (negative : Bool) (significand : Nat) (power : Int) :
    NeverNatural (scaled negative significand power) := by
  unfold scaled
  split
  · exact .pure id
  · exact .fault _

theorem exponent_neverNatural (negative : Bool) (significand : Nat) (power : Int) :
    NeverNatural (exponent negative significand power) := by
  unfold exponent
  refine .bind fun _ => .bind fun sign => .whether <| .bind fun shown => .whether ?_
  dsimp only
  split_ifs
  · exact scaled_neverNatural _ _ _
  · exact scaled_neverNatural _ _ _
  · exact .fault _
  · exact .pure id

theorem fraction_neverNatural (negative : Bool) (significand : Nat) (power : Int) :
    NeverNatural (fraction negative significand power) := by
  unfold fraction
  refine .bind fun _ => .bind fun shown => .whether <| .bind fun next => ?_
  split
  · exact exponent_neverNatural _ _ _
  · exact exponent_neverNatural _ _ _
  · exact scaled_neverNatural _ _ _

/-- A number with a sign is no natural one. -/
theorem integer_true_neverNatural (significand : Nat) : NeverNatural (integer true significand) := by
  unfold integer
  split_ifs with absent zero
  · exact absurd absent (by decide)
  · exact scaled_neverNatural _ _ _
  · refine .pure ?_
    change ¬(0 : Int) ≤ -significand
    omega

/-- Missing digits are a fault. -/
theorem missingDigits_yields {property : α → Prop} :
    (missingDigits : Reader α).Yields property := by
  unfold missingDigits
  refine .bind fun bytes => ?_
  split
  · exact .fault _
  · exact .fault _

/-- **No natural number has a minus sign.** -/
theorem number_true_neverNatural : NeverNatural (number true) := by
  unfold number
  refine .bind fun shown => ?_
  split
  · exact missingDigits_yields
  · exact .fault _
  · refine .bind fun next => ?_
    split
    · exact fraction_neverNatural _ _ _
    · exact exponent_neverNatural _ _ _
    · exact exponent_neverNatural _ _ _
    · split_ifs
      · exact integer_true_neverNatural _
      · exact scaled_neverNatural _ _ _

/-! ## Whole parts -/

/-- The digits of a whole number stand there. -/
theorem digits_decimal (n : Nat) {after : Bytes} (ended : ∀ byte ∈ after.head?, ¬IsDigit byte) :
    digits (decimal n ++ after) = .ok (digitsOf n, after) := by
  rw [decimal_eq]
  exact digits_append (lt_of_mem_digitsOf n) ended

/-- How a number goes on after the digits of its whole part, by the character that stands there. -/
def afterWhole (negative : Bool) (shown : List Nat) (next : Option Char) : Reader Number :=
  let (significand, _, left) := accumulate 0 shown
  if next = some '.' then fraction negative significand left
  else if next = some 'e' ∨ next = some 'E' then exponent negative significand left
  else if left = 0 then integer negative significand
  else scaled negative significand left

/-- A number is read by its whole part first. -/
theorem number_decimal (negative : Bool) (n : Nat) {after : Bytes}
    (ended : ∀ byte ∈ after.head?, ¬IsDigit byte) :
    number negative (decimal n ++ after) =
      afterWhole negative (digitsOf n) (after.head?.map Char.ofUInt8) after := by
  have next : (front >>= fun next => afterWhole negative (digitsOf n) next) after =
      afterWhole negative (digitsOf n) (after.head?.map Char.ofUInt8) after :=
    bind_of_ok (front_eq after)
  rw [number, bind_of_ok (digits_decimal n ended), ← next]
  -- Two of the three forms that a list of digits may have are none of a whole number.
  have any := digitsOf_ne_nil n
  have short := digitsOf_ne_zero_cons_cons n
  generalize digitsOf n = shown at any short
  split
  · exact absurd rfl any
  · exact absurd rfl (short _ _)
  · refine congrArg (fun later => (front >>= later) after) (funext fun next => ?_)
    unfold afterWhole
    split <;> simp_all

/-- A number ends after its whole part if nothing there continues it. -/
theorem afterWhole_of_apart (negative : Bool) (shown : List Nat) {after : Bytes}
    (apart : Apart after) :
    afterWhole negative shown (after.head?.map Char.ofUInt8) =
      if (accumulate 0 shown).2.2 = 0 then integer negative (accumulate 0 shown).1
      else scaled negative (accumulate 0 shown).1 (accumulate 0 shown).2.2 := by
  have point := apart.front_ne 0x2e (by decide)
  have capital := apart.front_ne 0x45 (by decide)
  have small := apart.front_ne 0x65 (by decide)
  unfold afterWhole
  exact (if_neg point).trans (if_neg (not_or_intro small capital))

/-- **An integer that fits 64 bits is read exactly.** -/
theorem number_of_lt (negative : Bool) {numeral : Numeral} (plain : numeral.isPlain)
    (fits : numeral.whole < UInt64.size) {after : Bytes} (apart : Apart after) :
    number negative (numeral.magnitude ++ after) = integer negative numeral.whole after := by
  have taken : accumulate 0 (digitsOf numeral.whole) =
      (numeral.whole, (digitsOf numeral.whole).length, 0) := by
    rw [accumulate_of_lt (by rwa [continued_digitsOf]), continued_digitsOf]
  rw [Numeral.magnitude, Numeral.remainder_of_isPlain plain, List.append_nil,
    number_decimal negative _ apart.ended, afterWhole_of_apart negative _ apart, taken, if_pos rfl]

/-- A point or an exponent after the whole part makes a binary64 number. -/
theorem afterWhole_neverNatural (negative : Bool) (shown : List Nat) {byte : UInt8}
    (special : byte ∈ [0x2e, 0x45, 0x65]) :
    NeverNatural (afterWhole negative shown (some (Char.ofUInt8 byte))) := by
  simp only [List.mem_cons, List.not_mem_nil, or_false] at special
  unfold afterWhole
  rcases special with rfl | rfl | rfl
  · exact fraction_neverNatural _ _ _
  · exact exponent_neverNatural _ _ _
  · exact exponent_neverNatural _ _ _

/-- **A number that is no integer of 64 bits is not read as a natural one.** -/
theorem number_not_isNatural (negative : Bool) {numeral : Numeral}
    (special : ¬(numeral.isPlain ∧ numeral.whole < UInt64.size)) {after : Bytes}
    (apart : Apart after) {number : Number} {rest : Bytes}
    (read : Reader.number negative (numeral.magnitude ++ after) = .ok (number, rest)) :
    ¬number.IsNatural := by
  by_cases plain : numeral.isPlain
  · have large : UInt64.size ≤ numeral.whole := Nat.not_lt.mp fun fits => special ⟨plain, fits⟩
    have left : (accumulate 0 (digitsOf numeral.whole)).2.2 ≠ 0 :=
      left_of_le (by decide) (by rwa [continued_digitsOf])
    rw [Numeral.magnitude, Numeral.remainder_of_isPlain plain, List.append_nil,
      number_decimal negative _ apart.ended, afterWhole_of_apart negative _ apart,
      if_neg left] at read
    exact scaled_neverNatural _ _ _ read
  · obtain ⟨byte, among, more, same⟩ := Numeral.remainder_of_not_isPlain plain
    have ended : ∀ next ∈ (byte :: more ++ after).head?, ¬IsDigit next := by
      intro next here
      obtain rfl : byte = next := Option.some.inj here
      exact not_isDigit_of_special among
    rw [Numeral.magnitude, same, List.append_assoc, number_decimal negative _ ended] at read
    exact afterWhole_neverNatural negative _ among read

/-! ## Skipped numbers -/

/-- Digits are skipped to their end. -/
theorem skipDigits_shown (figures : Figures) {after : Bytes}
    (ended : ∀ byte ∈ after.head?, ¬IsDigit byte) :
    skipDigits (figures.shown ++ after) = .ok ((), after) := by
  have taken : digits (figures.shown ++ after) =
      .ok ((figures.first :: figures.more).map Fin.val, after) := by
    have small : ∀ digit ∈ (figures.first :: figures.more).map Fin.val, digit < 10 := by
      intro digit present
      obtain ⟨figure, -, rfl⟩ := List.mem_map.mp present
      exact figure.isLt
    rw [← digits_append small ended, List.map_map]
    rfl
  rw [skipDigits, bind_of_ok taken]
  rfl

/-- An exponent, or what stands where it is left out, begins with no digit and no point. -/
theorem ended_exponent (exponent : Option Exponent) {after : Bytes} (apart : Apart after) :
    ∀ byte ∈ (exponent.elim [] Exponent.shown ++ after).head?, ¬IsDigit byte ∧ byte ≠ 0x2e := by
  rcases exponent with _ | ⟨_ | _, sign, figures⟩
  · exact fun byte here => ⟨apart.ended byte here, fun point =>
      (apart byte here).2 (point ▸ List.mem_cons_self)⟩
  · rintro byte here
    obtain rfl : 0x65 = byte := Option.some.inj here
    exact ⟨not_isDigit_of_special (by decide), by decide⟩
  · intro byte here
    obtain rfl : 0x45 = byte := Option.some.inj here
    exact ⟨not_isDigit_of_special (by decide), by decide⟩

/-- The sign of an exponent, if there is one, and its digits are skipped. -/
theorem skipSigned_shown (sign : Option Bool) (figures : Figures) {after : Bytes}
    (apart : Apart after) :
    (front >>= fun sign => if sign = some '+' ∨ sign = some '-' then advance >>= fun _ => skipDigits
        else skipDigits)
      ((sign.elim [] fun negative => [if negative then 0x2d else 0x2b]) ++ figures.shown ++ after) =
      .ok ((), after) := by
  have digits := skipDigits_shown figures apart.ended
  rcases sign with _ | _ | _
  · have unsigned : ∀ digit : Fin 10, ¬(some (Char.ofUInt8 (digitByte digit)) = some '+' ∨
        some (Char.ofUInt8 (digitByte digit)) = some '-') := by decide
    rw [bind_of_ok (front_eq _)]
    exact (congrFun (if_neg (unsigned figures.first)) _).trans digits
  · exact digits
  · exact digits

/-- An exponent is skipped to its end, if there is one. -/
theorem skipExponent_shown (exponent : Option Exponent) {after : Bytes} (apart : Apart after) :
    skipExponent (exponent.elim [] Exponent.shown ++ after) = .ok ((), after) := by
  rcases exponent with _ | ⟨_ | _, sign, figures⟩
  · have capital := apart.front_ne 0x45 (by decide)
    have small := apart.front_ne 0x65 (by decide)
    change skipExponent after = _
    rw [skipExponent, bind_of_ok (front_eq after)]
    generalize after.head?.map Char.ofUInt8 = next at capital small
    split
    · exact absurd rfl small
    · exact absurd rfl capital
    · rfl
  · exact skipSigned_shown sign figures apart
  · exact skipSigned_shown sign figures apart

/-- What follows a whole part begins with no digit. -/
theorem ended_remainder (numeral : Numeral) {after : Bytes} (apart : Apart after) :
    ∀ byte ∈ (numeral.remainder ++ after).head?, ¬IsDigit byte := by
  obtain ⟨negative, whole, _ | figures, exponent⟩ := numeral
  · exact fun byte here => (ended_exponent exponent apart byte here).1
  · intro byte here
    obtain rfl : 0x2e = byte := Option.some.inj here
    exact not_isDigit_of_special (by decide)

/-- **A number is skipped to its end.** -/
theorem skipNumber_magnitude (numeral : Numeral) {after : Bytes} (apart : Apart after) :
    skipNumber (numeral.magnitude ++ after) = .ok ((), after) := by
  rw [Numeral.magnitude, List.append_assoc, skipNumber,
    bind_of_ok (digits_decimal _ (ended_remainder numeral apart))]
  have any := digitsOf_ne_nil numeral.whole
  have short := digitsOf_ne_zero_cons_cons numeral.whole
  generalize digitsOf numeral.whole = shown at any short
  split
  · exact absurd rfl any
  · exact absurd rfl (short _ _)
  · rw [bind_of_ok (front_eq _)]
    obtain ⟨negative, whole, _ | figures, exponent⟩ := numeral
    · have noPoint :
          (exponent.elim [] Exponent.shown ++ after).head?.map Char.ofUInt8 ≠ some '.' := by
        intro same
        obtain ⟨found, here, sameChar⟩ := Option.map_eq_some_iff.mp same
        exact (ended_exponent exponent apart found here).2 (ofUInt8_injective sameChar)
      exact (congrFun (if_neg noPoint) _).trans (skipExponent_shown exponent apart)
    · have digits := skipDigits_shown figures fun byte here =>
        (ended_exponent exponent apart byte here).1
      have later : (skipDigits >>= fun _ => skipExponent)
          (figures.shown ++ (exponent.elim [] Exponent.shown ++ after)) = .ok ((), after) := by
        rw [bind_of_ok digits]
        exact skipExponent_shown exponent apart
      rw [Numeral.remainder, List.append_assoc]
      exact later

end Reader

end Spdz.Config
