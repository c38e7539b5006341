/-!
# Floating-point numbers of 64 bits

A finite number of the binary64 format is a sign, a mantissa below `2^53` and a power of two.
Operations compute the exact result and round it once, to the nearest number of the format and to
the even mantissa when two are equally near.

* `Binary64` — a finite number.
* `Binary64.round` — the number nearest to a quotient, unless that quotient is too large.
* `Binary64.scaleByTen` — a number times a power of ten, up or down.
* `Binary64.shortest` — the fewest decimal digits that round back to a number.
* `Binary64.text` — these digits written out, with a point or an exponent.
-/

namespace Spdz

-- Powers are those of the core library, whatever else is imported.
attribute [local instance (high)] instPowNat

/-- A finite binary64 number, `mantissa * 2 ^ exponent` with a sign. Zero has both signs. -/
structure Binary64 where
  negative : Bool
  mantissa : Nat
  exponent : Int
  deriving DecidableEq

namespace Binary64

/-- The number of bits of a mantissa. -/
def precision : Nat := 53

/-! ## Rounding -/

/-- The whole number nearest to `num / den`, the even one of two that are equally near. -/
def roundHalfEven (num den : Nat) : Nat :=
  let quotient := num / den
  let twice := 2 * (num % den)
  if twice > den ∨ (twice = den ∧ quotient % 2 = 1) then quotient + 1 else quotient

/-- The exponent of the smallest positive number. -/
def minExponent : Int := -1074

/-- The exponent of the largest number. -/
def maxExponent : Int := 971

/-- The number nearest to `num / den`. There is none when the quotient is beyond the largest. -/
def round (num den : Nat) : Option Binary64 :=
  let estimate : Int := Nat.log2 num - Nat.log2 den - precision
  let small : Bool := num * 2 ^ (-estimate).toNat < 2 ^ precision * (den * 2 ^ estimate.toNat)
  let exponent := max minExponent (if small then estimate else estimate + 1)
  let mantissa := roundHalfEven (num * 2 ^ (-exponent).toNat) (den * 2 ^ exponent.toNat)
  let (mantissa, exponent) :=
    if mantissa = 2 ^ precision then (2 ^ (precision - 1), exponent + 1) else (mantissa, exponent)
  if exponent > maxExponent then none else some ⟨false, mantissa, exponent⟩

/-! ## Decimal scaling -/

/-- Positive zero. -/
def zero : Binary64 := ⟨false, 0, minExponent⟩

/-- Whether the number is a zero of either sign. -/
def isZero (x : Binary64) : Bool := x.mantissa == 0

/-- The number with the given sign. -/
def signed (x : Binary64) (negative : Bool) : Binary64 := { x with negative }

/-- The nearest number to the magnitude of `x` times `num / den`. -/
def scale (x : Binary64) (num den : Nat) : Option Binary64 :=
  if x.isZero then some x
  else round (x.mantissa * 2 ^ x.exponent.toNat * num) (2 ^ (-x.exponent).toNat * den)

/-- The nearest number to a power of ten, as numerator and denominator. -/
def powerOfTen (power : Nat) : Nat × Nat :=
  match round (10 ^ power) 1 with
  | some ⟨_, mantissa, exponent⟩ => (mantissa * 2 ^ exponent.toNat, 2 ^ (-exponent).toNat)
  | none => (10 ^ power, 1)

/-- The largest power of ten that a single step multiplies or divides by. -/
def maxPower : Nat := 308

/-- A non-negative number times a power of ten that rounds as two steps do: the power is itself a
number of the format, and larger negative powers are divided out `maxPower` at a time. Three such
steps bring every 64-bit integer to zero. The result is too large when a positive power is, or when
the product is. -/
def scaleByTen (x : Binary64) (power : Int) : Option Binary64 :=
  descend 3 x power
where
  /-- Divide out whole steps first, then the rest. -/
  descend : (steps : Nat) → Binary64 → Int → Option Binary64
    | steps, x, power =>
      if power.natAbs ≤ maxPower then
        let (num, den) := powerOfTen power.natAbs
        if power ≥ 0 then x.scale num den else x.scale den num
      else if x.isZero then some x
      else if power ≥ 0 then none
      else match steps with
        | 0 => some zero
        | steps + 1 =>
          let (num, den) := powerOfTen maxPower
          (x.scale den num).bind fun x => descend steps x (power + maxPower)

/-! ## The shortest decimal -/

/-- The first grid of decimals, from coarse to fine, with a point that rounds to the number, and
the point of it nearest to the number, the even one of two that are equally near. `value`, `low`
and `high` are quarters of the last place, `num / den` is the size of such a quarter on the grid of
ones. -/
def firstHit (value low high : Nat) (closed : Bool) (num den : Nat) :
    (tries : Nat) → (power : Int) → Nat × Int
  | 0, power => (0, power)
  | tries + 1, power =>
    let up := num * 10 ^ (-power).toNat
    let down := den * 10 ^ power.toNat
    let below := value * up / down
    let inside (digits : Nat) : Bool :=
      let point := digits * down
      if closed then low * up ≤ point && point ≤ high * up
      else low * up < point && point < high * up
    match inside below, inside (below + 1) with
    | true, true => (roundHalfEven (value * up) down, power)
    | true, false => (below, power)
    | false, true => (below + 1, power)
    | false, false => firstHit value low high closed num den tries (power - 1)

/-- The fewest digits, as a whole number and a power of ten, that round to a positive number. The
numbers that round to it reach half a place up and down, but only a quarter of a place down from a
power of two. -/
def shortest (x : Binary64) : Nat × Int :=
  let value := 4 * x.mantissa
  let low :=
    if x.mantissa = 2 ^ (precision - 1) ∧ x.exponent > minExponent then value - 1 else value - 2
  let quarter := x.exponent - 2
  firstHit value low (value + 2) (x.mantissa % 2 == 0) (2 ^ quarter.toNat) (2 ^ (-quarter).toNat)
    650 310

/-- The digits `digits * 10 ^ power` written out: plainly when the first digit stands between the
fifth place after the point and the sixteenth before it, else with an exponent. A point or an
exponent is always there. -/
def layout (digits : Nat) (power : Int) : String :=
  let shown := Nat.toDigits 10 digits
  let lead : Int := power + shown.length - 1
  if power ≥ 0 ∧ lead ≤ 15 then
    String.ofList (shown ++ List.replicate power.toNat '0') ++ ".0"
  else if 0 ≤ lead ∧ lead ≤ 15 then
    let whole := lead.toNat + 1
    String.ofList (shown.take whole ++ '.' :: shown.drop whole)
  else if -5 ≤ lead ∧ lead < 0 then
    "0." ++ String.ofList (List.replicate (-lead - 1).toNat '0' ++ shown)
  else
    let fraction := if shown.length > 1 then '.' :: shown.drop 1 else []
    let sign := if lead < 0 then "-" else "+"
    String.ofList (shown.take 1 ++ fraction) ++ "e" ++ sign ++ toString lead.natAbs

/-- The number in decimal, with the fewest digits that read back as the same number. -/
def text (x : Binary64) : String :=
  let magnitude :=
    if x.isZero then "0.0"
    else
      let (digits, power) := x.shortest
      layout digits power
  if x.negative then "-" ++ magnitude else magnitude

end Binary64

end Spdz
