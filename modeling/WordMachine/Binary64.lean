import WordMachine.Word

/-!
# Double-precision numbers in exact arithmetic

Reading a literal and printing a value both need the exact relation between a
bit pattern and the rational number it stands for.  A finite positive double is
`mantissa * 2 ^ exponent`, and everything here is computed on natural numbers.
-/

namespace WordMachine.Binary64

/-- The bit pattern of positive infinity; the finite patterns lie below it. -/
def infinity : Nat := 0x7FF0000000000000

/-- The bit that marks a negative number. -/
def signBit : Nat := 0x8000000000000000

/-- `num * 2 ^ shift / den` rounded to the nearest natural number, ties to
even. -/
def roundScaled (num den : Nat) (shift : Int) : Nat :=
  let num := num * Nat.pow 2 shift.toNat
  let den := den * Nat.pow 2 (-shift).toNat
  let quotient := num / den
  let twice := 2 * (num % den)
  if twice > den || (twice == den && quotient % 2 == 1) then
    quotient + 1 else quotient

/-- The bit pattern of the double nearest to `num / den`, ties to even, or
`none` if it is too large to be finite.

With `shift` chosen so that the scaled quotient has 53 bits, or that its unit is
the smallest subnormal, the pattern is a sum: a quotient that rounds up to the
next power of two carries into the exponent by itself. -/
def nearest? (num den : Nat) : Option Nat :=
  if num = 0 then some 0
  else
    let guess : Int := 52 - ((num.log2 : Int) - den.log2)
    let short := num * Nat.pow 2 guess.toNat <
      den * Nat.pow 2 (-guess).toNat * Nat.pow 2 52
    let shift := min (if short then guess + 1 else guess) 1074
    let bits : Int := (1074 - shift) * Nat.pow 2 52 + roundScaled num den shift
    if bits < infinity then some bits.toNat else none

/-- Mantissa and exponent of the finite double with bit pattern `bits`, sign
ignored. -/
def parts (bits : Nat) : Nat × Int :=
  let fraction : Nat := bits % Nat.pow 2 52
  let exponent : Nat := bits / Nat.pow 2 52 % Nat.pow 2 11
  if exponent = 0 then (fraction, -1074)
    else (fraction + Nat.pow 2 52, (exponent : Int) - 1075)

/-! ## Six significant digits -/

/-- Whether `10 ^ power ≤ num / den`. -/
def reaches (num den : Nat) (power : Int) : Bool :=
  Nat.pow 10 power.toNat * den ≤ num * Nat.pow 10 (-power).toNat

/-- The largest power of ten that is at most `num / den`.  The quotient of the
binary logarithms is off by less than one, so the answer is next to its decimal
counterpart. -/
def decimalExponent (num den : Nat) : Int :=
  let guess := ((num.log2 : Int) - den.log2) * 30103 / 100000
  if reaches num den (guess + 1) then guess + 1
  else if reaches num den guess then guess
  else guess - 1

/-- `num / den` to six significant digits, ties to even: a number of six digits
and the decimal exponent of its first digit. -/
def sixDigits (num den : Nat) : Nat × Int :=
  let exponent := decimalExponent num den
  let scale := 5 - exponent
  let num := num * Nat.pow 10 scale.toNat
  let den := den * Nat.pow 10 (-scale).toNat
  let digits := roundScaled num den 0
  if digits = 1000000 then (100000, exponent + 1) else (digits, exponent)

/-- A decimal exponent with its sign and at least two digits. -/
def exponentText (exponent : Int) : Text :=
  (if exponent < 0 then Text.minus else Text.plus)
    :: Text.padLeft 2 Text.zero (Text.ofNat exponent.natAbs)

/-- Lay out significant digits whose first has the weight `10 ^ exponent`.
Small and large exponents are written out after an `e`, the others place the
point. -/
def layout (digits : Text) (exponent : Int) : Text :=
  if exponent < -4 ∨ 6 ≤ exponent then
    let tail := digits.drop 1
    digits.take 1 ++ (if tail.isEmpty then [] else Text.dot :: tail)
      ++ Text.ofString "e" ++ exponentText exponent
  else
    let point := exponent + 1
    let whole :=
      if point ≤ 0 then [Text.zero]
      else
        let front := digits.take point.toNat
        front ++ List.replicate (point.toNat - front.length) Text.zero
    let fraction := List.replicate (-point).toNat Text.zero ++
      digits.drop point.toNat
    if (digits.length : Int) ≤ point then whole
      else whole ++ Text.dot :: fraction

/-- The text of a double with at most six significant digits, trailing zeros
dropped. -/
def toText (w : Word) : Text :=
  let magnitude := w.bits % signBit
  if infinity < magnitude then Text.ofString "NaN"
  else if magnitude = infinity then
    if w < 0 then Text.ofString "-Inf" else Text.ofString "+Inf"
  else
    let sign := if w < 0 then [Text.minus] else []
    if magnitude = 0 then sign ++ [Text.zero]
    else
      let (mantissa, power) := parts magnitude
      let (digits, exponent) :=
        sixDigits (mantissa * Nat.pow 2 power.toNat) (Nat.pow 2 (-power).toNat)
      sign ++ layout (Text.dropTrailing Text.zero (Text.ofNat digits)) exponent

end WordMachine.Binary64
