import Mathlib.Algebra.Group.Nat.Defs
import Mathlib.Logic.Function.Iterate
import WordMachine.Word

/-!
# Products that no longer change

A double is multiplied by taking it apart, multiplying and rounding, and putting
the result together again.  Whatever rounding does, the result has the product
of the signs, and zero and infinity absorb every factor that does not make them
a number no longer: all that further factors can do is to change the sign.
-/

namespace WordMachine.Binary64

open Float.Model (Format UnpackedFloat)
open Float.Model.UnpackedFloat

/-! ## Bit patterns -/

section Fields

variable (b : BitVec 64)

/-- The bit pattern of a double is made of its sign, ... -/
abbrev signField : BitVec 1 :=
  @unpackSign Format.binary64 b

/-- ... its exponent ... -/
abbrev exponentField : BitVec 11 :=
  @unpackExponent Format.binary64 b

/-- ... and its mantissa. -/
abbrev mantissaField : BitVec 52 :=
  @unpackMantissa Format.binary64 b

theorem toNat_signField : (signField b).toNat = b.toNat / 2 ^ 63 := by
  have digits : (signField b).toNat = b.toNat >>> 63 % 2 ^ 1 := rfl
  have bound := b.isLt
  rw [digits, Nat.shiftRight_eq_div_pow]
  omega

theorem toNat_exponentField :
    (exponentField b).toNat = b.toNat / 2 ^ 52 % 2 ^ 11 := by
  have digits : (exponentField b).toNat = b.toNat >>> 52 % 2 ^ 11 := rfl
  rw [digits, Nat.shiftRight_eq_div_pow]

theorem toNat_mantissaField : (mantissaField b).toNat = b.toNat % 2 ^ 52 := rfl

theorem toNat_packComponents (s : Sign) (e : BitVec 11) (m : BitVec 52) :
    (packComponents Format.binary64 s e m).toNat =
      s.toBitVec.toNat * 2 ^ 63 + e.toNat * 2 ^ 52 + m.toNat := by
  have appended : packComponents Format.binary64 s e m = s.toBitVec ++ e ++ m :=
    rfl
  rw [appended, BitVec.toNat_append, ← Nat.shiftLeft_add_eq_or_of_lt m.isLt,
    BitVec.toNat_append, ← Nat.shiftLeft_add_eq_or_of_lt e.isLt,
    Nat.shiftLeft_eq, Nat.shiftLeft_eq]
  omega

theorem signField_packComponents (s : Sign) (e : BitVec 11) (m : BitVec 52) :
    signField (packComponents Format.binary64 s e m) = s.toBitVec := by
  apply BitVec.eq_of_toNat_eq
  rw [toNat_signField, toNat_packComponents]
  have exponent := e.isLt
  have mantissa := m.isLt
  omega

theorem ofBitVec_toBitVec (s : Sign) : Sign.ofBitVec s.toBitVec = s := by
  cases s <;> rfl

theorem toBitVec_ofBitVec (bit : BitVec 1) :
    (Sign.ofBitVec bit).toBitVec = bit := by
  revert bit
  decide

theorem packComponents_fields :
    packComponents Format.binary64 (Sign.ofBitVec (signField b))
      (exponentField b) (mantissaField b) = b := by
  apply BitVec.eq_of_toNat_eq
  rw [toNat_packComponents, toBitVec_ofBitVec, toNat_signField,
    toNat_exponentField, toNat_mantissaField]
  omega

/-- What a bit pattern is taken apart into. -/
inductive Unpacks : UnpackedFloat → Prop where
  | infinity (exponent : exponentField b = -1#11)
      (mantissa : mantissaField b = 0#52) :
      Unpacks (.infinity (Sign.ofBitVec (signField b)))
  | notANumber (exponent : exponentField b = -1#11)
      (mantissa : mantissaField b ≠ 0#52) :
      Unpacks .notANumber
  | zero (exponent : exponentField b = 0#11)
      (mantissa : mantissaField b = 0#52) :
      Unpacks (.zero (Sign.ofBitVec (signField b)))
  | finite (exponent : exponentField b ≠ -1#11) (m : Nat) (e : Int)
      (positive : 0 < m) :
      Unpacks (.finite (Sign.ofBitVec (signField b)) m e positive)

theorem unpacks : Unpacks b (unpack Format.binary64 b) := by
  by_cases greatest : exponentField b = -1#11
  · by_cases blank : mantissaField b = 0#52
    · have taken : unpack Format.binary64 b =
          .infinity (Sign.ofBitVec (signField b)) :=
        (if_pos greatest).trans (if_pos blank)
      exact taken ▸ .infinity greatest blank
    · have taken : unpack Format.binary64 b = .notANumber :=
        (if_pos greatest).trans (if_neg blank)
      exact taken ▸ .notANumber greatest blank
  · by_cases least : exponentField b = 0#11
    · by_cases blank : mantissaField b = 0#52
      · have taken : unpack Format.binary64 b =
            .zero (Sign.ofBitVec (signField b)) :=
          (if_neg greatest).trans ((if_pos least).trans (dif_pos blank))
        exact taken ▸ .zero least blank
      · have taken : unpack Format.binary64 b =
            .finite (Sign.ofBitVec (signField b)) _ _ _ :=
          (if_neg greatest).trans ((if_pos least).trans (dif_neg blank))
        exact taken ▸ .finite greatest ..
    · have taken : unpack Format.binary64 b =
          .finite (Sign.ofBitVec (signField b)) _ _ _ :=
        (if_neg greatest).trans (if_neg least)
      exact taken ▸ .finite greatest ..

end Fields

/-- A double taken apart. -/
def unpacked (x : Float) : UnpackedFloat :=
  x.toModel.unpack

/-- A double put together. -/
def packed (u : UnpackedFloat) : Float :=
  .ofModel (Float.Model.pack u)

/-! ## Signs -/

/-- The sign that a top bit stands for. -/
def signOf (negative : Bool) : Sign :=
  if negative then .negative else .positive

/-- The sign of what is a number. -/
def sign? : UnpackedFloat → Option Sign
  | .notANumber => none
  | .infinity s => some s
  | .zero s => some s
  | .finite s _ _ _ => some s

theorem sign?_unpack (b : BitVec 64) :
    sign? (unpack Format.binary64 b) =
      if exponentField b = -1#11 ∧ mantissaField b ≠ 0#52 then none
      else some (Sign.ofBitVec (signField b)) := by
  have taken := unpacks b
  generalize unpack Format.binary64 b = u at taken
  cases taken with
  | notANumber exponent mantissa => exact (if_pos ⟨exponent, mantissa⟩).symm
  | infinity _ mantissa | zero _ mantissa =>
      exact (if_neg fun nan => nan.2 mantissa).symm
  | finite exponent => exact (if_neg fun nan => exponent nan.1).symm

theorem sign?_unpack_packComponents (s : Sign) {e : BitVec 11} {m : BitVec 52}
    (number : e ≠ -1#11 ∨ m = 0#52) :
    sign? (unpack Format.binary64 (packComponents Format.binary64 s e m)) =
      some s := by
  simp only [sign?_unpack, signField_packComponents,
    unpackExponent_packComponents, unpackMantissa_packComponents,
    ofBitVec_toBitVec]
  rw [if_neg]
  rintro ⟨greatest, nonzero⟩
  rcases number with smaller | zero
  · exact smaller greatest
  · exact nonzero zero

/-- Putting a number together and taking it apart again keeps the sign, also if
it is too large or too small. -/
theorem sign?_unpack_pack (u : UnpackedFloat) :
    sign? (unpack Format.binary64 (pack Format.binary64 u)) = sign? u := by
  cases u with
  | notANumber => rfl
  | infinity s => exact sign?_unpack_packComponents s (.inr rfl)
  | zero s => exact sign?_unpack_packComponents s (.inr rfl)
  | finite s m e positive =>
      let biased := (e + Format.binary64.exponentBias + 52).toNat
      by_cases large : 2 ^ 11 ≤ biased + 1
      · have put : pack Format.binary64 (.finite s m e positive) =
            packedInfinity Format.binary64 s := if_pos large
        rw [put]
        exact sign?_unpack_packComponents s (.inr rfl)
      · by_cases full : m.log2 + 1 = 53
        · have put : pack Format.binary64 (.finite s m e positive) =
              packComponents Format.binary64 s (.ofNat 11 biased)
                (.ofNat 52 m) :=
            (if_neg large).trans (if_pos full)
          rw [put]
          apply sign?_unpack_packComponents s
          left
          intro greatest
          have same := congrArg BitVec.toNat greatest
          rw [BitVec.toNat_ofNat,
            show (-1#11).toNat = 2 ^ 11 - 1 from rfl] at same
          omega
        · have put : pack Format.binary64 (.finite s m e positive) =
              packComponents Format.binary64 s 0#11 (.ofNat 52 m) :=
            (if_neg large).trans (if_neg full)
          rw [put]
          exact sign?_unpack_packComponents s (.inl (by decide))

theorem sign?_packed (u : UnpackedFloat) :
    sign? (unpacked (packed u)) = sign? u :=
  sign?_unpack_pack u

theorem isNaN_float_iff (x : Float) :
    x.isNaN = true ↔ sign? (unpacked x) = none := by
  have looked : x.isNaN = (unpacked x).isNaN := rfl
  rw [looked]
  cases unpacked x with
  | notANumber => exact iff_of_true rfl rfl
  | infinity s | zero s | finite s =>
      exact iff_of_false Bool.false_ne_true (Option.some_ne_none _)

theorem toNat_toBitVec (w : Word) : w.toBitVec.toNat = w.bits := rfl

theorem ofBitVec_signField (w : Word) :
    Sign.ofBitVec (signField w.toBitVec) = signOf (w < 0) := by
  have top : signField w.toBitVec = 0#1 ↔ ¬ w < 0 := by
    have negative : w.toInt < 0 ↔ 2 ^ 64 ≤ 2 * w.bits := BitVec.toInt_neg_iff
    rw [← BitVec.toNat_inj, toNat_signField, toNat_toBitVec,
      Int64.lt_iff_toInt_lt]
    change w.bits / 2 ^ 63 = 0 ↔ ¬ w.toInt < 0
    omega
  have read : Sign.ofBitVec (signField w.toBitVec) =
      if signField w.toBitVec = 0#1 then .positive else .negative := rfl
  rw [read, signOf]
  by_cases negative : w < 0
  · rw [if_neg (mt top.mp (not_not_intro negative)), decide_eq_true negative]
    rfl
  · rw [if_pos (top.mpr negative), decide_eq_false negative]
    rfl

/-- What is not a number has the greatest exponent and a mantissa. -/
theorem isNaN_word_iff (w : Word) :
    w.isNaN = true ↔
      exponentField w.toBitVec = -1#11 ∧ mantissaField w.toBitVec ≠ 0#52 := by
  rw [Ne, ← BitVec.toNat_inj, ← BitVec.toNat_inj, toNat_exponentField,
    toNat_mantissaField, toNat_toBitVec, Word.isNaN, Nat.pow_eq,
    decide_eq_true_eq]
  change _ ↔ w.bits / 2 ^ 52 % 2 ^ 11 = 2 ^ 11 - 1 ∧ ¬ w.bits % 2 ^ 52 = 0
  omega

/-- A word is a number with the sign of its top bit, unless it is not a
number. -/
theorem sign?_toFloat (w : Word) :
    sign? (unpacked w.toFloat) =
      if w.isNaN then none else some (signOf (w < 0)) := by
  have repacked : sign? (unpacked w.toFloat) =
      sign? (unpack Format.binary64 w.toBitVec) :=
    sign?_packed _
  rw [repacked, sign?_unpack, ofBitVec_signField]
  simp only [isNaN_word_iff]

theorem isNaN_ofFloat (x : Float) : (Word.ofFloat x).isNaN = x.isNaN := by
  rw [Bool.eq_iff_iff, isNaN_word_iff, isNaN_float_iff]
  have bits : sign? (unpacked x) =
      sign? (unpack Format.binary64 (Word.ofFloat x).toBitVec) := rfl
  rw [bits, sign?_unpack, ite_eq_left_iff]
  simp

/-! ## Zero and infinity -/

theorem unpacked_packed_zero (s : Sign) :
    unpacked (packed (.zero s)) = .zero s := by
  cases s <;> rfl

theorem unpacked_packed_infinity (s : Sign) :
    unpacked (packed (.infinity s)) = .infinity s := by
  cases s <;> rfl

/-! ## Products -/

theorem mul_eq (x y : Float) :
    x * y =
      packed (UnpackedFloat.mul Format.binary64 (unpacked x) (unpacked y)) :=
  rfl

theorem neg_eq (x : Float) : -x = packed (unpacked x).neg := rfl

theorem sign?_mul_of_none (u : UnpackedFloat) {v : UnpackedFloat}
    (nan : sign? v = none) :
    sign? (UnpackedFloat.mul Format.binary64 u v) = none := by
  cases v with
  | notANumber => cases u <;> rfl
  | infinity s | zero s | finite s => cases nan

/-- A product with something that is not a number is not a number. -/
theorem isNaN_mul {x y : Float} (nan : sign? (unpacked y) = none) :
    (x * y).isNaN = true := by
  rw [isNaN_float_iff, mul_eq, sign?_packed]
  exact sign?_mul_of_none _ nan

/-- The number is zero or infinite and stays so when it is multiplied. -/
inductive Absorbs : (number factor : UnpackedFloat) → Prop where
  | zero {s : Sign} {factor : UnpackedFloat} :
      (∀ t, factor ≠ .infinity t) → Absorbs (.zero s) factor
  | infinity {s : Sign} {factor : UnpackedFloat} :
      (∀ t, factor ≠ .zero t) → Absorbs (.infinity s) factor

namespace Absorbs

variable {u v : UnpackedFloat} {x y : Float} {negative : Bool}

theorem mul (absorbs : Absorbs u v) (sign : sign? v = some (signOf negative)) :
    UnpackedFloat.mul Format.binary64 u v = if negative then u.neg else u := by
  cases absorbs with
  | @zero s _ finite =>
      cases v with
      | notANumber => cases sign
      | infinity s' => exact absurd rfl (finite s')
      | zero s' | finite s' =>
          cases sign
          cases s <;> cases negative <;> rfl
  | @infinity s _ nonzero =>
      cases v with
      | notANumber => cases sign
      | zero s' => exact absurd rfl (nonzero s')
      | infinity s' | finite s' =>
          cases sign
          cases s <;> cases negative <;> rfl

theorem neg (absorbs : Absorbs u v) : Absorbs u.neg v := by
  cases absorbs with
  | zero finite => exact .zero finite
  | infinity nonzero => exact .infinity nonzero

theorem neg_neg (absorbs : Absorbs u v) : u.neg.neg = u := by
  cases absorbs with
  | @zero s _ _ => cases s <;> rfl
  | @infinity s _ _ => cases s <;> rfl

theorem unpacked_packed (absorbs : Absorbs u v) : unpacked (packed u) = u := by
  cases absorbs with
  | zero finite => exact unpacked_packed_zero _
  | infinity nonzero => exact unpacked_packed_infinity _

theorem packed_unpacked (absorbs : Absorbs (unpacked x) v) :
    packed (unpacked x) = x := by
  have bits : pack Format.binary64 (unpacked x) =
      x.toModel.toBits.toBitVec := by
    have taken : Unpacks x.toModel.toBits.toBitVec (unpacked x) := unpacks _
    have fields := packComponents_fields x.toModel.toBits.toBitVec
    generalize unpacked x = u at absorbs taken
    cases taken with
    | zero exponent mantissa | infinity exponent mantissa =>
        rw [exponent, mantissa] at fields
        exact fields
    | notANumber | finite => cases absorbs
  obtain ⟨⟨⟨pattern⟩, valid⟩⟩ := x
  rw [packed, Float.ofModel.injEq]
  exact Float.Model.mk.injEq .. ▸ congrArg UInt64.ofBitVec bits

/-- A factor changes at most the sign of a product that absorbs it. -/
theorem mul_float (absorbs : Absorbs (unpacked x) (unpacked y))
    (sign : sign? (unpacked y) = some (signOf negative)) :
    x * y = if negative then -x else x := by
  rw [mul_eq, absorbs.mul sign]
  cases negative with
  | true => rfl
  | false => exact absorbs.packed_unpacked

theorem neg_float (absorbs : Absorbs (unpacked x) v) :
    Absorbs (unpacked (-x)) v := by
  rw [neg_eq, absorbs.neg.unpacked_packed]
  exact absorbs.neg

theorem neg_neg_float (absorbs : Absorbs (unpacked x) v) : - -x = x := by
  rw [neg_eq (-x), neg_eq x, absorbs.neg.unpacked_packed, absorbs.neg_neg,
    absorbs.packed_unpacked]

/-- Factors change the sign of a product that absorbs them if they are negative
and their number is odd. -/
theorem iterate_mul (absorbs : Absorbs (unpacked x) (unpacked y))
    (sign : sign? (unpacked y) = some (signOf negative)) (n : Nat) :
    (· * y)^[n] x = if negative && n % 2 == 1 then -x else x := by
  induction n generalizing x with
  | zero => simp
  | succ n ih =>
      rw [Function.iterate_succ_apply, absorbs.mul_float sign]
      cases negative with
      | false => simpa using ih absorbs
      | true =>
          simp only [if_true]
          rw [ih absorbs.neg_float, absorbs.neg_neg_float]
          grind

end Absorbs

/-! ## Tests -/

theorem beq_zero_iff (x : Float) :
    (x == 0) = true ↔ ∃ s, unpacked x = .zero s := by
  have compared : (x == 0) = (unpacked x).beq (.zero .positive) := rfl
  rw [compared]
  cases unpacked x with
  | zero s => exact iff_of_true rfl ⟨s, rfl⟩
  | notANumber => exact iff_of_false Bool.false_ne_true (by rintro ⟨_, ⟨⟩⟩)
  | infinity s | finite s =>
      cases s <;> exact iff_of_false Bool.false_ne_true (by rintro ⟨_, ⟨⟩⟩)

theorem isInf_iff (x : Float) :
    x.isInf = true ↔ ∃ s, unpacked x = .infinity s := by
  have looked : x.isInf = (unpacked x).isInf := rfl
  rw [looked]
  cases unpacked x with
  | infinity s => exact iff_of_true rfl ⟨s, rfl⟩
  | notANumber | zero s | finite s =>
      exact iff_of_false Bool.false_ne_true (by rintro ⟨_, ⟨⟩⟩)

theorem sign?_roundWithAccuracy (s : Sign) (m : Nat) (e : Int) (a : Accuracy) :
    sign? (roundWithAccuracy Format.binary64 s m e a) = some s := by
  let first := shiftToTargetExponent Format.binary64 m e a
  let last := shiftToTargetExponent Format.binary64 first.1.roundedMantissa
    first.2 .exact
  by_cases vanished : last.1.mantissa = 0
  · have rounded : roundWithAccuracy Format.binary64 s m e a = .zero s :=
      dif_pos vanished
    exact congrArg sign? rounded
  · have rounded : roundWithAccuracy Format.binary64 s m e a =
        .finite s _ _ _ :=
      dif_neg vanished
    exact congrArg sign? rounded

/-- The number is neither zero nor infinite. -/
inductive Proper : UnpackedFloat → Prop where
  | finite (s : Sign) (m : Nat) (e : Int) (positive : 0 < m) :
      Proper (.finite s m e positive)

theorem sign?_mul {u v : UnpackedFloat} (proper : Proper u)
    (number : sign? v ≠ none) :
    sign? (UnpackedFloat.mul Format.binary64 u v) ≠ none := by
  obtain ⟨s, m, e, positive⟩ := proper
  cases v with
  | notANumber => exact absurd rfl number
  | infinity s' | zero s' => exact Option.some_ne_none _
  | finite s' m' e' positive' =>
      have rounded := sign?_roundWithAccuracy (s * s') (m * m') (e + e') .exact
      exact ne_of_eq_of_ne rounded (Option.some_ne_none _)

theorem proper_of_tests {x : Float} (number : sign? (unpacked x) ≠ none)
    (changing : (x == 0 || x.isInf) = false) : Proper (unpacked x) := by
  obtain ⟨nonzero, bounded⟩ := Bool.or_eq_false_iff.mp changing
  have notZero := mt (beq_zero_iff x).mpr (Bool.eq_false_iff.mp nonzero)
  have notInfinite := mt (isInf_iff x).mpr (Bool.eq_false_iff.mp bounded)
  generalize unpacked x = u at *
  cases u with
  | notANumber => exact absurd rfl number
  | infinity s => exact absurd ⟨s, rfl⟩ notInfinite
  | zero s => exact absurd ⟨s, rfl⟩ notZero
  | finite s m e positive => exact .finite s m e positive

theorem unpacked_mul_infinity {x y : Float} {t : Sign}
    (proper : Proper (unpacked x)) (infinite : unpacked y = .infinity t) :
    ∃ s, unpacked (x * y) = .infinity s := by
  rw [mul_eq, infinite]
  generalize unpacked x = u at proper
  cases proper with
  | finite s m e positive => exact ⟨s * t, unpacked_packed_infinity (s * t)⟩

theorem unpacked_mul_zero {x y : Float} {t : Sign}
    (proper : Proper (unpacked x)) (zero : unpacked y = .zero t) :
    ∃ s, unpacked (x * y) = .zero s := by
  rw [mul_eq, zero]
  generalize unpacked x = u at proper
  cases proper with
  | finite s m e positive => exact ⟨s * t, unpacked_packed_zero (s * t)⟩

/-- If a product of numbers becomes zero, the last factor was not infinite, and
if it becomes infinite, the last factor was not zero. -/
theorem absorbs_of_tests {x y : Float} (proper : Proper (unpacked x))
    (unchanging : (x * y == 0 || (x * y).isInf) = true) :
    Absorbs (unpacked (x * y)) (unpacked y) := by
  rcases Bool.or_eq_true_iff.mp unchanging with vanished | overflowed
  · obtain ⟨s, zero⟩ := (beq_zero_iff _).mp vanished
    rw [zero]
    refine .zero ?_
    intro t infinite
    obtain ⟨s', infinity⟩ := unpacked_mul_infinity proper infinite
    rw [zero] at infinity
    cases infinity
  · obtain ⟨s, infinity⟩ := (isInf_iff _).mp overflowed
    rw [infinity]
    refine .infinity ?_
    intro t zero
    obtain ⟨s', vanished⟩ := unpacked_mul_zero proper zero
    rw [infinity] at vanished
    cases vanished

end WordMachine.Binary64
