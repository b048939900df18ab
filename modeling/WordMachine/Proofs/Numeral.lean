import Mathlib.Algebra.Group.Nat.Defs
import WordMachine.Numeral

/-!
# Reading number literals

The decimal form of a number has no leading zero, so it is read in base ten, and
it has no separators.  Read as a number literal, the decimal form of a word is
that word again.

Whatever is read as a number consists of digits, letters, underscores, points
and signs.
-/

namespace WordMachine

/-! ## Decimal digits -/

/-- Induction along the decimal digits of a number, the last digit taken off. -/
theorem decimal_induction {motive : Nat → Prop} (digit : ∀ n, n < 10 → motive n)
    (more : ∀ n, 10 ≤ n → motive (n / 10) → motive n) (n : Nat) : motive n := by
  induction n using Nat.strongRecOn with
  | ind n ih =>
      by_cases small : n < 10
      · exact digit n small
      · have large : 10 ≤ n := Nat.le_of_not_lt small
        exact more n large (ih (n / 10) (by omega))

namespace Text

def digitByte (d : Nat) : UInt8 :=
  (48 + d).toUInt8

theorem isDigitByte_digitByte :
    ∀ d < 10, isDigitByte (digitByte d) = true := by decide

theorem ofNat_of_lt {n : Nat} (small : n < 10) : ofNat n = [digitByte n] := by
  rw [ofNat, Nat.toDigits_of_lt_base small, List.map_singleton,
    Nat.toNat_digitChar_of_lt_ten small]
  rfl

theorem ofNat_of_le {n : Nat} (large : 10 ≤ n) :
    ofNat n = ofNat (n / 10) ++ [digitByte (n % 10)] := by
  rw [ofNat, Nat.toDigits_of_base_le (by decide) large, List.map_append,
    List.map_singleton,
    Nat.toNat_digitChar_of_lt_ten (Nat.mod_lt n (by decide))]
  rfl

theorem ofNat_ne_nil (n : Nat) : ofNat n ≠ [] := by
  rw [ofNat, ne_eq, List.map_eq_nil_iff]
  exact Nat.toDigits_ne_nil

theorem isDigitByte_of_mem_ofNat {n : Nat} {b : UInt8} (member : b ∈ ofNat n) :
    isDigitByte b = true := by
  induction n using decimal_induction with
  | digit n small =>
      rw [ofNat_of_lt small, List.mem_singleton] at member
      rw [member]
      exact isDigitByte_digitByte n small
  | more n large ih =>
      rw [ofNat_of_le large, List.mem_append, List.mem_singleton] at member
      rcases member with front | last
      · exact ih front
      · rw [last]
        exact isDigitByte_digitByte _ (Nat.mod_lt n (by decide))

/-- Only zero has a zero in front. -/
theorem head?_ofNat {n : Nat} (positive : 0 < n) :
    (ofNat n).head? ≠ some zero := by
  induction n using decimal_induction with
  | digit n small =>
      have nonzero : ∀ d < 10, 0 < d → digitByte d ≠ zero := by decide
      rw [ofNat_of_lt small, List.head?_cons, ne_eq, Option.some.injEq]
      exact nonzero n small positive
  | more n large ih =>
      obtain ⟨b, rest, front⟩ :=
        List.exists_cons_of_ne_nil (ofNat_ne_nil (n / 10))
      rw [front] at ih
      rw [ofNat_of_le large, front]
      exact ih (by omega)

end Text

/-! ## Reading -/

namespace Numeral

theorem digitValue?_digitByte :
    ∀ d < 10, digitValue? (Text.digitByte d) = some d := by decide

theorem readDigits_append {base n m : Nat} {s : Text} (t : Text)
    (value : readDigits base s n = .value m) :
    readDigits base (s ++ t) n = readDigits base t m := by
  fun_induction readDigits base s n with
  | case1 n =>
      cases value
      rfl
  | case2 n rest ih =>
      rw [List.cons_append, readDigits, if_pos rfl]
      exact ih value
  | case3 | case4 | case5 => cases value
  | case6 b rest n other d digit small fits ih =>
      rw [List.cons_append, readDigits, if_neg other, digit]
      simp only [small, fits, if_false]
      exact ih value

theorem readDigits_digitByte {d n : Nat} (digit : d < 10)
    (fits : n * 10 + d < 2 ^ 64) :
    readDigits 10 [Text.digitByte d] n = .value (n * 10 + d) := by
  have plain : ∀ d < 10, Text.digitByte d ≠ Text.underscore := by decide
  rw [readDigits, if_neg (plain d digit), digitValue?_digitByte d digit]
  simp only [Nat.not_le.mpr digit, Nat.pow_eq, Nat.not_le.mpr fits,
    if_false, readDigits]

theorem readDigits_ofNat {n : Nat} (fits : n < 2 ^ 64) :
    readDigits 10 (Text.ofNat n) 0 = .value n := by
  induction n using decimal_induction with
  | digit n small =>
      rw [Text.ofNat_of_lt small,
        readDigits_digitByte small (by omega), Nat.zero_mul, Nat.zero_add]
  | more n large ih =>
      have split : n / 10 * 10 + n % 10 = n := by omega
      rw [Text.ofNat_of_le large, readDigits_append _ (ih (by omega)),
        readDigits_digitByte (Nat.mod_lt n (by decide)) (by omega), split]

theorem splitBase_of_head? {t : Text} (plain : t.head? ≠ some Text.zero) :
    splitBase t = (10, t) := by
  unfold splitBase
  split
  · exact absurd rfl plain
  · exact absurd rfl plain
  · rfl

theorem readMagnitude_ofNat {n : Nat} (fits : n < 2 ^ 64) :
    readMagnitude (Text.ofNat n) = .value n := by
  cases n with
  | zero => rfl
  | succ k =>
      have nonempty : (Text.ofNat (k + 1)).isEmpty = false :=
        List.isEmpty_eq_false_iff.mpr (Text.ofNat_ne_nil _)
      have separated : (Text.ofNat (k + 1)).contains Text.underscore =
          false := by
        rw [List.contains_eq_mem, decide_eq_false_iff_not]
        intro member
        cases Text.isDigitByte_of_mem_ofNat member
      have base := splitBase_of_head? (Text.head?_ofNat (Nat.succ_pos k))
      simp only [readMagnitude, nonempty, base,
        readDigits_ofNat fits, separated, Bool.false_and,
        Bool.false_eq_true, if_false]

theorem splitSign_ofNat (n : Nat) :
    splitSign (Text.ofNat n) = (false, Text.ofNat n) := by
  have digits : ∀ b ∈ Text.ofNat n, Text.isDigitByte b = true :=
    fun _ => Text.isDigitByte_of_mem_ofNat
  unfold splitSign
  split
  next rest text => cases digits Text.plus (by simp [text])
  next rest text => cases digits Text.minus (by simp [text])
  next => rfl

theorem splitSign_minus (t : Text) :
    splitSign (Text.minus :: t) = (true, t) := rfl

theorem readInteger_toText (w : Word) : readInteger w.toText = .value w := by
  have least := Int64.le_toInt w
  have most := Int64.toInt_lt w
  have back : Int64.ofInt w.toInt = w := Int64.ofInt_toInt w
  rw [Word.toText]
  cases value : w.toInt with
  | ofNat n =>
      rw [value] at back
      rw [value, Int.ofNat_eq_natCast] at most
      have below : n < 2 ^ 63 := by omega
      have magnitude : readMagnitude (Text.ofNat n) = .value n :=
        readMagnitude_ofNat (by omega)
      simp only [Text.ofInt, readInteger, splitSign_ofNat, magnitude,
        Bool.false_eq_true, if_false, Nat.pow_eq, below, if_true]
      exact congrArg Reading.value back
  | negSucc n =>
      rw [value] at back
      rw [value, Int.negSucc_eq] at least
      have atMost : n + 1 ≤ 2 ^ 63 := by omega
      have magnitude : readMagnitude (Text.ofNat (n + 1)) = .value (n + 1) :=
        readMagnitude_ofNat (by omega)
      simp only [Text.ofInt, readInteger, splitSign_minus, magnitude,
        if_true, Nat.pow_eq, atMost]
      exact congrArg Reading.value back

/-- The decimal form of a word is read as that word. -/
theorem read_toText (w : Word) : read w.toText = .ok (.integer w) := by
  rw [read, readInteger_toText]

theorem startsNumber_toText (w : Word) : startsNumber w.toText = true := by
  rw [Word.toText]
  cases w.toInt with
  | ofNat n =>
      obtain ⟨b, rest, text⟩ := List.exists_cons_of_ne_nil (Text.ofNat_ne_nil n)
      have digit : Text.isDigitByte b = true :=
        Text.isDigitByte_of_mem_ofNat (text ▸ List.mem_cons_self)
      simp only [Text.ofInt, text, startsNumber, digit, Bool.true_or]
  | negSucc n => rfl

/-! ## The bytes of a number literal -/

def isNumeralByte (b : UInt8) : Bool :=
  Text.isDigitByte b || Text.isLetterByte b ||
    b == Text.underscore || b == Text.dot
    || b == Text.plus || b == Text.minus

theorem isNumeralByte_of_isDigitByte {b : UInt8}
    (digit : Text.isDigitByte b = true) :
    isNumeralByte b = true := by
  simp [isNumeralByte, digit]

theorem isNumeralByte_of_digitValue? {b : UInt8} {d : Nat}
    (digit : digitValue? b = some d) :
    isNumeralByte b = true := by
  unfold digitValue? at digit
  split at digit
  next decimal => exact isNumeralByte_of_isDigitByte decimal
  next =>
    split at digit
    next letter => simp [isNumeralByte, letter]
    next => cases digit

theorem isNumeralByte_of_lowerByte {b : UInt8}
    (lower : isNumeralByte (Text.lowerByte b) = true) :
    isNumeralByte b = true := by
  unfold Text.lowerByte at lower
  split at lower
  next upper => simp [isNumeralByte, Text.isLetterByte, upper]
  next => exact lower

theorem isNumeralByte_of_lowerByte_eq {b x : UInt8}
    (lower : Text.lowerByte b = x) (numeral : isNumeralByte x = true) :
    isNumeralByte b = true :=
  isNumeralByte_of_lowerByte (lower ▸ numeral)

theorem all_of_splitSign {t : Text}
    (body : (splitSign t).2.all isNumeralByte = true) :
    t.all isNumeralByte = true := by
  unfold splitSign at body
  split at body
  next => exact body
  next => exact body
  next => exact body

theorem all_of_readDigits {base n m : Nat} {t : Text}
    (value : readDigits base t n = .value m) :
    t.all isNumeralByte = true := by
  fun_induction readDigits base t n with
  | case1 => rfl
  | case2 n rest ih => exact ih value
  | case3 | case4 | case5 => cases value
  | case6 b rest n other d digit small fits ih =>
      rw [List.all_cons, isNumeralByte_of_digitValue? digit, ih value]
      rfl

theorem all_of_splitBase {t : Text}
    (digits : (splitBase t).2.all isNumeralByte = true) :
    t.all isNumeralByte = true := by
  unfold splitBase at digits
  split at digits
  next x y rest =>
    dsimp only at digits
    rw [List.all_cons, List.all_cons]
    split at digits
    next base =>
      rw [isNumeralByte_of_lowerByte_eq base rfl]
      exact digits
    next base =>
      rw [isNumeralByte_of_lowerByte_eq base rfl]
      exact digits
    next base =>
      rw [isNumeralByte_of_lowerByte_eq base rfl]
      exact digits
    next => exact digits
  next => exact digits
  next => exact digits

theorem all_of_readMagnitude {t : Text} {n : Nat}
    (value : readMagnitude t = .value n) :
    t.all isNumeralByte = true := by
  unfold readMagnitude at value
  split at value
  next => cases value
  next =>
    dsimp only at value
    split at value
    next n digits => exact all_of_splitBase (all_of_readDigits digits)
    next other notValue => exact absurd value (notValue n)

theorem all_of_readInteger {t : Text} {w : Word}
    (value : readInteger t = .value w) :
    t.all isNumeralByte = true := by
  unfold readInteger at value
  dsimp only at value
  split at value
  next => cases value
  next => cases value
  next n magnitude => exact all_of_splitSign (all_of_readMagnitude magnitude)

theorem all_of_readMantissa {hex point : Bool} {t : Text} {digits : List Nat}
    {behind : Nat} (rest : (readMantissa hex t digits behind point).rest.all
      isNumeralByte = true) :
    t.all isNumeralByte = true := by
  fun_induction readMantissa hex t digits behind point with
  | case1 => rfl
  | case2 digits behind point later ih => exact ih rest
  | case3 b later digits behind point other dot ih =>
      have isDot : b = Text.dot := by
        simp only [Bool.and_eq_true, decide_eq_true_eq] at dot
        exact dot.1
      rw [isDot]
      exact ih rest
  | case4 b later digits behind point other noDot d digit small ih =>
      rw [List.all_cons, isNumeralByte_of_digitValue? digit]
      exact ih rest
  | case5 => exact rest
  | case6 => exact rest

theorem all_of_exponentDigits {t : Text} {e n : Nat}
    (value : exponentDigits t e = some n) :
    t.all isNumeralByte = true := by
  fun_induction exponentDigits t e with
  | case1 => rfl
  | case2 e rest ih => exact ih value
  | case3 b rest e other digit ih =>
      rw [List.all_cons, isNumeralByte_of_isDigitByte digit]
      exact ih value
  | case4 => cases value

theorem all_of_readExponent? {hex : Bool} {t : Text} {e : Int}
    (value : readExponent? hex t = some e) : t.all isNumeralByte = true := by
  unfold readExponent? at value
  split at value
  next => rfl
  next b rest =>
    have letter : isNumeralByte (if hex then 112 else 101) = true := by
      cases hex with
      | true => rfl
      | false => rfl
    generalize (if hex = true then (112 : UInt8) else 101) =
      mark at value letter
    split at value
    next lower =>
      rw [List.all_cons, isNumeralByte_of_lowerByte_eq lower letter,
        Bool.true_and]
      apply all_of_splitSign
      generalize splitSign rest = parts at value
      obtain ⟨negative, digits⟩ := parts
      cases digits with
      | nil => rfl
      | cons d others =>
          dsimp only at value
          split at value
          next =>
            cases exponent : exponentDigits (d :: others) 0 with
            | none =>
                rw [exponent] at value
                cases value
            | some n => exact all_of_exponentDigits exponent
          next => cases value
    next => cases value

theorem all_of_isInfinity {t : Text} (infinite : isInfinity t = true) :
    t.all isNumeralByte = true := by
  have lower : (t.map Text.lowerByte).all isNumeralByte = true := by
    simp only [isInfinity, Bool.or_eq_true, beq_iff_eq] at infinite
    rcases infinite with short | long
    · rw [short]
      decide +kernel
    · rw [long]
      decide +kernel
  rw [List.all_map] at lower
  apply List.all_eq_true.mpr
  intro b member
  exact isNumeralByte_of_lowerByte (List.all_eq_true.mp lower b member)

theorem all_of_baseLetter? {t : Text} {x : UInt8}
    (base : baseLetter? t = some x)
    (digits : (t.drop 2).all isNumeralByte = true) :
    t.all isNumeralByte = true := by
  unfold baseLetter? at base
  split at base
  next y rest =>
    dsimp only at base
    split at base
    next letter =>
      have numeral : isNumeralByte y = true := by
        simp only [Bool.or_eq_true, decide_eq_true_eq] at letter
        rcases letter with (binary | octal) | hex
        · exact isNumeralByte_of_lowerByte_eq binary rfl
        · exact isNumeralByte_of_lowerByte_eq octal rfl
        · exact isNumeralByte_of_lowerByte_eq hex rfl
      rw [List.all_cons, List.all_cons, numeral]
      exact digits
    next => cases base
  next => cases base

theorem all_of_readFloat? {t : Text} {bits : Word}
    (value : readFloat? t = some bits) :
    t.all isNumeralByte = true := by
  unfold readFloat? at value
  dsimp only at value
  split at value
  next infinite => exact all_of_splitSign (all_of_isInfinity infinite)
  next =>
    apply all_of_splitSign
    generalize isHex : (baseLetter? (splitSign t).2 == some 120 &&
      decide (2 < (splitSign t).2.length)) = hex at value
    generalize mantissa : readMantissa hex _ [] 0 false = parts at value
    split at value
    next => cases value
    next =>
      obtain ⟨exponent, read, -⟩ := Option.bind_eq_some_iff.mp value
      have digits := all_of_readExponent? read
      rw [← mantissa] at digits
      cases hex with
      | true =>
          simp only [Bool.and_eq_true, beq_iff_eq] at isHex
          exact all_of_baseLetter? isHex.1 (all_of_readMantissa digits)
      | false => exact all_of_readMantissa digits

/-- A number literal consists of bytes that can stand in one. -/
theorem all_of_read {t : Text} {n : Numeral} (value : read t = .ok n) :
    t.all isNumeralByte = true := by
  unfold read at value
  split at value
  next w integer => exact all_of_readInteger integer
  next => cases value
  next =>
    split at value
    next bits float => exact all_of_readFloat? float
    next => cases value

end Numeral

end WordMachine
