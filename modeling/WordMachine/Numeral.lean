import WordMachine.Binary64
import WordMachine.Text.Quoted

/-!
# Number literals

A literal is an integer if it can be read as one: decimal, or with a prefix for
base 2, 8 or 16, where a plain leading zero also means base 8.  Otherwise it is
a floating-point number in decimal or hexadecimal form, rounded to the nearest
double.  Underscores may separate digits, and both kinds take a sign.
-/

namespace WordMachine

/-- The value of a number literal; a floating-point value is held as its
bits. -/
inductive Numeral where
  | integer (value : Word)
  | float (bits : Word)
  deriving DecidableEq, Repr

namespace Numeral

/-- Why a text is not a number literal. -/
inductive Error where
  /-- An integer that does not fit a word. -/
  | outOfRange (literal : Text)
  /-- Not a number, or one too large for a double. -/
  | malformed (literal : Text)
  deriving DecidableEq, Repr

def Error.message : Error → Text
  | .outOfRange t =>
    Text.ofString "integer " ++ t ++ Text.ofString " out of range"
  | .malformed t => Text.ofString "malformed number " ++ t.quoted

/-- Whether the first byte of a token makes it a number. -/
def startsNumber : Text → Bool
  | [] => false
  | b :: _ =>
    Text.isDigitByte b || b == Text.plus || b == Text.minus || b == Text.dot

/-- Split off a sign; `true` means negative. -/
def splitSign : Text → Bool × Text
  | Text.plus :: rest => (false, rest)
  | Text.minus :: rest => (true, rest)
  | t => (false, t)

/-- The value of a digit or letter, up to 35. -/
def digitValue? (b : UInt8) : Option Nat :=
  if Text.isDigitByte b then some (b.toNat - 48)
  else if Text.isLetterByte b then some ((Text.lowerByte b).toNat - 87)
  else none

/-! ## Separators -/

/-- What stood before a byte, as far as separators are concerned. -/
inductive Before where
  | digit | separator | other
  deriving DecidableEq

/-- Walk over the bytes of a number: an underscore must follow a digit and be
followed by one. -/
def separatorsFrom (hex : Bool) : Before → Text → Bool
  | before, [] => before != .separator
  | before, b :: rest =>
    if Text.isDigitByte b ||
      (hex && 97 ≤ Text.lowerByte b && Text.lowerByte b ≤ 102) then
      separatorsFrom hex .digit rest
    else if b = Text.underscore then
      before == .digit && separatorsFrom hex .separator rest
    else before != .separator && separatorsFrom hex .other rest

/-- The letter of a base after a leading zero, in lower case. -/
def baseLetter? : Text → Option UInt8
  | Text.zero :: x :: _ =>
    let x := Text.lowerByte x
    if x = 98 || x = 111 || x = 120 then some x else none
  | _ => none

/-- Whether all underscores separate digits; a base prefix counts as a digit. -/
def separatorsAllowed (t : Text) : Bool :=
  let t := (splitSign t).2
  match baseLetter? t with
  | some x => separatorsFrom (x == 120) .digit (t.drop 2)
  | none => separatorsFrom false .other t

/-! ## Integers -/

/-- Outcome of reading the digits of an integer. -/
inductive Magnitude where
  | value (n : Nat)
  | tooLarge
  | malformed
  deriving DecidableEq

/-- Read digits in `base`, skipping underscores.  Too large a value is noticed
at the digit that exceeds 64 bits, before anything behind it. -/
def readDigits (base : Nat) : Text → Nat → Magnitude
  | [], n => .value n
  | b :: rest, n =>
    if b = Text.underscore then readDigits base rest n
    else match digitValue? b with
      | none => .malformed
      | some d =>
        if base ≤ d then .malformed
        else if Nat.pow 2 64 ≤ n * base + d then .tooLarge
        else readDigits base rest (n * base + d)

/-- The base of an unsigned integer literal and the digits behind its prefix. -/
def splitBase (t : Text) : Nat × Text :=
  match t with
  | Text.zero :: x :: y :: rest =>
    let digits := y :: rest
    match Text.lowerByte x with
    | 98 => (2, digits)
    | 111 => (8, digits)
    | 120 => (16, digits)
    | _ => (8, x :: digits)
  | Text.zero :: rest => (8, rest)
  | _ => (10, t)

/-- Read an unsigned integer literal. -/
def readMagnitude (t : Text) : Magnitude :=
  if t.isEmpty then .malformed
  else
    let (base, digits) := splitBase t
    match readDigits base digits 0 with
    | .value n =>
      if t.contains Text.underscore && !separatorsAllowed t then
        .malformed else .value n
    | other => other

/-- Outcome of reading a signed integer literal. -/
inductive Reading where
  | value (w : Word)
  | outOfRange
  | malformed
  deriving DecidableEq

def readInteger (t : Text) : Reading :=
  let (negative, body) := splitSign t
  match readMagnitude body with
  | .malformed => .malformed
  | .tooLarge => .outOfRange
  | .value n =>
    if negative then
      if n ≤ Nat.pow 2 63 then .value (Int64.ofInt (-n)) else .outOfRange
    else
      if n < Nat.pow 2 63 then .value (Int64.ofNat n) else .outOfRange

/-! ## Floating-point numbers -/

/-- The digits of a mantissa as they were read, last first, the number of them
behind the point, and what follows. -/
structure Mantissa where
  digits : List Nat
  behindPoint : Nat
  sawPoint : Bool
  rest : Text

/-- Read a mantissa: digits, underscores and at most one point. -/
def readMantissa (hex : Bool) : Text → List Nat → Nat → Bool → Mantissa
  | [], digits, behind, point => ⟨digits, behind, point, []⟩
  | b :: rest, digits, behind, point =>
    if b = Text.underscore then readMantissa hex rest digits behind point
    else if b = Text.dot && !point then readMantissa hex rest digits behind true
    else match digitValue? b with
      | some d =>
        if d < (if hex then 16 else 10) then
          readMantissa hex rest (d :: digits) (if point then behind +
            1 else behind) point
        else ⟨digits, behind, point, b :: rest⟩
      | none => ⟨digits, behind, point, b :: rest⟩

/-- Read the digits of an exponent.  Once it has five digits, further ones no
longer count. -/
def exponentDigits : Text → Nat → Option Nat
  | [], e => some e
  | b :: rest, e =>
    if b = Text.underscore then exponentDigits rest e
    else if Text.isDigitByte b then
      exponentDigits rest (if e < 10000 then e * 10 + (b.toNat - 48) else e)
    else none

/-- Read what may follow the mantissa: nothing, or an exponent mark with a
signed exponent.  A hexadecimal number must have one. -/
def readExponent? (hex : Bool) : Text → Option Int
  | [] => if hex then none else some 0
  | b :: rest =>
    if Text.lowerByte b = (if hex then 112 else 101) then
      let (negative, digits) := splitSign rest
      match digits with
      | d :: _ =>
        if Text.isDigitByte d then
          (exponentDigits digits 0).map fun e => if negative then
            -(e : Int) else e
        else none
      | [] => none
    else none

/-- Digits kept exactly.  No double and no midpoint between two of them has more
significant digits, so whatever is left over matters only by being nonzero. -/
def keptDigits : Nat := 800

/-- The number spelt by the first `keptDigits` of the given digits, followed by
a one if a later digit is not zero, and the number of digits taken minus those
present. -/
def significand (base : Nat) (digits : List Nat) : Nat × Int :=
  let kept := digits.take keptDigits
  let lost := digits.drop keptDigits
  let n := kept.foldl (fun n d => n * base + d) 0
  if lost.any (· != 0) then (n * base + 1, (lost.length : Int) - 1)
    else (n, lost.length)

/-- The bits of the double nearest to the given digits with the point
`behindPoint` digits from the right, scaled by the exponent; `none` if that is
too large. -/
def scale? (hex : Bool) (digits : List Nat) (behindPoint : Nat)
    (exponent : Int) : Option Nat :=
  let digits := digits.dropWhile (· == 0)
  if digits.isEmpty then some 0
  else if hex then
    let (n, dropped) := significand 16 digits
    let power := 4 * (dropped - behindPoint) + exponent
    let top := power + n.log2
    if 1100 < top then none
    else if top < -1100 then some 0
    else Binary64.nearest? (n * Nat.pow 2 power.toNat)
      (Nat.pow 2 (-power).toNat)
  else
    let top := (digits.length : Int) - behindPoint + exponent
    if 310 < top then none
    else if top < -330 then some 0
    else
      let (n, dropped) := significand 10 digits
      let power := dropped - behindPoint + exponent
      Binary64.nearest? (n * Nat.pow 10 power.toNat) (Nat.pow 10 (-power).toNat)

/-- Whether the text is a spelling of infinity, in any case. -/
def isInfinity (t : Text) : Bool :=
  let t := t.map Text.lowerByte
  t == Text.ofString "inf" || t == Text.ofString "infinity"

def readFloat? (t : Text) : Option Word :=
  let (negative, body) := splitSign t
  let signed (magnitude : Nat) : Word :=
    Word.ofBits (if negative then Binary64.signBit + magnitude else magnitude)
  if isInfinity body then some (signed Binary64.infinity)
  else
    let hex := baseLetter? body == some 120 && 2 < body.length
    let mantissa := readMantissa hex
      (if hex then body.drop 2 else body) [] 0 false
    if mantissa.digits.isEmpty then none
    else do
      let exponent ← readExponent? hex mantissa.rest
      if t.contains Text.underscore && !separatorsAllowed t then none
      else (scale? hex mantissa.digits.reverse mantissa.behindPoint
        exponent).map signed

def read (t : Text) : Except Error Numeral :=
  match readInteger t with
  | .value w => .ok (.integer w)
  | .outOfRange => .error (.outOfRange t)
  | .malformed =>
    match readFloat? t with
    | some bits => .ok (.float bits)
    | none => .error (.malformed t)

end Numeral

end WordMachine
