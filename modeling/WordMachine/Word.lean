import WordMachine.Text.Utf8

/-!
# Words

Memory cells and stack entries are 64-bit words.  A word carries no type: the
instruction that uses it reads it as a signed integer, as the bit pattern of a
double-precision number, as a truth value or as a character code.
-/

namespace WordMachine

/-- A 64-bit word, read as a signed integer by default. -/
abbrev Word := Int64

namespace Word

def toFloat (w : Word) : Float :=
  Float.ofBits w.toUInt64

def ofFloat (x : Float) : Word :=
  x.toBits.toInt64

/-- The word with the given bits, counted modulo `2 ^ 64`. -/
def ofBits (n : Nat) : Word :=
  (UInt64.ofNat n).toInt64

/-- The bits of a word as a natural number below `2 ^ 64`. -/
def bits (w : Word) : Nat :=
  w.toUInt64.toNat

/-- One for true, zero for false. -/
def ofBool (b : Bool) : Word :=
  if b then 1 else 0

/-- Every word but zero counts as true. -/
def isTrue (w : Word) : Bool :=
  w != 0

/-- The word as an index, if it is below `size`. -/
def index? (w : Word) (size : Nat) : Option Nat :=
  if 0 ≤ w.toInt ∧ w.toInt < size then some w.toInt.toNat else none

/-- The decimal form of the word as a signed integer. -/
def toText (w : Word) : Text :=
  Text.ofInt w.toInt

/-- The character whose code is in the low 32 bits of the word, or the
replacement character if there is none. -/
def toChar (w : Word) : Char :=
  let code := w.bits % Nat.pow 2 32
  if code.isValidChar then Char.ofNat code else Text.replacement

def ofChar (c : Char) : Word :=
  Int64.ofNat c.toNat

/-- Whether the word is the bit pattern of a number that is not a number. -/
def isNaN (w : Word) : Bool :=
  w.bits % Nat.pow 2 63 > 0x7FF0000000000000

/-- The word with its top bit, the sign of a floating-point number, flipped. -/
def flipSign (w : Word) : Word :=
  (w.toUInt64 ^^^ 0x8000000000000000).toInt64

/-- The double nearest to the word as an integer, ties to even. -/
def integerToFloat (w : Word) : Word :=
  if w < 0 then flipSign (ofFloat (UInt64.ofNat w.toInt.natAbs).toFloat)
  else ofFloat w.toUInt64.toFloat

/-- The integer part of the word as a double. -/
def floatToInteger (w : Word) : Word :=
  if w < 0 then -(flipSign w).toFloat.toUInt64.toInt64
  else w.toFloat.toUInt64.toInt64

end Word

end WordMachine
