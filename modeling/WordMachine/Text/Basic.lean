/-!
# Texts as bytes

Source files, names, messages and program output are byte strings: nothing in
the machine requires them to be valid UTF-8.  This module holds the type and the
operations that look at bytes only; `WordMachine.Text.Utf8` reads the same bytes
as characters.
-/

namespace WordMachine

/-- A byte string. -/
abbrev Text := List UInt8

namespace Text

/-- The UTF-8 bytes of a string. -/
def ofString (s : String) : Text :=
  s.toByteArray.data.toList

instance : Coe String Text := ⟨ofString⟩

/-! ## Named bytes -/

@[match_pattern] abbrev tab : UInt8 := 9
@[match_pattern] abbrev newline : UInt8 := 10
@[match_pattern] abbrev carriageReturn : UInt8 := 13
@[match_pattern] abbrev space : UInt8 := 32
@[match_pattern] abbrev quote : UInt8 := 34
@[match_pattern] abbrev hash : UInt8 := 35
@[match_pattern] abbrev plus : UInt8 := 43
@[match_pattern] abbrev minus : UInt8 := 45
@[match_pattern] abbrev dot : UInt8 := 46
@[match_pattern] abbrev slash : UInt8 := 47
@[match_pattern] abbrev zero : UInt8 := 48
@[match_pattern] abbrev colon : UInt8 := 58
@[match_pattern] abbrev semicolon : UInt8 := 59
@[match_pattern] abbrev backslash : UInt8 := 92
@[match_pattern] abbrev underscore : UInt8 := 95

def isDigitByte (b : UInt8) : Bool :=
  48 ≤ b && b ≤ 57

def isLetterByte (b : UInt8) : Bool :=
  (65 ≤ b && b ≤ 90) || (97 ≤ b && b ≤ 122)

/-- ASCII letters in lower case, every other byte as it is. -/
def lowerByte (b : UInt8) : UInt8 :=
  if 65 ≤ b && b ≤ 90 then b + 32 else b

/-- The byte as a two-digit lower case hexadecimal number. -/
def hexByte (b : UInt8) : Text :=
  [digit (b / 16), digit (b % 16)]
where
  /-- The digit for a value below sixteen. -/
  digit (n : UInt8) : UInt8 := if n < 10 then 48 + n else 87 + n

def hexBytes (t : Text) : Text :=
  t.flatMap hexByte

/-- The value of a hexadecimal digit of either case. -/
def hexDigit? (b : UInt8) : Option Nat :=
  if isDigitByte b then some (b.toNat - 48)
  else
    let b := lowerByte b
    if 97 ≤ b && b ≤ 102 then some (b.toNat - 87) else none

/-! ## Numbers -/

/-- The shortest decimal form of a natural number. -/
def ofNat (n : Nat) : Text :=
  (Nat.toDigits 10 n).map fun c => c.toNat.toUInt8

/-- The shortest decimal form of an integer, with a minus sign below zero. -/
def ofInt : Int → Text
  | .ofNat n => ofNat n
  | .negSucc n => minus :: ofNat (n + 1)

/-- The lower case hexadecimal digits of a natural number. -/
def ofNatHex (n : Nat) : Text :=
  (Nat.toDigits 16 n).map fun c => c.toNat.toUInt8

/-! ## Shape -/

/-- Fill up with spaces on the right to at least `width` bytes. -/
def padRight (width : Nat) (t : Text) : Text :=
  t ++ List.replicate (width - t.length) space

/-- Fill up with `fill` on the left to at least `width` bytes. -/
def padLeft (width : Nat) (fill : UInt8) (t : Text) : Text :=
  List.replicate (width - t.length) fill ++ t

/-- The parts in order with `separator` between neighbours. -/
def join (separator : Text) (parts : List Text) : Text :=
  List.intercalate separator parts

/-- What is left of `t` after `pre`, if `t` begins with it. -/
def afterPrefix? (pre t : Text) : Option Text :=
  if pre.isPrefixOf t then some (t.drop pre.length) else none

/-- `t` without the bytes equal to `b` at its end. -/
def dropTrailing (b : UInt8) (t : Text) : Text :=
  (t.reverse.dropWhile (· == b)).reverse

/-! ## Lines -/

/-- Auxiliary walk of `split`: `current` and `done` are held in reverse. -/
def splitFrom (separator : UInt8) : Text → Text → List Text → List Text
  | [], current, done => (current.reverse :: done).reverse
  | b :: rest, current, done =>
    if b = separator then splitFrom separator rest [] (current.reverse :: done)
    else splitFrom separator rest (b :: current) done

/-- The parts of `t` between occurrences of `separator`.  There is always at
least one part, and the last one is empty when `t` ends with the separator. -/
def split (separator : UInt8) (t : Text) : List Text :=
  splitFrom separator t [] []

/-- The lines of `t`: what stands between newlines. -/
def lines (t : Text) : List Text :=
  t.split newline

/-! ## Order -/

/-- Lexicographic order of bytes; a proper prefix comes first. -/
def le : Text → Text → Bool
  | [], _ => true
  | _ :: _, [] => false
  | a :: s, b :: t => if a = b then le s t else a < b

def sorted (ts : List Text) : List Text :=
  ts.mergeSort le

end Text

end WordMachine
