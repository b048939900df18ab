import WordMachine.Numeral
import WordMachine.Toml.Basic

/-!
# TOML numbers, dates and times

A number or a date is first cut out of the text by the bytes it may consist of,
and then checked as a whole.
-/

namespace WordMachine.Toml

/-! ## Numbers -/

/-- Whether each underscore stands between digits; the digits of all bases
count. -/
def underscoresFrom : Text → (afterDigit : Bool) → Bool
  | [], afterDigit => afterDigit
  | b :: rest, afterDigit =>
    if b = Text.underscore && !afterDigit then false
    else underscoresFrom rest (Text.hexDigit? b).isSome

/-- Whether each underscore stands between digits and a digit is last. -/
def underscoresAllowed (t : Text) : Bool :=
  underscoresFrom t false

/-- Whether a number has a zero too many at its front. -/
def hasLeadingZero : Text → Bool
  | Text.zero :: b :: _ => !(b == 98 || b == 111 || b == 120)
  | Text.plus :: Text.zero :: _ :: _ => true
  | Text.minus :: Text.zero :: _ :: _ => true
  | _ => false

def integerValue? (t : Text) : Option Toml :=
  if underscoresAllowed t && !hasLeadingZero t then
    match Numeral.readInteger t with
    | .value w => some (.integer w)
    | _ => none
  else none

/-- A byte that divides the parts of a floating-point number. -/
def isPartMark (b : UInt8) : Bool :=
  b == Text.dot || b == 101 || b == 69

/-- Whether a digit follows each point. -/
def pointsAllowed : Text → Bool
  | [] => true
  | Text.dot :: rest => (rest.head?.any Text.isDigitByte) && pointsAllowed rest
  | _ :: rest => pointsAllowed rest

/-- The bits of the number that is not a number. -/
def notANumber : Word := Word.ofBits 0x7FF8000000000001

/-- The value of a floating-point number written with digits. -/
def floatValue? (t : Text) : Option Toml :=
  let parts := (t.splitBy fun a b => !isPartMark a && !isPartMark b).filter
    fun part => !part.all isPartMark
  if parts.all underscoresAllowed && !parts.head?.any hasLeadingZero &&
    pointsAllowed t then
    (Numeral.readFloat? (t.filter (· != Text.underscore))).map .float
  else none

/-- The value of infinity or of no number, written as a word. -/
def wordValue? (t : Text) : Option Toml :=
  let (negative, name) := Numeral.splitSign t
  if name = Text.ofString "inf" then
    some (.float (Word.ofBits (Binary64.infinity +
      if negative then Binary64.signBit else 0)))
  else if name = Text.ofString "nan" then some (.float notANumber)
  else none

/-! ## Dates and times -/

/-- The value of exactly `count` digits and what follows them. -/
def digits? (count : Nat) (t : Text) : Option (Nat × Text) :=
  let digits : Text := t.take count
  if digits.length = count ∧ digits.all Text.isDigitByte then
    some (digits.foldl (fun n b => 10 * n + (b.toNat - 48)) 0, t.drop count)
  else none

/-- What follows `b`, which `t` has to begin with. -/
def expect (b : UInt8) : Text → Option Text
  | c :: rest => if c = b then some rest else none
  | [] => none

def daysIn (year month : Nat) : Nat :=
  if month = 2 then
    if year % 4 = 0 ∧ (year % 100 ≠ 0 ∨ year % 400 = 0) then 29 else 28
  else if month = 4 ∨ month = 6 ∨ month = 9 ∨ month = 11 then 30
  else 31

/-- What follows a day of the calendar, written `YYYY-MM-DD`. -/
def skipDate (t : Text) : Option Text := do
  let (year, t) ← digits? 4 t
  let (month, t) ← digits? 2 (← expect Text.minus t)
  let (day, t) ← digits? 2 (← expect Text.minus t)
  if 1 ≤ month ∧ month ≤ 12 ∧ 1 ≤ day ∧ day ≤ daysIn year month then
    some t else none

/-- What follows the fraction of a second, if there is one. -/
def skipFraction : Text → Text
  | Text.dot :: b :: rest =>
    if Text.isDigitByte b then rest.dropWhile Text.isDigitByte
      else Text.dot :: b :: rest
  | t => t

/-- What follows a time of day, written `hh:mm` or `hh:mm:ss` with a
fraction. -/
def skipTime (t : Text) : Option Text := do
  let (hour, t) ← digits? 2 t
  let (minute, t) ← digits? 2 (← expect Text.colon t)
  if 24 ≤ hour ∨ 60 ≤ minute then none
  else match t with
    | Text.colon :: rest =>
      let (second, t) ← digits? 2 rest
      if 60 ≤ second then none else some (skipFraction t)
    | _ => some t

/-- What follows the distance to universal time, written `Z` or `+hh:mm`. -/
def skipOffset : Text → Option Text
  | 90 :: rest => some rest
  | b :: rest => do
    if b = Text.plus ∨ b = Text.minus then
      let (hour, t) ← digits? 2 rest
      let (minute, t) ← digits? 2 (← expect Text.colon t)
      if 24 < hour ∨ 60 < minute then none else some t
    else none
  | [] => none

/-- Whether a text is a date, a time, or a date and a time, perhaps with an
offset. -/
def isMoment (t : Text) : Bool :=
  match skipDate t with
  | some [] => true
  | some (84 :: rest) =>
    match skipTime rest with
    | some [] => true
    | some rest => skipOffset rest == some []
    | none => false
  | some _ => false
  | none => skipTime t == some []

/-- The value of a date or time.  Letters may be small, and a space may stand
between date and time. -/
def momentValue? (t : Text) : Option Toml :=
  let text := (t.dropTrailing Text.space).map fun b =>
    if b = 122 then 90 else if b = 116 ∨ b = Text.space then 84 else b
  if isMoment text then some (.moment text) else none

/-! ## Cutting out -/

def isFloatByte (b : UInt8) : Bool :=
  Text.isDigitByte b || b == Text.underscore || b == Text.plus ||
    b == Text.minus || isPartMark b

def isMomentByte (b : UInt8) : Bool :=
  Text.isDigitByte b || b == Text.minus || b == Text.colon || b == Text.dot ||
    b == Text.plus
    || b == Text.space || b == 84 || b == 116 || b == 90 || b == 122

def isIntegerByte (b : UInt8) : Bool :=
  Text.isDigitByte b || b == Text.underscore

/-- Cut off the leading bytes that satisfy `p` and give them a value. -/
def cut (p : UInt8 → Bool) (value? : Text → Option Toml) (start t : Text) :
    Option (Toml × Text) :=
  let (more, rest) := t.span p
  (value? (start ++ more)).map fun v => (v, rest)

/-- Read a decimal number behind its sign, which is `start`. -/
def readDecimal (start t : Text) : Option (Toml × Text) :=
  let (digits, rest) := t.span isIntegerByte
  if rest.head?.any isPartMark then
    cut isFloatByte floatValue? (start ++ digits) rest
  else (integerValue? (start ++ digits)).map fun v => (v, rest)

/-- The bytes of an integer whose base has the given letter. -/
def isBaseByte (letter : UInt8) (b : UInt8) : Bool :=
  if letter = 98 then b == 48 || b == 49
  else if letter = 111 then 48 ≤ b && b ≤ 55
  else (Text.hexDigit? b).isSome

/-- Whether a letter behind a zero names a base. -/
def isBaseLetter (b : UInt8) : Bool :=
  b == 98 || b == 111 || b == 120

/-- Read an integer in another base than ten, behind its zero and letter. -/
def readBased (letter : UInt8) (t : Text) : Option (Toml × Text) :=
  if t.head?.any (isBaseByte letter) then
    cut (fun b => isBaseByte letter b || b == Text.underscore) integerValue?
      [Text.zero, letter] t
  else none

/-- Whether at least two digits are followed by a mark of dates and times, or
one digit that is not zero. -/
def startsMoment (t : Text) : Bool :=
  let (digits, rest) := t.span Text.isDigitByte
  digits != [Text.zero] &&
    (rest.head? == some Text.minus || rest.head? == some Text.colon)

/-- Read a value that begins with a digit. -/
def readUnsigned (t : Text) : Option (Toml × Text) :=
  match t with
  | Text.zero :: letter :: rest =>
    if isBaseLetter letter then readBased letter rest
    else if startsMoment t then cut isMomentByte momentValue? [] t
    else readDecimal [] t
  | _ =>
    if startsMoment t then cut isMomentByte momentValue? [] t
      else readDecimal [] t

def readSigned (sign : UInt8) (t : Text) : Option (Toml × Text) :=
  match t with
  | [] => none
  | b :: _ =>
    if Text.isDigitByte b then
      match t with
      | Text.zero :: letter :: _ =>
        if isBaseLetter letter then none else readDecimal [sign] t
      | _ => readDecimal [sign] t
    else (wordValue? (sign :: t.take 3)).map fun v => (v, t.drop 3)

/-- Read `true`, `false`, `inf` or `nan`. -/
def readWord (t : Text) : Option (Toml × Text) :=
  match wordValue? (t.take 3) with
  | some v => some (v, t.drop 3)
  | none =>
    let (name, rest) := t.span Text.isLetterByte
    if name = Text.ofString "true" then some (.boolean true, rest)
    else if name = Text.ofString "false" then some (.boolean false, rest)
    else none

end WordMachine.Toml
