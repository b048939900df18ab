import WordMachine.Json.Basic
import WordMachine.Text.Utf8

/-!
# Reading JSON

A reader by recursive descent.  Every call that goes deeper or to a further
element passes on less fuel, and each of them has consumed a byte first, so
twice the length of the text is always enough.
-/

namespace WordMachine.Json

def skipBlanks (t : Text) : Text :=
  t.dropWhile fun b => b == 32 || b == 9 || b == 10 || b == 13

/-- The value of four hexadecimal digits and what follows them. -/
def hexUnit? : Text → Option (Nat × Text)
  | a :: b :: c :: d :: rest => do
    let a ← Text.hexDigit? a
    let b ← Text.hexDigit? b
    let c ← Text.hexDigit? c
    let d ← Text.hexDigit? d
    return (a * 4096 + b * 256 + c * 16 + d, rest)
  | _ => none

/-- The character of an escape `\u` whose first unit is `unit`; two halves of a
surrogate pair make one character, and a half alone the replacement
character. -/
def escapedChar (unit : Nat) (rest : Text) : Char × Text :=
  if 0xD800 ≤ unit && unit ≤ 0xDBFF then
    match rest with
    | 92 :: 117 :: more =>
      match hexUnit? more with
      | some (low, after) =>
        if 0xDC00 ≤ low && low ≤ 0xDFFF then
          (Char.ofNat (0x10000 + (unit - 0xD800) * 1024 + (low - 0xDC00)),
            after)
        else (Text.replacement, rest)
      | none => (Text.replacement, rest)
    | _ => (Text.replacement, rest)
  else if 0xDC00 ≤ unit && unit ≤ 0xDFFF then (Text.replacement, rest)
  else (Char.ofNat unit, rest)

/-- The byte that a one-letter escape stands for. -/
def simpleEscape? : UInt8 → Option UInt8
  | 34 => some 34
  | 92 => some 92
  | 47 => some 47
  | 98 => some 8
  | 102 => some 12
  | 110 => some 10
  | 114 => some 13
  | 116 => some 9
  | _ => none

/-- Read the rest of a string behind its opening quote; `done` is held in
reverse. -/
def readString (fuel : Nat) (t done : Text) : Option (Text × Text) :=
  match fuel, t with
  | 0, _ => none
  | _ + 1, [] => none
  | fuel + 1, b :: rest =>
    if b = 34 then some (done.reverse, rest)
    else if b = 92 then
      match rest with
      | 117 :: more =>
        match hexUnit? more with
        | some (unit, after) =>
          let (c, after) := escapedChar unit after
          readString fuel after ((Text.encodeChar c).reverse ++ done)
        | none => none
      | e :: more =>
        match simpleEscape? e with
        | some byte => readString fuel more (byte :: done)
        | none => none
      | [] => none
    else if b < 32 then none
    else readString fuel rest (b :: done)

def isNumberByte (b : UInt8) : Bool :=
  Text.isDigitByte b || b == 43 || b == 45 || b == 46 || b == 69 || b == 101

/-- What follows `word` in `t`, if `t` begins with it. -/
def keyword? (word : String) (value : Json) (t : Text) : Option (Json × Text) :=
  (Text.afterPrefix? (Text.ofString word) t).map fun rest => (value, rest)

mutual

/-- Read one value, white space before it included. -/
def readValue : Nat → Text → Option (Json × Text)
  | 0, _ => none
  | fuel + 1, t =>
    match skipBlanks t with
    | [] => none
    | b :: rest =>
      if b = 34 then (readString (rest.length + 1) rest []).map fun (s,
        after) => (.string s, after)
      else if b = 91 then
        match skipBlanks rest with
        | 93 :: after => some (.array [], after)
        | _ => readElements fuel rest []
      else if b = 123 then
        match skipBlanks rest with
        | 125 :: after => some (.object [], after)
        | _ => readMembers fuel rest []
      else if b = 110 then keyword? "null" .null (b :: rest)
      else if b = 116 then keyword? "true" (.bool true) (b :: rest)
      else if b = 102 then keyword? "false" (.bool false) (b :: rest)
      else if isNumberByte b then
        let (literal, after) := (b :: rest).span isNumberByte
        some (.number literal, after)
      else none

/-- Read the elements of an array up to its closing bracket. -/
def readElements : Nat → Text → List Json → Option (Json × Text)
  | 0, _, _ => none
  | fuel + 1, t, done =>
    match readValue fuel t with
    | none => none
    | some (value, rest) =>
      match skipBlanks rest with
      | 44 :: after => readElements fuel after (value :: done)
      | 93 :: after => some (.array (value :: done).reverse, after)
      | _ => none

/-- Read the members of an object up to its closing brace. -/
def readMembers : Nat → Text → List (Text × Json) → Option (Json × Text)
  | 0, _, _ => none
  | fuel + 1, t, done =>
    match skipBlanks t with
    | 34 :: rest =>
      match readString (rest.length + 1) rest [] with
      | none => none
      | some (name, rest) =>
        match skipBlanks rest with
        | 58 :: rest =>
          match readValue fuel rest with
          | none => none
          | some (value, rest) =>
            match skipBlanks rest with
            | 44 :: after => readMembers fuel after ((name, value) :: done)
            | 125 :: after =>
              some (.object ((name, value) :: done).reverse, after)
            | _ => none
        | _ => none
    | _ => none

end

/-- Read a text that holds one JSON value and nothing else. -/
def read? (t : Text) : Option Json :=
  match readValue (2 * t.length + 2) t with
  | some (value, rest) => if (skipBlanks rest).isEmpty then some value else none
  | none => none

end WordMachine.Json
