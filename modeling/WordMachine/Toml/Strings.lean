import WordMachine.Toml.Basic

/-!
# TOML strings

Strings in double quotes have escapes and strings in single quotes have none.
Three quotes open a string that may run over several lines: a line break right
behind them is dropped, and up to two quotes may stand at the end of the text,
or three behind an escaped backslash.

Every reader gets the text behind the opening quotes and gives back the string
and what follows the closing quotes.
-/

namespace WordMachine.Toml

@[match_pattern] abbrev apostrophe : UInt8 := 39

def isLineEnd (b : UInt8) : Bool :=
  b == Text.newline || b == Text.carriageReturn

/-- A byte that may stand between the parts of a line. -/
def isBlankByte (b : UInt8) : Bool :=
  b == Text.space || b == Text.tab

def skipBlanks (t : Text) : Text :=
  t.dropWhile isBlankByte

/-- The byte that a one-letter escape stands for. -/
def escapedByte? : UInt8 → Option UInt8
  | 34 => some 34
  | 92 => some 92
  | 98 => some 8
  | 101 => some 27
  | 102 => some 12
  | 110 => some 10
  | 114 => some 13
  | 116 => some 9
  | _ => none

def hexValue? (digits : Text) : Option Nat :=
  digits.foldlM (fun n b => (Text.hexDigit? b).map (16 * n + ·)) 0

/-- The character given by `count` hexadecimal digits, and what follows them. -/
def codePoint? (count : Nat) (t : Text) : Option (Text × Text) :=
  if t.length < count then none
  else do
    let n ← hexValue? (t.take count)
    if n.isValidChar then
      some (Text.encodeChar (Char.ofNat n), t.drop count) else none

/-- What an escape stands for, read behind its backslash, and what follows
it. -/
def readEscape : Text → Option (Text × Text)
  | [] => none
  | 120 :: rest => codePoint? 2 rest
  | 117 :: rest => codePoint? 4 rest
  | 85 :: rest => codePoint? 8 rest
  | b :: rest => (escapedByte? b).map fun byte => ([byte], rest)

/-- Read a string in double quotes; `done` is held in reverse. -/
def readBasic : (fuel : Nat) → Text → (done : Text) → Option (Text × Text)
  | 0, _, _ => none
  | _ + 1, [], _ => none
  | fuel + 1, b :: rest, done =>
    if b = Text.quote then some (done.reverse, rest)
    else if b = Text.backslash then
      match readEscape rest with
      | some (bytes, after) => readBasic fuel after (bytes.reverse ++ done)
      | none => none
    else if isLineEnd b then none
    else readBasic fuel rest (b :: done)

/-- Read a string in single quotes. -/
def readLiteral (t : Text) : Option (Text × Text) :=
  let (content, rest) := t.span fun b => b != apostrophe && !isLineEnd b
  match rest with
  | apostrophe :: after => some (content, after)
  | _ => none

/-- How many quotes close a string over several lines. -/
def closingQuotes : Nat := 3

/-- How many quotes may stand at its end, the closing ones included. -/
def mostQuotes (behindBackslash : Bool) : Nat :=
  if behindBackslash then 6 else 5

/-- Read a string over several lines; `done` is held in reverse.  With single
quotes a backslash means nothing special; otherwise one at the end of a line
takes away the line break and all blanks behind it.  `behindBackslash` says that
an escaped backslash came right before. -/
def readLong (mark : UInt8) :
    (fuel : Nat) → (behindBackslash : Bool) → Text → (done : Text) →
      Option (Text × Text)
  | 0, _, _, _ => none
  | _ + 1, _, [], _ => none
  | fuel + 1, behindBackslash, b :: rest, done =>
    if b = mark then
      let (more, after) := rest.span (· == mark)
      let quotes := more.length + 1
      if quotes < closingQuotes then
        readLong mark fuel false after (List.replicate quotes mark ++ done)
      else if mostQuotes behindBackslash < quotes then none
      else some ((List.replicate (quotes - closingQuotes) mark ++ done).reverse,
        after)
    else if b = Text.backslash && mark == Text.quote then
      let (gap, after) := rest.span fun c => isBlankByte c || isLineEnd c
      if gap.isEmpty then
        match readEscape rest with
        | some (bytes, after) =>
          readLong mark fuel (rest.head? == some Text.backslash) after
            (bytes.reverse ++ done)
        | none => none
      else if gap.contains Text.newline then readLong mark fuel false after done
      else none
    else readLong mark fuel false rest (b :: done)

/-- `t` without a line break at its front. -/
def skipLineBreak : Text → Text
  | Text.newline :: rest => rest
  | Text.carriageReturn :: Text.newline :: rest => rest
  | t => t

/-- Read a string value, opening quotes included. -/
def readString : Text → Option (Text × Text)
  | 34 :: 34 :: 34 :: rest =>
    let content := skipLineBreak rest
    readLong Text.quote (content.length + 1) false content []
  | 34 :: rest => readBasic (rest.length + 1) rest []
  | 39 :: 39 :: 39 :: rest =>
    let content := skipLineBreak rest
    readLong apostrophe (content.length + 1) false content []
  | 39 :: rest => readLiteral rest
  | _ => none

def readKeyPart : Text → Option (Text × Text)
  | 34 :: rest => readBasic (rest.length + 1) rest []
  | 39 :: rest => readLiteral rest
  | t =>
    let (name, rest) := t.span isBareByte
    if name.isEmpty then none else some (name, rest)

/-- Read a dotted key with the blanks around its parts; the parts in `done` are
held in reverse. -/
def readKeyFrom : (fuel : Nat) → Text → (done : Key) → Option (Key × Text)
  | 0, _, _ => none
  | fuel + 1, t, done =>
    match readKeyPart (skipBlanks t) with
    | none => none
    | some (part, rest) =>
      match skipBlanks rest with
      | Text.dot :: after => readKeyFrom fuel after (part :: done)
      | after => some ((part :: done).reverse, after)

/-- Read a dotted key with the blanks around its parts. -/
def readKey (t : Text) : Option (Key × Text) :=
  readKeyFrom (t.length + 1) t []

end WordMachine.Toml
