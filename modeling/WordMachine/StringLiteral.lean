import WordMachine.Fault

/-!
# Strings in memory

A string occupies one word for each of its characters, then a zero word, and one
more zero word if that makes the number of words even.  A string literal is
written between double quotes, with backslash escapes for the characters that
cannot stand in it.

Main definitions:

* `StringLiteral.encode` turns a literal into words;
* `StringLiteral.decode` reads the characters stored at an address.
-/

namespace WordMachine.StringLiteral

/-- Why a text is not a string literal. -/
inductive Defect where
  | missingQuotes
  | danglingBackslash
  | unknownEscape (c : Char)
  | unescapedQuote
  deriving DecidableEq, Repr

def Defect.message : Defect → Text
  | .missingQuotes => Text.ofString "missing quotes"
  | .danglingBackslash => Text.ofString "dangling backslash"
  | .unknownEscape c => Text.ofString "unknown escape \\" ++ Text.encodeChar c
  | .unescapedQuote => Text.ofString "unescaped quote"

/-- The character that a backslash followed by `c` stands for. -/
def escape? : Char → Option Char
  | 'n' => some '\n'
  | '\\' => some '\\'
  | '"' => some '"'
  | 'r' => some '\r'
  | 't' => some '\t'
  | 'v' => some (Char.ofNat 11)
  | _ => none

/-- What stands between the quotes of a literal. -/
def body? (literal : Text) : Option Text :=
  match literal with
  | Text.quote :: rest =>
    if rest.getLast? = some Text.quote then some rest.dropLast else none
  | _ => none

/-- Resolve the escapes in the body of a literal; `done` is held in reverse. -/
def unescapeFrom : List Char → List Char → Except Defect (List Char)
  | [], done => .ok done.reverse
  | '\\' :: [], _ => .error .danglingBackslash
  | '\\' :: c :: rest, done =>
    match escape? c with
    | some e => unescapeFrom rest (e :: done)
    | none => .error (.unknownEscape c)
  | c :: rest, done =>
    if c = '"' then .error .unescapedQuote else unescapeFrom rest (c :: done)

/-- The characters a literal stands for. -/
def unescape (literal : Text) : Except Defect (List Char) :=
  match body? literal with
  | some body => unescapeFrom body.chars []
  | none => .error .missingQuotes

/-- The zero words behind `length` characters: one ends the string, and a second
one makes the number of words even. -/
def terminator (length : Nat) : List Word :=
  if length % 2 = 0 then [0, 0] else [0]

def layout (cs : List Char) : List Word :=
  cs.map Word.ofChar ++ terminator cs.length

/-- The failure for a text that is not a literal. -/
def fault (literal : Text) (defect : Defect) : Fault :=
  .detailed (.detailed (.root .malformedString) literal) defect.message

/-- The words a string literal stands for. -/
def encode (literal : Text) : Except Fault (List Word) :=
  match unescape literal with
  | .ok cs => .ok (layout cs)
  | .error defect => .error (fault literal defect)

def size (literal : Text) : Except Fault Nat :=
  (encode literal).map List.length

/-- Walk over the words of a string from the address `p`; `done` holds what was
read so far, in reverse. -/
def decodeFrom (memory : Array Word) (start : Word) (p : Nat)
    (done : List Char) :
    Text × Option Fault :=
  if inside : p < memory.size then
    let w := memory[p]
    if w = 0 then (Text.ofChars done.reverse, none)
    else decodeFrom memory start (p + 1) (w.toChar :: done)
  else (Text.ofChars done.reverse, some (pastEnd (Int64.ofNat p)))
termination_by memory.size - p
where
  /-- The failure for a string that is not ended inside memory. -/
  pastEnd (stop : Word) : Fault :=
    .detailed (.root .addressOutOfBounds)
      (Text.ofString "string at " ++ start.toText
        ++ Text.ofString " runs past address " ++ stop.toText)

/-- The string stored at an address, as UTF-8.  If it is not ended inside
memory, a failure comes with what could be read. -/
def decode (memory : Array Word) (address : Word) : Text × Option Fault :=
  match address.index? memory.size with
  | some p => decodeFrom memory address p []
  | none => ([], some (decodeFrom.pastEnd address address))

end WordMachine.StringLiteral
