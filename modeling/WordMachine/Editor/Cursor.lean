import WordMachine.Text.Basic
import WordMachine.Text.CharRanges
import WordMachine.Text.Letter

/-!
# Words around the cursor

An editor tells where the cursor is by line and byte column, both from zero.
Lines end at newlines only, and each byte is classified for itself, as a Latin-1
character.
-/

namespace WordMachine.Editor

structure Cursor where
  line : Nat
  column : Nat
  deriving DecidableEq, Repr

def isWordByte (b : UInt8) : Bool :=
  let c := Char.ofNat b.toNat
  Text.isLetter c || Text.isDecimalDigit c ||
    b == Text.underscore || b == Text.dot

namespace Cursor

/-- The line the cursor is on, divided at the cursor.  A column beyond the end
of the line means its end. -/
def split (cursor : Cursor) (text : Text) : Text × Text :=
  match text.lines[cursor.line]? with
  | some line => (line.take cursor.column, line.drop cursor.column)
  | none => ([], [])

/-- The part of a word that stands before the cursor. -/
def wordBefore (cursor : Cursor) (text : Text) : Text :=
  ((cursor.split text).1.reverse.takeWhile isWordByte).reverse

/-- The word the cursor is on, or right behind. -/
def word (cursor : Cursor) (text : Text) : Text :=
  cursor.wordBefore text ++ (cursor.split text).2.takeWhile isWordByte

end Cursor

def endsToken (b : UInt8) : Bool :=
  b == Text.space || b == Text.tab || b == Text.carriageReturn ||
    b == Text.semicolon
    || b == Text.hash

/-- The column behind the token that starts at a column.  Where no token starts,
everything up to the end of the line counts. -/
def tokenEnd (line : Text) (column : Nat) : Nat :=
  if line.length ≤ column then line.length
  else match (line.drop column).findIdx? endsToken with
    | some (length + 1) => column + (length + 1)
    | _ => line.length

end WordMachine.Editor
