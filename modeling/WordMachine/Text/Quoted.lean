import WordMachine.Text.Printable
import WordMachine.Text.Utf8

/-!
# Quoted text

Messages show offending source text between double quotes.  Printable characters
stand for themselves; quotes and backslashes get a backslash, and everything
else, stray bytes included, is written as an escape, so the quoted form is one
line of printable characters whatever the text holds.
-/

namespace WordMachine.Text

/-- A number in hexadecimal with leading zeros up to `width` digits. -/
def hexPadded (width n : Nat) : Text :=
  padLeft width zero (ofNatHex n)

/-- The quoted form of a well-formed character. -/
def quoteChar (c : Char) : Text :=
  if c = '"' || c = '\\' then backslash :: encodeChar c
  else if isPrintable c then encodeChar c
  else match c.toNat with
    | 7 => ofString "\\a"
    | 8 => ofString "\\b"
    | 9 => ofString "\\t"
    | 10 => ofString "\\n"
    | 11 => ofString "\\v"
    | 12 => ofString "\\f"
    | 13 => ofString "\\r"
    | n =>
      if n < 32 || n = 127 then ofString "\\x" ++ hexPadded 2 n
      else if n < 0x10000 then ofString "\\u" ++ hexPadded 4 n
      else ofString "\\U" ++ hexPadded 8 n

/-- Auxiliary walk of `quoted`; `done` is held in reverse. -/
def quotedFrom : Nat → Text → Text → Text
  | _, [], done => done.reverse
  | owed + 1, _ :: rest, done => quotedFrom owed rest done
  | 0, b :: rest, done =>
    match decodeFirst? b rest with
    | some (c, more) => quotedFrom more rest ((quoteChar c).reverse ++ done)
    | none => quotedFrom 0 rest ((ofString "\\x" ++ hexByte b).reverse ++ done)

/-- The text between double quotes, with escapes. -/
def quoted (t : Text) : Text :=
  quote :: quotedFrom 0 t [] ++ [quote]

end WordMachine.Text
