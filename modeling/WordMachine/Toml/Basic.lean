import WordMachine.Text.Utf8
import WordMachine.Word

/-!
# TOML values

A document is a table of named values.  A table that was opened with double
brackets is a list of tables, to which further ones are added; it is kept apart
from an array written as a value.
-/

namespace WordMachine

/-- A TOML value.  Floating-point numbers are held as their bits, and of dates
and times only the spelling is kept. -/
inductive Toml where
  | string (text : Text)
  | integer (value : Word)
  | float (value : Word)
  | boolean (value : Bool)
  | moment (text : Text)
  | array (elements : List Toml)
  | table (entries : List (Text × Toml))
  | tables (elements : List (List (Text × Toml)))

namespace Toml

/-- The entries of a table, in the order in which their names first appeared. -/
abbrev Table := List (Text × Toml)

/-- A dotted key. -/
abbrev Key := List Text

/-- A byte that may stand in a key without quotes. -/
def isBareByte (b : UInt8) : Bool :=
  Text.isLetterByte b || Text.isDigitByte b || b == Text.underscore ||
    b == Text.minus

/-- The escaped form of a byte inside a quoted string. -/
def escapeByte (b : UInt8) : Text :=
  if b = Text.quote ∨ b = Text.backslash then [Text.backslash, b]
  else if b = 8 then Text.ofString "\\b"
  else if b = Text.tab then Text.ofString "\\t"
  else if b = Text.newline then Text.ofString "\\n"
  else if b = 12 then Text.ofString "\\f"
  else if b = Text.carriageReturn then Text.ofString "\\r"
  else if b < 32 ∨ b = 127 then Text.ofString "\\u00" ++ Text.hexByte b
  else [b]

def quoted (t : Text) : Text :=
  Text.quote :: t.flatMap escapeByte ++ [Text.quote]

/-- A part of a key, in quotes unless it can do without. -/
def keyPart (t : Text) : Text :=
  if !t.isEmpty && t.all isBareByte then t else quoted t

def keyText (key : Key) : Text :=
  Text.join [Text.dot] (key.map keyPart)

end Toml

end WordMachine
