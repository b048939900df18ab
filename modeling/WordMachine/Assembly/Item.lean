import WordMachine.Numeral
import WordMachine.Opcode

/-!
# Programs as lists of items

A parsed program is the list of what its source declares, in source order:
labels, instructions and data.  Every item and every operand knows where it was
written.
-/

namespace WordMachine.Assembly

/-- A place in a source.  Lines and columns count from one, columns in bytes. -/
structure Position where
  file : Text
  line : Int
  column : Int
  deriving DecidableEq, Repr

/-- The usual form of a position; the file is left out if it has no name. -/
def Position.text (p : Position) : Text :=
  (if p.file.isEmpty then [] else p.file ++ [Text.colon])
    ++ Text.ofInt p.line ++ Text.colon :: Text.ofInt p.column

/-- How the operand of an instruction was written. -/
inductive Operand.Value where
  | numeral (n : Numeral)
  | name (name : Text)
  deriving DecidableEq, Repr

structure Operand where
  pos : Position
  value : Operand.Value
  deriving DecidableEq, Repr

inductive Item.Form where
  /-- Names the address of the next word. -/
  | label
  | instruction (operand : Option Operand)
  /-- A data word. -/
  | data (value : Numeral)
  /-- A string, written with its quotes. -/
  | string (literal : Text)
  /-- No form the assembler knows. -/
  | unknown
  deriving DecidableEq, Repr

/-- One element of a program. -/
structure Item where
  pos : Position
  /-- The name of a label or the mnemonic of an instruction. -/
  name : Text := []
  form : Item.Form
  deriving DecidableEq, Repr

/-- The names of the kinds of items, by number. -/
def Item.kindName (kind : Int) : Text :=
  let names := ["label", "instruction", "integer", "float", "string"]
  match if 0 ≤ kind then names[kind.toNat]? else none with
  | some name => Text.ofString name
  | none => Text.ofString "Kind(" ++ Text.ofInt kind ++ Text.ofString ")"

def Item.label? (it : Item) : Option Text :=
  match it.form with
  | .label => some it.name
  | _ => none

def Item.operand? (it : Item) : Option Operand :=
  match it.form with
  | .instruction operand => operand
  | _ => none

structure Program where
  name : Text
  items : List Item := []
  deriving DecidableEq, Repr

end WordMachine.Assembly
