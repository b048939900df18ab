import WordMachine.Assembly.Problem
import WordMachine.NameTable
import WordMachine.StringLiteral

/-!
# Emission

The second pass encodes each item into words, one after the other, and looks up
the names in operands.
-/

namespace WordMachine.Assembly

def numeralWord : Numeral → Word
  | .integer value => value
  | .float bits => bits

def Operand.word (table : NameTable) (o : Operand) : Except Problem Word :=
  match o.value with
  | .numeral n => .ok (numeralWord n)
  | .name name =>
    match table.get? name with
    | some address => .ok address
    | none => .error ⟨o.pos, .undefinedLabel, name⟩

def encodeInstruction (table : NameTable) (pos : Position) (mnemonic : Text)
    (operand : Option Operand) : Except Problem (List Word) :=
  match Opcode.ofName? mnemonic with
  | none => .error ⟨pos, .unknownMnemonic, mnemonic⟩
  | some op =>
    match op.info.immediate, operand with
    | false, none => .ok [op.code]
    | false, some o =>
      .error ⟨o.pos, .invalidOperand,
        mnemonic ++ Text.ofString " takes no operand"⟩
    | true, none =>
      .error ⟨pos, .invalidOperand,
        mnemonic ++ Text.ofString " expects an operand"⟩
    | true, some o => (o.word table).map fun immediate => [op.code, immediate]

/-- The words of an item, or the problem with it. -/
def Item.encode (table : NameTable) (it : Item) : Except Problem (List Word) :=
  match it.form with
  | .label | .unknown => .ok []
  | .data n => .ok [numeralWord n]
  | .string literal =>
    match StringLiteral.encode literal with
    | .ok words => .ok words
    | .error fault => .error ⟨it.pos, .malformedSource, fault.message⟩
  | .instruction operand => encodeInstruction table it.pos it.name operand

/-- The code emitted and the problems met. -/
structure Emission where
  code : Array Word := #[]
  problems : List Problem := []

/-- Emit items behind `code`; `problems` holds those met before, in reverse.

The pass gives up after the item that fills the list.  A malformed string is the
exception: it is reported only while there is room, and the pass goes on to the
next item. -/
def emitFrom (table : NameTable) :
    List Item → Array Word → List Problem → Emission
  | [], code, problems => ⟨code, problems.reverse⟩
  | it :: rest, code, problems =>
    match it.encode table with
    | .ok words =>
      if isFull problems then ⟨code ++ words, problems.reverse⟩
      else emitFrom table rest (code ++ words) problems
    | .error problem =>
      match it.form with
      | .string _ =>
        emitFrom table rest code
          (if isFull problems then problems else problem :: problems)
      | _ =>
        if isFull (problem :: problems) then
          ⟨code, (problem :: problems).reverse⟩
        else emitFrom table rest code (problem :: problems)

def Program.emit (p : Program) (table : NameTable) : Emission :=
  emitFrom table p.items #[] []

end WordMachine.Assembly
