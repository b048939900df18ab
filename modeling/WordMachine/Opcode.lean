import WordMachine.Word

/-!
# The instruction set

An instruction is one opcode word, followed by one immediate word for the
opcodes that take an operand.  The order of the constructors is the numeric
encoding, and `Opcode.info` is the only description of an opcode: the assembler,
the listing, the machine's operand check and the editor all read it.
-/

namespace WordMachine

/-- The operations of the machine, in the order of their codes. -/
inductive Opcode where
  | noop | loads | loadm | store | alloc | free | call | ret
  | ifjump | jump | castfi | castif | logicalNot | logicalAnd | logicalOr
  | usubi | usubf | powi | powf | muli | mulf | divi | divf | modi
  | addi | addf | subi | subf | lteqi | lteqf | lti | ltf
  | gti | gtf | gteqi | gteqf | eqi | eqf | neqi | neqf
  | halt
  deriving DecidableEq, Repr

namespace Opcode

/-- What the instruction set says about an opcode. -/
structure Info where
  /-- The mnemonic. -/
  name : String
  /-- Whether an immediate word follows the opcode. -/
  immediate : Bool
  /-- Operands taken from the stack; the machine checks for them first. -/
  pops : Nat
  /-- Results left on the stack. -/
  pushes : Nat
  /-- One line of documentation. -/
  doc : String
  deriving DecidableEq, Repr

/-- The instruction set. -/
def info : Opcode → Info
  | .noop => ⟨"noop", false, 0, 0, "no operation"⟩
  | .loads => ⟨"loads", true, 0, 1, "push the immediate value"⟩
  | .loadm => ⟨"loadm", true, 0, 1, "push memory[addr]"⟩
  | .store => ⟨"store", true, 1, 0, "pop a value into memory[addr]"⟩
  | .alloc =>
    ⟨"alloc", true, 0, 1, "push the heap top, then grow the heap by n words"⟩
  | .free =>
    ⟨"free", true, 0, 0, "release memory (no-op: the heap is never reclaimed)"⟩
  | .call => ⟨"call", true, 0, 0, "call a user address or a native function"⟩
  | .ret => ⟨"return", false, 0, 0, "resume after the matching call"⟩
  | .ifjump =>
    ⟨"ifjump", true, 1, 0, "pop a condition, jump to addr if nonzero"⟩
  | .jump => ⟨"jump", true, 0, 0, "jump to addr"⟩
  | .castfi => ⟨"castfi", false, 1, 1, "convert float to int"⟩
  | .castif => ⟨"castif", false, 1, 1, "convert int to float"⟩
  | .logicalNot => ⟨"not", false, 1, 1, "logical not"⟩
  | .logicalAnd => ⟨"and", false, 2, 1, "logical and"⟩
  | .logicalOr => ⟨"or", false, 2, 1, "logical or"⟩
  | .usubi => ⟨"usubi", false, 1, 1, "integer negation"⟩
  | .usubf => ⟨"usubf", false, 1, 1, "float negation"⟩
  | .powi => ⟨"powi", false, 2, 1, "integer power: a ** b"⟩
  | .powf => ⟨"powf", false, 2, 1, "float power with integer exponent: a ** b"⟩
  | .muli => ⟨"muli", false, 2, 1, "integer multiply"⟩
  | .mulf => ⟨"mulf", false, 2, 1, "float multiply"⟩
  | .divi => ⟨"divi", false, 2, 1, "integer divide: a / b"⟩
  | .divf => ⟨"divf", false, 2, 1, "float divide: a / b"⟩
  | .modi => ⟨"modi", false, 2, 1, "integer remainder: a % b"⟩
  | .addi => ⟨"addi", false, 2, 1, "integer add"⟩
  | .addf => ⟨"addf", false, 2, 1, "float add"⟩
  | .subi => ⟨"subi", false, 2, 1, "integer subtract: a - b"⟩
  | .subf => ⟨"subf", false, 2, 1, "float subtract: a - b"⟩
  | .lteqi => ⟨"lteqi", false, 2, 1, "integer a <= b"⟩
  | .lteqf => ⟨"lteqf", false, 2, 1, "float a <= b"⟩
  | .lti => ⟨"lti", false, 2, 1, "integer a < b"⟩
  | .ltf => ⟨"ltf", false, 2, 1, "float a < b"⟩
  | .gti => ⟨"gti", false, 2, 1, "integer a > b"⟩
  | .gtf => ⟨"gtf", false, 2, 1, "float a > b"⟩
  | .gteqi => ⟨"gteqi", false, 2, 1, "integer a >= b"⟩
  | .gteqf => ⟨"gteqf", false, 2, 1, "float a >= b"⟩
  | .eqi => ⟨"eqi", false, 2, 1, "integer a == b"⟩
  | .eqf => ⟨"eqf", false, 2, 1, "float a == b"⟩
  | .neqi => ⟨"neqi", false, 2, 1, "integer a != b"⟩
  | .neqf => ⟨"neqf", false, 2, 1, "float a != b"⟩
  | .halt => ⟨"end", false, 0, 0, "halt"⟩

/-- All opcodes in the order of their codes. -/
def all : Array Opcode :=
  #[.noop, .loads, .loadm, .store, .alloc, .free, .call, .ret, .ifjump,
    .jump, .castfi, .castif, .logicalNot, .logicalAnd, .logicalOr, .usubi,
    .usubf, .powi, .powf, .muli, .mulf, .divi, .divf, .modi, .addi, .addf,
    .subi, .subf, .lteqi, .lteqf, .lti, .ltf, .gti, .gtf, .gteqi, .gteqf, .eqi,
    .eqf, .neqi, .neqf, .halt]

def code (op : Opcode) : Word :=
  Int64.ofNat op.ctorIdx

def ofWord? (w : Word) : Option Opcode :=
  (w.index? all.size).bind fun i => all[i]?

def name (op : Opcode) : Text :=
  Text.ofString op.info.name

/-- The opcode with the given mnemonic; the case of letters counts. -/
def ofName? (name : Text) : Option Opcode :=
  all.find? fun op => op.name == name

/-- All mnemonics in alphabetical order. -/
def names : List Text :=
  Text.sorted (all.toList.map Opcode.name)

/-- How many words an instruction with this opcode occupies. -/
def width (op : Opcode) : Nat :=
  if op.info.immediate then 2 else 1

/-- Whether the immediate is an address that control may pass to. -/
def isJump : Opcode → Bool
  | .jump | .ifjump | .call => true
  | _ => false

/-- Whether the immediate is an address of code or data. -/
def hasAddress : Opcode → Bool
  | .loadm | .store => true
  | op => op.isJump

/-- The mnemonic of an opcode word, or the number itself if it has none. -/
def nameOfWord (w : Word) : Text :=
  match ofWord? w with
  | some op => op.name
  | none => Text.ofString "UNKNOWN(" ++ w.toText ++ Text.ofString ")"

end Opcode

end WordMachine
