import WordMachine.Machine.Stack
import WordMachine.Opcode
import WordMachine.Output.Sink

/-!
# Machine states

A machine has word-addressed memory, a program counter, a heap that only grows,
an operand stack and a call stack.  The part the host looks after, output, log
and the request to stop, is kept apart in `Host`.

The program counter is an integer that need not point into memory; the machine
finds out when it fetches an instruction.
-/

namespace WordMachine

/-- How much a program may use. -/
structure Limits where
  /-- The greatest depth of the operand stack. -/
  stack : Nat := 4096
  /-- The greatest depth of the call stack. -/
  calls : Nat := 1024
  /-- The number of instructions after which a run stops, if there is one. -/
  steps : Option Nat := none
  deriving DecidableEq, Repr

inductive LogLine where
  | info (text : Text)
  | debug (text : Text)
  deriving DecidableEq, Repr

/-- What the host provides to a machine. -/
structure Host where
  /-- Where native functions write to. -/
  output : Sink := {}
  /-- The lines logged so far. -/
  log : Array LogLine := #[]
  /-- Whether every instruction is logged. -/
  tracing : Bool := false
  /-- Whether somebody asked running programs to stop. -/
  cancelled : Bool := false

/-- The state of a machine. -/
structure Machine where
  memory : Array Word
  pc : Int := 0
  /-- The first address not yet handed out. -/
  heapTop : Nat := 0
  stack : Stack := .empty
  /-- Where to resume after the pending calls, the latest first. -/
  calls : Stack := .empty
  /-- The number of instructions executed since the program was loaded. -/
  count : Nat := 0
  limits : Limits := {}
  host : Host := {}

namespace Machine

/-- The memory size of a machine that was not told otherwise. -/
def defaultMemorySize : Nat := 65536

def wordAt? (m : Machine) (address : Int) : Option Word :=
  if 0 ≤ address then m.memory[address.toNat]? else none

/-- The opcode word at the program counter, zero outside memory. -/
def currentWord (m : Machine) : Word :=
  (m.wordAt? m.pc).getD 0

/-- Whether the program counter is on an instruction that ends the program. -/
def isHalted (m : Machine) : Bool :=
  m.wordAt? m.pc == some Opcode.halt.code

def fetch (m : Machine) (address : Word) : Except Fault Word :=
  match m.wordAt? address.toInt with
  | some w => .ok w
  | none => .error (.outOfBounds address)

def push (m : Machine) (w : Word) : Except Fault Machine :=
  if m.stack.depth < m.limits.stack then .ok { m with stack := m.stack.push w }
  else .error (.root .stackOverflow)

def pop (m : Machine) : Except Fault (Word × Machine) :=
  match m.stack.words with
  | [] => .error (.root .stackUnderflow)
  | w :: _ => .ok (w, { m with stack := m.stack.drop1 })

def logged (m : Machine) (line : LogLine) : Machine :=
  { m with host := { m.host with log := m.host.log.push line } }

def withOutput (m : Machine) (sink : Sink) : Machine :=
  { m with host := { m.host with output := sink } }

/-- Fill memory with a program and zeros, and start over: empty stacks, the heap
right behind the program, the program counter and the count at zero. -/
def load (m : Machine) (program : Array Word) : Except Fault Machine :=
  if program.size ≤ m.memory.size then
    let free := m.memory.size - program.size
    .ok <| logged
      { m with
        memory := program ++ Array.replicate free 0
        heapTop := program.size
        pc := 0
        stack := .empty
        calls := .empty
        count := 0 }
      (.info (Text.ofString "loaded " ++ Text.ofNat program.size ++
        Text.ofString " words, "
        ++ Text.ofNat free ++ Text.ofString " words free"))
  else
    .error <| .within (Text.ofString "vm") <| .detailed (.root .programTooLarge)
      (Text.ofNat program.size ++ Text.ofString " words, memory is "
        ++ Text.ofNat m.memory.size ++ Text.ofString " words")

end Machine

end WordMachine
