import WordMachine.Machine.Arithmetic
import WordMachine.Machine.Native

/-!
# Executing one instruction

`Machine.step` fetches the instruction at the program counter, checks that its
operands are there, carries it out and moves on.  A failing instruction leaves
the program counter where it is and reports where and in which instruction the
failure arose.
-/

namespace WordMachine

/-- A failure of a running program. -/
structure RuntimeFault where
  pc : Int
  /-- The opcode word of the instruction, zero outside memory. -/
  opcode : Word
  fault : Fault
  deriving DecidableEq, Repr

def RuntimeFault.message (e : RuntimeFault) : Text :=
  Text.ofString "vm: " ++ Opcode.nameOfWord e.opcode ++ Text.ofString " at "
    ++ Text.ofInt e.pc ++ Text.ofString ": " ++ e.fault.message

namespace Machine

/-! ## Shapes of instructions -/

def pushing (m : Machine) (next : Int) (w : Word) : Outcome :=
  match m.push w with
  | .ok m => .proceed m next
  | .error fault => .fail m fault

def unary (m : Machine) (next : Int) (f : Word → Word) : Outcome :=
  match m.stack.words with
  | a :: _ => .proceed { m with stack := m.stack.drop1.push (f a) } next
  | [] => .fail m (.root .stackUnderflow)

/-- Replace two words, the top one first, by the result of an operation. -/
def binary (m : Machine) (next : Int) (f : Word → Word → Word) : Outcome :=
  match m.stack.words with
  | a :: b :: _ => pushing { m with stack := m.stack.drop2 } next (f a b)
  | _ => .fail m (.root .stackUnderflow)

/-- Like `binary`, for an operation that may refuse its operands; the stack is
then left alone. -/
def guarded (m : Machine) (next : Int)
    (f : Word → Word → Except Fault Word) : Outcome :=
  match m.stack.words with
  | a :: b :: _ =>
    match f a b with
    | .ok w => pushing { m with stack := m.stack.drop2 } next w
    | .error fault => .fail m fault
  | _ => .fail m (.root .stackUnderflow)

/-- Go on at an address of memory. -/
def jumping (m : Machine) (target : Word) : Outcome :=
  match m.fetch target with
  | .ok _ => .proceed m target.toInt
  | .error fault => .fail m fault

/-! ## Single instructions -/

/-- Move the top of the stack into memory. -/
def storing (m : Machine) (next : Int) (address : Word) : Outcome :=
  match m.stack.words with
  | w :: _ =>
    match address.index? m.memory.size with
    | some i =>
      .proceed { m with
        memory := m.memory.setIfInBounds i w, stack := m.stack.drop1 } next
    | none => .fail m (.outOfBounds address)
  | [] => .fail m (.root .stackUnderflow)

/-- Hand out the next `size` words of the heap. -/
def allocating (m : Machine) (next : Int) (size : Word) : Outcome :=
  if size < 0 ∨ (m.memory.size : Int) - m.heapTop < size.toInt then
    .fail m (.root .heapExhausted)
  else
    match m.push (Int64.ofNat m.heapTop) with
    | .ok m => .proceed { m with heapTop := m.heapTop + size.toInt.toNat } next
    | .error fault => .fail m fault

/-- Call a native function or an address of memory. -/
def calling (m : Machine) (natives : Natives) (next : Int)
    (target : Word) : Outcome :=
  if NativeAddress.base ≤ target then
    match natives.get? target with
    | some native => native.body m next
    | none => .fail m (.root .unknownNative)
  else
    match m.fetch target with
    | .error fault => .fail m fault
    | .ok _ =>
      if m.calls.depth < m.limits.calls then
        .proceed { m with calls := m.calls.push (Int64.ofInt next) }
          target.toInt
      else .fail m (.root .callStackOverflow)

/-- Resume behind the latest pending call. -/
def returning (m : Machine) : Outcome :=
  match m.calls.words with
  | address :: _ => .proceed { m with calls := m.calls.drop1 } address.toInt
  | [] => .fail m (.root .returnWithoutCall)

/-- Drop a condition and jump if it is true.  The target matters only then, and
the condition stays if the target is bad. -/
def branching (m : Machine) (next : Int) (target : Word) : Outcome :=
  match m.stack.words with
  | condition :: _ =>
    if condition.isTrue then
      match m.fetch target with
      | .ok _ => .proceed { m with stack := m.stack.drop1 } target.toInt
      | .error fault => .fail m fault
    else .proceed { m with stack := m.stack.drop1 } next
  | [] => .fail m (.root .stackUnderflow)

/-- The failure that interrupts an instruction after `work` multiplications, if
there is a reason for one.  Each multiplication counts as an instruction.

The counts are added as natural numbers.  As words their sum could wrap, but
only under a limit above `2 ^ 63 - 1025`. -/
def interruption (m : Machine) (cancelled : Nat → Bool) (work : Nat) :
    Option Fault :=
  if m.limits.steps.any (· ≤ m.count + work) then some (.root .stepLimit)
  else if cancelled work then some (.root .cancelled)
  else none

/-- Carry out an instruction whose operands are known to be on the stack.
`cancelled` tells whether the run has to stop, asked after a number of
multiplications inside the instruction. -/
def execute (natives : Natives) (cancelled : Nat → Bool)
    (m : Machine) (op : Opcode) (immediate : Word) (next : Int) : Outcome :=
  match op with
  | .noop | .free => .proceed m next
  | .halt => .proceed m m.pc
  | .loads => m.pushing next immediate
  | .loadm =>
    match m.fetch immediate with
    | .ok w => m.pushing next w
    | .error fault => .fail m fault
  | .store => m.storing next immediate
  | .alloc => m.allocating next immediate
  | .call => m.calling natives next immediate
  | .ret => m.returning
  | .jump => m.jumping immediate
  | .ifjump => m.branching next immediate
  | .castfi => m.unary next Word.floatToInteger
  | .castif => m.unary next Word.integerToFloat
  | .logicalNot => m.unary next fun a => .ofBool (!a.isTrue)
  | .logicalAnd => m.binary next fun a b => .ofBool (a.isTrue && b.isTrue)
  | .logicalOr => m.binary next fun a b => .ofBool (a.isTrue || b.isTrue)
  | .usubi => m.unary next fun a => -a
  | .usubf => m.unary next Word.flipSign
  | .powi => m.guarded next fun a b =>
    if b < 0 then .error (.root .negativeExponent)
    else .ok (Arithmetic.power a b.toInt.toNat)
  | .powf => m.guarded next fun a b =>
    if b < 0 then .error (.root .negativeExponent)
    else Arithmetic.powf (m.interruption cancelled) a b.toInt.toNat
  | .muli => m.binary next fun a b => a * b
  | .mulf => m.binary next fun a b => .ofFloat (a.toFloat * b.toFloat)
  | .divi => m.guarded next fun a b =>
    if b = 0 then .error (.root .divisionByZero) else .ok (a / b)
  | .divf => m.binary next fun a b => .ofFloat (a.toFloat / b.toFloat)
  | .modi => m.guarded next fun a b =>
    if b = 0 then .error (.root .divisionByZero) else .ok (a % b)
  | .addi => m.binary next fun a b => a + b
  | .addf => m.binary next fun a b => .ofFloat (a.toFloat + b.toFloat)
  | .subi => m.binary next fun a b => a - b
  | .subf => m.binary next fun a b => .ofFloat (a.toFloat - b.toFloat)
  | .lteqi => m.binary next fun a b => .ofBool (a ≤ b)
  | .lteqf => m.binary next fun a b => .ofBool (a.toFloat ≤ b.toFloat)
  | .lti => m.binary next fun a b => .ofBool (a < b)
  | .ltf => m.binary next fun a b => .ofBool (a.toFloat < b.toFloat)
  | .gti => m.binary next fun a b => .ofBool (b < a)
  | .gtf => m.binary next fun a b => .ofBool (b.toFloat < a.toFloat)
  | .gteqi => m.binary next fun a b => .ofBool (b ≤ a)
  | .gteqf => m.binary next fun a b => .ofBool (b.toFloat ≤ a.toFloat)
  | .eqi => m.binary next fun a b => .ofBool (a == b)
  | .eqf => m.binary next fun a b => .ofBool (a.toFloat == b.toFloat)
  | .neqi => m.binary next fun a b => .ofBool (a != b)
  | .neqf => m.binary next fun a b => .ofBool (a.toFloat != b.toFloat)

/-! ## The step -/

/-- The log line for an instruction about to be executed, with the stack from
bottom to top. -/
def traceLine (m : Machine) (op : Opcode) (immediate : Word) : LogLine :=
  let address := Text.padLeft 6 Text.zero (Text.ofInt m.pc)
  let instruction :=
    if op.info.immediate then
      Text.padRight 7 op.name ++ [Text.space] ++
        Text.padRight 20 immediate.toText
    else Text.padRight 28 op.name
  let stack := Text.join [Text.space] (m.stack.bottomFirst.map Word.toText)
  .debug (address ++ Text.ofString "  " ++ instruction ++ Text.ofString " ["
    ++ stack ++ Text.ofString "]")

/-- Log the instruction about to be executed, if the host asked for it. -/
def traced (m : Machine) (op : Opcode) (immediate : Word) : Machine :=
  if m.host.tracing then m.logged (m.traceLine op immediate) else m

/-- The immediate word of an instruction at the program counter; zero if the
opcode takes none. -/
def immediate? (m : Machine) (op : Opcode) : Option Word :=
  if op.info.immediate then m.wordAt? (m.pc + 1) else some 0

/-- Execute the instruction at the program counter. -/
def step (natives : Natives) (cancelled : Nat → Bool) (m : Machine) :
    Machine × Option RuntimeFault :=
  let pc := m.pc
  match m.wordAt? pc with
  | none => (m, some ⟨pc, 0, .root .addressOutOfBounds⟩)
  | some w =>
    match Opcode.ofWord? w with
    | none => (m, some ⟨pc, w, .root .unknownOpcode⟩)
    | some op =>
      match m.immediate? op with
      | none => (m, some ⟨pc, w, .root .addressOutOfBounds⟩)
      | some immediate =>
        if m.stack.depth < op.info.pops then
          (m, some ⟨pc, w, .root .stackUnderflow⟩)
        else
          match execute natives cancelled (m.traced op immediate) op immediate
              (pc + op.width) with
          | .proceed m next =>
            ({ m with pc := next, count := m.count + 1 }, none)
          | .fail m fault => (m, some ⟨pc, w, fault⟩)

end Machine

end WordMachine
