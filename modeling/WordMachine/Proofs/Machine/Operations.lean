import WordMachine.Machine.Printf
import WordMachine.Machine.Step

/-!
# Instructions by what they do

Thirty of the instructions compute: they replace one or two words on top of the
stack by a result.  The others move data or control.  `Machine.operation` sorts
the instructions accordingly and `Machine.execute_eq` says that nothing else
depends on the opcode, so that a property of all instructions needs one argument
for each kind of computation and one for each of the others.
-/

namespace WordMachine

/-! ## Addresses of memory -/

theorem Word.index?_lt {w : Word} {size i : Nat}
    (found : w.index? size = some i) :
    i < size := by
  grind [Word.index?]

namespace Machine

theorem wordAt?_toInt (m : Machine) (address : Word) :
    m.wordAt? address.toInt =
      (address.index? m.memory.size).bind (m.memory[·]?) := by
  grind [wordAt?, Word.index?]

theorem wordAt?_eq_none_iff (m : Machine) (address : Int) :
    m.wordAt? address = none ↔ address < 0 ∨ m.memory.size ≤ address := by
  grind [wordAt?]

theorem bounds_of_wordAt? {m : Machine} {address : Int} {w : Word}
    (found : m.wordAt? address = some w) :
    0 ≤ address ∧ address < m.memory.size := by
  have outside := wordAt?_eq_none_iff m address
  simp only [found, reduceCtorEq, false_iff] at outside
  omega

theorem bounds_of_fetch {m : Machine} {address w : Word}
    (fetched : m.fetch address = .ok w) :
    0 ≤ address.toInt ∧ address.toInt < m.memory.size := by
  unfold fetch at fetched
  split at fetched
  next found => exact bounds_of_wordAt? found
  next => cases fetched

end Machine

/-! ## Kinds of instructions -/

/-- What an instruction does with the operand stack. -/
inductive Operation where
  /-- Replace the top word. -/
  | unary (f : Word → Word)
  /-- Replace the two top words, or refuse them. -/
  | binary (f : Word → Word → Except Fault Word)
  /-- Move data or control. -/
  | transfer

namespace Machine

/-- The kind of an instruction, with the function that it computes. -/
def operation (cancelled : Nat → Bool) (m : Machine) : Opcode → Operation
  | .castfi => .unary Word.floatToInteger
  | .castif => .unary Word.integerToFloat
  | .logicalNot => .unary fun a => .ofBool (!a.isTrue)
  | .logicalAnd => .binary fun a b => .ok (.ofBool (a.isTrue && b.isTrue))
  | .logicalOr => .binary fun a b => .ok (.ofBool (a.isTrue || b.isTrue))
  | .usubi => .unary fun a => -a
  | .usubf => .unary Word.flipSign
  | .powi => .binary fun a b =>
    if b < 0 then .error (.root .negativeExponent)
    else .ok (Arithmetic.power a b.toInt.toNat)
  | .powf => .binary fun a b =>
    if b < 0 then .error (.root .negativeExponent)
    else Arithmetic.powf (m.interruption cancelled) a b.toInt.toNat
  | .muli => .binary fun a b => .ok (a * b)
  | .mulf => .binary fun a b => .ok (.ofFloat (a.toFloat * b.toFloat))
  | .divi => .binary fun a b =>
    if b = 0 then .error (.root .divisionByZero) else .ok (a / b)
  | .divf => .binary fun a b => .ok (.ofFloat (a.toFloat / b.toFloat))
  | .modi => .binary fun a b =>
    if b = 0 then .error (.root .divisionByZero) else .ok (a % b)
  | .addi => .binary fun a b => .ok (a + b)
  | .addf => .binary fun a b => .ok (.ofFloat (a.toFloat + b.toFloat))
  | .subi => .binary fun a b => .ok (a - b)
  | .subf => .binary fun a b => .ok (.ofFloat (a.toFloat - b.toFloat))
  | .lteqi => .binary fun a b => .ok (.ofBool (a ≤ b))
  | .lteqf => .binary fun a b => .ok (.ofBool (a.toFloat ≤ b.toFloat))
  | .lti => .binary fun a b => .ok (.ofBool (a < b))
  | .ltf => .binary fun a b => .ok (.ofBool (a.toFloat < b.toFloat))
  | .gti => .binary fun a b => .ok (.ofBool (b < a))
  | .gtf => .binary fun a b => .ok (.ofBool (b.toFloat < a.toFloat))
  | .gteqi => .binary fun a b => .ok (.ofBool (b ≤ a))
  | .gteqf => .binary fun a b => .ok (.ofBool (b.toFloat ≤ a.toFloat))
  | .eqi => .binary fun a b => .ok (.ofBool (a == b))
  | .eqf => .binary fun a b => .ok (.ofBool (a.toFloat == b.toFloat))
  | .neqi => .binary fun a b => .ok (.ofBool (a != b))
  | .neqf => .binary fun a b => .ok (.ofBool (a.toFloat != b.toFloat))
  | .noop | .loads | .loadm | .store | .alloc | .free | .call | .ret
  | .ifjump | .jump | .halt => .transfer

def loading (m : Machine) (next : Int) (address : Word) : Outcome :=
  match m.fetch address with
  | .ok w => m.pushing next w
  | .error fault => .fail m fault

/-- Carry out an instruction that moves data or control. -/
def transferring (natives : Natives) (m : Machine) (op : Opcode)
    (immediate : Word) (next : Int) : Outcome :=
  match op with
  | .halt => .proceed m m.pc
  | .loads => m.pushing next immediate
  | .loadm => m.loading next immediate
  | .store => m.storing next immediate
  | .alloc => m.allocating next immediate
  | .call => m.calling natives next immediate
  | .ret => m.returning
  | .jump => m.jumping immediate
  | .ifjump => m.branching next immediate
  | _ => .proceed m next

theorem binary_eq_guarded (m : Machine) (next : Int) (f : Word → Word → Word) :
    m.binary next f = m.guarded next fun a b => .ok (f a b) := by
  unfold binary guarded
  split <;> rfl

/-- Executing an instruction is carrying out its operation. -/
theorem execute_eq (natives : Natives) (cancelled : Nat → Bool)
    (m : Machine) (op : Opcode) (immediate : Word) (next : Int) :
    execute natives cancelled m op immediate next =
      match m.operation cancelled op with
      | .unary f => m.unary next f
      | .binary f => m.guarded next f
      | .transfer => m.transferring natives op immediate next := by
  cases op with
  | logicalAnd | logicalOr | muli | mulf | divf | addi | addf | subi | subf
  | lteqi | lteqf | lti | ltf | gti | gtf | gteqi | gteqf | eqi | eqf | neqi
  | neqf =>
      exact binary_eq_guarded m next _
  | castfi | castif | logicalNot | usubi | usubf | powi | powf | divi | modi
  | noop | loads | loadm | store | alloc | free | call | ret | ifjump | jump
  | halt => rfl

/-- The instruction set asks for the operands that the computation takes. -/
theorem pops_of_operation (cancelled : Nat → Bool) (m : Machine) (op : Opcode) :
    match m.operation cancelled op with
    | .unary _ => op.info.pops = 1
    | .binary _ => op.info.pops = 2
    | .transfer =>
      op.info.pops = if op = .store ∨ op = .ifjump then 1 else 0 := by
  cases op <;> rfl

/-- The only standard native function is formatted output. -/
theorem body_of_standard {target : Word} {native : Native}
    (bound : Natives.standard.get? target = some native) :
    native.body = Printf.body := by
  simp only [Natives.standard, Natives.get?, List.lookup_cons,
    List.lookup_nil] at bound
  split at bound
  · cases bound
    rfl
  · cases bound

/-! ## What a step can do -/

/-- The result of a step whose instruction, with opcode word `w` at `pc`, ended
in the given way. -/
def settled (pc : Int) (w : Word) : Outcome → Machine × Option RuntimeFault
  | .proceed m next => ({ m with pc := next, count := m.count + 1 }, none)
  | .fail m fault => (m, some ⟨pc, w, fault⟩)

/-- An instruction in memory. -/
structure Instruction where
  /-- The opcode word. -/
  word : Word
  op : Opcode
  immediate : Word

/-- The instruction at the program counter, or why it cannot be executed. -/
def instruction (m : Machine) : Except RuntimeFault Instruction :=
  match m.wordAt? m.pc with
  | none => .error ⟨m.pc, 0, .root .addressOutOfBounds⟩
  | some w =>
    match Opcode.ofWord? w with
    | none => .error ⟨m.pc, w, .root .unknownOpcode⟩
    | some op =>
      match m.immediate? op with
      | none => .error ⟨m.pc, w, .root .addressOutOfBounds⟩
      | some immediate =>
        if m.stack.depth < op.info.pops then
          .error ⟨m.pc, w, .root .stackUnderflow⟩
        else .ok ⟨w, op, immediate⟩

/-- A step refuses the instruction at the program counter or carries it out. -/
theorem step_eq (natives : Natives) (cancelled : Nat → Bool) (m : Machine) :
    m.step natives cancelled =
      match m.instruction with
      | .error fault => (m, some fault)
      | .ok i =>
        settled m.pc i.word
          (execute natives cancelled (m.traced i.op i.immediate) i.op
            i.immediate (m.pc + i.op.width)) := by
  cases word : m.wordAt? m.pc with
  | none => simp only [step, instruction, word]
  | some w =>
      cases opcode : Opcode.ofWord? w with
      | none => simp only [step, instruction, word, opcode]
      | some op =>
          cases immediate : m.immediate? op with
          | none => simp only [step, instruction, word, opcode, immediate]
          | some value =>
              simp only [step, instruction, word, opcode, immediate]
              by_cases short : m.stack.depth < op.info.pops
              · simp only [if_pos short]
              · simp only [if_neg short]
                rfl

/-- A machine about to execute `op`, with opcode word `w`. -/
structure Ready (m : Machine) (w : Word) (op : Opcode)
    (immediate : Word) : Prop where
  word : m.wordAt? m.pc = some w
  opcode : Opcode.ofWord? w = some op
  immediate : m.immediate? op = some immediate
  operands : op.info.pops ≤ m.stack.depth

theorem step_of_ready (natives : Natives) (cancelled : Nat → Bool)
    {m : Machine} {w : Word} {op : Opcode} {immediate : Word}
    (ready : m.Ready w op immediate) :
    m.step natives cancelled =
      settled m.pc w (execute natives cancelled
        (m.traced op immediate) op immediate
        (m.pc + op.width)) := by
  unfold step
  simp only [ready.word, ready.opcode, ready.immediate,
    Nat.not_lt.mpr ready.operands, if_false]
  rfl

/-- A step refuses an instruction before it does anything, or carries it out. -/
theorem step_cases (natives : Natives) (cancelled : Nat → Bool) (m : Machine) :
    (∃ fault, m.step natives cancelled =
      (m, some ⟨m.pc, (m.wordAt? m.pc).getD Opcode.noop.code, fault⟩)) ∨
    ∃ w op immediate, m.Ready w op immediate := by
  cases word : m.wordAt? m.pc with
  | none =>
      exact .inl ⟨.root .addressOutOfBounds, by simp only [step, word]; rfl⟩
  | some w =>
      cases opcode : Opcode.ofWord? w with
      | none =>
          exact .inl ⟨.root .unknownOpcode,
            by simp only [step, word, opcode]; rfl⟩
      | some op =>
          cases immediate : m.immediate? op with
          | none =>
              exact .inl ⟨.root .addressOutOfBounds, by
                simp only [step, word, opcode, immediate]; rfl⟩
          | some value =>
              by_cases operands : op.info.pops ≤ m.stack.depth
              · exact .inr ⟨w, op, value, word, opcode, immediate, operands⟩
              · have short : m.stack.depth < op.info.pops :=
                  Nat.lt_of_not_le operands
                exact .inl ⟨.root .stackUnderflow, by
                  simp only [step, word, opcode, immediate, short,
                    if_true]; rfl⟩

/-- Tracing an instruction changes nothing but the log. -/
theorem traced_eq (m : Machine) (op : Opcode) (immediate : Word) :
    m.traced op immediate =
      { m with host := (m.traced op immediate).host } := by
  unfold traced logged
  split <;> rfl

end Machine

end WordMachine
