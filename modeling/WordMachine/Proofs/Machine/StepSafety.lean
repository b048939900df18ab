import WordMachine.Machine.Printf
import WordMachine.Proofs.Machine.Operations

/-!
# A failing step does no harm

`Machine.uncheckedStep` is a step that trusts its checks.  Once the program
counter, the immediate and the number of operands have been compared with what
there is, it takes words by index and has no result at all when an index is out
of range.  It always has a result, the one of `Machine.step`.

A step that fails reports where it stood and leaves the machine as it was.
-/

namespace WordMachine

namespace Machine

variable {m : Machine} {next : Int}

/-! ## Instructions that trust their checks -/

/-- Replace the word at index 0 of the stack. -/
def uncheckedUnary (m : Machine) (next : Int) (f : Word → Word) :
    Option Outcome := do
  let a ← m.stack.words[0]?
  return .proceed { m with stack := m.stack.drop1.push (f a) } next

/-- Replace the words at the indices 0 and 1 of the stack. -/
def uncheckedGuarded (m : Machine) (next : Int)
    (f : Word → Word → Except Fault Word) :
    Option Outcome := do
  let a ← m.stack.words[0]?
  let b ← m.stack.words[1]?
  return match f a b with
    | .ok w => pushing { m with stack := m.stack.drop2 } next w
    | .error fault => .fail m fault

/-- Push the word at an index of memory, once the address has been checked. -/
def uncheckedLoading (m : Machine) (next : Int) (address : Word) :
    Option Outcome :=
  match address.index? m.memory.size with
  | some i => (m.memory[i]?).map (m.pushing next)
  | none => some (.fail m (.outOfBounds address))

/-- Move the word at index 0 of the stack to an index of memory, once the
address has been checked. -/
def uncheckedStoring (m : Machine) (next : Int) (address : Word) :
    Option Outcome :=
  match address.index? m.memory.size with
  | some i => do
    let w ← m.stack.words[0]?
    if inside : i < m.memory.size then
      return .proceed { m with
        memory := m.memory.set i w inside, stack := m.stack.drop1 } next
    else none
  | none => some (.fail m (.outOfBounds address))

/-- Resume at index 0 of the call stack, once it is known not to be empty. -/
def uncheckedReturning (m : Machine) : Option Outcome :=
  if m.calls.depth = 0 then some (.fail m (.root .returnWithoutCall))
  else do
    let address ← m.calls.words[0]?
    return .proceed { m with calls := m.calls.drop1 } address.toInt

/-- Look at index 0 of the stack and jump if the word there is true. -/
def uncheckedBranching (m : Machine) (next : Int) (target : Word) :
    Option Outcome := do
  let condition ← m.stack.words[0]?
  if condition.isTrue then
    match target.index? m.memory.size with
    | some _ => return .proceed { m with stack := m.stack.drop1 } target.toInt
    | none => return .fail m (.outOfBounds target)
  else return .proceed { m with stack := m.stack.drop1 } next

/-- Carry out an instruction, with words taken by index. -/
def uncheckedExecute (natives : Natives) (cancelled : Nat → Bool)
    (m : Machine) (op : Opcode) (immediate : Word) (next : Int) :
    Option Outcome :=
  match m.operation cancelled op with
  | .unary f => m.uncheckedUnary next f
  | .binary f => m.uncheckedGuarded next f
  | .transfer =>
    match op with
    | .loadm => m.uncheckedLoading next immediate
    | .store => m.uncheckedStoring next immediate
    | .ret => m.uncheckedReturning
    | .ifjump => m.uncheckedBranching next immediate
    -- The others read no word, or leave it to a native function.
    | _ => some (m.transferring natives op immediate next)

/-- The immediate word, taken by index once the end of memory has been checked;
the inner option is empty when that check fails. -/
def uncheckedImmediate (m : Machine) (op : Opcode) : Option (Option Word) :=
  if op.info.immediate then
    if m.memory.size ≤ m.pc + 1 then some none
      else (m.wordAt? (m.pc + 1)).map some
  else some (some 0)

/-- Execute the instruction at the program counter, with words taken by
index. -/
def uncheckedStep (natives : Natives) (cancelled : Nat → Bool) (m : Machine) :
    Option (Machine × Option RuntimeFault) :=
  if m.pc < 0 ∨ m.memory.size ≤ m.pc then
    some (m, some ⟨m.pc, Opcode.noop.code, .root .addressOutOfBounds⟩)
  else do
    let w ← m.wordAt? m.pc
    match Opcode.ofWord? w with
    | none => return (m, some ⟨m.pc, w, .root .unknownOpcode⟩)
    | some op =>
      match ← m.uncheckedImmediate op with
      | none => return (m, some ⟨m.pc, w, .root .addressOutOfBounds⟩)
      | some immediate =>
        if m.stack.depth < op.info.pops then
          return (m, some ⟨m.pc, w, .root .stackUnderflow⟩)
        else
          let outcome ← uncheckedExecute natives cancelled
              (m.traced op immediate) op immediate
            (m.pc + op.width)
          return settled m.pc w outcome

theorem uncheckedUnary_eq (f : Word → Word) (enough : 1 ≤ m.stack.depth) :
    m.uncheckedUnary next f = some (m.unary next f) := by
  rw [m.stack.depth_eq] at enough
  unfold uncheckedUnary unary
  cases words : m.stack.words with
  | nil => simp [words] at enough
  | cons a rest => rfl

theorem uncheckedGuarded_eq (f : Word → Word → Except Fault Word)
    (enough : 2 ≤ m.stack.depth) :
    m.uncheckedGuarded next f = some (m.guarded next f) := by
  rw [m.stack.depth_eq] at enough
  unfold uncheckedGuarded guarded
  cases words : m.stack.words with
  | nil => simp [words] at enough
  | cons a rest =>
      cases rest with
      | nil => simp [words] at enough
      | cons b rest => rfl

theorem uncheckedLoading_eq (address : Word) :
    m.uncheckedLoading next address = some (m.loading next address) := by
  unfold uncheckedLoading loading fetch
  rw [wordAt?_toInt]
  cases found : address.index? m.memory.size with
  | none => rfl
  | some i =>
      have inside := Word.index?_lt found
      simp [inside]

theorem uncheckedStoring_eq (address : Word) (enough : 1 ≤ m.stack.depth) :
    m.uncheckedStoring next address = some (m.storing next address) := by
  rw [m.stack.depth_eq] at enough
  unfold uncheckedStoring storing
  cases words : m.stack.words with
  | nil => simp [words] at enough
  | cons w rest =>
      cases found : address.index? m.memory.size with
      | none => rfl
      | some i =>
          have inside := Word.index?_lt found
          simp [inside, Array.setIfInBounds]

theorem uncheckedReturning_eq : m.uncheckedReturning = some m.returning := by
  unfold uncheckedReturning returning
  rw [m.calls.depth_eq]
  cases words : m.calls.words with
  | nil => rfl
  | cons address rest => simp

theorem uncheckedBranching_eq (target : Word) (enough : 1 ≤ m.stack.depth) :
    m.uncheckedBranching next target = some (m.branching next target) := by
  rw [m.stack.depth_eq] at enough
  unfold uncheckedBranching branching fetch
  rw [wordAt?_toInt]
  cases words : m.stack.words with
  | nil => simp [words] at enough
  | cons condition rest =>
      cases truth : condition.isTrue with
      | false => simp [truth]
      | true =>
          cases found : target.index? m.memory.size with
          | none => simp [truth]
          | some i =>
              have inside := Word.index?_lt found
              simp [truth, inside]

theorem uncheckedExecute_eq (natives : Natives)
    (cancelled : Nat → Bool) (op : Opcode) (immediate : Word)
    (operands : op.info.pops ≤ m.stack.depth) :
    m.uncheckedExecute natives cancelled op immediate next =
      some (execute natives cancelled m op immediate next) := by
  have pops := pops_of_operation cancelled m op
  rw [execute_eq]
  unfold uncheckedExecute
  cases kind : m.operation cancelled op with
  | unary f =>
      simp only [kind] at pops
      exact uncheckedUnary_eq f (pops ▸ operands)
  | binary f =>
      simp only [kind] at pops
      exact uncheckedGuarded_eq f (pops ▸ operands)
  | transfer =>
      cases op with
      | loadm => exact uncheckedLoading_eq immediate
      | store => exact uncheckedStoring_eq immediate operands
      | ret => exact uncheckedReturning_eq
      | ifjump => exact uncheckedBranching_eq immediate operands
      | _ => rfl

theorem uncheckedImmediate_eq (op : Opcode) (started : 0 ≤ m.pc) :
    m.uncheckedImmediate op = some (m.immediate? op) := by
  have outside := wordAt?_eq_none_iff m (m.pc + 1)
  unfold uncheckedImmediate immediate?
  cases op.info.immediate with
  | false => rfl
  | true =>
      cases word : m.wordAt? (m.pc + 1) with
      | none =>
          have behind : (m.memory.size : Int) ≤ m.pc + 1 := by
            have := outside.mp word
            omega
          simp [behind]
      | some immediate =>
          have inside : ¬ (m.memory.size : Int) ≤ m.pc + 1 := fun behind => by
            simp [outside.mpr (.inr behind)] at word
          simp [inside]

/-- The checks of a step cover every word that its instruction takes. -/
theorem uncheckedStep_eq (natives : Natives) (cancelled : Nat → Bool)
    (m : Machine) :
    m.uncheckedStep natives cancelled = some (m.step natives cancelled) := by
  have outside := wordAt?_eq_none_iff m m.pc
  unfold uncheckedStep
  cases word : m.wordAt? m.pc with
  | none =>
      simp only [step, word, outside.mp word, if_true]
      rfl
  | some w =>
      have inside : ¬ (m.pc < 0 ∨ m.memory.size ≤ m.pc) := fun out => by
        simp [outside.mpr out] at word
      have started : 0 ≤ m.pc := by omega
      rw [if_neg inside]
      simp only [Option.bind_eq_bind, Option.bind_some, step, word]
      cases Opcode.ofWord? w with
      | none => rfl
      | some op =>
          simp only [uncheckedImmediate_eq op started, Option.bind_some]
          cases m.immediate? op with
          | none => rfl
          | some immediate =>
              by_cases short : m.stack.depth < op.info.pops
              · simp only [if_pos short]
                rfl
              · have operands : op.info.pops ≤
                    (m.traced op immediate).stack.depth := by
                  rw [traced_eq]
                  exact Nat.le_of_not_lt short
                simp only [if_neg short, uncheckedExecute_eq _ _ _ _ operands,
                  Option.bind_some]
                rfl

/-! ## Failures -/

/-- Nothing a program can see has changed.  Of the operand stack this is
promised only as long as it keeps to its limit. -/
structure Untouched (m m' : Machine) : Prop where
  memory : m'.memory = m.memory
  calls : m'.calls = m.calls
  heapTop : m'.heapTop = m.heapTop
  pc : m'.pc = m.pc
  count : m'.count = m.count
  stack : m.stack.depth ≤ m.limits.stack → m'.stack = m.stack

theorem Untouched.refl (m : Machine) : m.Untouched m :=
  ⟨rfl, rfl, rfl, rfl, rfl, fun _ => rfl⟩

end Machine

/-- If the outcome is a failure, the machine is as it was. -/
def Outcome.FailsUntouched (m : Machine) : Outcome → Prop
  | .proceed _ _ => True
  | .fail m' _ => m.Untouched m'

namespace Machine

variable {m : Machine} {next : Int}

theorem pushing_failsUntouched (w : Word) :
    (m.pushing next w).FailsUntouched m := by
  unfold pushing
  split
  · trivial
  · exact .refl m

theorem unary_failsUntouched (f : Word → Word) :
    (m.unary next f).FailsUntouched m := by
  unfold unary
  split
  · trivial
  · exact .refl m

theorem guarded_failsUntouched (f : Word → Word → Except Fault Word) :
    (m.guarded next f).FailsUntouched m := by
  unfold guarded
  split
  next a b rest words =>
    split
    next w result =>
      -- The operands are gone when the result is pushed, and there is room for
      -- it unless the stack was beyond its limit before.
      by_cases room : m.stack.drop2.depth < m.limits.stack
      · simp only [pushing, push, room, if_true]
        trivial
      · simp only [pushing, push, room, if_false]
        refine ⟨rfl, rfl, rfl, rfl, rfl, fun kept => absurd ?_ room⟩
        have depth : m.stack.depth = rest.length + 2 := by
          rw [m.stack.depth_eq, words]; rfl
        have dropped : m.stack.drop2.depth = m.stack.depth - 1 - 1 := rfl
        omega
    next fault result => exact .refl m
  next => exact .refl m

theorem loading_failsUntouched (address : Word) :
    (m.loading next address).FailsUntouched m := by
  unfold loading
  split
  · exact pushing_failsUntouched _
  · exact .refl m

theorem storing_failsUntouched (address : Word) :
    (m.storing next address).FailsUntouched m := by
  unfold storing
  split
  · split
    · trivial
    · exact .refl m
  · exact .refl m

theorem allocating_failsUntouched (size : Word) :
    (m.allocating next size).FailsUntouched m := by
  unfold allocating
  split
  · exact .refl m
  · split
    · trivial
    · exact .refl m

theorem calling_failsUntouched (natives : Natives) (target : Word)
    (unbound : ∀ native, NativeAddress.base ≤ target →
      natives.get? target ≠ some native) :
    (m.calling natives next target).FailsUntouched m := by
  unfold calling
  split
  next reserved =>
    split
    next native bound => exact absurd bound (unbound native reserved)
    next => exact .refl m
  next =>
    split
    · exact .refl m
    · split
      · trivial
      · exact .refl m

theorem returning_failsUntouched : m.returning.FailsUntouched m := by
  unfold returning
  split
  · trivial
  · exact .refl m

theorem jumping_failsUntouched (target : Word) :
    (m.jumping target).FailsUntouched m := by
  unfold jumping
  split
  · trivial
  · exact .refl m

theorem branching_failsUntouched (target : Word) :
    (m.branching next target).FailsUntouched m := by
  unfold branching
  split
  · split
    · split
      · trivial
      · exact .refl m
    · trivial
  · exact .refl m

theorem execute_failsUntouched (natives : Natives)
    (cancelled : Nat → Bool) (m : Machine) (op : Opcode)
    (immediate : Word) (next : Int)
    (unbound : op = .call → ∀ native, NativeAddress.base ≤ immediate →
      natives.get? immediate ≠ some native) :
    (execute natives cancelled m op immediate next).FailsUntouched m := by
  rw [execute_eq]
  cases m.operation cancelled op with
  | unary f => exact unary_failsUntouched f
  | binary f => exact guarded_failsUntouched f
  | transfer =>
      cases op with
      | loads => exact pushing_failsUntouched immediate
      | loadm => exact loading_failsUntouched immediate
      | store => exact storing_failsUntouched immediate
      | alloc => exact allocating_failsUntouched immediate
      | call => exact calling_failsUntouched natives immediate (unbound rfl)
      | ret => exact returning_failsUntouched
      | jump => exact jumping_failsUntouched immediate
      | ifjump => exact branching_failsUntouched immediate
      | _ => trivial

theorem Untouched.of_traced {m' : Machine} {op : Opcode} {immediate : Word}
    (untouched : (m.traced op immediate).Untouched m') : m.Untouched m' := by
  rw [traced_eq] at untouched
  exact ⟨untouched.memory, untouched.calls, untouched.heapTop, untouched.pc,
    untouched.count, untouched.stack⟩

/-- The instruction at the program counter calls a native function. -/
def CallsNative (natives : Natives) (m : Machine) : Prop :=
  ∃ w target native, m.wordAt? m.pc = some w ∧ Opcode.ofWord? w = some .call ∧
    m.wordAt? (m.pc + 1) = some target ∧ NativeAddress.base ≤ target ∧
    natives.get? target = some native

theorem Ready.callsNative {natives : Natives} {w immediate : Word}
    {native : Native} (ready : m.Ready w .call immediate)
    (reserved : NativeAddress.base ≤ immediate)
    (bound : natives.get? immediate = some native) : m.CallsNative natives :=
  ⟨w, immediate, native, ready.word, ready.opcode, ready.immediate,
    reserved, bound⟩

/-- A failing step is safe: it takes no word from outside memory or a stack,
reports the place and the opcode, and leaves the machine as it was unless the
failure is that of a native function. -/
theorem step_failure_safe (natives : Natives) (cancelled : Nat → Bool)
    (m : Machine) :
    m.uncheckedStep natives cancelled = some (m.step natives cancelled) ∧
    ∀ m' fault, m.step natives cancelled = (m', some fault) →
      fault.pc = m.pc ∧ fault.opcode = (m.wordAt? m.pc).getD Opcode.noop.code ∧
      (¬ m.CallsNative natives → m.Untouched m') := by
  refine ⟨uncheckedStep_eq natives cancelled m, fun m' fault failed => ?_⟩
  rcases step_cases natives cancelled m with
    ⟨refusal, refused⟩ | ⟨w, op, immediate, ready⟩
  · cases refused.symm.trans failed
    exact ⟨rfl, rfl, fun _ => .refl m⟩
  · rw [step_of_ready natives cancelled ready] at failed
    cases outcome : execute natives cancelled
      (m.traced op immediate) op immediate
        (m.pc + op.width) with
    | proceed after next =>
        rw [outcome] at failed
        cases failed
    | fail after cause =>
        rw [outcome] at failed
        cases failed
        refine ⟨rfl, by rw [ready.word]; rfl, fun ordinary => ?_⟩
        have untouched := execute_failsUntouched natives cancelled
          (m.traced op immediate) op immediate (m.pc + op.width) (by
            rintro rfl native reserved bound
            exact ordinary (ready.callsNative reserved bound))
        rw [outcome] at untouched
        exact untouched.of_traced

/-- A traced division of six by zero on a full stack, at the last word of
memory. -/
def dividingByZero : Machine where
  memory := #[Opcode.noop.code, Opcode.divi.code]
  pc := 1
  stack := .ofList [6, 0]
  limits := { stack := 2 }
  host := { tracing := true }

theorem step_failure_safe_division :
    ∃ m' fault, dividingByZero.step Natives.standard (fun _ => false) =
      (m', some fault) ∧ fault = ⟨1, Opcode.divi.code, .root .divisionByZero⟩ ∧
      ¬ dividingByZero.CallsNative Natives.standard ∧
      dividingByZero.Untouched m' ∧ m'.stack = dividingByZero.stack := by
  have ordinary : ¬ dividingByZero.CallsNative Natives.standard := by
    rintro ⟨w, target, native, _, _, behind, _⟩
    cases behind
  obtain ⟨_, safe⟩ :=
    step_failure_safe Natives.standard (fun _ => false) dividingByZero
  have untouched := (safe _ ⟨1, Opcode.divi.code, .root .divisionByZero⟩
    rfl).2.2 ordinary
  exact ⟨_, _, rfl, rfl, ordinary, untouched, untouched.stack (by decide)⟩

end Machine

end WordMachine
