import WordMachine.Proofs.Machine.Operations

/-!
# What instructions do not look at

Instructions work on memory, the heap and the two stacks, and read nothing else
but the program counter and the limits of the stacks.  A change of the machine
that leaves all of this alone goes unseen: an instruction does the same before
and after it.  The exceptions are `powf`, which asks whether it has to stop, and
calls of native functions.
-/

namespace WordMachine

def Outcome.map (f : Machine → Machine) : Outcome → Outcome
  | .proceed m next => .proceed (f m) next
  | .fail m fault => .fail (f m) fault

namespace Machine

/-- The change does not touch what instructions look at, and does not depend on
it. -/
structure Unseen (change : Machine → Machine) : Prop where
  commutes : ∀ (m : Machine) (memory : Array Word) (heapTop : Nat)
      (stack calls : Stack),
    change { m with
        memory := memory, heapTop := heapTop, stack := stack, calls := calls } =
      { change m with
        memory := memory, heapTop := heapTop, stack := stack, calls := calls }
  pc : ∀ m, (change m).pc = m.pc
  stackLimit : ∀ m, (change m).limits.stack = m.limits.stack
  callLimit : ∀ m, (change m).limits.calls = m.limits.calls

theorem guarded_congr {m : Machine} {next : Int}
    {f g : Word → Word → Except Fault Word}
    (agree : ∀ a b rest, m.stack.words = a :: b :: rest → f a b = g a b) :
    m.guarded next f = m.guarded next g := by
  unfold guarded
  split
  next a b rest words => rw [agree a b rest words]
  next => rfl

namespace Unseen

variable {change : Machine → Machine} (unseen : Unseen change) (m : Machine)

include unseen

/-! ## Fields -/

theorem eq_self : change m =
    { change m with
      memory := m.memory, heapTop := m.heapTop
      stack := m.stack, calls := m.calls } :=
  unseen.commutes m m.memory m.heapTop m.stack m.calls

theorem memory : (change m).memory = m.memory := by
  rw [unseen.eq_self m]

theorem heapTop : (change m).heapTop = m.heapTop := by
  rw [unseen.eq_self m]

theorem stack : (change m).stack = m.stack := by
  rw [unseen.eq_self m]

theorem calls : (change m).calls = m.calls := by
  rw [unseen.eq_self m]

theorem withStack (stack : Stack) :
    { change m with stack := stack } = change { m with stack := stack } := by
  rw [unseen.commutes m m.memory m.heapTop stack m.calls, ← unseen.memory m,
    ← unseen.heapTop m, ← unseen.calls m]

theorem withMemory (memory : Array Word) (stack : Stack) :
    { change m with memory := memory, stack := stack } =
      change { m with memory := memory, stack := stack } := by
  rw [unseen.commutes m memory m.heapTop stack m.calls, ← unseen.heapTop m,
    ← unseen.calls m]

theorem withHeapTop (heapTop : Nat) :
    { change m with heapTop := heapTop } =
      change { m with heapTop := heapTop } := by
  rw [unseen.commutes m m.memory heapTop m.stack m.calls, ← unseen.memory m,
    ← unseen.stack m, ← unseen.calls m]

theorem withCalls (calls : Stack) :
    { change m with calls := calls } = change { m with calls := calls } := by
  rw [unseen.commutes m m.memory m.heapTop m.stack calls, ← unseen.memory m,
    ← unseen.heapTop m, ← unseen.stack m]

theorem wordAt? (address : Int) :
    (change m).wordAt? address = m.wordAt? address := by
  rw [Machine.wordAt?, unseen.memory]
  rfl

theorem fetch (address : Word) :
    (change m).fetch address = m.fetch address := by
  rw [Machine.fetch, unseen.wordAt?]
  rfl

theorem instruction : (change m).instruction = m.instruction := by
  simp only [Machine.instruction, immediate?, unseen.wordAt?,
    unseen.pc, unseen.stack]

/-! ## Instructions -/

theorem push (w : Word) : (change m).push w = (m.push w).map change := by
  by_cases room : m.stack.depth < m.limits.stack
  · simp only [Machine.push, unseen.stack, unseen.stackLimit, room, if_true,
      unseen.withStack]
    rfl
  · simp only [Machine.push, unseen.stack, unseen.stackLimit, room, if_false]
    rfl

theorem pushing (next : Int) (w : Word) :
    (change m).pushing next w = (m.pushing next w).map change := by
  rw [Machine.pushing, Machine.pushing, unseen.push]
  cases m.push w <;> rfl

theorem unary (next : Int) (f : Word → Word) :
    (change m).unary next f = (m.unary next f).map change := by
  cases words : m.stack.words with
  | nil => simp [Machine.unary, unseen.stack, words, Outcome.map]
  | cons a rest =>
      simp [Machine.unary, unseen.stack, words, unseen.withStack, Outcome.map]

theorem guarded (next : Int) (f : Word → Word → Except Fault Word) :
    (change m).guarded next f = (m.guarded next f).map change := by
  rcases words : m.stack.words with _ | ⟨a, _ | ⟨b, rest⟩⟩
  · simp [Machine.guarded, unseen.stack, words, Outcome.map]
  · simp [Machine.guarded, unseen.stack, words, Outcome.map]
  · cases result : f a b with
    | ok w =>
        simp only [Machine.guarded, unseen.stack, words, result,
          unseen.withStack]
        exact unseen.pushing _ next w
    | error fault =>
        simp [Machine.guarded, unseen.stack, words, result, Outcome.map]

theorem loading (next : Int) (address : Word) :
    (change m).loading next address = (m.loading next address).map change := by
  cases fetched : m.fetch address with
  | ok w =>
      simp only [Machine.loading, unseen.fetch, fetched]
      exact unseen.pushing m next w
  | error fault => simp [Machine.loading, unseen.fetch, fetched, Outcome.map]

theorem storing (next : Int) (address : Word) :
    (change m).storing next address = (m.storing next address).map change := by
  cases words : m.stack.words with
  | nil => simp [Machine.storing, unseen.stack, words, Outcome.map]
  | cons w rest =>
      cases found : address.index? m.memory.size with
      | none =>
          simp [Machine.storing, unseen.stack, unseen.memory, words,
            found, Outcome.map]
      | some i =>
          simp [Machine.storing, unseen.stack, unseen.memory, words, found,
            unseen.withMemory, Outcome.map]

theorem allocating (next : Int) (size : Word) :
    (change m).allocating next size = (m.allocating next size).map change := by
  simp only [Machine.allocating, unseen.memory, unseen.heapTop, unseen.push]
  split
  · rfl
  · cases m.push (Int64.ofNat m.heapTop) with
    | error fault => rfl
    | ok pushed =>
        simp only [Except.map, unseen.heapTop, unseen.withHeapTop]
        rfl

theorem returning : (change m).returning = m.returning.map change := by
  cases words : m.calls.words with
  | nil => simp [Machine.returning, unseen.calls, words, Outcome.map]
  | cons address rest =>
      simp [Machine.returning, unseen.calls, words,
        unseen.withCalls, Outcome.map]

theorem jumping (target : Word) :
    (change m).jumping target = (m.jumping target).map change := by
  cases fetched : m.fetch target with
  | ok w => simp [Machine.jumping, unseen.fetch, fetched, Outcome.map]
  | error fault => simp [Machine.jumping, unseen.fetch, fetched, Outcome.map]

theorem branching (next : Int) (target : Word) :
    (change m).branching next target =
      (m.branching next target).map change := by
  cases words : m.stack.words with
  | nil => simp [Machine.branching, unseen.stack, words, Outcome.map]
  | cons condition rest =>
      cases truth : condition.isTrue with
      | false =>
          simp [Machine.branching, unseen.stack, words, truth,
            unseen.withStack, Outcome.map]
      | true =>
          cases fetched : m.fetch target with
          | ok w =>
              simp [Machine.branching, unseen.stack, unseen.fetch, words,
                truth, fetched, unseen.withStack, Outcome.map]
          | error fault =>
              simp [Machine.branching, unseen.stack, unseen.fetch, words,
                truth, fetched, Outcome.map]

/-- A call does the same if the native function at its target does. -/
theorem calling {natives : Natives} {next : Int} {target : Word}
    (same : ∀ native, NativeAddress.base ≤ target →
      natives.get? target = some native →
      native.body (change m) next = (native.body m next).map change) :
    (change m).calling natives next target =
    (m.calling natives next target).map change := by
  by_cases reserved : NativeAddress.base ≤ target
  · cases bound : natives.get? target with
    | none => simp [Machine.calling, reserved, bound, Outcome.map]
    | some native =>
        simp only [Machine.calling, reserved, if_true, bound]
        exact same native reserved bound
  · cases fetched : m.fetch target with
    | error fault =>
        simp [Machine.calling, reserved, unseen.fetch, fetched, Outcome.map]
    | ok w =>
        by_cases room : m.calls.depth < m.limits.calls
        · simp [Machine.calling, reserved, unseen.fetch, unseen.calls,
            unseen.callLimit, fetched, room, unseen.withCalls, Outcome.map]
        · simp [Machine.calling, reserved, unseen.fetch, unseen.calls,
            unseen.callLimit, fetched, room, Outcome.map]

theorem transferring {natives : Natives} (op : Opcode)
    {immediate : Word} {next : Int}
    (same : op = .call → ∀ native, NativeAddress.base ≤ immediate →
      natives.get? immediate = some native →
      native.body (change m) next = (native.body m next).map change) :
    (change m).transferring natives op immediate next =
      (m.transferring natives op immediate next).map change := by
  cases op with
  | loads => exact unseen.pushing m next immediate
  | loadm => exact unseen.loading m next immediate
  | store => exact unseen.storing m next immediate
  | alloc => exact unseen.allocating m next immediate
  | call => exact unseen.calling m (same rfl)
  | ret => exact unseen.returning m
  | jump => exact unseen.jumping m immediate
  | ifjump => exact unseen.branching m next immediate
  | halt => simp [Machine.transferring, unseen.pc, Outcome.map]
  | _ => rfl

/-- An instruction does the same after the change, if a power of its operands
comes out the same and the native function that it calls does the same. -/
theorem execute {natives : Natives}
    {cancelled cancelled' : Nat → Bool} {op : Opcode}
    {immediate : Word} {next : Int}
    (powf : op = .powf → ∀ a b rest, m.stack.words = a :: b :: rest →
      Arithmetic.powf ((change m).interruption cancelled') a b.toInt.toNat =
        Arithmetic.powf (m.interruption cancelled) a b.toInt.toNat)
    (native : op = .call → ∀ native, NativeAddress.base ≤ immediate →
      natives.get? immediate = some native →
      native.body (change m) next = (native.body m next).map change) :
    Machine.execute natives cancelled' (change m) op immediate next =
      (Machine.execute natives cancelled m op immediate next).map change := by
  by_cases isPowf : op = .powf
  · subst isPowf
    simp only [Machine.execute, unseen.guarded]
    congr 1
    apply guarded_congr
    intro a b rest words
    rw [powf rfl a b rest words]
  · -- No other instruction computes anything from what it does not work on.
    have agree : (change m).operation cancelled' op =
        m.operation cancelled op := by
      cases op with
      | powf => exact absurd rfl isPowf
      | _ => rfl
    rw [execute_eq, execute_eq, agree]
    cases m.operation cancelled op with
    | unary f => exact unseen.unary m next f
    | binary f => exact unseen.guarded m next f
    | transfer => exact unseen.transferring m op native

end Unseen

end Machine

end WordMachine
