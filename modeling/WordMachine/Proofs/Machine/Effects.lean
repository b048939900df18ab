import WordMachine.Proofs.Machine.StepSafety

/-!
# Instructions do what the instruction set declares

`Opcode.info` says how many operands an instruction takes and how many results
it leaves; how each instruction is carried out is written down apart from that.
`Machine.Effect` spells out what the declaration promises: the operands make way
for the results and nothing below them moves, memory changes under `store` only,
the heap under `alloc` only, the pending calls under `call` and `return` only,
and control goes on behind the instruction unless the instruction is there to
divert it.

Every instruction that succeeds has this effect.  What a native function does is
its own affair.
-/

namespace WordMachine

namespace Machine

/-- Where an instruction sends control, if that is not behind itself. -/
def diversion? (m : Machine) (immediate : Word) : Opcode → Option Int
  | .halt => some m.pc
  | .jump | .call => some immediate.toInt
  | .ifjump =>
    if m.stack.words.head?.any Word.isTrue then some immediate.toInt else none
  | .ret => m.calls.words.head?.map Int64.toInt
  | _ => none

/-- The operands that an opcode declares make way for the results that it
declares, and the words below them stay. -/
def Exchanged (op : Opcode) (before after : Stack) : Prop :=
  ∃ operands results rest, operands.length = op.info.pops ∧
    results.length = op.info.pushes ∧ before.words = operands ++ rest ∧
    after.words = results ++ rest

/-- What an instruction may do to a machine `m`, to leave `m'`. -/
structure Effect (op : Opcode) (immediate : Word) (m m' : Machine) : Prop where
  stack : Exchanged op m.stack m'.stack
  memory : op ≠ .store → m'.memory = m.memory
  /-- The old top of the stack is now at the address, and all other words are as
  they were. -/
  stored : op = .store → ∃ w, m.stack.words.head? = some w ∧
    (m.wordAt? immediate.toInt).isSome ∧ m'.memory.size = m.memory.size ∧
    ∀ address, m'.wordAt? address =
      if address = immediate.toInt then some w else m.wordAt? address
  heapTop : op ≠ .alloc → m'.heapTop = m.heapTop
  calls : op ≠ .call → op ≠ .ret → m'.calls = m.calls
  called : op = .call →
    m'.calls.words = Int64.ofInt (m.pc + op.width) :: m.calls.words
  returned : op = .ret → ∃ address, m.calls.words = address :: m'.calls.words
  pc : m'.pc = (m.diversion? immediate op).getD (m.pc + op.width)

end Machine

/-- If the outcome is to go on, the instruction had its effect. -/
def Outcome.HasEffect (op : Opcode) (immediate : Word) (m : Machine) :
    Outcome → Prop
  | .proceed m' next => m.Effect op immediate { m' with pc := next }
  | .fail _ _ => True

namespace Machine

variable {m : Machine} {op : Opcode} {immediate : Word}

/-! ## Instructions that change the operand stack only -/

/-- Whether an instruction leaves alone memory, the heap and the pending
calls. -/
def keepsToStack : Opcode → Bool
  | .store | .alloc | .call | .ret => false
  | _ => true

theorem Effect.of_stack {stack : Stack} {next : Int}
    (kept : keepsToStack op = true) (exchanged : Exchanged op m.stack stack)
    (control : next = (m.diversion? immediate op).getD (m.pc + op.width)) :
    m.Effect op immediate { m with stack := stack, pc := next } where
  stack := exchanged
  memory _ := rfl
  stored isStore := by subst isStore; cases kept
  heapTop _ := rfl
  calls _ _ := rfl
  called isCall := by subst isCall; cases kept
  returned isReturn := by subst isReturn; cases kept
  pc := control

/-- An instruction that takes nothing and leaves nothing moves control at
most. -/
theorem Effect.of_control {next : Int} (kept : keepsToStack op = true)
    (pops : op.info.pops = 0) (pushes : op.info.pushes = 0)
    (control : next = (m.diversion? immediate op).getD (m.pc + op.width)) :
    m.Effect op immediate { m with pc := next } := by
  apply Effect.of_stack kept _ control
  exact ⟨[], [], m.stack.words, pops.symm, pushes.symm, rfl, rfl⟩

/-- An instruction that computes has the columns of its kind and diverts
nothing. -/
theorem columns_of_operation (cancelled : Nat → Bool)
    (m : Machine) (op : Opcode) (immediate : Word) :
    match m.operation cancelled op with
    | .unary _ =>
      op.info.pops = 1 ∧ op.info.pushes = 1 ∧ keepsToStack op = true ∧
      m.diversion? immediate op = none
    | .binary _ =>
      op.info.pops = 2 ∧ op.info.pushes = 1 ∧ keepsToStack op = true ∧
        m.diversion? immediate op = none
    | .transfer => True := by
  cases op with
  | noop | loads | loadm | store | alloc | free | call | ret | ifjump | jump
  | halt => trivial
  | _ => exact ⟨rfl, rfl, rfl, rfl⟩

theorem pushing_eq (m : Machine) (next : Int) (w : Word) :
    m.pushing next w =
      if m.stack.depth < m.limits.stack then
        .proceed { m with stack := m.stack.push w } next
      else .fail m (.root .stackOverflow) := by
  unfold pushing push
  by_cases room : m.stack.depth < m.limits.stack
  · simp only [if_pos room]
  · simp only [if_neg room]

theorem unary_hasEffect {cancelled : Nat → Bool} {f : Word → Word}
    (kind : m.operation cancelled op = .unary f) :
    (m.unary (m.pc + op.width) f).HasEffect op immediate m := by
  have columns := columns_of_operation cancelled m op immediate
  rw [kind] at columns
  obtain ⟨pops, pushes, kept, undiverted⟩ := columns
  unfold unary
  split
  next a rest words =>
    apply Effect.of_stack kept
    · exact ⟨[a], [f a], rest, pops.symm, pushes.symm, words, by simp [words]⟩
    · rw [undiverted]
      rfl
  next => trivial

theorem guarded_hasEffect {cancelled : Nat → Bool}
    {f : Word → Word → Except Fault Word}
    (kind : m.operation cancelled op = .binary f) :
    (m.guarded (m.pc + op.width) f).HasEffect op immediate m := by
  have columns := columns_of_operation cancelled m op immediate
  rw [kind] at columns
  obtain ⟨pops, pushes, kept, undiverted⟩ := columns
  unfold guarded
  split
  next a b rest words =>
    split
    next w _ =>
      rw [pushing_eq]
      split
      · apply Effect.of_stack kept
        · exact ⟨[a, b], [w], rest, pops.symm, pushes.symm, words,
            by simp [words]⟩
        · rw [undiverted]
          rfl
      · trivial
    next => trivial
  next => trivial

/-- Pushing one word is the effect of an instruction that declares one
result. -/
theorem pushing_hasEffect (w : Word) (kept : keepsToStack op = true)
    (pops : op.info.pops = 0) (pushes : op.info.pushes = 1)
    (undiverted : m.diversion? immediate op = none) :
    (m.pushing (m.pc + op.width) w).HasEffect op immediate m := by
  rw [pushing_eq]
  split
  · apply Effect.of_stack kept
    · exact ⟨[], [w], m.stack.words, pops.symm, pushes.symm, rfl, rfl⟩
    · rw [undiverted]
      rfl
  · trivial

theorem branching_hasEffect (target : Word) :
    (m.branching (m.pc + Opcode.ifjump.width) target).HasEffect .ifjump
      target m := by
  unfold branching
  split
  next condition rest words =>
    have exchanged : Exchanged .ifjump m.stack m.stack.drop1 :=
      ⟨[condition], [], rest, rfl, rfl, words, by simp [words]⟩
    cases truth : condition.isTrue with
    | false =>
        apply Effect.of_stack rfl exchanged
        simp [diversion?, words, truth]
    | true =>
        simp only [if_true]
        split
        · apply Effect.of_stack rfl exchanged
          simp [diversion?, words, truth]
        · trivial
  next => trivial

/-! ## Instructions that change something else -/

theorem storing_hasEffect (address : Word) :
    (m.storing (m.pc + Opcode.store.width) address).HasEffect .store
      address m := by
  unfold storing
  split
  next w rest words =>
    split
    next i found =>
      have inside : i < m.memory.size := Word.index?_lt found
      have place : address.toInt = i := by
        unfold Word.index? at found
        split at found <;> grind
      exact {
        stack := ⟨[w], [], rest, rfl, rfl, words, by simp [words]⟩
        memory := fun notStore => absurd rfl notStore
        stored := fun _ => by
          refine ⟨w, by rw [words]; rfl, ?_, by simp, ?_⟩
          · simp [wordAt?, place, inside]
          · intro other
            simp only [wordAt?, place]
            grind
        heapTop := fun _ => rfl
        calls := fun _ _ => rfl
        called := nofun
        returned := nofun
        pc := rfl }
    next => trivial
  next => trivial

theorem allocating_hasEffect (size : Word) :
    (m.allocating (m.pc + Opcode.alloc.width) size).HasEffect
      .alloc size m := by
  unfold allocating push
  split
  · trivial
  · split
    next pushed =>
      split at pushed
      · cases pushed
        exact {
          stack := ⟨[], [_], m.stack.words, rfl, rfl, rfl, rfl⟩
          memory := fun _ => rfl
          stored := nofun
          heapTop := fun notAlloc => absurd rfl notAlloc
          calls := fun _ _ => rfl
          called := nofun
          returned := nofun
          pc := rfl }
      · cases pushed
    next => trivial

theorem calling_hasEffect (natives : Natives) (target : Word)
    (unbound : ∀ native, NativeAddress.base ≤ target →
      natives.get? target ≠ some native) :
    (m.calling natives (m.pc + Opcode.call.width) target).HasEffect .call
      target m := by
  unfold calling
  split
  next reserved =>
    split
    next native bound => exact absurd bound (unbound native reserved)
    next => trivial
  next =>
    split
    · trivial
    · split
      · exact {
          stack := ⟨[], [], m.stack.words, rfl, rfl, rfl, rfl⟩
          memory := fun _ => rfl
          stored := nofun
          heapTop := fun _ => rfl
          calls := fun notCall => absurd rfl notCall
          called := fun _ => rfl
          returned := nofun
          pc := rfl }
      · trivial

theorem returning_hasEffect : m.returning.HasEffect .ret immediate m := by
  unfold returning
  split
  next address rest words =>
    exact {
      stack := ⟨[], [], m.stack.words, rfl, rfl, rfl, rfl⟩
      memory := fun _ => rfl
      stored := nofun
      heapTop := fun _ => rfl
      calls := fun _ notReturn => absurd rfl notReturn
      called := nofun
      returned := fun _ => ⟨address, by simp [words]⟩
      pc := by simp [diversion?, words] }
  next => trivial

/-! ## All instructions -/

theorem transferring_hasEffect (natives : Natives) {cancelled : Nat → Bool}
    (kind : m.operation cancelled op = .transfer)
    (unbound : op = .call → ∀ native, NativeAddress.base ≤ immediate →
      natives.get? immediate ≠ some native) :
    (m.transferring natives op immediate (m.pc + op.width)).HasEffect op
      immediate m := by
  cases op with
  | noop | free | halt => exact Effect.of_control rfl rfl rfl rfl
  | loads => exact pushing_hasEffect immediate rfl rfl rfl rfl
  | loadm =>
      unfold transferring loading
      dsimp only
      split
      · exact pushing_hasEffect _ rfl rfl rfl rfl
      · trivial
  | store => exact storing_hasEffect immediate
  | alloc => exact allocating_hasEffect immediate
  | call => exact calling_hasEffect natives immediate (unbound rfl)
  | ret => exact returning_hasEffect
  | jump =>
      unfold transferring jumping
      dsimp only
      split
      · exact Effect.of_control rfl rfl rfl rfl
      · trivial
  | ifjump => exact branching_hasEffect immediate
  | _ => cases kind

theorem execute_hasEffect (natives : Natives)
    (cancelled : Nat → Bool) (m : Machine) (op : Opcode) (immediate : Word)
    (unbound : op = .call → ∀ native, NativeAddress.base ≤ immediate →
      natives.get? immediate ≠ some native) :
    (execute natives cancelled m op immediate (m.pc + op.width)).HasEffect op
      immediate m := by
  rw [execute_eq]
  cases kind : m.operation cancelled op with
  | unary f => exact unary_hasEffect kind
  | binary f => exact guarded_hasEffect kind
  | transfer => exact transferring_hasEffect natives kind unbound

/-- Tracing shows only in the log, and counting only in the count. -/
theorem Effect.of_traced {m' : Machine} {count : Nat}
    (effect : (m.traced op immediate).Effect op immediate m') :
    m.Effect op immediate { m' with count := count } := by
  rw [traced_eq] at effect
  exact { effect with }

/-- A step that succeeds has the effect that the instruction set declares for
its instruction, unless that calls a native function. -/
theorem step_has_declared_effect (natives : Natives) (cancelled : Nat → Bool)
    (m m' : Machine) (stepped : m.step natives cancelled = (m', none))
    (ordinary : ¬ m.CallsNative natives) :
    ∃ w op immediate, m.Ready w op immediate ∧ m.Effect op immediate m' := by
  rcases step_cases natives cancelled m with
    ⟨refusal, refused⟩ | ⟨w, op, immediate, ready⟩
  · cases refused.symm.trans stepped
  · refine ⟨w, op, immediate, ready, ?_⟩
    have unbound : op = .call → ∀ native, NativeAddress.base ≤ immediate →
        natives.get? immediate ≠ some native := by
      rintro rfl native reserved bound
      exact ordinary (ready.callsNative reserved bound)
    have samePc : (m.traced op immediate).pc = m.pc := by rw [traced_eq]
    have effect := execute_hasEffect natives cancelled
      (m.traced op immediate) op immediate
      unbound
    rw [step_of_ready natives cancelled ready, ← samePc] at stepped
    cases outcome : execute natives cancelled
      (m.traced op immediate) op immediate
        ((m.traced op immediate).pc + op.width) with
    | fail after fault =>
        rw [outcome] at stepped
        cases stepped
    | proceed after next =>
        rw [outcome] at stepped effect
        cases stepped
        exact effect.of_traced

/-- A traced machine about to move seven from the top of its stack to address
four. -/
def storingSeven : Machine where
  memory := #[Opcode.noop.code, Opcode.store.code, 4, 0, 0, 0]
  pc := 1
  heapTop := 5
  stack := .ofList [7, 8]
  calls := .ofList [3]
  host := { tracing := true }

theorem step_has_declared_effect_store :
    ∃ m', storingSeven.step Natives.standard (fun _ => false) = (m', none) ∧
      ¬ storingSeven.CallsNative Natives.standard ∧
      (∃ w op immediate, storingSeven.Ready w op immediate ∧
        storingSeven.Effect op immediate m') ∧
      m'.memory.toList = [0, 3, 4, 0, 7, 0] ∧ m'.stack.words = [8] ∧
        m'.pc = 3 := by
  have ordinary : ¬ storingSeven.CallsNative Natives.standard := by
    rintro ⟨w, target, native, found, isCall, _⟩
    cases found
    cases isCall
  have stepped := step_has_declared_effect Natives.standard (fun _ =>
    false) storingSeven _ rfl
  exact ⟨_, rfl, ordinary, stepped ordinary, rfl, rfl, rfl⟩

end Machine

end WordMachine
