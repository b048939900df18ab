import WordMachine.Machine.Run
import WordMachine.Proofs.Machine.Effects

/-!
# Histories

What a machine owes to its past, such as the calls that are pending or the parts
of the heap that were handed out, is said about the list of instructions carried
out so far.  A history is such a list together with the machine that it led to.

Between two instructions the host may do to the machine what it likes, as long
as it leaves alone the pending calls, the heap and the size of memory; a native
function may do the same.  Failing instructions belong to a history as well, but
do not show in its list.
-/

namespace WordMachine

/-- An instruction that was carried out, with the machines before and after
it. -/
structure Transition where
  before : Machine
  instruction : Machine.Instruction
  after : Machine

namespace Machine

/-- The pending calls, the heap and the size of memory are the same. -/
structure Undisturbed (m m' : Machine) : Prop where
  calls : m'.calls = m.calls
  heapTop : m'.heapTop = m.heapTop
  memory : m'.memory.size = m.memory.size

theorem Undisturbed.refl (m : Machine) : m.Undisturbed m :=
  ⟨rfl, rfl, rfl⟩

theorem Undisturbed.trans {m m' m'' : Machine} (first : m.Undisturbed m')
    (second : m'.Undisturbed m'') : m.Undisturbed m'' :=
  ⟨second.calls.trans first.calls, second.heapTop.trans first.heapTop,
    second.memory.trans first.memory⟩

/-- The transition of the next step, unless the step fails. -/
def transition? (natives : Natives) (cancelled : Nat → Bool) (m : Machine) :
    Option Transition :=
  match m.instruction, m.step natives cancelled with
  | .ok i, (m', none) => some ⟨m, i, m'⟩
  | _, _ => none

/-- From `start` the listed instructions were carried out, oldest first, and
left the machine that stands last. -/
inductive History (natives : Natives) (start : Machine) :
    List Transition → Machine → Prop where
  | start : History natives start [] start
  | step {trace : List Transition} {m : Machine} (cancelled : Nat → Bool)
      (before : History natives start trace m)
      (native : m.CallsNative natives →
        m.Undisturbed (m.step natives cancelled).1) :
      History natives start (trace ++ (m.transition? natives cancelled).toList)
        (m.step natives cancelled).1
  /-- The host intervenes. -/
  | outside {trace : List Transition} {m m' : Machine}
      (before : History natives start trace m)
      (undisturbed : m.Undisturbed m') : History natives start trace m'

/-! ## Steps -/

variable {natives : Natives} {cancelled : Nat → Bool} {m m' : Machine}

theorem Untouched.undisturbed (untouched : m.Untouched m') : m.Undisturbed m' :=
  ⟨untouched.calls, untouched.heapTop, congrArg Array.size untouched.memory⟩

theorem instruction_of_ready {w immediate : Word} {op : Opcode}
    (ready : m.Ready w op immediate) :
    m.instruction = .ok ⟨w, op, immediate⟩ := by
  simp only [instruction, ready.word, ready.opcode, ready.immediate,
    Nat.not_lt.mpr ready.operands, if_false]

/-- An instruction that is no call to a native function has its effect or fails
without one. -/
theorem Ready.effect_or_untouched {w immediate : Word} {op : Opcode}
    (ready : m.Ready w op immediate) (cancelled : Nat → Bool)
    (ordinary : ¬ m.CallsNative natives) :
    (∃ after, m.step natives cancelled = (after, none) ∧
      m.Effect op immediate after) ∨
      ∃ after fault, m.step natives cancelled = (after, some fault) ∧
        m.Untouched after := by
  have unbound : op = .call → ∀ native, NativeAddress.base ≤ immediate →
      natives.get? immediate ≠ some native := by
    rintro rfl native reserved bound
    exact ordinary (ready.callsNative reserved bound)
  have pc : (m.traced op immediate).pc = m.pc := by rw [traced_eq]
  have effect := execute_hasEffect natives cancelled (m.traced op immediate) op
    immediate unbound
  have untouched := execute_failsUntouched natives cancelled
    (m.traced op immediate) op immediate
    (m.pc + op.width) unbound
  rw [pc] at effect
  rw [step_of_ready natives cancelled ready]
  cases outcome : execute natives cancelled (m.traced op immediate) op immediate
      (m.pc + op.width) with
  | proceed after next =>
      rw [outcome] at effect
      exact .inl ⟨_, rfl, effect.of_traced⟩
  | fail after fault =>
      rw [outcome] at untouched
      exact .inr ⟨_, _, rfl, untouched.of_traced⟩

/-- What a step can do: carry out an ordinary instruction, leave it to a native
function, or fail. -/
inductive StepShape (natives : Natives) (cancelled : Nat → Bool)
    (m : Machine) : Prop where
  | carriedOut {w immediate : Word} {op : Opcode} {after : Machine}
      (ready : m.Ready w op immediate) (ordinary : ¬ m.CallsNative natives)
      (stepped : m.step natives cancelled = (after, none))
      (transition : m.transition? natives cancelled =
        some ⟨m, ⟨w, op, immediate⟩, after⟩)
      (effect : m.Effect op immediate after)
  | native {w target : Word} (calls : m.CallsNative natives)
      (reserved : NativeAddress.base ≤ target)
      (transition : ∀ t, m.transition? natives cancelled = some t →
        t.instruction = ⟨w, .call, target⟩)
  | failed {fault : RuntimeFault} {after : Machine}
      (stepped : m.step natives cancelled = (after, some fault))
      (transition : m.transition? natives cancelled = none)
      (untouched : m.Untouched after)

theorem transition?_of_failure {fault : RuntimeFault}
    (failed : m.step natives cancelled = (m', some fault)) :
    m.transition? natives cancelled = none := by
  unfold transition?
  rw [failed]
  cases m.instruction with
  | error refusal => rfl
  | ok i => rfl

theorem transition?_of_success {w immediate : Word} {op : Opcode}
    (ready : m.Ready w op immediate)
    (stepped : m.step natives cancelled = (m', none)) :
    m.transition? natives cancelled = some ⟨m, ⟨w, op, immediate⟩, m'⟩ := by
  unfold transition?
  rw [stepped, instruction_of_ready ready]

theorem instruction_of_transition? {w immediate : Word} {op : Opcode}
    {t : Transition} (ready : m.Ready w op immediate)
    (taken : m.transition? natives cancelled = some t) :
    t.instruction = ⟨w, op, immediate⟩ := by
  cases result : m.step natives cancelled with
  | mk after fault =>
      cases fault with
      | some fault =>
          rw [transition?_of_failure result] at taken
          cases taken
      | none =>
          rw [transition?_of_success ready result] at taken
          cases taken
          rfl

/-- The instruction of a machine that calls a native function is such a call. -/
theorem Ready.eq_of_callsNative {w immediate : Word} {op : Opcode}
    (ready : m.Ready w op immediate) (native : m.CallsNative natives) :
    op = .call ∧ NativeAddress.base ≤ immediate ∧
      ∃ bound, natives.get? immediate = some bound := by
  obtain ⟨word, target, bound, found, opcode, behind, reserved, binding⟩ :=
    native
  have same : w = word := Option.some.inj (ready.word.symm.trans found)
  subst same
  have isCall : op = .call := Option.some.inj (ready.opcode.symm.trans opcode)
  subst isCall
  have sameTarget : immediate = target :=
    Option.some.inj (ready.immediate.symm.trans behind)
  subst sameTarget
  exact ⟨rfl, reserved, bound, binding⟩

theorem stepShape (natives : Natives) (cancelled : Nat → Bool) (m : Machine) :
    StepShape natives cancelled m := by
  rcases step_cases natives cancelled m with
    ⟨fault, refused⟩ | ⟨w, op, immediate, ready⟩
  · exact .failed refused (transition?_of_failure refused) (.refl m)
  · by_cases native : m.CallsNative natives
    · obtain ⟨rfl, reserved, -⟩ := ready.eq_of_callsNative native
      exact .native native reserved fun t taken =>
        instruction_of_transition? ready taken
    · rcases ready.effect_or_untouched cancelled native with
        ⟨after, stepped, effect⟩ | ⟨after, fault, stepped, untouched⟩
      · exact .carriedOut ready native stepped
          (transition?_of_success ready stepped) effect
      · exact .failed stepped (transition?_of_failure stepped) untouched

/-- An instruction leaves the size of memory alone. -/
theorem Effect.memory_size {op : Opcode} {immediate : Word}
    (effect : m.Effect op immediate m') :
    m'.memory.size = m.memory.size := by
  by_cases isStore : op = .store
  · obtain ⟨w, -, -, size, -⟩ := effect.stored isStore
    exact size
  · exact congrArg Array.size (effect.memory isStore)

theorem History.memory_size {start : Machine} {trace : List Transition}
    (history : History natives start trace m) :
    m.memory.size = start.memory.size := by
  induction history with
  | start => rfl
  | outside before undisturbed ih => exact undisturbed.memory.trans ih
  | step cancelled before native ih =>
      refine Eq.trans ?_ ih
      cases stepShape natives cancelled _ with
      | carriedOut ready ordinary stepped transition effect =>
          rw [stepped]
          exact effect.memory_size
      | native calls reserved transition => exact (native calls).memory
      | failed stepped transition untouched =>
          rw [stepped]
          exact untouched.undisturbed.memory

end Machine

/-! ## The standard native functions -/

/-- However it ends, the outcome leaves the machine undisturbed. -/
def Outcome.Undisturbed (m : Machine) : Outcome → Prop
  | .proceed m' _ => m.Undisturbed m'
  | .fail m' _ => m.Undisturbed m'

namespace Machine

variable {m : Machine}

theorem printf_undisturbed (next : Int) :
    (Printf.body m next).Undisturbed m := by
  unfold Printf.body pop
  split
  next => exact .refl m
  next address popped result =>
    have same : m.Undisturbed popped := by
      split at result
      next => cases result
      next =>
        cases result
        exact ⟨rfl, rfl, rfl⟩
    dsimp only
    split
    · exact ⟨same.calls, same.heapTop, same.memory⟩
    · exact ⟨same.calls, same.heapTop, same.memory⟩

/-- A step that calls a standard native function leaves the machine
undisturbed. -/
theorem undisturbed_of_standard (cancelled : Nat → Bool)
    (native : m.CallsNative Natives.standard) :
    m.Undisturbed (m.step Natives.standard cancelled).1 := by
  rcases step_cases Natives.standard cancelled m with
    ⟨fault, refused⟩ | ⟨w, op, immediate, ready⟩
  · rw [refused]
    exact .refl m
  · obtain ⟨rfl, reserved, bound, found⟩ := ready.eq_of_callsNative native
    have traced : m.Undisturbed (m.traced .call immediate) := by
      rw [traced_eq]
      exact ⟨rfl, rfl, rfl⟩
    have body := printf_undisturbed (m := m.traced .call immediate)
      (m.pc + Opcode.call.width)
    have called : execute Natives.standard cancelled (m.traced .call immediate)
        .call immediate
        (m.pc + Opcode.call.width) = Printf.body (m.traced .call immediate)
          (m.pc + Opcode.call.width) := by
      rw [execute, calling, if_pos reserved, found, ← body_of_standard found]
    rw [step_of_ready _ _ ready, called]
    cases outcome : Printf.body (m.traced .call immediate)
      (m.pc + Opcode.call.width) with
    | proceed after next =>
        rw [outcome] at body
        exact traced.trans ⟨body.calls, body.heapTop, body.memory⟩
    | fail after fault =>
        rw [outcome] at body
        exact traced.trans body

/-- A run extends a history. -/
theorem History.runFrom {start : Machine} {trace : List Transition}
    (history : History Natives.standard start trace m) (watch : Watch)
    (fuel round : Nat) :
    ∃ more, History Natives.standard start (trace ++ more)
      (m.runFrom Natives.standard watch fuel round).1 := by
  induction fuel generalizing m trace round with
  | zero =>
      refine ⟨[], ?_⟩
      rw [List.append_nil]
      exact history
  | succ fuel ih =>
      have stepped := history.step (watch m.host.cancelled round)
        (undisturbed_of_standard (watch m.host.cancelled round))
      have stays : History Natives.standard start (trace ++ []) m := by
        rw [List.append_nil]
        exact history
      unfold Machine.runFrom
      split
      · exact ⟨[], stays.outside ⟨rfl, rfl, rfl⟩⟩
      · split
        · exact ⟨[], stays⟩
        · split
          · exact ⟨[], stays⟩
          · split
            next after result =>
              rw [result] at stepped
              obtain ⟨more, history⟩ := ih stepped (round + 1)
              exact ⟨_, by rwa [List.append_assoc] at history⟩
            next after fault result =>
              rw [result] at stepped
              exact ⟨_, stepped⟩

end Machine

end WordMachine
