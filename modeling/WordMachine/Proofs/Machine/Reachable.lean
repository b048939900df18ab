import Mathlib.Algebra.Group.Nat.Defs
import Mathlib.Logic.Relation
import WordMachine.Machine.Printf
import WordMachine.Machine.Run
import WordMachine.Proofs.Machine.Operations

/-!
# What holds of every reachable machine

`Machine.WithinBounds` says that a machine keeps to its memory and its limits.
Every instruction keeps it, whatever words are in memory, and so do formatted
output, whole runs and everything a host may do between instructions.  The
program counter and the pending calls hold each other in bounds: a call saves
the address behind itself, which may be the end of memory, and a return goes
there.
-/

namespace WordMachine

/-- A machine with `size` words of memory keeps to it and to its limits, with
the heap not below `floor`. -/
structure Machine.WithinBounds (size : Nat) (limits : Limits) (floor : Nat)
    (m : Machine) :
    Prop where
  memory : m.memory.size = size
  limits_eq : m.limits = limits
  stack : m.stack.depth ≤ limits.stack
  calls : m.calls.depth ≤ limits.calls
  heapFloor : floor ≤ m.heapTop
  heapTop : m.heapTop ≤ size
  pc : 0 ≤ m.pc ∧ m.pc ≤ size
  resume : ∀ address ∈ m.calls.words, 2 ≤ address.toInt ∧ address.toInt ≤ size

/-- The machine is within bounds, and so is the address to go on at. -/
def Outcome.WithinBounds (size : Nat) (limits : Limits) (floor : Nat) :
    Outcome → Prop
  | .proceed m next => m.WithinBounds size limits floor ∧ 0 ≤ next ∧ next ≤ size
  | .fail m _ => m.WithinBounds size limits floor

namespace Machine

variable {size floor : Nat} {limits : Limits} {m : Machine} {next : Int}

/-! ## Instructions -/

theorem WithinBounds.withStack {stack : Stack}
    (within : m.WithinBounds size limits floor)
    (lower : stack.depth ≤ m.stack.depth) :
    ({ m with stack := stack } : Machine).WithinBounds size limits floor :=
  { within with stack := Nat.le_trans lower within.stack }

theorem WithinBounds.withHost (within : m.WithinBounds size limits floor)
    (host : Host) :
    ({ m with host := host } : Machine).WithinBounds size limits floor :=
  { within with }

theorem eq_of_push {m' : Machine} {w : Word} (pushed : m.push w = .ok m') :
    m.stack.depth < m.limits.stack ∧
      m' = { m with stack := m.stack.push w } := by
  unfold push at pushed
  split at pushed
  next room =>
    cases pushed
    exact ⟨room, rfl⟩
  next => cases pushed

theorem WithinBounds.push {m' : Machine} {w : Word}
    (within : m.WithinBounds size limits floor) (pushed : m.push w = .ok m') :
    m'.WithinBounds size limits floor := by
  obtain ⟨room, rfl⟩ := eq_of_push pushed
  rw [within.limits_eq] at room
  exact { within with stack := room }

theorem pushing_withinBounds (within : m.WithinBounds size limits floor)
    (after : 0 ≤ next ∧ next ≤ size) (w : Word) :
    (m.pushing next w).WithinBounds size limits floor := by
  unfold pushing
  split
  next pushed => exact ⟨within.push pushed, after⟩
  next => exact within

theorem unary_withinBounds (within : m.WithinBounds size limits floor)
    (after : 0 ≤ next ∧ next ≤ size) (f : Word → Word) :
    (m.unary next f).WithinBounds size limits floor := by
  unfold unary
  split
  next a rest words =>
    refine ⟨within.withStack ?_, after⟩
    have depth : m.stack.depth = rest.length + 1 := by
      rw [m.stack.depth_eq, words]; rfl
    change m.stack.depth - 1 + 1 ≤ m.stack.depth
    omega
  next => exact within

theorem guarded_withinBounds (within : m.WithinBounds size limits floor)
    (after : 0 ≤ next ∧ next ≤ size) (f : Word → Word → Except Fault Word) :
    (m.guarded next f).WithinBounds size limits floor := by
  have dropped : m.stack.drop2.depth ≤ m.stack.depth := by
    change m.stack.depth - 1 - 1 ≤ m.stack.depth
    omega
  unfold guarded
  split
  · split
    · exact pushing_withinBounds (within.withStack dropped) after _
    · exact within
  · exact within

theorem loading_withinBounds (within : m.WithinBounds size limits floor)
    (after : 0 ≤ next ∧ next ≤ size) (address : Word) :
    (m.loading next address).WithinBounds size limits floor := by
  unfold loading
  split
  · exact pushing_withinBounds within after _
  · exact within

theorem storing_withinBounds (within : m.WithinBounds size limits floor)
    (after : 0 ≤ next ∧ next ≤ size) (address : Word) :
    (m.storing next address).WithinBounds size limits floor := by
  unfold storing
  split
  · split
    · have dropped : m.stack.drop1.depth ≤ m.stack.depth := Nat.sub_le _ 1
      have kept := within.withStack dropped
      exact ⟨{ kept with memory := by simp [within.memory] }, after⟩
    · exact within
  · exact within

theorem allocating_withinBounds (within : m.WithinBounds size limits floor)
    (after : 0 ≤ next ∧ next ≤ size) (words : Word) :
    (m.allocating next words).WithinBounds size limits floor := by
  unfold allocating
  split
  next => exact within
  next fits =>
    split
    next m' pushed =>
      have heap : m'.heapTop = m.heapTop := by rw [(eq_of_push pushed).2]
      refine ⟨{ within.push pushed with heapFloor := ?_, heapTop := ?_ }, after⟩
      · have := within.heapFloor
        dsimp only
        omega
      · have := within.heapTop
        have := within.memory
        dsimp only
        omega
    next => exact within

theorem returning_withinBounds (within : m.WithinBounds size limits floor) :
    m.returning.WithinBounds size limits floor := by
  unfold returning
  split
  next address rest words =>
    have saved := within.resume address (by simp [words])
    refine ⟨{ within with calls := ?_, resume := ?_ }, by omega, saved.2⟩
    · exact Nat.le_trans (Nat.sub_le _ 1) within.calls
    · intro address member
      exact within.resume address (List.mem_of_mem_drop member)
  next => exact within

theorem jumping_withinBounds (within : m.WithinBounds size limits floor)
    (target : Word) :
    (m.jumping target).WithinBounds size limits floor := by
  unfold jumping
  split
  next fetched =>
    have inside := bounds_of_fetch fetched
    rw [within.memory] at inside
    exact ⟨within, inside.1, by omega⟩
  next => exact within

theorem branching_withinBounds (within : m.WithinBounds size limits floor)
    (after : 0 ≤ next ∧ next ≤ size) (target : Word) :
    (m.branching next target).WithinBounds size limits floor := by
  have dropped : m.stack.drop1.depth ≤ m.stack.depth := Nat.sub_le _ 1
  unfold branching
  split
  · split
    · split
      next fetched =>
        have inside := bounds_of_fetch fetched
        rw [within.memory] at inside
        exact ⟨within.withStack dropped, inside.1, by omega⟩
      next => exact within
    · exact ⟨within.withStack dropped, after⟩
  · exact within

end Machine

/-! ## Formatted output -/

namespace Printf

theorem directive_suffix (memory : Array Word) (d : Word) (state : Progress) :
    (directive memory d state).1.stack.words <:+ state.stack.words := by
  have dropped : state.stack.drop1.words <:+ state.stack.words :=
    List.drop_suffix 1 _
  unfold directive
  split
  · split
    · exact List.suffix_rfl
    · dsimp only
      split
      · exact dropped
      · exact dropped
  · split
    · exact List.suffix_rfl
    · exact List.suffix_rfl

theorem formatFrom_suffix (memory : Array Word) (p : Nat) (state : Progress) :
    (formatFrom memory p state).1.stack.words <:+ state.stack.words := by
  fun_induction formatFrom memory p state with
  | case1 | case3 | case6 | case7 => exact List.suffix_rfl
  | case2 p state inside w nonzero plain ih => exact ih
  | case4 p state inside w nonzero percent behind d nonzero' after
      fault carried =>
      have taken := directive_suffix memory d state
      rw [carried] at taken
      exact taken
  | case5 p state inside w nonzero percent behind d nonzero' after carried ih =>
      have taken := directive_suffix memory d state
      rw [carried] at taken
      exact ih.trans taken

theorem format_suffix (memory : Array Word) (address : Word)
    (state : Progress) :
    (format memory address state).1.stack.words <:+ state.stack.words := by
  unfold format
  split
  · exact formatFrom_suffix memory _ state
  · exact List.suffix_rfl

theorem format_depth (memory : Array Word) (address : Word) (state : Progress) :
    (format memory address state).1.stack.depth ≤ state.stack.depth := by
  rw [Stack.depth_eq, Stack.depth_eq]
  exact (format_suffix memory address state).length_le

end Printf

namespace Machine

variable {size floor : Nat} {limits : Limits} {m : Machine} {next : Int}

theorem WithinBounds.pop {m' : Machine} {w : Word}
    (within : m.WithinBounds size limits floor) (popped : m.pop = .ok (w, m')) :
    m'.WithinBounds size limits floor := by
  unfold Machine.pop at popped
  split at popped
  next => cases popped
  next =>
    cases popped
    exact within.withStack (Nat.sub_le _ 1)

theorem printf_withinBounds (within : m.WithinBounds size limits floor)
    (after : 0 ≤ next ∧ next ≤ size) :
    (Printf.body m next).WithinBounds size limits floor := by
  unfold Printf.body
  split
  next => exact within
  next address m' popped =>
    have written := (within.pop popped).withStack
      (Printf.format_depth m'.memory address ⟨m'.stack, ⟨m'.host.output, none⟩⟩)
    dsimp only
    split
    · exact ⟨written.withHost _, after⟩
    · exact written.withHost _

/-! ## Steps and runs -/

theorem calling_withinBounds (fits : size < 2 ^ 63)
    (within : m.WithinBounds size limits floor) (after : 2 ≤ next ∧ next ≤ size)
    (target : Word) :
    (m.calling Natives.standard next target).WithinBounds size
      limits floor := by
  unfold calling
  split
  · split
    next native bound =>
      rw [body_of_standard bound]
      exact printf_withinBounds within (by omega)
    next => exact within
  · split
    next => exact within
    next fetched =>
      split
      next room =>
        have inside := bounds_of_fetch fetched
        rw [within.memory] at inside
        rw [within.limits_eq] at room
        refine ⟨{ within with calls := room, resume := ?_ }, inside.1, by omega⟩
        intro address member
        rcases List.mem_cons.mp member with rfl | pending
        · rw [Int64.toInt_ofInt_of_le (by omega) (by omega)]
          exact after
        · exact within.resume address pending
      next => exact within

theorem Ready.bounds {w immediate : Word} {op : Opcode}
    (ready : m.Ready w op immediate) :
    0 ≤ m.pc ∧ m.pc + op.width ≤ m.memory.size := by
  have here := bounds_of_wordAt? ready.word
  have immediate := ready.immediate
  unfold immediate? at immediate
  unfold Opcode.width
  split at immediate
  next takes =>
    have behind := bounds_of_wordAt? immediate
    rw [if_pos takes]
    omega
  next takes =>
    rw [if_neg takes]
    omega

theorem execute_withinBounds (fits : size < 2 ^ 63) (cancelled : Nat → Bool)
    (within : m.WithinBounds size limits floor) (op : Opcode)
    (immediate : Word) (next : Int) (after : op.width ≤ next ∧ next ≤ size) :
    (execute Natives.standard cancelled m op immediate next).WithinBounds size
      limits floor := by
  have inside : 0 ≤ next ∧ next ≤ size := by omega
  rw [execute_eq]
  cases m.operation cancelled op with
  | unary f => exact unary_withinBounds within inside f
  | binary f => exact guarded_withinBounds within inside f
  | transfer =>
      cases op with
      | halt => exact ⟨within, within.pc⟩
      | loads => exact pushing_withinBounds within inside immediate
      | loadm => exact loading_withinBounds within inside immediate
      | store => exact storing_withinBounds within inside immediate
      | alloc => exact allocating_withinBounds within inside immediate
      | call => exact calling_withinBounds fits within after immediate
      | ret => exact returning_withinBounds within
      | jump => exact jumping_withinBounds within immediate
      | ifjump => exact branching_withinBounds within inside immediate
      | _ => exact ⟨within, inside⟩

theorem WithinBounds.step (fits : size < 2 ^ 63)
    (within : m.WithinBounds size limits floor) (cancelled : Nat → Bool) :
    (m.step Natives.standard cancelled).1.WithinBounds size limits floor := by
  rcases step_cases Natives.standard cancelled m with
    ⟨fault, refused⟩ | ⟨w, op, immediate, ready⟩
  · rw [refused]
    exact within
  · have bounds := ready.bounds
    rw [within.memory] at bounds
    have traced : (m.traced op immediate).WithinBounds size limits floor := by
      rw [traced_eq]
      exact within.withHost _
    have outcome := execute_withinBounds fits cancelled traced op immediate
      (m.pc + op.width) (by omega)
    rw [step_of_ready _ _ ready]
    cases result : execute Natives.standard cancelled
      (m.traced op immediate) op immediate
        (m.pc + op.width) with
    | proceed after next =>
        rw [result] at outcome
        exact { outcome.1 with pc := outcome.2 }
    | fail after fault =>
        rw [result] at outcome
        exact outcome

theorem WithinBounds.runFrom (fits : size < 2 ^ 63) (watch : Watch)
    (fuel round : Nat) (within : m.WithinBounds size limits floor) :
    (m.runFrom Natives.standard watch fuel round).1.WithinBounds size
      limits floor := by
  induction fuel generalizing round m with
  | zero => exact within
  | succ fuel ih =>
      have stepped := within.step fits (watch m.host.cancelled round)
      unfold Machine.runFrom
      split
      · exact within.withHost _
      · split
        · exact within
        · split
          · exact within
          · split
            next after result =>
              rw [result] at stepped
              exact ih (round + 1) stepped
            next after fault result =>
              rw [result] at stepped
              exact stepped

/-! ## Everything a host may do -/

/-- One thing a host may do with a machine that it has loaded, without changing
its settings or its native functions. -/
inductive Interaction (m : Machine) : Machine → Prop
  | step (cancelled : Nat → Bool) :
      Interaction m (m.step Natives.standard cancelled).1
  | run (watch : Watch) (fuel : Nat) :
      Interaction m (m.run Natives.standard watch fuel).1
  | push {m' : Machine} {w : Word} (pushed : m.push w = .ok m') :
      Interaction m m'
  | pop {m' : Machine} {w : Word} (popped : m.pop = .ok (w, m')) :
      Interaction m m'
  /-- Write any words into memory. -/
  | write (memory : Array Word) (same : memory.size = m.memory.size) :
      Interaction m { m with memory := memory }
  /-- Move the program counter, at most to the end of memory. -/
  | seek (pc : Int) (inside : 0 ≤ pc ∧ pc ≤ m.memory.size) :
      Interaction m { m with pc := pc }

/-- Any number of interactions. -/
abbrev Reaches : Machine → Machine → Prop :=
  Relation.ReflTransGen Interaction

theorem WithinBounds.interaction {m' : Machine} (fits : size < 2 ^ 63)
    (within : m.WithinBounds size limits floor)
    (interaction : Interaction m m') :
    m'.WithinBounds size limits floor := by
  cases interaction with
  | step cancelled => exact within.step fits cancelled
  | run watch fuel => exact within.runFrom fits watch fuel 0
  | push pushed => exact within.push pushed
  | pop popped => exact within.pop popped
  | write memory same =>
      exact { within with memory := same.trans within.memory }
  | seek pc inside => exact { within with pc := within.memory ▸ inside }

theorem WithinBounds.reaches {m' : Machine} (fits : size < 2 ^ 63)
    (within : m.WithinBounds size limits floor) (reached : Reaches m m') :
    m'.WithinBounds size limits floor := by
  induction reached with
  | refl => exact within
  | tail _ interaction ih => exact ih.interaction fits interaction

theorem withinBounds_of_load {start : Machine} {program : Array Word}
    (loaded : m.load program = .ok start) :
    start.WithinBounds m.memory.size m.limits program.size := by
  unfold load at loaded
  split at loaded
  next fits =>
    cases loaded
    refine ⟨?_, rfl, Nat.zero_le _, Nat.zero_le _, Nat.le_refl _, fits,
      ⟨Int.le_refl 0, ?_⟩, ?_⟩
    · simp only [logged, Array.size_append, Array.size_replicate]
      omega
    · exact Int.natCast_nonneg _
    · intro address member
      cases member
  next => cases loaded

/-- A machine that has loaded a program stays within its memory and its limits,
whatever the program and the host do, and its heap only grows.  Memory is
bounded because a resume address, which may be the end of memory, has to be a
word. -/
theorem reachable_withinBounds {m start s : Machine} {program : Array Word}
    (fits : m.memory.size < 2 ^ 63) (loaded : m.load program = .ok start)
    (reached : Reaches start s) :
    s.WithinBounds m.memory.size m.limits program.size ∧
      ∀ t, Reaches s t → s.heapTop ≤ t.heapTop := by
  have within := (withinBounds_of_load loaded).reaches fits reached
  refine ⟨within, fun t further => ?_⟩
  have raised : s.WithinBounds m.memory.size m.limits s.heapTop :=
    { within with heapFloor := Nat.le_refl _ }
  exact (raised.reaches fits further).heapFloor

/-- Eight words of memory, a stack for two words and room for one pending
call. -/
def smallMachine : Machine where
  memory := Array.replicate 8 0
  limits := { stack := 2, calls := 1 }

/-- A program that calls its own second instruction, which takes the rest of
memory. -/
def callAndAllocate : Array Word :=
  #[Opcode.call.code, 2, Opcode.alloc.code, 3, Opcode.ret.code]

theorem reachable_withinBounds_call :
    ∃ start s, smallMachine.load callAndAllocate = .ok start ∧ Reaches start s ∧
      s.WithinBounds 8 smallMachine.limits 5 ∧
      s.calls.words = [2] ∧ s.stack.words = [5] ∧ s.heapTop = 8 ∧ s.pc = 8 := by
  obtain ⟨start, s, loaded, reached, state⟩ :
      ∃ start s, smallMachine.load callAndAllocate = .ok start ∧
        Reaches start s ∧
        s.calls.words = [2] ∧ s.stack.words = [5] ∧ s.heapTop = 8 ∧ s.pc = 8 :=
    ⟨_, _, rfl, .tail (.tail (.single (.step fun _ => false))
      (.step fun _ => false))
      (.seek 8 ⟨by decide, by decide⟩), rfl, rfl, rfl, rfl⟩
  exact ⟨start, s, loaded, reached,
    (reachable_withinBounds (by decide) loaded reached).1, state⟩

end Machine

end WordMachine
