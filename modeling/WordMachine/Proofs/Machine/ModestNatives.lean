import WordMachine.Machine.Script
import WordMachine.Proofs.Machine.LimitedStep
import WordMachine.Proofs.Machine.Rounds

/-!
# Native functions and the host

A native function may do anything to a machine, but what a host gives it does
not reach that far: a request to stop cannot be taken back, and the log can only
be written to.  `Native.Modest` says that a function keeps to this, as formatted
output and all scripted functions do.  With modest functions the flag of the
host stays up once it is, and programs run the same whatever was logged before.
-/

namespace WordMachine

namespace Machine

/-! ## The log -/

/-- The machine with more lines at the beginning of its log. -/
def withOlder (m : Machine) (lines : Array LogLine) : Machine :=
  { m with host := { m.host with log := lines ++ m.host.log } }

def withoutLog (m : Machine) : Machine :=
  { m with host := { m.host with log := #[] } }

theorem withoutLog_withOlder (m : Machine) :
    m.withoutLog.withOlder m.host.log = m := by
  simp [withoutLog, withOlder]

theorem logged_withOlder (m : Machine) (lines : Array LogLine)
    (line : LogLine) :
    (m.withOlder lines).logged line = (m.logged line).withOlder lines := by
  rw [logged, logged, withOlder, withOlder, Array.append_push]

theorem traced_withOlder (m : Machine) (lines : Array LogLine) (op : Opcode)
    (immediate : Word) :
    (m.withOlder lines).traced op immediate =
      (m.traced op immediate).withOlder lines := by
  have tracing : (m.withOlder lines).host.tracing = m.host.tracing := rfl
  unfold traced
  rw [tracing]
  split
  next => exact logged_withOlder m lines _
  next => rfl

theorem withoutLog_traced (m : Machine) (op : Opcode) (immediate : Word) :
    (m.traced op immediate).withoutLog = m.withoutLog := by
  unfold traced
  split
  next => rfl
  next => rfl

/-- Instructions do not notice what was logged before. -/
theorem unseen_withOlder (lines : Array LogLine) :
    Unseen (·.withOlder lines) where
  commutes _ _ _ _ _ := rfl
  pc _ := rfl
  stackLimit _ := rfl
  callLimit _ := rfl

end Machine

/-- The native function neither takes a wish to stop back nor reads the log. -/
structure Native.Modest (native : Native) : Prop where
  keeps : ∀ m next, m.host.cancelled = true →
    (native.body m next).machine.host.cancelled = true
  blind : ∀ m next lines, native.body (m.withOlder lines) next =
    (native.body m next).map (·.withOlder lines)

def Natives.Modest (natives : Natives) : Prop :=
  ∀ address native, natives.get? address = some native → native.Modest

/-- Binding a function to an address changes what is bound to this address
only. -/
theorem Natives.get?_set (natives : Natives) (address target : Word)
    (native : Native) :
    (Natives.set address native natives).get? target =
      if target = address then some native else natives.get? target := by
  unfold get?
  induction natives with
  | nil =>
      by_cases found : target = address
      · simp [set, found]
      · simp [set, List.lookup_cons, beq_eq_false_iff_ne.mpr found, found]
  | cons entry rest ih =>
      obtain ⟨key, own⟩ := entry
      by_cases bound : key = address
      · subst bound
        by_cases found : target = key
        · simp [set, found]
        · simp [set, List.lookup_cons, beq_eq_false_iff_ne.mpr found, found]
      · simp only [set, bound, if_false]
        by_cases found : target = key
        · simp [found, bound]
        · simp [List.lookup_cons, beq_eq_false_iff_ne.mpr found, ih]

theorem Natives.Modest.set {natives : Natives} {native : Native}
    (modest : natives.Modest) (own : native.Modest) (address : Word) :
    (Natives.set address native natives).Modest := by
  intro target found bound
  rw [Natives.get?_set] at bound
  split at bound
  next =>
    cases bound
    exact own
  next => exact modest target found bound

namespace Machine

variable {natives : Natives} {m : Machine}

theorem step_withOlder (modest : natives.Modest)
    (cancelled : Nat → Bool) (m : Machine) (lines : Array LogLine) :
    (m.withOlder lines).step natives cancelled =
      ((m.step natives cancelled).1.withOlder lines,
        (m.step natives cancelled).2) := by
  have unseen := unseen_withOlder lines
  rw [step_eq, step_eq, unseen.instruction m]
  cases m.instruction with
  | error fault => rfl
  | ok i =>
      have pc : (m.withOlder lines).pc = m.pc := rfl
      have same : execute natives cancelled
          ((m.traced i.op i.immediate).withOlder lines) i.op
            i.immediate (m.pc + i.op.width) =
          (execute natives cancelled (m.traced i.op i.immediate)
            i.op i.immediate (m.pc + i.op.width)).map (·.withOlder lines) :=
        unseen.execute _ (fun _ _ _ _ _ => rfl)
          fun _ native _ bound => (modest _ native bound).blind _ _ lines
      dsimp only
      rw [traced_withOlder, pc, same]
      cases execute natives cancelled (m.traced i.op i.immediate)
        i.op i.immediate (m.pc + i.op.width) with
      | proceed after next => rfl
      | fail after fault => rfl

theorem round_withOlder (modest : natives.Modest) (watch : Watch)
    (number : Nat) (m : Machine) (lines : Array LogLine) :
    (m.withOlder lines).round natives watch number =
      ((m.round natives watch number).1.withOlder lines,
        (m.round natives watch number).2) := by
  have halts : (m.withOlder lines).isHalted = m.isHalted := rfl
  have spends : (m.withOlder lines).isSpent = m.isSpent := rfl
  have wishes : (m.withOlder lines).host.cancelled = m.host.cancelled := rfl
  unfold round
  rw [halts, spends, wishes, step_withOlder modest, logged_withOlder]
  split
  next => rfl
  next =>
    split
    next => rfl
    next =>
      split
      next => rfl
      next => rfl

theorem runFrom_withOlder (modest : natives.Modest) (watch : Watch)
    (fuel number : Nat) (m : Machine) (lines : Array LogLine) :
    (m.withOlder lines).runFrom natives watch fuel number =
      ((m.runFrom natives watch fuel number).1.withOlder lines,
        (m.runFrom natives watch fuel number).2) := by
  induction fuel generalizing m number with
  | zero => rfl
  | succ fuel ih =>
      rw [runFrom_succ, runFrom_succ, round_withOlder modest]
      rcases m.round natives watch number with ⟨next, outcome⟩
      cases outcome with
      | none => exact ih (number + 1) next
      | some stop => rfl

/-- Machines that differ in the log run alike if nobody watches them, and log
the same. -/
theorem run_of_withoutLog (modest : natives.Modest) {m' : Machine}
    (same : m'.withoutLog = m.withoutLog) (fuel : Nat) :
    ∃ (rest : Machine) (stop : Stop),
      m.run natives Watch.never fuel = (rest.withOlder m.host.log, stop) ∧
      m'.run natives Watch.never fuel = (rest.withOlder m'.host.log, stop) := by
  -- both are the machine without a log, with different lines put before it
  have ran := runFrom_withOlder modest Watch.never fuel 0 m.withoutLog
  have here := ran m.host.log
  have there := ran m'.host.log
  rw [withoutLog_withOlder] at here
  rw [← same, withoutLog_withOlder] at there
  rw [same] at there
  exact ⟨_, _, here, there⟩

/-! ## Wishes -/

def raised (m : Machine) : Machine :=
  { m with host := { m.host with cancelled := true } }

theorem unseen_raised : Unseen raised where
  commutes _ _ _ _ _ := rfl
  pc _ := rfl
  stackLimit _ := rfl
  callLimit _ := rfl

theorem raised_of_cancelled (wish : m.host.cancelled = true) :
    m.raised = m := by
  rw [raised, ← wish]

theorem map_raised {outcome : Outcome}
    (wish : outcome.machine.host.cancelled = true) :
    outcome.map raised = outcome := by
  cases outcome with
  | proceed after next =>
      exact congrArg (Outcome.proceed · next) (raised_of_cancelled wish)
  | fail after fault =>
      exact congrArg (Outcome.fail · fault) (raised_of_cancelled wish)

/-- A step does not lower the flag of the host. -/
theorem step_cancelled (modest : natives.Modest) (cancelled : Nat → Bool)
    (wish : m.host.cancelled = true) :
    (m.step natives cancelled).1.host.cancelled = true := by
  rw [step_eq]
  cases m.instruction with
  | error fault => exact wish
  | ok i =>
      have wish' : (m.traced i.op i.immediate).host.cancelled = true := by
        unfold traced
        split
        next => exact wish
        next => exact wish
      -- what an instruction does to a machine with the flag up, it does with
      -- the flag up
      have same : execute natives cancelled
          (m.traced i.op i.immediate).raised i.op
            i.immediate (m.pc + i.op.width) =
          (execute natives cancelled (m.traced i.op i.immediate)
            i.op i.immediate (m.pc + i.op.width)).map raised := by
        apply unseen_raised.execute _ (fun _ _ _ _ _ => rfl)
        intro _ native _ bound
        rw [raised_of_cancelled wish',
          map_raised ((modest _ native bound).keeps _ _ wish')]
      rw [raised_of_cancelled wish'] at same
      dsimp only
      rw [same]
      cases execute natives cancelled (m.traced i.op i.immediate)
        i.op i.immediate (m.pc + i.op.width) with
      | proceed after next => rfl
      | fail after fault => rfl

end Machine

/-! ## Native functions -/

theorem Action.perform_cancelled {m : Machine}
    (wish : m.host.cancelled = true) (next : Int) (action : Action) :
    (action.perform m next).machine.host.cancelled = true := by
  cases action with
  | push w =>
      by_cases room : m.stack.depth < m.limits.stack
      · simp only [perform, Machine.push, room, if_true]
        exact wish
      · simp only [perform, Machine.push, room, if_false]
        exact wish
  | pop =>
      cases words : m.stack.words with
      | nil =>
          simp only [perform, Machine.pop, words]
          exact wish
      | cons w rest =>
          simp only [perform, Machine.pop, words]
          exact wish
  | print text =>
      cases fault : (m.host.output.write text).fault with
      | none =>
          simp only [perform, fault]
          exact wish
      | some reason =>
          simp only [perform, fault]
          exact wish
  | load program =>
      by_cases room : program.size ≤ m.memory.size
      · simp only [perform, Machine.load, room, if_true]
        exact wish
      · simp only [perform, Machine.load, room, if_false]
        exact wish
  | cancel => rfl
  | setPc pc => exact wish
  | fail wording => exact wish

theorem Machine.load_withOlder (m : Machine) (lines : Array LogLine)
    (program : Array Word) :
    (m.withOlder lines).load program =
      (m.load program).map (·.withOlder lines) := by
  have memory : (m.withOlder lines).memory = m.memory := rfl
  rw [load, load, memory]
  split
  next => simp only [Except.map, logged, withOlder, Array.append_push]
  next => rfl

theorem Action.perform_withOlder (m : Machine) (next : Int)
    (lines : Array LogLine) (action : Action) :
    action.perform (m.withOlder lines) next =
      (action.perform m next).map (·.withOlder lines) := by
  cases action with
  | push w =>
      simp only [perform, (Machine.unseen_withOlder lines).push m w]
      cases m.push w with
      | ok pushed => rfl
      | error fault => rfl
  | pop =>
      have words : (m.withOlder lines).stack.words = m.stack.words := rfl
      simp only [perform, Machine.pop, words]
      cases m.stack.words with
      | nil => rfl
      | cons w rest => rfl
  | print text =>
      have sink : (m.withOlder lines).host.output = m.host.output := rfl
      simp only [perform, sink]
      cases (m.host.output.write text).fault with
      | none => rfl
      | some fault => rfl
  | load program =>
      simp only [perform, m.load_withOlder lines program]
      cases m.load program with
      | ok loaded => rfl
      | error fault => rfl
  | setPc pc => rfl
  | cancel => rfl
  | fail wording => rfl

/-- Scripted native functions are modest. -/
theorem modest_ofActions (name : Text) (actions : List Action) :
    (Native.ofActions name actions).Modest where
  keeps := by
    intro m next wish
    change (Action.performAll actions m next).machine.host.cancelled = true
    induction actions generalizing m next with
    | nil => exact wish
    | cons action rest ih =>
        have kept := action.perform_cancelled wish next
        rw [Action.performAll]
        cases performed : action.perform m next with
        | proceed after next' =>
            rw [performed] at kept
            exact ih after next' kept
        | fail after fault =>
            rw [performed] at kept
            exact kept
  blind := by
    intro m next lines
    change Action.performAll actions (m.withOlder lines) next =
      (Action.performAll actions m next).map (·.withOlder lines)
    induction actions generalizing m next with
    | nil => rfl
    | cons action rest ih =>
        rw [Action.performAll, Action.performAll, action.perform_withOlder]
        cases action.perform m next with
        | proceed after next' => exact ih after next'
        | fail after fault => rfl

/-- So is formatted output. -/
theorem modest_standard : Natives.standard.Modest := by
  intro address native bound
  have isPrintf := Machine.body_of_standard bound
  constructor
  · intro m next wish
    rw [isPrintf]
    cases words : m.stack.words with
    | nil =>
        simp only [Printf.body, Machine.pop, words]
        exact wish
    | cons w rest =>
        simp only [Printf.body, Machine.pop, words]
        split
        next => exact wish
        next => exact wish
  · intro m next lines
    have stack : (m.withOlder lines).stack.words = m.stack.words := rfl
    rw [isPrintf]
    cases words : m.stack.words with
    | nil => simp only [Printf.body, Machine.pop, stack, words, Outcome.map]
    | cons w rest =>
        simp only [Printf.body, Machine.pop, Machine.withOlder, words]
        split
        next => rfl
        next => rfl

end WordMachine
