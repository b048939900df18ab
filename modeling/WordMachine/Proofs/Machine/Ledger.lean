import WordMachine.Proofs.Machine.Unseen

/-!
# The ledger of a machine

A machine keeps a ledger beside its state: the step limit, the number of
instructions executed, the log and the wishes of the host.  Only `powf` reads
any of it, and no instruction changes it.  This is said by equations: an
instruction does the same with another ledger, which it leaves as it found it.
-/

namespace WordMachine

/-- The part of a machine that is of no concern to its instructions. -/
structure Ledger where
  /-- The step limit. -/
  steps : Option Nat
  count : Nat
  log : Array LogLine
  tracing : Bool
  cancelled : Bool

namespace Machine

def ledger (m : Machine) : Ledger :=
  ⟨m.limits.steps, m.count, m.host.log, m.host.tracing, m.host.cancelled⟩

def withLedger (m : Machine) (l : Ledger) : Machine :=
  { m with
    count := l.count
    limits := { m.limits with steps := l.steps }
    host := { m.host with
      log := l.log, tracing := l.tracing, cancelled := l.cancelled } }

@[simp] theorem ledger_withLedger (m : Machine) (l : Ledger) :
    (m.withLedger l).ledger = l := rfl

@[simp] theorem withLedger_ledger (m : Machine) :
    m.withLedger m.ledger = m := rfl

@[simp] theorem pc_withLedger (m : Machine) (l : Ledger) :
    (m.withLedger l).pc = m.pc := rfl

@[simp] theorem stack_withLedger (m : Machine) (l : Ledger) :
    (m.withLedger l).stack = m.stack := rfl

/-- No instruction but `powf` notices another ledger. -/
theorem unseen_withLedger (l : Ledger) : Unseen (·.withLedger l) where
  commutes _ _ _ _ _ := rfl
  pc _ := rfl
  stackLimit _ := rfl
  callLimit _ := rfl

variable {m : Machine} {next : Int} {l : Ledger}

/-! ## Instructions -/

theorem printf_withLedger :
    Printf.body (m.withLedger l) next =
      (Printf.body m next).map (·.withLedger l) := by
  cases words : m.stack.words with
  | nil => simp [Printf.body, pop, words, Outcome.map]
  | cons address rest =>
      simp only [Printf.body, pop, withLedger, words]
      split <;> rfl

/-- A power of the operands comes out the same with another ledger. -/
def PowfAgrees (m : Machine) (cancelled : Nat → Bool) (l : Ledger)
    (cancelled' : Nat → Bool) : Prop :=
  ∀ a b rest, m.stack.words = a :: b :: rest →
    Arithmetic.powf ((m.withLedger l).interruption cancelled') a b.toInt.toNat =
      Arithmetic.powf (m.interruption cancelled) a b.toInt.toNat

theorem PowfAgrees.of_interruption {cancelled cancelled' : Nat → Bool}
    (same : (m.withLedger l).interruption cancelled' =
      m.interruption cancelled) :
    m.PowfAgrees cancelled l cancelled' := by
  intro a b rest words
  rw [same]

/-- An instruction does the same with another ledger, which it leaves as it
found it. -/
theorem execute_withLedger {cancelled cancelled' : Nat → Bool} {op : Opcode}
    (same : op = .powf → m.PowfAgrees cancelled l cancelled') (immediate : Word)
    (next : Int) :
    execute Natives.standard cancelled' (m.withLedger l) op immediate next =
      (execute Natives.standard cancelled m op immediate next).map
        (·.withLedger l) := by
  apply (unseen_withLedger l).execute m same
  intro _ native _ bound
  rw [body_of_standard bound]
  exact printf_withLedger

/-! ## Steps -/

theorem instruction_withLedger :
    (m.withLedger l).instruction = m.instruction := rfl

/-- What a step of the machine adds to the log if instructions are logged. -/
def stepLines (m : Machine) : Array LogLine :=
  match m.instruction with
  | .ok i => #[m.traceLine i.op i.immediate]
  | .error _ => #[]

end Machine

namespace Ledger

/-- The ledger with more lines in the log, if instructions are logged. -/
def noted (l : Ledger) (lines : Array LogLine) : Ledger :=
  { l with log := if l.tracing then l.log ++ lines else l.log }

/-- The ledger after a step of `m` that ended with the given failure, if any. -/
def after (l : Ledger) (m : Machine) (fault : Option RuntimeFault) : Ledger :=
  { l.noted m.stepLines with count := if fault.isNone then l.count +
    1 else l.count }

end Ledger

namespace Machine

variable {m : Machine} {l : Ledger}

theorem traced_withLedger {i : Instruction} (decoded : m.instruction = .ok i) :
    (m.withLedger l).traced i.op i.immediate =
      m.withLedger (l.noted m.stepLines) := by
  cases tracing : l.tracing with
  | false => simp [traced, withLedger, Ledger.noted, tracing]
  | true =>
      simp [traced, withLedger, Ledger.noted, tracing, logged, traceLine,
        stepLines, decoded]

/-- A step does the same with another ledger, in which it counts and is
noted. -/
theorem step_withLedger {cancelled cancelled' : Nat → Bool}
    (same : ∀ i, m.instruction = .ok i → i.op = .powf →
      m.PowfAgrees cancelled l cancelled') :
    (m.withLedger l).step Natives.standard cancelled' =
      ((m.step Natives.standard cancelled).1.withLedger
        (l.after m (m.step Natives.standard cancelled).2),
        (m.step Natives.standard cancelled).2) := by
  rw [step_eq, step_eq, instruction_withLedger]
  cases decoded : m.instruction with
  | error fault => simp [Ledger.after, Ledger.noted, stepLines, decoded]
  | ok i =>
      have traced : m.traced i.op i.immediate =
          m.withLedger (m.ledger.noted m.stepLines) :=
        traced_withLedger (l := m.ledger) decoded
      have there : i.op = .powf →
          m.PowfAgrees cancelled (l.noted m.stepLines) cancelled' :=
        same i decoded
      have here : i.op = .powf →
          m.PowfAgrees cancelled (m.ledger.noted m.stepLines) cancelled :=
        fun _ => .of_interruption rfl
      simp only [traced_withLedger decoded, traced, execute_withLedger there,
        execute_withLedger here, pc_withLedger]
      cases execute Natives.standard cancelled m i.op i.immediate
        (m.pc + i.op.width) with
      | proceed after next => rfl
      | fail after fault => rfl

/-- A step counts if it succeeds, and is noted in the log. -/
theorem step_ledger (cancelled : Nat → Bool) (m : Machine) :
    (m.step Natives.standard cancelled).1.ledger =
      m.ledger.after m (m.step Natives.standard cancelled).2 := by
  have stepped : m.step Natives.standard cancelled =
      ((m.step Natives.standard cancelled).1.withLedger
        (m.ledger.after m (m.step Natives.standard cancelled).2),
        (m.step Natives.standard cancelled).2) :=
    step_withLedger (l := m.ledger) fun _ _ _ => .of_interruption rfl
  exact congrArg (fun result => result.1.ledger) stepped

theorem step_steps (cancelled : Nat → Bool) (m : Machine) :
    (m.step Natives.standard cancelled).1.limits.steps = m.limits.steps :=
  congrArg Ledger.steps (step_ledger cancelled m)

theorem step_count (cancelled : Nat → Bool) (m : Machine) :
    (m.step Natives.standard cancelled).1.count =
      if (m.step Natives.standard cancelled).2.isNone then m.count + 1
        else m.count :=
  congrArg Ledger.count (step_ledger cancelled m)

theorem accounts_of_step {cancelled : Nat → Bool} {next : Machine}
    (stepped : m.step Natives.standard cancelled = (next, none)) :
    next.limits.steps = m.limits.steps ∧ next.count = m.count + 1 := by
  have steps := step_steps cancelled m
  have count := step_count cancelled m
  rw [stepped] at steps count
  exact ⟨steps, count⟩

end Machine

end WordMachine
