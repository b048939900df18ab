import WordMachine.Proofs.Machine.Ledger
import WordMachine.Proofs.Machine.Rounds

/-!
# Machines that differ in their log

Two machines are alike if they differ at most in the log and in what the host
asks for.  Alike machines that nobody stops run alike: nothing that a program
does, and nothing that it writes, depends on what was logged before.
-/

namespace WordMachine

namespace Machine

/-- The machines are in the same state and have written the same. -/
structure Alike (m m' : Machine) : Prop where
  memory : m'.memory = m.memory
  pc : m'.pc = m.pc
  heapTop : m'.heapTop = m.heapTop
  stack : m'.stack = m.stack
  calls : m'.calls = m.calls
  count : m'.count = m.count
  limits : m'.limits = m.limits
  output : m'.host.output = m.host.output

namespace Alike

variable {m m' : Machine}

theorem refl (m : Machine) : m.Alike m :=
  ⟨rfl, rfl, rfl, rfl, rfl, rfl, rfl, rfl⟩

theorem withLedger {l : Ledger} (steps : l.steps = m.limits.steps)
    (count : l.count = m.count) :
    m.Alike (m.withLedger l) where
  memory := rfl
  pc := rfl
  heapTop := rfl
  stack := rfl
  calls := rfl
  count := count
  limits := by rw [Machine.withLedger, steps]
  output := rfl

theorem eq_withLedger (alike : m.Alike m') : m' = m.withLedger m'.ledger := by
  obtain ⟨memory, pc, heapTop, stack, calls, count, limits, host⟩ := m'
  obtain ⟨rfl, rfl, rfl, rfl, rfl, rfl, rfl, output⟩ := alike
  simp only [Machine.withLedger, Machine.ledger, ← output]

theorem isHalted (alike : m.Alike m') : m'.isHalted = m.isHalted := by
  rw [alike.eq_withLedger]
  rfl

theorem isSpent (alike : m.Alike m') : m'.isSpent = m.isSpent := by
  rw [Machine.isSpent, alike.limits, alike.count]
  rfl

theorem currentWord (alike : m.Alike m') : m'.currentWord = m.currentWord := by
  rw [alike.eq_withLedger]
  rfl

/-- Alike machines take alike steps. -/
theorem step (alike : m.Alike m') (cancelled : Nat → Bool) :
    (m.step Natives.standard cancelled).1.Alike
      (m'.step Natives.standard cancelled).1 ∧
      (m'.step Natives.standard cancelled).2 =
        (m.step Natives.standard cancelled).2 := by
  have same : (m.withLedger m'.ledger).interruption cancelled =
      m.interruption cancelled := by
    rw [← alike.eq_withLedger]
    funext work
    rw [interruption, alike.limits, alike.count]
    rfl
  have stepped := step_withLedger (l := m'.ledger) fun _ _ _ =>
    .of_interruption same
  rw [← alike.eq_withLedger] at stepped
  rw [stepped]
  refine ⟨withLedger ?_ ?_, rfl⟩
  · rw [step_steps, ← alike.limits]
    rfl
  · rw [step_count, ← alike.count]
    rfl

theorem round (alike : m.Alike m') (number number' : Nat) :
    (m.round Natives.standard Watch.never number).1.Alike
        (m'.round Natives.standard Watch.never number').1 ∧
      (m'.round Natives.standard Watch.never number').2 =
        (m.round Natives.standard Watch.never number).2 := by
  obtain ⟨stepped, fault⟩ := alike.step fun _ => false
  simp only [Machine.round, alike.isHalted, alike.isSpent, alike.pc,
    alike.currentWord, Watch.never, Bool.and_false,
    Bool.false_eq_true, if_false]
  split
  · exact ⟨{ alike with }, rfl⟩
  · split
    · exact ⟨alike, rfl⟩
    · exact ⟨stepped, congrArg (Option.map Stop.failed) fault⟩

/-- Alike machines that nobody stops run alike, whatever the numbers of the
rounds. -/
theorem runFrom (alike : m.Alike m') (fuel number number' : Nat) :
    (m.runFrom Natives.standard Watch.never fuel number).1.Alike
        (m'.runFrom Natives.standard Watch.never fuel number').1 ∧
      (m'.runFrom Natives.standard Watch.never fuel number').2 =
        (m.runFrom Natives.standard Watch.never fuel number).2 := by
  induction fuel generalizing m m' number number' with
  | zero => exact ⟨alike, rfl⟩
  | succ fuel ih =>
      obtain ⟨after, same⟩ := alike.round number number'
      rw [runFrom_succ, runFrom_succ]
      rcases here : m.round Natives.standard Watch.never number with
        ⟨next, stop⟩
      rcases there : m'.round Natives.standard Watch.never number' with
        ⟨next', stop'⟩
      rw [here, there] at after same
      dsimp only at after same
      subst same
      cases stop' with
      | none => exact ih after (number + 1) (number' + 1)
      | some stop => exact ⟨after, rfl⟩

end Alike

end Machine

end WordMachine
