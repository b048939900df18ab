import WordMachine.Proofs.Machine.Interruption
import WordMachine.Proofs.Machine.ModestNatives

/-!
# Stopping a run from outside

A run looks at its watch every `watchInterval` rounds, and inside `powf`.  Once
the watch wants the run to stop, and keeps wanting it, no instruction is
executed from the next such round on.  A run that was stopped is a run that
nobody watches, cut off behind one of its instructions: it can be taken up again
there.
-/

namespace WordMachine

/-- The watch does not change its mind: what it wants at some time, it also
wants later, and if the host's flag has been raised since. -/
def Watch.Lasting (watch : Watch) : Prop :=
  ∀ cancelled cancelled' round round' work work',
  (cancelled = true → cancelled' = true) →
    (round < round' ∨ round = round' ∧ work ≤ work') →
    watch cancelled round work = true → watch cancelled' round' work' = true

theorem Watch.lasting_flag : Watch.flag.Lasting :=
  fun _ _ _ _ _ _ kept _ raised => kept raised

/-! ## Powers -/

namespace Arithmetic

variable {stop stop' : Nat → Option Fault} {fault : Fault} {asked : Nat → Prop}

/-- Rules for stopping that differ in one failure give the same power, but for
this failure. -/
theorem powfFrom_differ
    (differ : ∀ work, stop work = stop' work ∨
      asked work ∧ stop work = some fault)
    (base : Float) (negative : Bool) (left done : Nat) (product : Float) :
    powfFrom stop base negative left done product =
        powfFrom stop' base negative left done product ∨
      (∃ work, asked work) ∧
        powfFrom stop base negative left done product = .error fault := by
  induction left generalizing done product with
  | zero => exact .inl rfl
  | succ left ih =>
      have answer : (if done % pollInterval = 0 then stop done else none) =
            (if done % pollInterval = 0 then stop' done else none) ∨
          asked done ∧
            (if done % pollInterval = 0 then stop done else none) =
              some fault := by
        split
        next => exact differ done
        next => exact .inl rfl
      rcases answer with same | ⟨wish, stopped⟩
      · rw [powfFrom, powfFrom, same]
        split
        next => exact .inl rfl
        next =>
          dsimp only
          split
          next => exact .inl rfl
          next => exact ih (done + 1) (product * base)
      · rw [powfFrom, stopped]
        exact .inr ⟨⟨done, wish⟩, rfl⟩

theorem powf_differ
    (differ : ∀ work, stop work = stop' work ∨
      asked work ∧ stop work = some fault)
    (base : Word) (exponent : Nat) :
    powf stop base exponent = powf stop' base exponent ∨
      (∃ work, asked work) ∧ powf stop base exponent = .error fault := by
  rcases powf_cases base exponent with ⟨power, known⟩ | multiplied
  · rw [known, known]
    exact .inl rfl
  · rw [multiplied, multiplied]
    rcases powfFrom_differ differ base.toFloat (base < 0) exponent 0 1 with
      same | ⟨wish, stopped⟩
    · rw [same]
      exact .inl rfl
    · rw [stopped]
      exact .inr ⟨wish, rfl⟩

end Arithmetic

namespace Machine

variable {natives : Natives} {watch : Watch} {m : Machine}

/-! ## Steps -/

theorem interruption_watched (cancelled : Nat → Bool) (m : Machine)
    (work : Nat) :
    m.interruption cancelled work = m.interruption (fun _ => false) work ∨
      cancelled work = true ∧
        m.interruption cancelled work = some (.root .cancelled) := by
  unfold interruption
  split
  next => exact .inl rfl
  next =>
    cases asked : cancelled work with
    | false => exact .inl rfl
    | true => exact .inr ⟨rfl, rfl⟩

/-- No instruction but `powf` looks at the watch. -/
theorem execute_unwatched {op : Opcode} (other : op ≠ .powf) (natives : Natives)
    (cancelled cancelled' : Nat → Bool) (m : Machine) (immediate : Word)
    (next : Int) :
    execute natives cancelled m op immediate next =
      execute natives cancelled' m op immediate next := by
  cases op with
  | powf => exact absurd rfl other
  | _ => rfl

/-- Watching a power makes no difference, unless it is interrupted. -/
theorem execute_powf_watched (natives : Natives)
    (cancelled : Nat → Bool) (m : Machine) (immediate : Word) (next : Int) :
    execute natives cancelled m .powf immediate next =
        execute natives (fun _ => false) m .powf immediate next ∨
      (∃ work, cancelled work = true) ∧
        execute natives cancelled m .powf immediate next =
          .fail m (.root .cancelled) := by
  simp only [execute, guarded]
  split
  next a b rest words =>
    by_cases negative : b < 0
    · simp only [negative, if_true]
      exact .inl trivial
    · simp only [negative, if_false]
      rcases Arithmetic.powf_differ (interruption_watched cancelled m)
        a b.toInt.toNat with same | ⟨wish, stopped⟩
      · rw [same]
        exact .inl rfl
      · rw [stopped]
        exact .inr ⟨wish, rfl⟩
  next => exact .inl rfl

/-- Watching a step makes no difference, unless it interrupts a power. -/
theorem step_watched (natives : Natives) (cancelled : Nat → Bool)
    (m : Machine) :
    m.step natives cancelled = m.step natives (fun _ => false) ∨
      ∃ i work, m.instruction = .ok i ∧ i.op = .powf ∧ cancelled work = true ∧
        m.step natives cancelled =
          (m.traced i.op i.immediate,
            some ⟨m.pc, i.word, .root .cancelled⟩) := by
  rw [step_eq, step_eq]
  cases decoded : m.instruction with
  | error fault => exact .inl rfl
  | ok i =>
      dsimp only
      by_cases powf : i.op = .powf
      · rw [powf]
        rcases execute_powf_watched natives cancelled
          (m.traced .powf i.immediate) i.immediate
          (m.pc + Opcode.powf.width) with same | ⟨⟨work, wish⟩, stopped⟩
        · rw [same]
          exact .inl rfl
        · rw [stopped]
          exact .inr ⟨i, work, rfl, powf, wish, by rw [powf]; rfl⟩
      · rw [execute_unwatched powf]
        exact .inl rfl

/-! ## Rounds -/

/-- The watch ends a run before or within the instruction of a round. -/
inductive Interrupted (watch : Watch) (number : Nat) (m : Machine) :
    Machine → Stop → Prop where
  | between : number % watchInterval = 0 →
      watch m.host.cancelled number 0 = true →
      Interrupted watch number m m .cancelled
  | within {i : Instruction} {work : Nat} :
      m.instruction = .ok i → i.op = .powf →
      watch m.host.cancelled number work = true →
      Interrupted watch number m (m.traced i.op i.immediate)
        (.failed ⟨m.pc, i.word, .root .cancelled⟩)

theorem round_watched (natives : Natives) (watch : Watch) (number : Nat)
    (m : Machine) :
    m.round natives watch number = m.round natives Watch.never number ∨
      ∃ final stop, m.Interrupted watch number final stop ∧
        m.round natives watch number = (final, some stop) := by
  unfold round
  split
  next => exact .inl rfl
  next =>
    split
    next => exact .inl rfl
    next =>
      split
      next asked =>
        rw [Bool.and_eq_true, decide_eq_true_eq] at asked
        exact .inr ⟨m, .cancelled, .between asked.1 asked.2, rfl⟩
      next =>
        have never : (decide (number % watchInterval = 0) &&
            Watch.never m.host.cancelled number 0) = false := Bool.and_false _
        rw [never]
        rcases step_watched natives (watch m.host.cancelled number) m with
          same | ⟨i, work, decoded, powf, wish, stopped⟩
        · rw [same]
          exact .inl rfl
        · rw [stopped]
          exact .inr ⟨_, _, .within decoded powf wish, rfl⟩

/-- Rounds that nobody watches need no numbers. -/
theorem round_never (natives : Natives) (number number' : Nat) (m : Machine) :
    m.round natives Watch.never number =
      m.round natives Watch.never number' := by
  simp only [round, Watch.never, Bool.and_false]
  rfl

/-! ## Runs -/

theorem runFrom_never (natives : Natives) (fuel number number' : Nat)
    (m : Machine) :
    m.runFrom natives Watch.never fuel number =
      m.runFrom natives Watch.never fuel number' := by
  induction fuel generalizing m number number' with
  | zero => rfl
  | succ fuel ih =>
      rw [runFrom_succ, runFrom_succ, round_never natives number number']
      split
      next next _ => exact ih (number + 1) (number' + 1) next
      next => rfl

/-- Watching a run makes no difference, until it is interrupted. -/
theorem runFrom_watched (natives : Natives) (watch : Watch) (fuel number : Nat)
    (m : Machine) :
    m.runFrom natives watch fuel number =
      m.runFrom natives Watch.never fuel number ∨
      ∃ n last final stop, n < fuel ∧
        m.runFrom natives watch n number = (last, .unfinished) ∧
        m.runFrom natives Watch.never n number = (last, .unfinished) ∧
        last.Interrupted watch (number + n) final stop ∧
        m.runFrom natives watch fuel number = (final, stop) := by
  induction fuel generalizing m number with
  | zero => exact .inl rfl
  | succ fuel ih =>
      rcases round_watched natives watch number m with
        same | ⟨final, stop, interrupted, ended⟩
      · rw [runFrom_succ, runFrom_succ, same]
        rcases rounded : m.round natives Watch.never number with ⟨next, outcome⟩
        rw [rounded] at same
        cases outcome with
        | some stop => exact .inl rfl
        | none =>
            rcases ih (number + 1) next with
              rest | ⟨n, last, final, stop, few, here, there, interrupted, ran⟩
            · exact .inl rest
            · rw [Nat.add_right_comm] at interrupted
              refine .inr ⟨n + 1, last, final, stop, Nat.succ_lt_succ few, ?_,
                ?_, interrupted, ran⟩
              · rw [runFrom_succ, same]
                exact here
              · rw [runFrom_succ, rounded]
                exact there
      · refine .inr ⟨0, m, final, stop, Nat.succ_pos fuel, rfl, rfl,
          interrupted, ?_⟩
        rw [runFrom_succ, ended]

/-- The watch lets the run from the machine on be. -/
def NeverDone (natives : Natives) (watch : Watch) (m : Machine) : Prop :=
  ∀ n s, m.run natives watch n = (s, .unfinished) → ∀ work,
  watch s.host.cancelled n work = false

theorem run_of_neverDone (never : m.NeverDone natives watch) (fuel : Nat) :
    m.run natives watch fuel = m.run natives Watch.never fuel := by
  rcases runFrom_watched natives watch fuel 0 m with
    same | ⟨n, last, final, stop, -, ran, -, interrupted, -⟩
  · exact same
  · have live := never n last ran
    rw [Nat.zero_add] at interrupted
    cases interrupted with
    | between _ wish => exact absurd wish (by simp [live])
    | within _ _ wish => exact absurd wish (by simp [live])

/-- An interrupted machine differs from the one before in the log only. -/
theorem Interrupted.withoutLog {number : Nat} {final : Machine} {stop : Stop}
    (interrupted : m.Interrupted watch number final stop) :
    final.withoutLog = m.withoutLog := by
  cases interrupted with
  | between => rfl
  | within => exact withoutLog_traced m _ _

/-! ## Stopping -/

/-- A run ends in the round with the given number, or at the latest in the round
`deadline`, in which it executes nothing. -/
inductive EndsBy (natives : Natives) (watch : Watch) (deadline number : Nat)
    (m : Machine) :
    Machine → Stop → Prop where
  | halted : m.isHalted = true →
      EndsBy natives watch deadline number m (m.logged m.haltLine) .halted
  | spent : m.isSpent = true →
      EndsBy natives watch deadline number m m
        (.failed ⟨m.pc, m.currentWord, .root .stepLimit⟩)
  | failed {final : Machine} {fault : RuntimeFault} : number < deadline →
      m.step natives (watch m.host.cancelled number) = (final, some fault) →
      EndsBy natives watch deadline number m final (.failed fault)
  | cancelled : number = deadline →
      EndsBy natives watch deadline number m m .cancelled

theorem endsBy_of_round {number left : Nat} {final : Machine} {stop : Stop}
    (near : left < watchInterval) (due : (number + left) % watchInterval = 0)
    (wish : watch m.host.cancelled number 0 = true)
    (ended : m.round natives watch number = (final, some stop)) :
    m.EndsBy natives watch (number + left) number final stop := by
  unfold watchInterval at near due
  unfold round at ended
  split at ended
  next halted =>
    cases ended
    exact .halted halted
  next =>
    split at ended
    next spent =>
      cases ended
      exact .spent spent
    next =>
      rw [wish, Bool.and_true] at ended
      split at ended
      next look =>
        rw [decide_eq_true_eq, watchInterval] at look
        cases ended
        exact .cancelled (by omega)
      next noLook =>
        rw [decide_eq_true_eq, watchInterval] at noLook
        rcases stepped : m.step natives (watch m.host.cancelled number) with
          ⟨after, failure⟩
        rw [stepped] at ended
        cases failure with
        | none => cases ended
        | some fault =>
            cases ended
            exact .failed (by omega) stepped

/-- A run whose watch wants it to stop does so in the next round with a look at
the watch, if it has not ended before. -/
theorem exists_runsOut_of_wish (modest : natives.Modest)
    (lasting : watch.Lasting) {left number : Nat} (near : left < watchInterval)
    (due : (number + left) % watchInterval = 0)
    (wish : watch m.host.cancelled number 0 = true) :
    ∃ n last final stop, n ≤ left ∧
      m.RunsOut natives watch number n last final stop ∧
      last.EndsBy natives watch (number + left) (number + n) final stop := by
  induction left generalizing m number with
  | zero =>
      rcases round_cases natives watch number m with
        ⟨next, goes⟩ | ⟨final, stop, ended, finished, ends⟩
      · have asked := goes.unasked
        rw [Nat.add_zero] at due
        rw [wish, due] at asked
        cases asked
      · exact ⟨0, m, final, stop, Nat.le_refl 0, .of_end ended ends finished,
          endsBy_of_round near due wish ended⟩
  | succ left ih =>
      rcases round_cases natives watch number m with
        ⟨next, goes⟩ | ⟨final, stop, ended, finished, ends⟩
      · have kept : m.host.cancelled = true → next.host.cancelled = true := by
          intro flag
          have stepped := step_cancelled modest
            (watch m.host.cancelled number) flag
          rwa [goes.stepped] at stepped
        have later := lasting _ _ number (number + 1) 0 0 kept
          (.inl (Nat.lt_succ_self number)) wish
        have due' : (number + 1 + left) % watchInterval = 0 := by
          rwa [Nat.add_right_comm]
        obtain ⟨n, last, final, stop, few, runs, endsBy⟩ :=
          ih (Nat.lt_of_succ_lt near) due' later
        refine ⟨n + 1, last, final, stop, Nat.succ_le_succ few,
          .of_next goes runs, ?_⟩
        rwa [Nat.add_right_comm number 1 left,
          Nat.add_right_comm number 1 n] at endsBy
      · exact ⟨0, m, final, stop, Nat.zero_le _, .of_end ended ends finished,
          endsBy_of_round near due wish ended⟩

/-- A request to stop is honoured at the next look at the watch and has no other
effect.

If the watch wants the run to stop when the round `k` begins, the run has ended
in the first round `j` from `k` on in which it looks at the watch, without an
instruction executed in this round.  Up to where the watch interrupts it, a run
is the same as if nobody watched it, and the machine it leaves differs from the
one behind the last instruction at most in the log: a further run continues from
there as if there had been no interruption.  A run that the watch lets be is one
that nobody watches. -/
theorem run_stops_promptly {natives : Natives} (modest : natives.Modest)
    {watch : Watch} (lasting : watch.Lasting) (m : Machine) :
    (∀ k j s, m.run natives watch k = (s, .unfinished) →
      watch s.host.cancelled k 0 = true →
      k ≤ j → j < k + watchInterval → j % watchInterval = 0 →
      ∃ n last final stop, k ≤ n ∧ n ≤ j ∧
        m.RunsOut natives watch 0 n last final stop ∧
        last.EndsBy natives watch j n final stop) ∧
    (∀ fuel, m.run natives watch fuel = m.run natives Watch.never fuel ∨
      ∃ n last final stop, n < fuel ∧ m.run natives watch fuel = (final, stop) ∧
        m.run natives Watch.never n = (last, .unfinished) ∧
        last.Interrupted watch n final stop ∧
        ∀ live, final.NeverDone natives live → ∀ more, ∃ rest ending,
          m.run natives Watch.never (n + more) =
            (withOlder rest last.host.log, ending) ∧
          final.run natives live more =
            (withOlder rest final.host.log, ending)) ∧
    (m.NeverDone natives watch →
      ∀ fuel, m.run natives watch fuel = m.run natives Watch.never fuel) := by
  refine ⟨?_, ?_, run_of_neverDone⟩
  · intro k j s unfinished wish after near due
    obtain ⟨left, rfl⟩ := Nat.exists_eq_add_of_le after
    obtain ⟨n, last, final, stop, few, runs, endsBy⟩ :=
      exists_runsOut_of_wish modest lasting
        (Nat.lt_of_add_lt_add_left near) due wish
    refine ⟨k + n, last, final, stop, Nat.le_add_right k n,
      Nat.add_le_add_left few k, ?_, endsBy⟩
    rw [← Nat.zero_add k] at runs
    exact .of_rest unfinished runs
  · intro fuel
    rcases runFrom_watched natives watch fuel 0 m with
      same | ⟨n, last, final, stop, few, -, ran, interrupted, ended⟩
    · exact .inl same
    · rw [Nat.zero_add] at interrupted
      refine .inr ⟨n, last, final, stop, few, ended, ran, interrupted, ?_⟩
      intro live never more
      obtain ⟨rest, ending, here, there⟩ :=
        run_of_withoutLog modest interrupted.withoutLog more
      refine ⟨rest, ending, ?_, ?_⟩
      · rw [← here]
        exact (runFrom_add ran more).trans (runFrom_never natives more _ 0 last)
      · rw [run_of_neverDone never, there]

/-- Formatted output and a function that raises the flag of the host. -/
def stopping : Natives :=
  Natives.standard.set NativeAddress.base
    (.ofActions (Text.ofString "stop") [.cancel])

theorem modest_stopping : stopping.Modest :=
  modest_standard.set (modest_ofActions _ _) _

/-- A program that raises the flag and then computes a power, with every
instruction logged. -/
def stoppedPower : Machine where
  memory := #[Opcode.call.code, NativeAddress.base, Opcode.loads.code, 3,
    Opcode.loads.code, Word.ofBits 0x3FF8000000000000, Opcode.powf.code,
    Opcode.halt.code]
  host := { tracing := true }

theorem run_stops_promptly_power :
    (∃ n last final stop, 1 ≤ n ∧ n ≤ 1024 ∧
      stoppedPower.RunsOut stopping Watch.flag 0 n last final stop ∧
      last.EndsBy stopping Watch.flag 1024 n final stop) ∧
    ∃ final, stoppedPower.run stopping Watch.flag 10 =
        (final, .failed ⟨6, Opcode.powf.code, .root .cancelled⟩) ∧
      (final.run stopping Watch.never 10).2 = .halted ∧
      (final.run stopping Watch.never 10).1.stack.words =
        [Word.ofBits 0x400B000000000000] := by
  obtain ⟨prompt, resumes, -⟩ :=
    run_stops_promptly modest_stopping Watch.lasting_flag stoppedPower
  constructor
  · exact prompt 1 1024 _ rfl (by decide +kernel) (by decide)
      (by decide) (by decide)
  · have stopped : (stoppedPower.run stopping Watch.flag 10).2 =
        .failed ⟨6, Opcode.powf.code, .root .cancelled⟩ := by decide +kernel
    have whole : ∀ n < 10,
        (stoppedPower.run stopping Watch.never (n + 10)).2 = .halted ∧
        (stoppedPower.run stopping Watch.never (n + 10)).1.stack.words =
          [Word.ofBits 0x400B000000000000] := by decide +kernel
    rcases resumes 10 with
      same | ⟨n, last, final, stop, few, ran, -, -, further⟩
    · rw [same] at stopped
      exact absurd stopped (by decide +kernel)
    · obtain ⟨rest, ending, uninterrupted, resumed⟩ :=
        further Watch.never (fun _ _ _ _ => rfl) 10
      have halts := whole n few
      rw [uninterrupted] at halts
      rw [ran] at stopped
      obtain rfl : stop = _ := stopped
      refine ⟨final, ran, ?_⟩
      rw [resumed]
      exact halts

end Machine

end WordMachine
