import WordMachine.Machine.Setting
import WordMachine.Proofs.Machine.Alike
import WordMachine.Proofs.Machine.Interruption

/-!
# Step limits

A step limit ends every run, because each round but the last counts one
instruction.  A run that the limit has ended can be resumed under a higher one,
as if it had been started there: up to the point where it stopped the two limits
make no difference, and an instruction that was interrupted is executed again
from its beginning.
-/

namespace WordMachine

namespace Machine

variable {m last final : Machine} {stop : Stop} {watch : Watch} {number n : Nat}

/-! ## Every run ends -/

theorem Executes.count
    (executes : m.Executes Natives.standard watch number n last) :
    last.count = m.count + n := by
  induction executes with
  | nothing => rfl
  | @more number n m next last stepped _ ih =>
      have counted := (accounts_of_step stepped).2
      omega

theorem Ends.count (ends : m.Ends Natives.standard watch number final stop) :
    final.count = m.count := by
  cases ends with
  | halted | spent | cancelled => rfl
  | failed stepped =>
      have counted := step_count (watch m.host.cancelled number) m
      rw [stepped] at counted
      exact counted

/-- A run stops on the end of a program, not beside it. -/
theorem Ends.on_halt {natives : Natives}
    (ends : m.Ends natives watch number final .halted) :
    0 ≤ final.pc ∧ final.pc < final.memory.size ∧
      final.wordAt? final.pc = some Opcode.halt.code := by
  cases ends with
  | halted on =>
      have word : m.wordAt? m.pc = some Opcode.halt.code := by
        simpa [isHalted] using on
      obtain ⟨above, below⟩ := bounds_of_wordAt? word
      exact ⟨above, below, word⟩

theorem isSpent_limited {limit : Nat} (limited : m.limits.steps = some limit) :
    m.isSpent = decide (limit ≤ m.count) := by
  simp [isSpent, limited]

/-- A run ends within `left` instructions if these spend the step limit. -/
theorem exists_runsOut (watch : Watch) (number left : Nat) {limit : Nat}
    (limited : m.limits.steps = some limit) (enough : limit ≤ m.count + left) :
    ∃ n last final stop, n ≤ left ∧
      m.RunsOut Natives.standard watch number n last final stop := by
  induction left generalizing m number with
  | zero =>
      have spent : m.isSpent = true := by
        simpa [isSpent_limited limited] using enough
      rcases round_cases Natives.standard watch number m with
        ⟨next, goes⟩ | ⟨final, stop, ended, finished, ends⟩
      · rw [goes.unspent] at spent
        cases spent
      · exact ⟨0, m, final, stop, Nat.le_refl 0, .of_end ended ends finished⟩
  | succ left ih =>
      rcases round_cases Natives.standard watch number m with
        ⟨next, goes⟩ | ⟨final, stop, ended, finished, ends⟩
      · obtain ⟨same, counted⟩ := accounts_of_step goes.stepped
        obtain ⟨n, last, final, stop, within, runs⟩ :=
          ih (number + 1) (same.trans limited) (by omega)
        exact ⟨n + 1, last, final, stop, Nat.succ_le_succ within,
          .of_next goes runs⟩
      · exact ⟨0, m, final, stop, Nat.zero_le _, .of_end ended ends finished⟩

/-- A step limit ends every run.  The run consists of some number of
instructions and a last round in which none succeeds; the count grows by that
number, and beyond the limit only if it was beyond before.  If the program
reached its end, the program counter is on the instruction that says so. -/
theorem step_limit_ends_run (watch : Watch) {m : Machine} {limit : Nat}
    (limited : m.limits.steps = some limit) :
    ∃ n last final stop,
      m.Executes Natives.standard watch 0 n last ∧
      last.Ends Natives.standard watch n final stop ∧
      stop ≠ .unfinished ∧
      (∀ fuel, fuel ≤ n → (m.run Natives.standard watch fuel).2 = .unfinished) ∧
      (∀ fuel, n < fuel → m.run Natives.standard watch fuel = (final, stop)) ∧
      final.count = m.count + n ∧
      final.count ≤ max limit m.count ∧
      (stop = .halted → 0 ≤ final.pc ∧ final.pc < final.memory.size ∧
        final.wordAt? final.pc = some Opcode.halt.code) := by
  obtain ⟨n, last, final, stop, within, runs⟩ :=
    exists_runsOut watch 0 (limit - m.count) limited (by omega)
  have ends := runs.ends
  rw [Nat.zero_add] at ends
  have counted : final.count = m.count + n :=
    ends.count.trans runs.executes.count
  refine ⟨n, last, final, stop, runs.executes, ends, runs.finished,
    runs.before, runs.after, counted, by omega, ?_⟩
  rintro rfl
  exact ends.on_halt

/-- A program that writes an instruction over its own jump back, with as many
steps as that takes. -/
def selfEnding : Machine where
  memory := #[Opcode.loads.code, Opcode.halt.code, Opcode.store.code, 4,
    Opcode.jump.code, 0]
  limits := { steps := some 2 }

theorem step_limit_ends_run_selfEnding :
    ∃ last final : Machine,
      selfEnding.Executes Natives.standard Watch.never 0 2 last ∧
      last.Ends Natives.standard Watch.never 2 final .halted ∧
      final.count = 2 ∧ final.pc = 4 ∧
      final.wordAt? final.pc = some Opcode.halt.code := by
  obtain ⟨n, last, final, stop, executes, ends, finished, before,
      after, -, -, on⟩ :=
    step_limit_ends_run Watch.never (m := selfEnding) rfl
  have atMost : n < 3 := by
    apply Nat.lt_of_not_le
    intro more
    cases before 3 more
  have atLeast : 2 ≤ n := by
    apply Nat.le_of_not_lt
    intro fewer
    exact finished (congrArg Prod.snd (after 2 fewer)).symm
  obtain rfl : n = 2 := by omega
  cases after 3 atMost
  exact ⟨last, _, executes, ends, rfl, rfl, (on rfl).2.2⟩

/-! ## Raising the limit -/

def withStepLimit (m : Machine) (limit : Nat) : Machine :=
  { m with limits := { m.limits with steps := some limit } }

theorem configure_steps (m : Machine) {limit : Nat} (positive : 0 < limit) :
    m.configure (.steps limit) = .ok (m.withStepLimit limit) := by
  have nonnegative : ¬ (limit : Int) < 0 := by omega
  have nonzero : ¬ (limit : Int) = 0 := by omega
  simp only [configure, nonnegative, nonzero, if_false, Int.toNat_natCast]
  rfl

theorem withStepLimit_eq (m : Machine) (limit : Nat) :
    m.withStepLimit limit =
      m.withLedger { m.ledger with steps := some limit } := rfl

/-- With nobody to stop it, an instruction is only interrupted by the step
limit. -/
theorem interruption_limited {limit : Nat}
    (limited : m.limits.steps = some limit) (work : Nat) :
    m.interruption (fun _ => false) work =
      if limit ≤ m.count + work then some (.root .stepLimit) else none := by
  simp [interruption, limited]

/-- A higher limit does not interrupt where a lower one does not. -/
theorem interruption_raised {lower upper : Nat} (raised : lower ≤ upper)
    (limited : m.limits.steps = some lower) (work : Nat)
    (allowed : m.interruption (fun _ => false) work = none) :
    (m.withStepLimit upper).interruption (fun _ => false) work = none := by
  rw [interruption_limited limited] at allowed
  rw [interruption_limited rfl, if_neg]
  intro spent
  change upper ≤ m.count + work at spent
  rw [if_pos (Nat.le_trans raised spent)] at allowed
  cases allowed

/-- A power that is interrupted interrupts the step. -/
theorem step_of_powf_error {natives : Natives} {cancelled : Nat → Bool}
    {i : Instruction} {a b : Word} {rest : List Word} {fault : Fault}
    (decoded : m.instruction = .ok i) (powf : i.op = .powf)
    (words : m.stack.words = a :: b :: rest)
    (stopped : Arithmetic.powf (m.interruption cancelled) a b.toInt.toNat =
      .error fault) :
    (m.step natives cancelled).2 = some ⟨m.pc, i.word, fault⟩ := by
  have nonnegative : ¬ b < 0 := by
    intro negative
    have zero : b.toInt.toNat = 0 :=
      Int.toNat_of_nonpos (Int.le_of_lt (Int64.lt_iff_toInt_lt.mp negative))
    rw [zero] at stopped
    cases stopped
  have traced : (m.traced .powf i.immediate).interruption cancelled =
      m.interruption cancelled ∧
      (m.traced .powf i.immediate).stack = m.stack := by
    rw [traced_eq]
    exact ⟨rfl, rfl⟩
  rw [step_eq]
  simp only [decoded, powf, execute, guarded, traced, words, nonnegative,
    if_false, stopped]
  rfl

/-- One step under two limits: the higher one makes no difference, unless the
lower one interrupts the step. -/
theorem step_raised {lower upper : Nat} (raised : lower ≤ upper)
    (limited : m.limits.steps = some lower) :
    ((m.withStepLimit upper).step Natives.standard (fun _ => false) =
        ((m.step Natives.standard (fun _ => false)).1.withStepLimit upper,
          (m.step Natives.standard (fun _ => false)).2) ∧
      ∀ fault, (m.step Natives.standard (fun _ => false)).2 = some fault →
        fault.fault.cause ≠ .stepLimit) ∨
    ∃ fault, m.step Natives.standard (fun _ => false) =
        (m.withLedger (m.ledger.noted m.stepLines), some fault) ∧
      fault.fault.cause = .stepLimit := by
  by_cases interrupted :
    ∃ fault, (m.step Natives.standard (fun _ => false)).2 = some fault ∧
      fault.fault.cause = .stepLimit
  · right
    obtain ⟨fault, failed, cause⟩ := interrupted
    have stepped : m.step Natives.standard (fun _ => false) =
        ((m.step Natives.standard (fun _ => false)).1, some fault) := by
      rw [← failed]
    have unchanged := (step_interrupted stepped
      (by simp [Fault.interrupts, cause])).2
    rw [unchanged] at stepped
    exact ⟨fault, stepped, cause⟩
  · left
    simp only [not_exists, not_and] at interrupted
    refine ⟨?_, interrupted⟩
    have agrees : ∀ i, m.instruction = .ok i → i.op = .powf →
        m.PowfAgrees (fun _ => false) { m.ledger with steps := some upper }
          fun _ => false := by
      intro i decoded powf a b rest words
      cases computed : Arithmetic.powf (m.interruption fun _ =>
        false) a b.toInt.toNat with
      | ok power =>
          exact Arithmetic.powf_of_weaker
            (interruption_raised raised limited) computed
      | error fault =>
          obtain ⟨work, stopped⟩ := Arithmetic.powf_error computed
          rw [interruption_limited limited] at stopped
          split at stopped
          next =>
            cases stopped
            exact absurd rfl (interrupted _
              (step_of_powf_error decoded powf words computed))
          next => cases stopped
    rw [withStepLimit_eq, step_withLedger agrees, withStepLimit_eq, step_ledger]
    rfl

end Machine

/-- A run that ended because its step limit is spent. -/
def Stop.AtStepLimit : Stop → Prop
  | .failed e => e.fault.cause = .stepLimit
  | _ => False

namespace Machine

variable {m final : Machine} {stop : Stop} {lower upper number : Nat}

theorem round_unwatched {natives : Natives} (running : m.isHalted = false)
    (unspent : m.isSpent = false) :
    m.round natives Watch.never number =
      ((m.step natives fun _ => false).1,
        (m.step natives fun _ => false).2.map .failed) := by
  simp only [round, running, unspent, Watch.never, Bool.and_false,
    Bool.false_eq_true, if_false]
  rfl

/-- One round under two limits: the higher one makes no difference, unless the
lower one ends the run.  Nothing has changed then but the log. -/
theorem round_raised (raised : lower ≤ upper)
    (limited : m.limits.steps = some lower) (number : Nat) :
    ((m.withStepLimit upper).round Natives.standard Watch.never number =
        ((m.round Natives.standard Watch.never number).1.withStepLimit upper,
          (m.round Natives.standard Watch.never number).2) ∧
      ∀ stop, (m.round Natives.standard Watch.never number).2 = some stop →
        ¬ stop.AtStepLimit) ∨
    ∃ final stop, m.round Natives.standard Watch.never number =
      (final, some stop) ∧ stop.AtStepLimit ∧
        (m.withStepLimit upper).Alike (final.withStepLimit upper) := by
  have running' : (m.withStepLimit upper).isHalted = m.isHalted := rfl
  cases running : m.isHalted with
  | true =>
      left
      rw [round_of_halted running, round_of_halted (running'.trans running)]
      refine ⟨rfl, ?_⟩
      intro stop halted
      cases halted
      exact id
  | false =>
      cases spent : m.isSpent with
      | true =>
          right
          refine ⟨m, .failed ⟨m.pc, m.currentWord, .root .stepLimit⟩,
            ?_, rfl, .refl _⟩
          simp [round, running, spent]
      | false =>
          have spent' : (m.withStepLimit upper).isSpent = false := by
            have below : m.count < lower := by
              simpa [isSpent_limited limited] using spent
            rw [isSpent_limited rfl]
            exact decide_eq_false
              (Nat.not_le.mpr (Nat.lt_of_lt_of_le below raised))
          rw [round_unwatched running spent,
            round_unwatched (running'.trans running) spent']
          rcases step_raised raised limited with
            ⟨same, allowed⟩ | ⟨fault, stepped, cause⟩
          · left
            rw [same]
            refine ⟨rfl, ?_⟩
            intro stop failed
            obtain ⟨fault, cause, rfl⟩ := Option.map_eq_some_iff.mp failed
            exact allowed fault cause
          · right
            rw [stepped]
            exact ⟨_, _, rfl, cause, ⟨rfl, rfl, rfl, rfl, rfl, rfl, rfl, rfl⟩⟩

/-- Runs under two limits go together.  If the lower one does not end the run,
the higher one makes no difference; if it does, the run under the higher one
comes to the same point, and has the rest before it. -/
theorem runFrom_raised (raised : lower ≤ upper)
    (limited : m.limits.steps = some lower) {fuel : Nat}
    (ended : m.runFrom Natives.standard Watch.never fuel number = (final, stop))
    (finished : stop ≠ .unfinished) :
    (¬ stop.AtStepLimit →
      (m.withStepLimit upper).runFrom Natives.standard Watch.never fuel number =
        (final.withStepLimit upper, stop)) ∧
    (stop.AtStepLimit → ∃ (rounds : Nat) (reached : Machine),
      reached.Alike (final.withStepLimit upper) ∧
      ∀ more, (m.withStepLimit upper).runFrom Natives.standard Watch.never
        (rounds + more) number =
        reached.runFrom Natives.standard Watch.never more
          (number + rounds)) := by
  induction fuel generalizing m number with
  | zero =>
      cases ended
      exact absurd rfl finished
  | succ fuel ih =>
      rw [runFrom_succ] at ended
      rcases round_raised raised limited number with
        ⟨same, allowed⟩ | ⟨stopped, reason, spent, limit, alike⟩
      · rcases round_cases Natives.standard Watch.never number m with
          ⟨next, goes⟩ | ⟨last, reason, closed, -, -⟩
        · rw [goes.round] at same ended
          have limited' := (accounts_of_step goes.stepped).1.trans limited
          obtain ⟨unaffected, paused⟩ := ih limited' ended
          constructor
          · intro other
            rw [runFrom_succ, same]
            exact unaffected other
          · intro limit
            obtain ⟨rounds, reached, alike, resumed⟩ := paused limit
            refine ⟨rounds + 1, reached, alike, ?_⟩
            intro more
            rw [Nat.add_right_comm, runFrom_succ, same]
            exact (resumed more).trans (by rw [Nat.add_assoc, Nat.add_comm 1])
        · rw [closed] at same ended allowed
          cases ended
          constructor
          · intro other
            rw [runFrom_succ, same]
          · intro limit
            exact absurd limit (allowed stop rfl)
      · rw [spent] at ended
        cases ended
        constructor
        · intro other
          exact absurd limit other
        · intro limit
          refine ⟨0, m.withStepLimit upper, alike, ?_⟩
          intro more
          rw [Nat.zero_add, Nat.add_zero]

theorem exists_returns {limit : Nat} (limited : m.limits.steps = some limit)
    (watch : Watch) :
    ∃ final stop, m.Returns Natives.standard watch final stop := by
  obtain ⟨n, last, final, stop, -, runs⟩ :=
    exists_runsOut watch 0 (limit - m.count) limited (by omega)
  exact ⟨final, stop, runs.returns⟩

/-- A run that stopped at its step limit can be resumed under a higher one, and
then ends like a single run under the higher one.  If the lower limit did not
stop it, the higher one makes no difference. -/
theorem step_limit_resumable (m : Machine) (positive : 0 < lower)
    (raised : lower ≤ upper) :
    ∃ first single paused stop,
      m.configure (.steps lower) = .ok first ∧
      m.configure (.steps upper) = .ok single ∧
      first.Returns Natives.standard Watch.never paused stop ∧
      (stop.AtStepLimit → ∃ again resumed direct ending,
        paused.configure (.steps upper) = .ok again ∧
        again.Returns Natives.standard Watch.never resumed ending ∧
        single.Returns Natives.standard Watch.never direct ending ∧
        direct.Alike resumed) ∧
      (¬ stop.AtStepLimit → ∃ final,
        paused.configure (.steps upper) = .ok final ∧
        single.Returns Natives.standard Watch.never final stop) := by
  obtain ⟨paused, stop, finished, enough, result⟩ :=
    exists_returns (m := m.withStepLimit lower) rfl Watch.never
  have upperPositive : 0 < upper := Nat.lt_of_lt_of_le positive raised
  refine ⟨_, _, paused, stop, configure_steps m positive,
    configure_steps m upperPositive, ⟨finished, enough, result⟩, ?_, ?_⟩
  · intro limit
    obtain ⟨rounds, reached, alike, rest⟩ := (runFrom_raised raised rfl
      (result (enough + 1) (Nat.lt_succ_self _)) finished).2 limit
    obtain ⟨direct, ending, directFinished, directEnough, directResult⟩ :=
      exists_returns (m := m.withStepLimit upper) rfl Watch.never
    -- With so much fuel the single run has ended, and it has come through
    -- `reached`.
    have through : reached.runFrom Natives.standard Watch.never
        (directEnough + 1) (0 + rounds) = (direct, ending) :=
      (rest _).symm.trans (directResult _ (by omega))
    have same := alike.runFrom (directEnough + 1) (0 + rounds) 0
    rw [through] at same
    obtain ⟨alikeInTheEnd, sameEnding⟩ := same
    exact ⟨_, _, direct, ending, configure_steps paused upperPositive,
      returns_of_run _ (Prod.ext rfl sameEnding) directFinished,
      ⟨directFinished, directEnough, directResult⟩, alikeInTheEnd⟩
  · intro other
    refine ⟨_, configure_steps paused upperPositive, finished, enough, ?_⟩
    intro fuel more
    exact (runFrom_raised raised rfl (result fuel more) finished).1 other

/-- A program of four instructions, of which the last ends it. -/
def addition : Machine where
  memory := #[Opcode.loads.code, 1, Opcode.loads.code, 2, Opcode.addi.code,
    Opcode.halt.code]

/-- Two steps end the run before the sum, and three more resume it. -/
theorem step_limit_resumable_addition :
    ∃ first single paused again resumed direct : Machine, ∃ stop : Stop,
      addition.configure (.steps 2) = .ok first ∧
      addition.configure (.steps 5) = .ok single ∧
      first.Returns Natives.standard Watch.never paused stop ∧
        stop.AtStepLimit ∧
      paused.stack.words = [2, 1] ∧
      paused.configure (.steps 5) = .ok again ∧
      again.Returns Natives.standard Watch.never resumed .halted ∧
      single.Returns Natives.standard Watch.never direct .halted ∧
      direct.Alike resumed ∧ resumed.stack.words = [3] ∧ resumed.count = 3 := by
  obtain ⟨first, single, paused, stop, lower, upper, pauses, resumes, -⟩ :=
    step_limit_resumable addition (show 0 < 2 by decide) (show 2 ≤ 5 by decide)
  cases lower
  cases upper
  obtain ⟨rfl, rfl⟩ := pauses.unique (returns_of_run 3 rfl (by decide))
  obtain ⟨again, resumed, direct, ending, configured, resumes, directly,
      alike⟩ := resumes rfl
  cases configured
  obtain ⟨rfl, rfl⟩ := resumes.unique (returns_of_run 2 rfl (by decide))
  exact ⟨_, _, _, _, _, direct, _, rfl, rfl, pauses, rfl, rfl, rfl, resumes,
    directly, alike, rfl, rfl⟩

end Machine

end WordMachine
