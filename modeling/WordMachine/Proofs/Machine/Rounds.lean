import WordMachine.Machine.Run
import WordMachine.Proofs.Machine.Operations

/-!
# Runs, round by round

In each round a run either ends or executes one instruction.  `Machine.Returns`
says how a run ends without mentioning fuel: from some amount on, every amount
of fuel gives the same result.
-/

namespace WordMachine

namespace Machine

/-- One round of a run: the machine after it and how the run ended, if it
did. -/
def round (natives : Natives) (watch : Watch) (number : Nat) (m : Machine) :
    Machine × Option Stop :=
  if m.isHalted then (m.logged m.haltLine, some .halted)
  else if m.isSpent then
    (m, some (.failed ⟨m.pc, m.currentWord, .root .stepLimit⟩))
  else if number % watchInterval = 0 && watch m.host.cancelled number 0 then
    (m, some .cancelled)
  else
    ((m.step natives (watch m.host.cancelled number)).1,
      (m.step natives (watch m.host.cancelled number)).2.map .failed)

/-- With any large enough amount of fuel a run ends in this way. -/
def Returns (natives : Natives) (watch : Watch) (m final : Machine)
    (stop : Stop) : Prop :=
  stop ≠ .unfinished ∧
    ∃ rounds, ∀ fuel, rounds < fuel → m.run natives watch fuel = (final, stop)

/-- The machine executes `n` instructions, the first of them in the round with
the given number. -/
inductive Executes (natives : Natives) (watch : Watch) :
    (number : Nat) → Machine → (n : Nat) → Machine → Prop where
  | nothing (number : Nat) (m : Machine) : Executes natives watch number m 0 m
  | more {number n : Nat} {m next last : Machine} :
      m.step natives (watch m.host.cancelled number) = (next, none) →
      Executes natives watch (number + 1) next n last →
      Executes natives watch number m (n + 1) last

/-- A run goes on after the round with the given number, in which one
instruction succeeds. -/
structure GoesOn (natives : Natives) (watch : Watch) (number : Nat)
    (m next : Machine) :
    Prop where
  running : m.isHalted = false
  unspent : m.isSpent = false
  unasked : (number % watchInterval = 0 && watch m.host.cancelled number 0) =
    false
  stepped : m.step natives (watch m.host.cancelled number) = (next, none)

/-- A run ends in the round with the given number, in which no instruction
succeeds. -/
inductive Ends (natives : Natives) (watch : Watch) (number : Nat)
    (m : Machine) :
    Machine → Stop → Prop where
  | halted : m.isHalted = true →
      Ends natives watch number m (m.logged m.haltLine) .halted
  | spent : m.isSpent = true →
      Ends natives watch number m m
        (.failed ⟨m.pc, m.currentWord, .root .stepLimit⟩)
  | cancelled : watch m.host.cancelled number 0 = true →
      Ends natives watch number m m .cancelled
  | failed {final : Machine} {fault : RuntimeFault} :
      m.step natives (watch m.host.cancelled number) = (final, some fault) →
      Ends natives watch number m final (.failed fault)

variable {natives : Natives} {watch : Watch}
  {m next final : Machine} {stop : Stop} {number : Nat}

theorem runFrom_succ (fuel : Nat) :
    m.runFrom natives watch (fuel + 1) number =
      match m.round natives watch number with
      | (next, none) => next.runFrom natives watch fuel (number + 1)
      | (final, some stop) => (final, stop) := by
  rw [runFrom, round]
  split
  · rfl
  · split
    · rfl
    · split
      · rfl
      · split
        next next result => simp only [result, Option.map_none]
        next final fault result => simp only [result, Option.map_some]

theorem round_of_halted (halted : m.isHalted = true) :
    m.round natives watch number = (m.logged m.haltLine, some .halted) := by
  rw [round, if_pos halted]

theorem GoesOn.round (goes : m.GoesOn natives watch number next) :
    m.round natives watch number = (next, none) := by
  rw [Machine.round, goes.running, goes.unspent, goes.unasked, goes.stepped]
  rfl

/-- A round executes an instruction or ends the run. -/
theorem round_cases (natives : Natives) (watch : Watch) (number : Nat)
    (m : Machine) :
    (∃ next, m.GoesOn natives watch number next) ∨
    ∃ final stop, m.round natives watch number = (final, some stop) ∧
      stop ≠ .unfinished ∧ m.Ends natives watch number final stop := by
  unfold round
  cases halted : m.isHalted with
  | true => exact .inr ⟨_, _, rfl, nofun, .halted halted⟩
  | false =>
      cases spent : m.isSpent with
      | true => exact .inr ⟨_, _, rfl, nofun, .spent spent⟩
      | false =>
          cases asked : number % watchInterval = 0 &&
            watch m.host.cancelled number 0 with
          | true =>
              have wish := (Bool.and_eq_true_iff.mp asked).2
              exact .inr ⟨_, _, rfl, nofun, .cancelled wish⟩
          | false =>
              rcases result : m.step natives
                (watch m.host.cancelled number) with ⟨after, fault⟩
              cases fault with
              | none => exact .inl ⟨after, halted, spent, asked, result⟩
              | some fault =>
                  exact .inr ⟨after, .failed fault, rfl, nofun, .failed result⟩

/-- The run from the round with the given number on executes `n` instructions,
which lead to `last`, and ends in the round after them. -/
structure RunsOut (natives : Natives) (watch : Watch) (number : Nat)
    (m : Machine) (n : Nat) (last final : Machine) (stop : Stop) : Prop where
  executes : m.Executes natives watch number n last
  ends : last.Ends natives watch (number + n) final stop
  finished : stop ≠ .unfinished
  before : ∀ fuel, fuel ≤ n →
    (m.runFrom natives watch fuel number).2 = .unfinished
  after : ∀ fuel, n < fuel → m.runFrom natives watch fuel number = (final, stop)

/-- A run that ends in its first round. -/
theorem RunsOut.of_end
    (ended : m.round natives watch number = (final, some stop))
    (ends : m.Ends natives watch number final stop)
    (finished : stop ≠ .unfinished) :
    m.RunsOut natives watch number 0 m final stop where
  executes := .nothing number m
  ends := ends
  finished := finished
  before := by
    intro fuel spent
    cases Nat.le_zero.mp spent
    rfl
  after := by
    intro fuel positive
    obtain ⟨fuel, rfl⟩ := Nat.exists_eq_succ_of_ne_zero (Nat.ne_of_gt positive)
    rw [runFrom_succ, ended]

/-- A run that goes on after its first round. -/
theorem RunsOut.of_next {last : Machine} {n : Nat}
    (goes : m.GoesOn natives watch number next)
    (rest : next.RunsOut natives watch (number + 1) n last final stop) :
    m.RunsOut natives watch number (n + 1) last final stop where
  executes := .more goes.stepped rest.executes
  ends := by
    have ends := rest.ends
    rwa [Nat.add_right_comm] at ends
  finished := rest.finished
  before := by
    intro fuel few
    cases fuel with
    | zero => rfl
    | succ fuel =>
        rw [runFrom_succ, goes.round]
        exact rest.before fuel (Nat.le_of_succ_le_succ few)
  after := by
    intro fuel enough
    obtain ⟨fuel, rfl⟩ :=
      Nat.exists_eq_succ_of_ne_zero (Nat.ne_zero_of_lt enough)
    rw [runFrom_succ, goes.round]
    exact rest.after fuel (Nat.lt_of_succ_lt_succ enough)

/-- How a run ends is decided by how it goes on after a part of it. -/
theorem RunsOut.of_rest {k n : Nat} {s last : Machine}
    (unfinished : m.runFrom natives watch k number = (s, .unfinished))
    (rest : s.RunsOut natives watch (number + k) n last final stop) :
    m.RunsOut natives watch number (k + n) last final stop := by
  induction k generalizing m number with
  | zero =>
      cases unfinished
      rwa [Nat.zero_add]
  | succ k ih =>
      rw [runFrom_succ] at unfinished
      rcases round_cases natives watch number m with
        ⟨next, goes⟩ | ⟨final, stop, ended, finished, -⟩
      · rw [goes.round] at unfinished
        rw [Nat.add_right_comm k 1 n]
        apply RunsOut.of_next goes
        apply ih unfinished
        rwa [Nat.add_right_comm number 1 k]
      · rw [ended] at unfinished
        cases unfinished
        exact absurd rfl finished

theorem RunsOut.returns {last : Machine} {n : Nat}
    (runs : m.RunsOut natives watch 0 n last final stop) :
    m.Returns natives watch final stop :=
  ⟨runs.finished, n, runs.after⟩

/-- A run that ended is not changed by more fuel. -/
theorem runFrom_of_ended {fuel : Nat}
    (ended : m.runFrom natives watch fuel number = (final, stop))
    (finished : stop ≠ .unfinished) (more : Nat) :
    m.runFrom natives watch (fuel + more) number = (final, stop) := by
  induction fuel generalizing m number with
  | zero =>
      cases ended
      exact absurd rfl finished
  | succ fuel ih =>
      rw [Nat.add_right_comm, runFrom_succ]
      rw [runFrom_succ] at ended
      rcases after : m.round natives watch number with ⟨next, outcome⟩
      rw [after] at ended
      cases outcome with
      | none => exact ih ended
      | some reason => exact ended

/-- A run can be taken up where its fuel ran out. -/
theorem runFrom_add {n : Nat} {s : Machine}
    (unfinished : m.runFrom natives watch n number = (s, .unfinished))
    (fuel : Nat) :
    m.runFrom natives watch (n + fuel) number =
      s.runFrom natives watch fuel (number + n) := by
  induction n generalizing m number with
  | zero =>
      cases unfinished
      rw [Nat.zero_add]
      rfl
  | succ n ih =>
      rw [Nat.add_right_comm, runFrom_succ]
      rw [runFrom_succ] at unfinished
      rcases round_cases natives watch number m with
        ⟨next, goes⟩ | ⟨final, stop, ended, finished, -⟩
      · rw [goes.round] at unfinished ⊢
        rw [← Nat.add_assoc, Nat.add_right_comm]
        exact ih unfinished
      · rw [ended] at unfinished
        cases unfinished
        exact absurd rfl finished

theorem returns_of_run (fuel : Nat)
    (ended : m.run natives watch fuel = (final, stop))
    (finished : stop ≠ .unfinished) : m.Returns natives watch final stop := by
  refine ⟨finished, fuel, ?_⟩
  intro larger above
  obtain ⟨more, rfl⟩ := Nat.exists_eq_add_of_le (Nat.le_of_lt above)
  exact runFrom_of_ended ended finished more

/-- A run has at most one result. -/
theorem Returns.unique {final' : Machine} {stop' : Stop}
    (returns : m.Returns natives watch final stop)
    (returns' : m.Returns natives watch final' stop') :
    final = final' ∧ stop = stop' := by
  obtain ⟨-, rounds, result⟩ := returns
  obtain ⟨-, rounds', result'⟩ := returns'
  have here := result (max rounds rounds' + 1) (by omega)
  have there := result' (max rounds rounds' + 1) (by omega)
  exact Prod.mk.inj (here.symm.trans there)

end Machine

end WordMachine
