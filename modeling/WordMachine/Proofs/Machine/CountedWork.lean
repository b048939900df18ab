import WordMachine.Proofs.Machine.StepLimit

/-!
# Work under a step limit

An instruction `powf` multiplies many times.  While it does, every
multiplication counts against the step limit, and now and then the limit is
looked at.  But when the power is complete, the instruction counts as one and
its multiplications are forgotten.

Here runs are told together with the work they do (`Machine.runCounted`).
Instructions and the multiplications of a power that was broken off stay within
the limit and one interval between two looks (`Tally.Within`).  The
multiplications of complete powers come on top, so that a program of powers does
many times the work that its limit names.
-/

namespace WordMachine

/-! ## Powers -/

namespace Arithmetic

/-- `powfFrom`, and how often it multiplies. -/
def powfFromCounted (stop : Nat → Option Fault) (base : Float)
    (negative : Bool) :
    (left done : Nat) → (product : Float) → Except Fault Float × Nat
  | 0, _, product => (.ok product, 0)
  | left + 1, done, product =>
    match if done % pollInterval = 0 then stop done else none with
    | some fault => (.error fault, 0)
    | none =>
      let product := product * base
      if product == 0 || product.isInf then
        (.ok (if negative && left % 2 == 1 then -product else product), 1)
      else
        let rest := powfFromCounted stop base negative left (done + 1) product
        (rest.1, rest.2 + 1)

/-- `powf`, and how often it multiplies. -/
def powfCounted (stop : Nat → Option Fault) (base : Word) (exponent : Nat) :
    Except Fault Word × Nat :=
  if exponent = 0 then (.ok one, 0)
  else if base = one || base.isNaN then (.ok base, 0)
  else if base = minusOne then
    (.ok (if exponent % 2 = 1 then minusOne else one), 0)
  else
    let power := powfFromCounted stop base.toFloat (base < 0) exponent 0 1
    (power.1.map Word.ofFloat, power.2)

variable {stop stop' : Nat → Option Fault} {base : Float} {negative : Bool}

theorem powfFromCounted_fst (left done : Nat) (product : Float) :
    (powfFromCounted stop base negative left done product).1 =
      powfFrom stop base negative left done product := by
  induction left generalizing done product with
  | zero => rfl
  | succ left ih =>
      cases met : (if done % pollInterval = 0 then stop done else none) with
      | some fault => simp only [powfFromCounted, powfFrom, met]
      | none =>
          simp only [powfFromCounted, powfFrom, met]
          split
          · rfl
          · exact ih (done + 1) (product * base)

theorem powfCounted_fst (stop : Nat → Option Fault) (base : Word)
    (exponent : Nat) :
    (powfCounted stop base exponent).1 = powf stop base exponent := by
  unfold powfCounted powf
  split
  · rfl
  · split
    · rfl
    · split
      · rfl
      · dsimp only
        rw [powfFromCounted_fst]

/-- Where the power was asked to stop before a multiplication, it was not to. -/
theorem powfFromCounted_passed {left done : Nat} {product : Float} {k : Nat}
    (below : k < (powfFromCounted stop base negative left done product).2)
    (asked : (done + k) % pollInterval = 0) : stop (done + k) = none := by
  induction left generalizing done product k with
  | zero => cases below
  | succ left ih =>
      rw [powfFromCounted] at below
      split at below
      next => cases below
      next passed =>
        cases k with
        | zero =>
            rw [Nat.add_zero] at asked ⊢
            rwa [if_pos asked] at passed
        | succ k =>
            dsimp only at below
            split at below
            next => omega
            next =>
              rw [← Nat.add_assoc, Nat.add_right_comm] at asked ⊢
              exact ih (Nat.lt_of_succ_lt_succ below) asked

theorem powfCounted_passed {base : Word} {exponent k : Nat}
    (below : k < (powfCounted stop base exponent).2)
    (asked : k % pollInterval = 0) :
    stop k = none := by
  unfold powfCounted at below
  split at below
  next => cases below
  next =>
    split at below
    next => cases below
    next =>
      split at below
      next => cases below
      next =>
        rw [← Nat.zero_add k] at asked ⊢
        exact powfFromCounted_passed below asked

/-- The rule for stopping matters only where it is asked. -/
theorem powfFromCounted_congr {left done : Nat}
    (same : ∀ k, done ≤ k → k < done + left → k % pollInterval = 0 →
      stop k = stop' k)
    (product : Float) :
    powfFromCounted stop base negative left done product =
      powfFromCounted stop' base negative left done product := by
  induction left generalizing done product with
  | zero => rfl
  | succ left ih =>
      have here : (if done % pollInterval = 0 then stop done else none) =
          if done % pollInterval = 0 then stop' done else none := by
        split
        next asked => exact same done (Nat.le_refl _) (by omega) asked
        next => rfl
      have rest : ∀ product,
          powfFromCounted stop base negative left (done + 1) product =
          powfFromCounted stop' base negative left (done + 1) product :=
        ih fun k above below => same k (by omega) (by omega)
      simp only [powfFromCounted, here, rest]

theorem powfCounted_congr {exponent : Nat}
    (same : ∀ k, k < exponent → k % pollInterval = 0 → stop k = stop' k)
    (base : Word) :
    powfCounted stop base exponent = powfCounted stop' base exponent := by
  have loop : ∀ base negative, powfFromCounted stop base negative exponent 0 1 =
      powfFromCounted stop' base negative exponent 0 1 :=
    fun _ _ => powfFromCounted_congr (fun k _ below => same k (by omega)) 1
  simp only [powfCounted, loop]

end Arithmetic

namespace Machine

variable {natives : Natives} {cancelled : Nat → Bool}
  {watch : Watch} {m : Machine} {limit number : Nat}

/-! ## Steps -/

/-- A step, and how often it multiplies for a power. -/
def stepCounted (natives : Natives) (cancelled : Nat → Bool) (m : Machine) :
    (Machine × Option RuntimeFault) × Nat :=
  match m.instruction, m.stack.words with
  | .ok ⟨w, .powf, immediate⟩, a :: b :: _ =>
    if b < 0 then (m.step natives cancelled, 0)
    else
      let power := Arithmetic.powfCounted (m.interruption cancelled)
        a b.toInt.toNat
      (settled m.pc w ((m.traced .powf immediate).guarded
        (m.pc + Opcode.powf.width) fun _ _ => power.1), power.2)
  | _, _ => (m.step natives cancelled, 0)

theorem stepCounted_fst (natives : Natives) (cancelled : Nat → Bool)
    (m : Machine) :
    (m.stepCounted natives cancelled).1 = m.step natives cancelled := by
  unfold stepCounted
  split
  next w immediate a b rest decoded words =>
    split
    next => rfl
    next nonnegative =>
      rw [step_eq, decoded]
      dsimp only [execute]
      congr 1
      apply guarded_congr
      intro a' b' rest' words'
      rw [traced_eq] at words' ⊢
      cases words.symm.trans words'
      rw [if_neg nonnegative, Arithmetic.powfCounted_fst]
      rfl
  next => rfl

theorem lt_of_interruption_none
    (limited : m.limits.steps = some limit) {work : Nat}
    (passed : m.interruption cancelled work = none) :
    m.count + work < limit := by
  unfold interruption at passed
  rw [limited, Option.any_some] at passed
  split at passed
  next => cases passed
  next within => simpa using within

/-- However a power ends, it goes less than one interval beyond the limit. -/
theorem stepCounted_lt (limited : m.limits.steps = some limit)
    (unspent : m.count < limit) :
    m.count + (m.stepCounted natives cancelled).2 <
      limit + Arithmetic.pollInterval := by
  have positive : m.count + 0 < limit + Arithmetic.pollInterval := by omega
  unfold stepCounted
  split
  next w immediate a b rest decoded words =>
    split
    next => exact positive
    next =>
      dsimp only
      generalize work : (Arithmetic.powfCounted (m.interruption cancelled) a
        b.toInt.toNat).2 = n
      cases n with
      | zero => exact positive
      | succ n =>
          -- The last look at the limit was before the multiplication with this
          -- number.
          have multiple : n / Arithmetic.pollInterval *
              Arithmetic.pollInterval %
              Arithmetic.pollInterval = 0 := Nat.mul_mod_left _ _
          have below : n / Arithmetic.pollInterval *
              Arithmetic.pollInterval < n + 1 :=
            Nat.lt_succ_of_le (Nat.div_mul_le_self _ _)
          rw [← work] at below
          have passed := lt_of_interruption_none limited
            (Arithmetic.powfCounted_passed below multiple)
          have near := Nat.lt_div_mul_add (a := n)
            (b := Arithmetic.pollInterval) (by decide)
          omega
  next => exact positive

end Machine

/-! ## Runs -/

/-- What was done in a run. -/
structure Tally where
  /-- Instructions that succeeded. -/
  instructions : Nat := 0
  /-- Multiplications of powers that were completed. -/
  completed : Nat := 0
  /-- Multiplications of a power that was broken off. -/
  broken : Nat := 0
  deriving DecidableEq, Repr

namespace Tally

def total (w : Tally) : Nat :=
  w.instructions + w.completed + w.broken

/-- The work together with instructions that succeeded before it and
multiplied. -/
def after (w : Tally) (instructions multiplications : Nat) : Tally :=
  { w with
    instructions := w.instructions + instructions
    completed := w.completed + multiplications }

end Tally

namespace Machine

/-- A round, and how often it multiplies for a power. -/
def roundCounted (natives : Natives) (watch : Watch) (number : Nat)
    (m : Machine) :
    (Machine × Option Stop) × Nat :=
  if m.isHalted then ((m.logged m.haltLine, some .halted), 0)
  else if m.isSpent then
    ((m, some (.failed ⟨m.pc, m.currentWord, .root .stepLimit⟩)), 0)
  else if number % watchInterval = 0 && watch m.host.cancelled number 0 then
    ((m, some .cancelled), 0)
  else
    let stepped := m.stepCounted natives (watch m.host.cancelled number)
    ((stepped.1.1, stepped.1.2.map .failed), stepped.2)

/-- `runFrom`, and the work that is done. -/
def runFromCounted (natives : Natives) (watch : Watch) :
    (fuel number : Nat) → Machine → (Machine × Stop) × Tally
  | 0, _, m => ((m, .unfinished), {})
  | fuel + 1, number, m =>
    match m.roundCounted natives watch number with
    | ((next, none), work) =>
      let rest := runFromCounted natives watch fuel (number + 1) next
      (rest.1, rest.2.after 1 work)
    | ((final, some stop), work) => ((final, stop), { broken := work })

/-- `run`, and the work that is done. -/
def runCounted (natives : Natives) (watch : Watch) (fuel : Nat) (m : Machine) :
    (Machine × Stop) × Tally :=
  m.runFromCounted natives watch fuel 0

variable {natives : Natives} {watch : Watch} {m next : Machine}
  {fuel number limit : Nat}

theorem roundCounted_fst (natives : Natives) (watch : Watch) (number : Nat)
    (m : Machine) :
    (m.roundCounted natives watch number).1 = m.round natives watch number := by
  unfold roundCounted round
  split
  · rfl
  · split
    · rfl
    · split
      · rfl
      · rw [← stepCounted_fst]

theorem roundCounted_lt (limited : m.limits.steps = some limit)
    (within : m.count ≤ limit) :
    m.count + (m.roundCounted natives watch number).2 <
      limit + Arithmetic.pollInterval := by
  have nothing : m.count + 0 < limit + Arithmetic.pollInterval :=
    Nat.lt_of_le_of_lt within (Nat.lt_add_of_pos_right (by decide))
  unfold roundCounted
  split
  next => exact nothing
  next =>
    split
    next => exact nothing
    next unspent =>
      split
      next => exact nothing
      next =>
        rw [isSpent_limited limited, decide_eq_true_eq, Nat.not_le] at unspent
        exact stepCounted_lt limited unspent

/-- Counting changes nothing about a run. -/
theorem runFromCounted_fst (natives : Natives) (watch : Watch)
    (fuel number : Nat) (m : Machine) :
    (m.runFromCounted natives watch fuel number).1 =
      m.runFrom natives watch fuel number := by
  induction fuel generalizing number m with
  | zero => rfl
  | succ fuel ih =>
      rw [runFrom_succ, ← roundCounted_fst, runFromCounted]
      split
      next next work counted =>
        rw [counted]
        exact ih (number + 1) next
      next final stop work counted => rw [counted]

end Machine

namespace Tally

/-- From some count on, work stays within a limit: instructions keep to it, a
power that was broken off goes at most one interval beyond, and so does each of
the others. -/
structure Within (w : Tally) (count limit : Nat) : Prop where
  instructions : count + w.instructions ≤ limit
  broken : count + w.instructions + w.broken < limit + Arithmetic.pollInterval
  completed : w.completed ≤ w.instructions * (limit + Arithmetic.pollInterval)

theorem Within.after {w : Tally} {count limit multiplications : Nat}
    (within : w.Within (count + 1) limit)
    (few : count + multiplications < limit + Arithmetic.pollInterval) :
    (w.after 1 multiplications).Within count limit where
  instructions := by
    have instructions := within.instructions
    simp only [Tally.after]
    omega
  broken := by
    have broken := within.broken
    simp only [Tally.after]
    omega
  completed := by
    have completed := within.completed
    simp only [Tally.after, Nat.succ_mul]
    omega

end Tally

namespace Machine

variable {watch : Watch} {m : Machine} {fuel number limit : Nat}

theorem goesOn_of_roundCounted {natives : Natives} {next : Machine} {work : Nat}
    (counted : m.roundCounted natives watch number = ((next, none), work)) :
    m.GoesOn natives watch number next := by
  have round := roundCounted_fst natives watch number m
  rw [counted] at round
  rcases round_cases natives watch number m with
    ⟨next', goes⟩ | ⟨final, stop, ended, -, -⟩
  · rw [goes.round] at round
    cases round
    exact goes
  · rw [ended] at round
    cases round

theorem ends_of_roundCounted {natives : Natives} {final : Machine}
    {stop : Stop} {work : Nat}
    (counted : m.roundCounted natives watch number =
      ((final, some stop), work)) :
    m.Ends natives watch number final stop := by
  have round := roundCounted_fst natives watch number m
  rw [counted] at round
  rcases round_cases natives watch number m with
    ⟨next, goes⟩ | ⟨final', stop', ended, -, ends⟩
  · rw [goes.round] at round
    cases round
  · rw [ended] at round
    cases round
    exact ends

/-- The count grows by the instructions and by nothing else. -/
theorem runFromCounted_count (watch : Watch) (fuel number : Nat) (m : Machine) :
    (m.runFromCounted Natives.standard watch fuel number).1.1.count =
      m.count + (m.runFromCounted Natives.standard watch fuel
        number).2.instructions := by
  induction fuel generalizing number m with
  | zero => rfl
  | succ fuel ih =>
      rw [runFromCounted]
      split
      next next work counted =>
        have grown := (accounts_of_step
          (goesOn_of_roundCounted counted).stepped).2
        have rest := ih (number + 1) next
        simp only [Tally.after]
        omega
      next final stop work counted => exact (ends_of_roundCounted counted).count

theorem runFromCounted_within (limited : m.limits.steps = some limit)
    (within : m.count ≤ limit) :
    (m.runFromCounted Natives.standard watch fuel number).2.Within
      m.count limit := by
  induction fuel generalizing number m with
  | zero =>
      have below : m.count < limit + Arithmetic.pollInterval :=
        Nat.lt_of_le_of_lt within (Nat.lt_add_of_pos_right (by decide))
      exact ⟨within, below, Nat.zero_le _⟩
  | succ fuel ih =>
      have few : m.count + (m.roundCounted Natives.standard watch number).2 <
          limit + Arithmetic.pollInterval := roundCounted_lt limited within
      rw [runFromCounted]
      split
      next next work counted =>
        have goes := goesOn_of_roundCounted counted
        obtain ⟨same, grown⟩ := accounts_of_step goes.stepped
        have unspent := goes.unspent
        rw [isSpent_limited limited, decide_eq_false_iff_not,
          Nat.not_le] at unspent
        rw [counted] at few
        have rest : (next.runFromCounted Natives.standard watch fuel
            (number + 1)).2.Within next.count limit :=
          ih (same.trans limited) (by omega)
        rw [grown] at rest
        exact rest.after few
      next final stop work counted =>
        rw [counted] at few
        exact ⟨within, few, Nat.zero_le _⟩

/-! ## A program of powers -/

def oneAndAHalf : Word := Word.ofBits 0x3FF8000000000000

/-- Compute `1.5 ^ 100`, put it aside and start over. -/
def powers : Array Word :=
  #[Opcode.loads.code, 100, Opcode.loads.code, oneAndAHalf, Opcode.powf.code,
    Opcode.store.code, 9, Opcode.jump.code, 0]

/-- A machine that computes powers and may execute a hundred instructions, with
what was put aside last. -/
def spinning (log : Array LogLine) (aside : Word) (count : Nat) (pc : Int)
    (words : List Word) : Machine where
  memory := powers.push aside
  pc := pc
  heapTop := 9
  stack := .ofList words
  count := count
  limits := { steps := some 100 }
  host := { log := log }

/-- The power takes as many multiplications as its exponent says. -/
theorem powfCounted_powers :
    ∃ power, Arithmetic.powfCounted (fun _ => none) oneAndAHalf 100 =
      (.ok power, 100) := by
  have work : (Arithmetic.powfCounted (fun _ => none) oneAndAHalf 100).2 =
      100 := by
    decide +kernel
  have result := Arithmetic.powfCounted_fst (fun _ => none) oneAndAHalf 100
  cases computed : Arithmetic.powf (fun _ => none) oneAndAHalf 100 with
  | ok power => exact ⟨power, Prod.ext (result.trans computed) work⟩
  | error fault =>
      obtain ⟨_, stopped⟩ := Arithmetic.powf_error computed
      cases stopped

/-- On its way from one machine to another, a run that nobody stops executes
instructions and completes powers. -/
def Spends (m : Machine) (instructions multiplications : Nat)
    (reached : Machine) : Prop :=
  ∀ fuel number,
    m.runFromCounted Natives.standard Watch.never (fuel + instructions) number =
      ((reached.runFromCounted Natives.standard Watch.never fuel
        (number + instructions)).1,
        (reached.runFromCounted Natives.standard Watch.never fuel
          (number + instructions)).2.after instructions multiplications)

theorem Spends.trans {reached last : Machine} {n k n' k' : Nat}
    (first : m.Spends n k reached) (second : reached.Spends n' k' last) :
    m.Spends (n + n') (k + k') last := by
  intro fuel number
  have before := first (fuel + n') number
  rw [second fuel (number + n)] at before
  rw [Nat.add_comm n n', ← Nat.add_assoc, before, Nat.add_assoc number,
    Nat.add_comm n n']
  simp only [Tally.after, Nat.add_assoc, Nat.add_comm k k']

section Spinning

variable {log : Array LogLine} {aside : Word} {count : Nat} {pc : Int}
  {words : List Word}

theorem spends_of_stepCounted {work : Nat} (left : count < 100)
    (running : (spinning log aside count pc words).isHalted = false)
    (counted : (spinning log aside count pc words).stepCounted Natives.standard
      (fun _ => false) = ((next, none), work)) :
    (spinning log aside count pc words).Spends 1 work next := by
  intro fuel number
  have unspent : (spinning log aside count pc words).isSpent = false := by
    rw [isSpent_limited rfl]
    exact decide_eq_false (Nat.not_le.mpr left)
  have unwatched : Watch.never
      (spinning log aside count pc words).host.cancelled number =
      fun _ => false := rfl
  have round : (spinning log aside count pc words).roundCounted
      Natives.standard Watch.never number = ((next, none), work) := by
    simp only [roundCounted, running, unspent, unwatched, counted,
      Bool.and_false, Bool.false_eq_true, if_false, Option.map_none]
  rw [runFromCounted, round]

/-- The power is computed without a look at the limit but the one before it. -/
theorem stepCounted_spinning {power : Word} (left : count < 100)
    (computed : Arithmetic.powfCounted (fun _ => none) oneAndAHalf 100 =
      (.ok power, 100)) :
    (spinning log aside count 4 [oneAndAHalf, 100]).stepCounted Natives.standard
        (fun _ => false) =
      ((spinning log aside (count + 1) 5 [power], none), 100) := by
  have allowed : Arithmetic.powfCounted
      ((spinning log aside count 4 [oneAndAHalf, 100]).interruption
        fun _ => false)
      oneAndAHalf 100 = (.ok power, 100) := by
    rw [← computed]
    apply Arithmetic.powfCounted_congr
    intro k below asked
    obtain rfl : k = 0 := by
      rw [Nat.mod_eq_of_lt (Nat.lt_trans below (by decide))] at asked
      exact asked
    rw [interruption_limited rfl]
    exact if_neg (Nat.not_le.mpr left)
  have stepped : (spinning log aside count 4 [oneAndAHalf, 100]).stepCounted
      Natives.standard (fun _ => false) =
      (settled 4 Opcode.powf.code
        ((spinning log aside count 4 [oneAndAHalf, 100]).guarded 5 fun _ _ =>
          (Arithmetic.powfCounted
            ((spinning log aside count 4 [oneAndAHalf, 100]).interruption
              fun _ => false)
            oneAndAHalf 100).1),
        (Arithmetic.powfCounted
          ((spinning log aside count 4 [oneAndAHalf, 100]).interruption
            fun _ => false)
          oneAndAHalf 100).2) := rfl
  rw [stepped, allowed]
  rfl

/-- One turn: five instructions, and a hundred multiplications that do not
count. -/
theorem exists_turn (log : Array LogLine) (aside : Word) (count : Nat)
    (left : count + 5 ≤ 100) :
    ∃ power, (spinning log aside count 0 []).Spends 5 100
      (spinning log power (count + 5) 0 []) := by
  obtain ⟨power, computed⟩ := powfCounted_powers
  have exponent : (spinning log aside count 0 []).Spends 1 0
      (spinning log aside (count + 1) 2 [100]) :=
    spends_of_stepCounted (by omega) rfl rfl
  have base : (spinning log aside (count + 1) 2 [100]).Spends 1 0
      (spinning log aside (count + 2) 4 [oneAndAHalf, 100]) :=
    spends_of_stepCounted (by omega) rfl rfl
  have multiplied :
      (spinning log aside (count + 2) 4 [oneAndAHalf, 100]).Spends 1 100
        (spinning log aside (count + 3) 5 [power]) :=
    spends_of_stepCounted (by omega) rfl
      (stepCounted_spinning (by omega) computed)
  have stored : (spinning log aside (count + 3) 5 [power]).Spends 1 0
      (spinning log power (count + 4) 7 []) :=
    spends_of_stepCounted (by omega) rfl rfl
  have back : (spinning log power (count + 4) 7 []).Spends 1 0
      (spinning log power (count + 5) 0 []) :=
    spends_of_stepCounted (by omega) rfl rfl
  exact ⟨power, (((exponent.trans base).trans multiplied).trans stored).trans
    back⟩

theorem exists_turns (log : Array LogLine) (aside : Word) (turns : Nat)
    (left : 5 * turns ≤ 100) :
    ∃ power, (spinning log aside 0 0 []).Spends (5 * turns) (100 * turns)
      (spinning log power (5 * turns) 0 []) := by
  induction turns with
  | zero => exact ⟨aside, fun _ _ => rfl⟩
  | succ turns ih =>
      obtain ⟨before, spends⟩ := ih (by omega)
      obtain ⟨power, turn⟩ := exists_turn log before (5 * turns) (by omega)
      exact ⟨power, spends.trans turn⟩

end Spinning

/-- The machine after the program was loaded into ten words of memory. -/
def loadedPowers : Machine :=
  spinning #[.info (Text.ofString "loaded 9 words, 1 words free")] 0 0 0 []

/-! ## What a step limit bounds -/

/-- Under a step limit, a run that starts within it executes no more
instructions than are left, and these together with the multiplications of a
power that was broken off stay below the limit and one interval between two
looks at it.  The multiplications of powers that were completed come on top;
each of these powers is alone below the limit and one interval. -/
theorem step_limit_bounds_work (watch : Watch) (fuel : Nat)
    {m : Machine} {limit : Nat} (limited : m.limits.steps = some limit)
    (within : m.count ≤ limit) :
    (m.runCounted Natives.standard watch fuel).1 =
      m.run Natives.standard watch fuel ∧
      (m.run Natives.standard watch fuel).1.count =
        m.count + (m.runCounted Natives.standard watch fuel).2.instructions ∧
      m.count + (m.runCounted Natives.standard watch fuel).2.instructions ≤
        limit ∧
      m.count + (m.runCounted Natives.standard watch fuel).2.total <
        limit + Arithmetic.pollInterval +
          (m.runCounted Natives.standard watch fuel).2.completed ∧
      (m.runCounted Natives.standard watch fuel).2.completed ≤
        (m.runCounted Natives.standard watch fuel).2.instructions *
          (limit + Arithmetic.pollInterval) := by
  have same := runFromCounted_fst Natives.standard watch fuel 0 m
  have counted := runFromCounted_count watch fuel 0 m
  have bounds : (m.runCounted Natives.standard watch fuel).2.Within
      m.count limit :=
    runFromCounted_within limited within
  rw [same] at counted
  refine ⟨same, counted, bounds.instructions, ?_, bounds.completed⟩
  have broken := bounds.broken
  rw [Tally.total]
  omega

theorem step_limit_bounds_work_powers :
    loadedPowers.limits.steps = some 100 ∧ loadedPowers.count ≤ 100 ∧
      (loadedPowers.run Natives.standard Watch.never 101).1.count ≤ 100 ∧
      (loadedPowers.runCounted Natives.standard Watch.never 101).2.total <
        100 + Arithmetic.pollInterval +
          (loadedPowers.runCounted Natives.standard Watch.never
            101).2.completed := by
  have limited : loadedPowers.limits.steps = some 100 := rfl
  have within : loadedPowers.count ≤ 100 := by decide
  obtain ⟨-, counted, instructions, total, -⟩ :=
    step_limit_bounds_work Watch.never 101 limited within
  have fresh : loadedPowers.count = 0 := rfl
  rw [← counted] at instructions
  rw [fresh, Nat.zero_add] at total
  exact ⟨limited, within, instructions, total⟩

/-- A machine that may execute a hundred instructions multiplies two thousand
times on top of them. -/
theorem powers_exceed_limit :
    Machine.load
          { memory := Array.replicate 10 0, limits := { steps := some 100 } }
          powers =
        .ok loadedPowers ∧
      (loadedPowers.runCounted Natives.standard Watch.never 101).1 =
        loadedPowers.run Natives.standard Watch.never 101 ∧
      (loadedPowers.runCounted Natives.standard Watch.never 101).2 =
        { instructions := 100, completed := 2000, broken := 0 } ∧
      100 + Arithmetic.pollInterval <
        (loadedPowers.runCounted Natives.standard Watch.never 101).2.total := by
  obtain ⟨power, spends⟩ :=
    exists_turns #[.info (Text.ofString "loaded 9 words, 1 words free")] 0
      20 (by decide)
  have work : (loadedPowers.runCounted Natives.standard Watch.never 101).2 =
      { instructions := 100, completed := 2000, broken := 0 } :=
    congrArg Prod.snd (spends 1 0)
  refine ⟨rfl, runFromCounted_fst _ _ _ _ _, work, ?_⟩
  rw [work]
  decide

end Machine

end WordMachine
