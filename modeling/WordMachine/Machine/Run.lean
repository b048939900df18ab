import WordMachine.Machine.Step

/-!
# Running programs

A run executes instructions until the program reaches its end, fails, spends its
step limit or is asked to stop.  A program need not do any of this, so the
number of rounds is bounded by `fuel`; a run that ended is not changed by more
of it.
-/

namespace WordMachine

/-- Decides whether a run has to stop: asked with the host's flag, the number of
the round and the number of multiplications done inside the instruction. -/
abbrev Watch := (cancelled : Bool) → (round work : Nat) → Bool

/-- A run that nobody can stop. -/
def Watch.never : Watch := fun _ _ _ => false

/-- A run that stops when the host's flag is up. -/
def Watch.flag : Watch := fun cancelled _ _ => cancelled

/-- How a run ended. -/
inductive Stop where
  | halted
  | failed (fault : RuntimeFault)
  | cancelled
  /-- The fuel ran out first. -/
  | unfinished
  deriving DecidableEq, Repr

namespace Machine

/-- The number of rounds between two looks at the watch. -/
def watchInterval : Nat := 1024

def isSpent (m : Machine) : Bool :=
  m.limits.steps.any (· ≤ m.count)

def haltLine (m : Machine) : LogLine :=
  .info (Text.ofString "halted at " ++ Text.ofInt m.pc ++
    Text.ofString " after "
    ++ Text.ofNat m.count ++ Text.ofString " instructions")

/-- Execute at most `fuel` rounds, the first of which has the number `round`. -/
def runFrom (natives : Natives) (watch : Watch) :
    (fuel round : Nat) → Machine → Machine × Stop
  | 0, _, m => (m, .unfinished)
  | fuel + 1, round, m =>
    if m.isHalted then (m.logged m.haltLine, .halted)
    else if m.isSpent then (m, .failed ⟨m.pc, m.currentWord, .root .stepLimit⟩)
    else if round % watchInterval = 0 && watch m.host.cancelled round 0 then
      (m, .cancelled)
    else
      match m.step natives (watch m.host.cancelled round) with
      | (m, none) => runFrom natives watch fuel (round + 1) m
      | (m, some fault) => (m, .failed fault)

/-- Run the program from the program counter on. -/
def run (natives : Natives) (watch : Watch) (fuel : Nat) (m : Machine) :
    Machine × Stop :=
  runFrom natives watch fuel 0 m

end Machine

end WordMachine
