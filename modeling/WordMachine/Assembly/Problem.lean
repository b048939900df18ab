import WordMachine.Assembly.Item
import WordMachine.Fault

/-!
# Problems in a source

Each pass of the assembler collects the problems it meets and gives up after ten
of them, so that one mistake does not hide the next and a hopeless source does
not produce a hopeless list.
-/

namespace WordMachine.Assembly

/-- Something wrong at a place in a source. -/
structure Problem where
  pos : Position
  cause : Cause
  /-- Says more, may be empty. -/
  detail : Text := []
  deriving DecidableEq, Repr

/-- What is wrong, without the place. -/
def Problem.summary (p : Problem) : Text :=
  if p.detail.isEmpty then p.cause.message
  else p.cause.message ++ Text.ofString ": " ++ p.detail

def Problem.message (p : Problem) : Text :=
  p.pos.text ++ Text.ofString ": " ++ p.summary

/-- The wording of several problems, one on a line. -/
def problemsMessage (problems : List Problem) : Text :=
  Text.join [Text.newline] (problems.map Problem.message)

/-- How many problems a pass collects before it gives up. -/
def maxProblems : Nat := 10

def isFull (problems : List Problem) : Bool :=
  maxProblems ≤ problems.length

/-- Why there is no program. -/
inductive Failure where
  /-- The source has problems. -/
  | problems (found : List Problem)
  /-- The source could not be read to its end. -/
  | unreadable (fault : Fault)
  deriving DecidableEq, Repr

def Failure.message : Failure → Text
  | .problems found => problemsMessage found
  | .unreadable fault => fault.message

end WordMachine.Assembly
