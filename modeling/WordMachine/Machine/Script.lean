import WordMachine.Machine.Native

/-!
# Scripted native functions

A host can provide a native function as a list of actions.  They are carried out
in order, and the first one that fails ends the function.
-/

namespace WordMachine

inductive Action where
  | push (w : Word)
  | pop
  /-- Write to the machine's output. -/
  | print (text : Text)
  /-- Move the program counter. -/
  | setPc (pc : Int)
  /-- Load another program, which then starts at its beginning. -/
  | load (program : Array Word)
  /-- Ask running programs to stop. -/
  | cancel
  /-- Fail with the given wording. -/
  | fail (wording : Text)
  deriving DecidableEq, Repr

namespace Action

/-- Carry out one action; `next` is the address to go on at. -/
def perform (m : Machine) (next : Int) : Action → Outcome
  | .push w =>
    match m.push w with
    | .ok m => .proceed m next
    | .error fault => .fail m fault
  | .pop =>
    match m.pop with
    | .ok (_, m) => .proceed m next
    | .error fault => .fail m fault
  | .print text =>
    let result := m.host.output.write text
    let m := m.withOutput result.target
    match result.fault with
    | none => .proceed m next
    | some fault => .fail m fault
  | .setPc pc => .proceed { m with pc := pc } next
  | .load program =>
    match m.load program with
    | .ok m => .proceed m 0
    | .error fault => .fail m fault
  | .cancel =>
    .proceed { m with host := { m.host with cancelled := true } } next
  | .fail wording => .fail m (.ofText wording)

def performAll : List Action → Machine → Int → Outcome
  | [], m, next => .proceed m next
  | action :: rest, m, next =>
    match action.perform m next with
    | .proceed m next => performAll rest m next
    | .fail m fault => .fail m fault

end Action

/-- The native function with the given name and actions. -/
def Native.ofActions (name : Text) (actions : List Action) : Native :=
  ⟨name, Action.performAll actions⟩

end WordMachine
