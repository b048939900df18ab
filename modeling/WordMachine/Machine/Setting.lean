import WordMachine.Machine.Basic

/-!
# Settings

What can be set about a machine, when it is made and later.  A value that makes
no sense is refused; settings applied before it stay in force.  More memory than
can be addressed is not refused but breaks off the program that asks for it.
That the host may have less memory to give is left out.
-/

namespace WordMachine

inductive Setting where
  /-- The number of memory words. -/
  | memory (size : Int)
  /-- The greatest depth of the operand stack. -/
  | stack (size : Int)
  /-- The greatest depth of the call stack. -/
  | calls (depth : Int)
  /-- The step limit; zero means none. -/
  | steps (limit : Int)
  /-- Whether every instruction is logged. -/
  | trace (enabled : Bool)
  /-- Drop all output. -/
  | discardOutput
  deriving DecidableEq, Repr

namespace Machine

/-- Memory of another size: cut off at the end, or filled up with zeros. -/
def resize (memory : Array Word) (size : Nat) : Array Word :=
  memory.take size ++ Array.replicate (size - memory.size) 0

/-- No more words than these can be addressed: they take 2^48 bytes. -/
def maxMemorySize : Nat := 0x200000000000

/-- The failure for a setting that makes no sense. -/
def invalid (what : String) (value : Int) : Fault :=
  .ofText (Text.ofString "vm: invalid " ++ Text.ofString what ++ [Text.space] ++
    Text.ofInt value)

def configure (m : Machine) : Setting → Except Fault Machine
  | .memory size =>
    if size ≤ 0 then .error (invalid "memory size" size)
    else if maxMemorySize < size.toNat ∧ m.memory.size < size.toNat then
      .error (.root .unaddressable)
    else .ok { m with memory := resize m.memory size.toNat }
  | .stack size =>
    if size ≤ 0 then .error (invalid "stack size" size)
    else .ok { m with limits := { m.limits with stack := size.toNat } }
  | .calls depth =>
    if depth ≤ 0 then .error (invalid "call depth" depth)
    else .ok { m with limits := { m.limits with calls := depth.toNat } }
  | .steps limit =>
    if limit < 0 then .error (invalid "step limit" limit)
    else
      let steps := if limit = 0 then none else some limit.toNat
      .ok { m with limits := { m.limits with steps := steps } }
  | .trace enabled => .ok { m with host := { m.host with tracing := enabled } }
  | .discardOutput => .ok (m.withOutput .discard)

/-- Apply settings in order, up to the first one that is refused. -/
def configureAll (m : Machine) : List Setting → Machine × Option Fault
  | [] => (m, none)
  | setting :: rest =>
    match m.configure setting with
    | .ok m => m.configureAll rest
    | .error fault => (m, some fault)

/-- A machine with empty memory of the default size and the given settings. -/
def new (host : Host) (settings : List Setting) : Except Fault Machine :=
  let blank : Machine :=
    { memory := Array.replicate defaultMemorySize 0, host := host }
  match blank.configureAll settings with
  | (m, none) => .ok m
  | (_, some fault) => .error fault

end Machine

end WordMachine
