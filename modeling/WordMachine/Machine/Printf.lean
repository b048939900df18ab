import WordMachine.Binary64
import WordMachine.Machine.Native
import WordMachine.Output.StickyWriter
import WordMachine.StringLiteral

/-!
# Formatted output

The standard native function pops the address of a format string and writes it
out.  A percent sign takes the next word as a directive: `d` and `i` write an
integer, `f` and `g` a floating-point number, `c` a character, `s` the string at
an address, each popped from the operand stack; a second percent sign stands for
itself, and any other directive writes nothing.
-/

namespace WordMachine.Printf

/-- How reading a format string ended. -/
inductive Ending where
  /-- At the zero word behind the format. -/
  | complete
  /-- At a zero word in place of a directive. -/
  | cut
  | failed (fault : Fault)
  deriving DecidableEq, Repr

/-- What formatting changes: the operand stack and the output. -/
structure Progress where
  stack : Stack
  writer : StickyWriter

/-- The text for an operand under a directive. -/
def operandText (memory : Array Word) (directive operand : Word) :
    Except Fault Text :=
  match directive.toInt with
  | 102 | 103 => .ok (Binary64.toText operand)
  | 99 => .ok (Text.encodeChar operand.toChar)
  | 115 =>
    match StringLiteral.decode memory operand with
    | (text, none) => .ok text
    | (_, some fault) => .error fault
  | _ => .ok operand.toText

/-- Whether a directive takes an operand: `d`, `i`, `f`, `g`, `c` or `s`. -/
def takesOperand (directive : Word) : Bool :=
  [100, 105, 102, 103, 99, 115].contains directive

def directive (memory : Array Word) (d : Word) (state : Progress) :
    Progress × Option Fault :=
  if takesOperand d then
    match state.stack.words with
    | [] => (state, some (.root .stackUnderflow))
    | operand :: _ =>
      let state := { state with stack := state.stack.drop1 }
      match operandText memory d operand with
      | .ok text => ({ state with writer := state.writer.append text }, none)
      | .error fault => (state, some fault)
  else if d = 37 then ({ state with writer := state.writer.append [37] }, none)
  else (state, none)

/-- Read the format from the address `p` on. -/
def formatFrom (memory : Array Word) (p : Nat) (state : Progress) :
    Progress × Ending :=
  if inside : p < memory.size then
    let w := memory[p]
    if w = 0 then (state, .complete)
    else if w ≠ 37 then
      formatFrom memory (p + 1)
        { state with writer := (state.writer.writeChar w.toChar).target }
    else if behind : p + 1 < memory.size then
      let d := memory[p + 1]
      if d = 0 then (state, .cut)
      else
        match directive memory d state with
        | (state, some fault) => (state, .failed fault)
        | (state, none) => formatFrom memory (p + 2) state
    else (state, .failed (.outOfBounds (Int64.ofNat (p + 1))))
  else (state, .failed (.outOfBounds (Int64.ofNat p)))
termination_by memory.size - p

def format (memory : Array Word) (address : Word) (state : Progress) :
    Progress × Ending :=
  match address.index? memory.size with
  | some p => formatFrom memory p state
  | none => (state, .failed (.outOfBounds address))

/-- The failure formatting ends with, given the state of the writer. -/
def Ending.fault? (writer : StickyWriter) : Ending → Option Fault
  | .complete => writer.fault.map (.within (Text.ofString "printf"))
  | .cut => writer.fault
  | .failed fault => some fault

/-- The native function. -/
def body (m : Machine) (next : Int) : Outcome :=
  match m.pop with
  | .error fault => .fail m fault
  | .ok (address, m) =>
    let (state, ending) :=
      format m.memory address ⟨m.stack, ⟨m.host.output, none⟩⟩
    let m := { m with stack := state.stack }.withOutput state.writer.sink
    match ending.fault? state.writer with
    | none => .proceed m next
    | some fault => .fail m fault

end WordMachine.Printf

namespace WordMachine.Natives

/-- The functions bound to a new machine. -/
def standard : Natives :=
  [(NativeAddress.printf, ⟨Text.ofString "printf", Printf.body⟩)]

end WordMachine.Natives
