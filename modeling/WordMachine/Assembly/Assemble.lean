import WordMachine.Assembly.Emission
import WordMachine.Assembly.Layout
import WordMachine.Assembly.Linkage
import WordMachine.Assembly.Source

/-!
# Assembling a source

The passes in order: reading, layout, linking and emission.  The first pass that
meets a problem ends the assembly.
-/

namespace WordMachine.Assembly

structure Assembled where
  code : Array Word
  /-- The labels of the program. -/
  labels : NameTable
  /-- The native functions the code was linked against. -/
  natives : NameTable
  program : Program

def checkProblems : List Problem → Except Failure Unit
  | [] => .ok ()
  | problems => .error (.problems problems)

/-- Assemble a source that may call the given native functions. -/
def assemble (name source : Text) (natives : NameTable) :
    Except Failure Assembled :=
  match read name source with
  | .error fault => .error (.unreadable fault)
  | .ok reading => do
    checkProblems reading.problems
    let layout := reading.program.layout
    checkProblems layout.problems
    let linkage := reading.program.link layout.labels natives
    checkProblems linkage.problems
    let emission := reading.program.emit linkage.table
    checkProblems emission.problems
    return ⟨emission.code, layout.labels, natives, reading.program⟩

end WordMachine.Assembly
