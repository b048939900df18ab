import WordMachine.Assembly.Problem
import WordMachine.NameTable

/-!
# Linking labels and native functions

Operands may name labels of the program or native functions.  The two kinds of
names share one table, so a label must not have the name of a native function.
-/

namespace WordMachine.Assembly

/-- The merged table and the problems met. -/
structure Linkage where
  table : NameTable
  problems : List Problem := []

/-- Add the labels declared by items to `table`; `problems` holds those met
before, in reverse. -/
def linkFrom (labels natives : NameTable) :
    List Item → NameTable → List Problem → Linkage
  | [], table, problems => ⟨table, problems.reverse⟩
  | it :: rest, table, problems =>
    match it.form with
    | .label =>
      if natives.contains it.name then
        let detail := it.name ++ Text.ofString " is a native function"
        let problems := ⟨it.pos, .duplicateLabel, detail⟩ :: problems
        if isFull problems then ⟨table, problems.reverse⟩
        else linkFrom labels natives rest table problems
      else
        linkFrom labels natives rest
          (table.insert it.name ((labels.get? it.name).getD 0)) problems
    | _ => linkFrom labels natives rest table problems

/-- Merge the labels of a program with native functions. -/
def Program.link (p : Program) (labels natives : NameTable) : Linkage :=
  linkFrom labels natives p.items natives []

end WordMachine.Assembly
