import WordMachine.Assembly.Problem
import WordMachine.NameTable
import WordMachine.StringLiteral

/-!
# Layout

The first pass over a program adds up the sizes of its items and so finds the
address of every label: that of the next word behind its declaration.
-/

namespace WordMachine.Assembly

/-- The number of words an item takes, or why it has none. -/
def Item.size (it : Item) : Except Cause Nat :=
  match it.form with
  | .label => .ok 0
  | .data _ => .ok 1
  | .string literal =>
    match StringLiteral.size literal with
    | .ok n => .ok n
    | .error _ => .error .malformedSource
  | .instruction _ =>
    match Opcode.ofName? it.name with
    | some op => .ok op.width
    | none => .error .unknownMnemonic
  | .unknown => .error .malformedSource

/-- The labels found and the problems met. -/
structure Layout where
  labels : NameTable := .empty
  problems : List Problem := []

/-- Lay out items from `address` on; `problems` holds those met before, in
reverse. -/
def layoutFrom : List Item → (address : Nat) → NameTable → List Problem → Layout
  | [], _, labels, problems => ⟨labels, problems.reverse⟩
  | it :: rest, address, labels, problems =>
    let refused (cause : Cause) : Layout :=
      let problems := ⟨it.pos, cause, it.name⟩ :: problems
      if isFull problems then ⟨labels, problems.reverse⟩
      else layoutFrom rest address labels problems
    match it.form with
    | .label =>
      if labels.contains it.name then refused .duplicateLabel
      else layoutFrom rest address
        (labels.insert it.name (Int64.ofNat address)) problems
    | _ =>
      match it.size with
      | .ok n => layoutFrom rest (address + n) labels problems
      | .error cause => refused cause

/-- The labels of a program.  They are those found so far if a problem ended the
pass. -/
def Program.layout (p : Program) : Layout :=
  layoutFrom p.items 0 .empty []

end WordMachine.Assembly
