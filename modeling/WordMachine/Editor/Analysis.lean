import WordMachine.Assembly.Assemble
import WordMachine.Machine.Native

/-!
# Analyses

An analysis is what the assembler can say about a document.  Unlike an assembly
it always yields something: when a pass meets problems, what the passes produced
so far is kept, so that an editor can still use it.
-/

namespace WordMachine.Editor

open Assembly

/-- What is known about a document. -/
structure Analysis where
  uri : Text
  program : Program
  labels : NameTable
  problems : List Problem
  /-- The code, if there are no problems. -/
  code : Option (Array Word)

namespace Analysis

/-- The problem of a document that cannot be read to its end. -/
def unreadable (uri : Text) (fault : Fault) : Problem :=
  ⟨⟨uri, 1, 1⟩, .malformedSource, fault.message⟩

def ofText (uri text : Text) : Analysis :=
  match read uri text with
  | .error fault => ⟨uri, ⟨uri, []⟩, .empty, [unreadable uri fault], none⟩
  | .ok reading =>
    let program := reading.program
    let layout := program.layout
    match reading.problems ++ layout.problems with
    | first :: rest => ⟨uri, program, layout.labels, first :: rest, none⟩
    | [] =>
      let linkage := program.link layout.labels NativeAddress.standard
      match linkage.problems with
      | first :: rest => ⟨uri, program, layout.labels, first :: rest, none⟩
      | [] =>
        let emission := program.emit linkage.table
        match emission.problems with
        | first :: rest => ⟨uri, program, layout.labels, first :: rest, none⟩
        | [] => ⟨uri, program, layout.labels, [], some emission.code⟩

/-- The first item that declares a label. -/
def declaration? (a : Analysis) (name : Text) : Option Item :=
  a.program.items.find? fun it => it.label? == some name

/-- The operand of an item, if it is the given name. -/
def useIn? (name : Text) (it : Item) : Option Operand :=
  it.operand?.filter fun operand => operand.value == .name name

/-- The operands that are the given name, in source order. -/
def uses (a : Analysis) (name : Text) : List Operand :=
  a.program.items.filterMap (useIn? name)

def labelNames (a : Analysis) : List Text :=
  a.labels.sortedNames

end Analysis

end WordMachine.Editor
