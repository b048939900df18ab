import WordMachine.Machine.Native
import WordMachine.Opcode
import WordMachine.Output.StickyWriter

/-!
# Listings

A listing shows words as instructions, one on a line, each with its address.
Labels stand on lines of their own before the address they name, and an operand
that is an address carries the first of its labels as a comment.
-/

namespace WordMachine.Assembly

/-- A word list read as one instruction: its text and the number of words it
takes.  A word that is no opcode is shown as data, and an immediate missing at
the end by question marks. -/
def instructionAt (code : Array Word) (address : Nat) : Text × Nat :=
  match code[address]? with
  | none => ([], 1)
  | some w =>
    match Opcode.ofWord? w with
    | none => (Text.ofString ".word " ++ w.toText, 1)
    | some op =>
      if op.info.immediate then
        match code[address + 1]? with
        | none => (op.name ++ Text.ofString " ???", 1)
        | some immediate =>
          let operand :=
            match if op = .call then NativeAddress.name? immediate
              else none with
            | some name => name
            | none => immediate.toText
          (op.name ++ Text.space :: operand, 2)
      else (op.name, 1)

theorem instructionAt_width_pos (code : Array Word) (address : Nat) :
    0 < (instructionAt code address).2 := by
  unfold instructionAt
  repeat' split
  all_goals simp

/-- The outcome of writing one instruction: the address of the next one, the
sink afterwards and a failure. -/
structure Disassembled where
  next : Int
  sink : Sink
  fault : Option Fault

/-- Write the instruction at an address to a sink. -/
def disassemble (code : Array Word) (address : Int) (sink : Sink) :
    Disassembled :=
  if 0 ≤ address ∧ address < code.size then
    let (text, width) := instructionAt code address.toNat
    let result := StickyWriter.write ⟨sink, none⟩ text
    ⟨address + width, result.target.sink, result.fault⟩
  else
    ⟨address, sink,
      some (.within (Text.ofString "asm: disassemble")
        (.detailed (.root .addressOutOfBounds) (Text.ofInt address)))⟩

structure ListingLine where
  address : Nat
  /-- The number of words shown. -/
  width : Nat
  /-- The labels of the address. -/
  labels : List Text
  instruction : Text
  /-- A label of the address the instruction refers to. -/
  target : Option Text

/-- Write a listing line behind the labels of its address. -/
def ListingLine.write (l : ListingLine) (w : StickyWriter) : StickyWriter :=
  let w := l.labels.foldl (fun w name =>
    w.append (name ++ [Text.colon, Text.newline])) w
  let w := w.append (Text.padLeft 6 Text.space (Text.ofNat l.address) ++
    Text.ofString "  ")
  let w := w.append l.instruction
  let w := match l.target with
    | some name => w.append (Text.ofString "  ; " ++ name)
    | none => w
  w.append [Text.newline]

/-- The labels of an address in alphabetical order. -/
def labelsAt (labels : NameTable) (address : Word) : List Text :=
  Text.sorted ((labels.entries.filter fun entry =>
    entry.2 == address).map Prod.fst)

/-- A label of the address in the immediate word of the instruction at
`address`. -/
def targetAt (code : Array Word) (labels : NameTable) (address : Nat) :
    Option Text :=
  match code[address]?.bind Opcode.ofWord? with
  | some op =>
    if op.info.immediate && op.hasAddress then
      (code[address + 1]?).bind fun immediate =>
        (labelsAt labels immediate).head?
    else none
  | none => none

def listingLine (code : Array Word) (labels : NameTable) (address : Nat) :
    ListingLine :=
  let (text, width) := instructionAt code address
  ⟨address, width, labelsAt labels (Int64.ofNat address), text,
    targetAt code labels address⟩

/-- The lines of a listing from `address` on, behind `done`, which is held in
reverse. -/
def listingFrom (code : Array Word) (labels : NameTable) (address : Nat)
    (done : List ListingLine) : List ListingLine :=
  if address < code.size then
    let line := listingLine code labels address
    listingFrom code labels (address + line.width) (line :: done)
  else done.reverse
termination_by code.size - address
decreasing_by
  have := instructionAt_width_pos code address
  simp only [listingLine]
  omega

def listing (code : Array Word) (labels : NameTable) : List ListingLine :=
  listingFrom code labels 0 []

/-- Write lines up to the first one that fails. -/
def writeLines : List ListingLine → StickyWriter → StickyWriter
  | [], w => w
  | line :: rest, w =>
    let w := line.write w
    if w.fault.isSome then w else writeLines rest w

def writeListing (code : Array Word) (labels : NameTable) (sink : Sink) :
    Sink × Option Fault :=
  let writer := writeLines (listing code labels) ⟨sink, none⟩
  (writer.sink, writer.fault)

end WordMachine.Assembly
