import WordMachine.Editor.Analysis
import WordMachine.Editor.Cursor

/-!
# What an editor can ask

Completions, explanations, declarations, uses, an outline and diagnostics, all
of them computed from an analysis and a word.
-/

namespace WordMachine.Editor

open Assembly

/-! ## Places -/

/-- Some bytes of one line of a document; line and columns count from zero. -/
structure Span where
  line : Nat
  start : Nat
  stop : Nat
  deriving DecidableEq, Repr

structure Location where
  uri : Text
  span : Span
  deriving DecidableEq, Repr

/-- Numbers of the protocol have 32 bits. -/
def wrap32 (n : Nat) : Nat :=
  n % Nat.pow 2 32

/-- The span of `length` bytes from a position on. -/
def spanAt (pos : Position) (length : Int) : Span :=
  let column := (pos.column - 1).toNat
  ⟨wrap32 (pos.line - 1).toNat, wrap32 column, wrap32 (column + length.toNat)⟩

/-- The location of a name at a position. -/
def Analysis.locate (a : Analysis) (pos : Position) (name : Text) : Location :=
  ⟨a.uri, spanAt pos name.length⟩

/-! ## Completions -/

/-- What a completion is the name of. -/
inductive CompletionKind where
  | mnemonic
  | label
  | native
  deriving DecidableEq, Repr

/-- A name that a word may be completed to. -/
structure Completion where
  label : Text
  kind : CompletionKind
  detail : Text
  deriving DecidableEq, Repr

/-- How many completions are offered at most. -/
def maxCompletions : Nat := 100

def mnemonicCompletions : List Completion :=
  Opcode.names.map fun name =>
    ⟨name, .mnemonic, Text.ofString (((Opcode.ofName? name).map fun op =>
      op.info.doc).getD "")⟩

def labelCompletions (a : Analysis) : List Completion :=
  a.labelNames.map fun name =>
    ⟨name, .label,
      Text.ofString "label @ " ++ ((a.labels.get? name).getD 0).toText⟩

def nativeCompletions : List Completion :=
  NativeAddress.standard.sortedNames.map fun name =>
    ⟨name, .native, Text.ofString "native function"⟩

/-- The completions of the beginning of a word: mnemonics first, then labels,
then native functions. -/
def completions (a : Option Analysis) (start : Text) : List Completion :=
  let all := mnemonicCompletions ++ (a.map labelCompletions).getD [] ++
    nativeCompletions
  (all.filter fun c => start.isPrefixOf c.label).take maxCompletions

/-! ## Explanations -/

def bold (name : Text) : Text :=
  Text.ofString "**" ++ name ++ Text.ofString "**"

def explainOpcode (op : Opcode) : Text :=
  let form := if op.width = 2 then " <operand>`: 2 words" else "`: 1 word"
  bold op.name ++ Text.ofString " (opcode " ++ op.code.toText ++
    Text.ofString ")\n\n"
    ++ Text.ofString op.info.doc ++ Text.ofString "\n\n`" ++ op.name ++
      Text.ofString form
    ++ Text.ofString ", pops " ++ Text.ofNat op.info.pops
    ++ Text.ofString ", pushes " ++ Text.ofNat op.info.pushes

def explainLabel (a : Analysis) (name : Text) (address : Word) : Text :=
  let count := (a.uses name).length
  bold name ++ Text.ofString ": label at address " ++ address.toText
    ++ if 0 < count then
        Text.ofString "\n\n" ++ Text.ofNat count ++ Text.ofString " references"
      else []

def explainNative (name : Text) (address : Word) : Text :=
  bold name ++ Text.ofString ": native function at 0x" ++
    Text.ofNatHex address.bits

/-- What is said about a word: as a mnemonic, else as a label, else as a native
function. -/
def explanation (a : Option Analysis) (word : Text) : Option Text :=
  match Opcode.ofName? word with
  | some op => some (explainOpcode op)
  | none =>
    match a.bind fun a => (a.labels.get? word).map (explainLabel a word) with
    | some text => some text
    | none => (NativeAddress.standard.get? word).map (explainNative word)

/-! ## Navigation -/

def Analysis.declarations (a : Analysis) (name : Text) : List Location :=
  (a.declaration? name).toList.map fun it => a.locate it.pos it.name

def Analysis.useLocations (a : Analysis) (name : Text) : List Location :=
  (a.uses name).map fun operand => a.locate operand.pos name

/-- Where a word is declared. -/
def definition (a : Option Analysis) (word : Text) : List Location :=
  (a.map (·.declarations word)).getD []

/-- Where a word is used; the declaration comes first if it is wanted. -/
def references (a : Option Analysis) (word : Text) (withDeclaration : Bool) :
    List Location :=
  match a with
  | none => []
  | some a =>
    (if withDeclaration then a.declarations word else []) ++ a.useLocations word

/-- An entry of the outline of a document. -/
structure Symbol where
  name : Text
  detail : Text
  span : Span
  deriving DecidableEq, Repr

def symbolOf? (a : Analysis) (it : Item) : Option Symbol :=
  it.label?.map fun name =>
    ⟨name, Text.ofString "@ " ++ ((a.labels.get? name).getD 0).toText,
      spanAt it.pos name.length⟩

/-- The outline of a document: its labels in source order. -/
def symbols (a : Option Analysis) : List Symbol :=
  (a.map fun a => a.program.items.filterMap (symbolOf? a)).getD []

/-! ## Diagnostics -/

/-- A message about a span of a document. -/
structure Diagnostic where
  span : Span
  message : Text
  deriving DecidableEq, Repr

/-- How many bytes of a document a problem is about: the token that it points
at. -/
def extent (lines : List Text) (pos : Position) : Int :=
  if pos.line < 1 then 0
  else match lines[(pos.line - 1).toNat]? with
    | some line => tokenEnd line (pos.column - 1).toNat - (pos.column - 1)
    | none => 0

/-- The diagnostics of a document, one for each problem. -/
def diagnostics (a : Analysis) (text : Text) : List Diagnostic :=
  let lines := text.lines
  a.problems.map fun p => ⟨spanAt p.pos (extent lines p.pos), p.summary⟩

end WordMachine.Editor
