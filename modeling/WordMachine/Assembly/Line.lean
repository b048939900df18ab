import WordMachine.Assembly.Problem
import WordMachine.StringLiteral
import WordMachine.Text.CharRanges
import WordMachine.Text.Letter

/-!
# Source lines

A line declares at most one label and holds at most one statement: a string, a
number or an instruction with an optional operand.  A semicolon or a hash sign
outside of a string starts a comment.

A line is read on its own: `readLine` yields its items and the problem that kept
it from being read to the end, if there is one.
-/

namespace WordMachine.Assembly

/-! ## Parts of a line -/

/-- A part of a line with its byte offset in the line. -/
structure Slice where
  text : Text
  offset : Nat
  deriving DecidableEq, Repr

namespace Slice

/-- The slice behind its first `n` bytes. -/
def drop (s : Slice) (n : Nat) : Slice :=
  ⟨s.text.drop n, s.offset + n⟩

def trimStart (s : Slice) : Slice :=
  s.drop (s.text.spanLength Text.isBlank)

/-- The number of bytes up to the next white space. -/
def tokenLength (s : Slice) : Nat :=
  s.text.spanLength fun c => !Text.isBlank c

/-- The first tokens of a slice, at most `count` of them.  A token is a run of
characters without white space. -/
def tokens (s : Slice) : (count : Nat) → List Slice
  | 0 => []
  | count + 1 =>
    let s := s.trimStart
    if s.text.isEmpty then []
    else
      let n := s.tokenLength
      ⟨s.text.take n, s.offset⟩ :: (s.drop n).tokens count

end Slice

/-- Walk to the end of the code on a line.  `quoted` tells whether the walk is
inside a string and `escaped` whether a backslash came before; `seen` counts the
bytes passed. -/
def codeLengthFrom : (quoted escaped : Bool) → Text → (seen : Nat) → Option Nat
  | quoted, _, [], seen => if quoted then none else some seen
  | quoted, true, _ :: rest, seen => codeLengthFrom quoted false rest (seen + 1)
  | quoted, false, b :: rest, seen =>
    if quoted && b == Text.backslash then
      codeLengthFrom quoted true rest (seen + 1)
    else if b = Text.quote then codeLengthFrom (!quoted) false rest (seen + 1)
    else if !quoted && (b == Text.semicolon || b == Text.hash) then some seen
    else codeLengthFrom quoted false rest (seen + 1)

/-- The number of bytes before the comment of a line, or `none` if a string is
left open. -/
def codeLength? (line : Text) : Option Nat :=
  codeLengthFrom false false line 0

/-- Whether a character can stand in an identifier behind its first one. -/
def isIdentifierChar (c : Char) : Bool :=
  c == '_' || Text.isLetter c || Text.isDecimalDigit c || c == '.'

def isIdentifierStart (c : Char) : Bool :=
  c == '_' || Text.isLetter c

def isIdentifier : Text → Bool
  | [] => false
  | b :: rest =>
    isIdentifierStart (Text.decodeFirst b rest).1 &&
      Text.allChars isIdentifierChar (b :: rest)

/-- The length of the label name at the front of a text, if a colon ends it. -/
def labelLength? (t : Text) : Option Nat :=
  let n := t.spanLength fun c => !(Text.isBlank c || c == ':' || c == '"')
  if n ≠ 0 && t[n]? == some Text.colon then some n else none

/-! ## Statements -/

structure Place where
  file : Text
  line : Nat

def Place.offset (p : Place) (offset : Nat) : Position :=
  ⟨p.file, p.line, offset + 1⟩

/-- The problem that the text at a byte offset is not what the language
wants. -/
def Place.malformed (p : Place) (offset : Nat) (detail : Text) : Problem :=
  ⟨p.offset offset, .malformedSource, detail⟩

def Place.numeral (p : Place) (token : Slice) : Except Problem Numeral :=
  match Numeral.read token.text with
  | .ok n => .ok n
  | .error e => .error (p.malformed token.offset e.message)

def Place.operand (p : Place) (token : Slice) : Except Problem Operand :=
  if Numeral.startsNumber token.text then
    (p.numeral token).map fun n => ⟨p.offset token.offset, .numeral n⟩
  else if isIdentifier token.text then
    .ok ⟨p.offset token.offset, .name token.text⟩
  else .error (p.malformed token.offset (Text.ofString "invalid operand " ++
    token.text.quoted))

/-- The problem of a token where the line should have ended. -/
def Place.unexpected (p : Place) (token : Slice) (after : String) : Problem :=
  p.malformed token.offset
    (Text.ofString "unexpected " ++ token.text.quoted ++ Text.ofString after)

/-- Read a string statement; white space may follow the literal. -/
def Place.string (p : Place) (s : Slice) : Except Problem Item :=
  let literal := s.text.trimEnd Text.isBlank
  match StringLiteral.encode literal with
  | .ok _ => .ok { pos := p.offset s.offset, form := .string literal }
  | .error fault => .error (p.malformed s.offset fault.message)

/-- Read a data statement from its token and those behind it. -/
def Place.data (p : Place) (token : Slice) : List Slice → Except Problem Item
  | [] =>
    (p.numeral token).map fun n =>
      { pos := p.offset token.offset, form := .data n }
  | extra :: _ => .error (p.unexpected extra " after data directive")

/-- Read an instruction from its token and those behind it. -/
def Place.instruction (p : Place) (token : Slice) (rest : List Slice) :
    Except Problem Item :=
  let item (operand : Option Operand) : Item :=
    { pos := p.offset token.offset, name := token.text,
      form := .instruction operand }
  if !isIdentifier token.text then .error (p.unexpected token "")
  else match rest with
    | [] => .ok (item none)
    | [operand] => (p.operand operand).map fun o => item (some o)
    | _ :: extra :: _ => .error (p.unexpected extra " after operand")

/-- Read a statement, which is not empty and has no white space in front. -/
def Place.statement (p : Place) (s : Slice) : Except Problem Item :=
  if s.text.head? = some Text.quote then p.string s
  else match s.tokens 3 with
    | [] => .error (p.malformed s.offset [])
    | token :: rest =>
      if Numeral.startsNumber token.text then p.data token rest
        else p.instruction token rest

/-! ## Lines -/

structure LineReading where
  items : List Item := []
  problem? : Option Problem := none
  deriving DecidableEq, Repr

/-- The reading of a statement behind the given items. -/
def LineReading.ofStatement (items : List Item) :
    Except Problem Item → LineReading
  | .ok item => ⟨items ++ [item], none⟩
  | .error problem => ⟨items, some problem⟩

/-- Read what follows the white space at the front of a line. -/
def Place.code (p : Place) (s : Slice) : LineReading :=
  if s.text.isEmpty then {}
  else match labelLength? s.text with
    | none => .ofStatement [] (p.statement s)
    | some n =>
      let name : Text := s.text.take n
      if isIdentifier name then
        let label : Item := { pos := p.offset s.offset, name, form := .label }
        let rest := (s.drop (n + 1)).trimStart
        if rest.text.isEmpty then ⟨[label], none⟩
        else .ofStatement [label] (p.statement rest)
      else
        ⟨[], some (p.malformed s.offset (Text.ofString "invalid label name " ++
          name.quoted))⟩

def readLine (p : Place) (line : Text) : LineReading :=
  match codeLength? line with
  | none =>
    ⟨[], some (p.malformed line.length (Text.ofString "unterminated string"))⟩
  | some n => p.code (Slice.trimStart ⟨line.take n, 0⟩)

end WordMachine.Assembly
