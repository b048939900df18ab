import WordMachine.Assembly.Listing
import WordMachine.Assembly.Problem
import WordMachine.Machine.Step
import WordMachine.Report.Style
import WordMachine.Text.CharRanges

/-!
# Reports

A problem is shown with the line of source it is about and a row of carets under
the token it points at:

    error: undefined label
      --> prog.asm:1:6
       |
     1 | jump nowhere
       |      ^^^^^^^ nowhere

A runtime failure is shown with the instruction it arose in, if that is in
memory, and with its details, if it has any.
-/

namespace WordMachine.Report

open Assembly

/-- A source line split around the token a problem points at. -/
structure Highlight where
  before : Text
  focus : Text
  after : Text
  deriving DecidableEq, Repr

/-- The number of bytes up to the quote that closes a string, whose first byte
is passed already; `seen` counts the bytes passed. -/
def closingQuoteFrom : (escaped : Bool) → Text → (seen : Nat) → Option Nat
  | _, [], _ => none
  | true, _ :: rest, seen => closingQuoteFrom false rest (seen + 1)
  | false, b :: rest, seen =>
    if b = Text.backslash then closingQuoteFrom true rest (seen + 1)
    else if b = Text.quote then some (seen + 1)
    else closingQuoteFrom false rest (seen + 1)

/-- The length of the token at the front of a text: a string with its quotes, or
everything up to white space. -/
def focusLength (t : Text) : Nat :=
  match t with
  | Text.quote :: rest => (closingQuoteFrom false rest 1).getD t.length
  | _ => (t.indexWhere? Text.isBlank).getD t.length

/-- Split a line at the token that begins at a byte offset. -/
def highlight (line : Text) (offset : Nat) : Highlight :=
  let rest := line.drop offset
  let n := focusLength rest
  ⟨line.take offset, rest.take n, rest.drop n⟩

/-- The rows that show a source line and point into it. -/
def excerpt (s : Style) (margin : Text) (p : Problem)
    (line : Text) : List Text :=
  let line := Text.dropTrailing Text.carriageReturn line
  let h := highlight line (p.pos.column - 1).toNat
  let carets := List.replicate (max h.focus.chars.length 1) 94
  let indent := List.replicate h.before.chars.length Text.space
  [s.blue (Text.space :: margin ++ Text.ofString " |"),
    Text.space :: s.blue (Text.ofInt p.pos.line) ++ Text.space ::
      s.blue (Text.ofString "|")
      ++ Text.space :: h.before ++ s.red h.focus ++ h.after,
    Text.dropTrailing Text.space (Text.space :: margin ++ Text.space ::
      s.blue (Text.ofString "|")
      ++ Text.space :: indent ++ s.red carets ++ Text.space :: s.red p.detail)]

/-- The report on one problem.  If its line is not among the given ones, only
the detail follows the position. -/
def problemReport (s : Style) (lines : List Text) (p : Problem) : Text :=
  let margin := List.replicate (Text.ofInt p.pos.line).length Text.space
  let top :=
    [s.header "error" p.cause.message,
      Text.space :: margin ++ s.blue (Text.ofString "-->") ++
        Text.space :: p.pos.text]
  let rows :=
    match if 1 ≤ p.pos.line then lines[(p.pos.line - 1).toNat]? else none with
    | some line => excerpt s margin p line
    | none =>
      if p.detail.isEmpty then []
      else [Text.space :: margin ++ Text.space :: s.blue (Text.ofString "=")
        ++ Text.space :: p.detail]
  Text.join [Text.newline] (top ++ rows)

/-- The report on a failed assembly; the source may be missing. -/
def failureReport (s : Style) (source : Option Text) : Failure → Text
  | .problems found =>
    let lines := (source.map Text.lines).getD []
    Text.join [Text.newline, Text.newline] (found.map (problemReport s lines))
  | .unreadable fault => s.header "error" fault.message

/-! ## Reports on running programs -/

/-- The report on a runtime failure in the given memory. -/
def runtimeReport (s : Style) (memory : Array Word) (e : RuntimeFault) : Text :=
  let top :=
    [s.header "runtime error" e.fault.cause.message,
      Text.ofString "  " ++ s.blue (Text.ofString "-->") ++
        Text.ofString " address " ++ Text.ofInt e.pc]
  let instruction :=
    if 0 ≤ e.pc ∧ e.pc < memory.size then
      [s.blue (Text.ofString "   |"),
        Text.space :: s.blue (Text.ofString "  |") ++ Text.space ::
          s.red (instructionAt memory e.pc.toNat).1]
    else []
  let details :=
    if e.fault.isElaborate then
      [Text.ofString "   " ++ s.blue (Text.ofString "=") ++ Text.space ::
        e.fault.message]
    else []
  Text.join [Text.newline] (top ++ instruction ++ details)

end WordMachine.Report
