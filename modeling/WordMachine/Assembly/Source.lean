import WordMachine.Assembly.Line

/-!
# Sources

A source is read line by line.  A problem on one line does not keep the others
from being read, up to the number of problems at which a pass gives up.  A line
may be long, but not longer than the reader's buffer.
-/

namespace WordMachine.Assembly

/-- A line of this many bytes is too long to be read. -/
def maxLineLength : Nat := 1048576

/-- The lines of a source as they stand.  Nothing follows a last newline. -/
def sourceLines (source : Text) : List Text :=
  let lines := source.lines
  if lines.getLast? = some [] then lines.dropLast else lines

/-- A line without the carriage return at its end. -/
def withoutReturn (line : Text) : Text :=
  if line.getLast? = some Text.carriageReturn then line.dropLast else line

/-- What a source yields. -/
structure Reading where
  program : Program
  problems : List Problem := []
  deriving DecidableEq, Repr

/-- Read the lines from number `line` on; `items` and `problems` hold what the
lines before yielded, in reverse.  The length of a line is noticed before the
number of problems. -/
def readLines (name : Text) :
    (lines : List Text) → (line : Nat) → List Item → List Problem →
      Except Fault Reading
  | [], _, items, problems => .ok ⟨⟨name, items.reverse⟩, problems.reverse⟩
  | text :: rest, line, items, problems =>
    if maxLineLength ≤ text.length then
      .error (.within (Text.ofString "asm: " ++ name) (.root .lineTooLong))
    else if isFull problems then .ok ⟨⟨name, items.reverse⟩, problems.reverse⟩
    else
      let reading := readLine ⟨name, line⟩ (withoutReturn text)
      readLines name rest (line + 1) (reading.items.reverse ++ items)
        (reading.problem?.toList ++ problems)

/-- Read a source; `name` is used in positions only. -/
def read (name source : Text) : Except Fault Reading :=
  readLines name (sourceLines source) 1 [] []

end WordMachine.Assembly
