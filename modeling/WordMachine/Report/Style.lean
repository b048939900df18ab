import WordMachine.Text.Basic

/-!
# Styles of terminal text

Reports for a terminal may be coloured.  Colours are escape sequences around a
text, written around an empty text too.
-/

namespace WordMachine.Report

/-- Whether a report uses colours. -/
structure Style where
  coloured : Bool
  deriving DecidableEq, Repr

namespace Style

def wrap (s : Style) (before after : String) (t : Text) : Text :=
  if s.coloured then Text.ofString before ++ t ++ Text.ofString after else t

/-- Blue text, for what frames a report. -/
def blue (s : Style) (t : Text) : Text :=
  s.wrap "\x1b[34m" "\x1b[0m" t

/-- Red text, for what is wrong. -/
def red (s : Style) (t : Text) : Text :=
  s.wrap "\x1b[31m" "\x1b[0m" t

/-- Bold red text, for headers. -/
def boldRed (s : Style) (t : Text) : Text :=
  s.wrap "\x1b[31;1m" "\x1b[0;22m" t

/-- The first line of a report. -/
def header (s : Style) (what : String) (classification : Text) : Text :=
  s.boldRed (Text.ofString what ++ Text.ofString ": " ++ classification)

end Style

end WordMachine.Report
