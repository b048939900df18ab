import WordMachine.Text.Basic

/-!
# File paths

A path names a file by the directories to go through, separated by slashes.  Two
spellings of a path that differ only in doubled slashes, in `.` and in names
followed by `..` have the same clean form.
-/

namespace WordMachine

/-- A path in clean form.  Without a root, leading parts may be `..`. -/
structure Path where
  /-- Whether the path starts at the root directory. -/
  rooted : Bool
  parts : List Text
  deriving DecidableEq, Repr

namespace Path

/-- The name of a directory inside itself. -/
def here : Text := [Text.dot]

/-- The name of the parent directory inside a directory. -/
def above : Text := [Text.dot, Text.dot]

/-- The clean form of parts that follow those of `done`, which is held in
reverse. -/
def cleanFrom (rooted : Bool) : List Text → List Text → List Text
  | [], done => done.reverse
  | part :: rest, done =>
    if part = [] ∨ part = here then cleanFrom rooted rest done
    else if part = above then
      match done with
      | [] => cleanFrom rooted rest (if rooted then [] else [above])
      | last :: before =>
        cleanFrom rooted rest (if last = above then above :: done else before)
    else cleanFrom rooted rest (part :: done)

/-- Whether a path starts at the root directory. -/
def isRooted (t : Text) : Bool :=
  t.head? == some Text.slash

def ofText (t : Text) : Path :=
  ⟨isRooted t, cleanFrom (isRooted t) (t.split Text.slash) []⟩

/-- The shortest spelling of a path. -/
def toText (p : Path) : Text :=
  if p.rooted then Text.slash :: Text.join [Text.slash] p.parts
  else if p.parts.isEmpty then here
  else Text.join [Text.slash] p.parts

/-- The shortest spelling of the path that `t` spells. -/
def clean (t : Text) : Text :=
  (ofText t).toText

/-- A path inside a directory, in clean form; an empty path adds nothing. -/
def join (dir t : Text) : Text :=
  if dir.isEmpty then if t.isEmpty then [] else clean t
  else if t.isEmpty then clean dir
  else clean (dir ++ Text.slash :: t)

/-- A path made independent of the working directory. -/
def absolute (workingDir t : Text) : Text :=
  if isRooted t then clean t else join workingDir t

/-- What stands behind the last slash. -/
def lastPart (t : Text) : Text :=
  (t.reverse.takeWhile (· != Text.slash)).reverse

/-- The last name of a path, slashes at the end aside. -/
def base (t : Text) : Text :=
  if t.isEmpty then here
  else
    let trimmed := t.dropTrailing Text.slash
    if trimmed.isEmpty then [Text.slash] else lastPart trimmed

/-- The last dot of the last name and what follows it, if there is a dot. -/
def extension (t : Text) : Text :=
  let name := lastPart t
  let behindDot := (name.reverse.takeWhile (· != Text.dot)).reverse
  if behindDot.length < name.length then Text.dot :: behindDot else []

def withoutExtension (t : Text) : Text :=
  t.take (t.length - (extension t).length)

end Path

end WordMachine
