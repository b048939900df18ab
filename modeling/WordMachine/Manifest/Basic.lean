import WordMachine.Machine.Setting
import WordMachine.Path

/-!
# Project manifests

A manifest says of a project what it is called, where its source is, how large
the machine is that runs it, and where images and logs go.  Whatever it leaves
open has a default.
-/

namespace WordMachine

/-- The configuration of a project.  Zero and the empty text stand for values
left open. -/
structure Manifest where
  /-- The directory of the project. -/
  dir : Text := []
  name : Text := []
  version : Text := []
  /-- The source file. -/
  entry : Text := []
  memory : Word := 0
  stepLimit : Word := 0
  stack : Word := 0
  callDepth : Word := 0
  trace : Bool := false
  /-- The image file. -/
  output : Text := []
  verbosity : Word := 0
  logFile : Text := []
  deriving DecidableEq, Repr

namespace Manifest

def fileName : Text := Text.ofString "wordvm.toml"

def imageExtension : Text := Text.ofString ".wvmi"

/-- The source file of a project that names none. -/
def defaultEntry : Text := Text.ofString "main.asm"

/-- `t`, or `other` if `t` is empty. -/
def orText (t other : Text) : Text :=
  if t.isEmpty then other else t

/-- `w`, or `other` if `w` is zero. -/
def orSize (w : Word) (other : Nat) : Word :=
  if w = 0 then Int64.ofNat other else w

/-- Fill in what was left open: the name is that of the directory, and the image
is called like the source file. -/
def withDefaults (m : Manifest) : Manifest :=
  let entry := orText m.entry defaultEntry
  { m with
    name := orText m.name (Path.base m.dir)
    entry := entry
    memory := orSize m.memory Machine.defaultMemorySize
    stack := orSize m.stack ({} : Limits).stack
    callDepth := orSize m.callDepth ({} : Limits).calls
    output := orText m.output (Path.withoutExtension entry ++ imageExtension) }

/-- The manifest of a project that has no manifest file. -/
def default (dir : Text) : Manifest :=
  withDefaults { dir := dir }

/-- The sizes that must not be negative, with their keys, in the order in which
they are checked. -/
def sizes (m : Manifest) : List (String × Word) :=
  [("vm.memory", m.memory), ("vm.step-limit", m.stepLimit),
    ("vm.stack", m.stack), ("vm.call-depth", m.callDepth)]

/-- The key of the first size that is negative. -/
def negativeSize? (m : Manifest) : Option String :=
  (m.sizes.find? fun size => size.2 < 0).map Prod.fst

/-! ## Files -/

/-- A path that is relative to the project made independent of it. -/
def resolve (m : Manifest) (path : Text) : Text :=
  if Path.isRooted path then path else Path.join m.dir path

def entryPath (m : Manifest) : Text :=
  m.resolve m.entry

def imagePath (m : Manifest) : Text :=
  m.resolve m.output

/-- Where the log goes, if it goes into a file. -/
def logPath? (m : Manifest) : Option Text :=
  if m.logFile.isEmpty then none else some (m.resolve m.logFile)

/-! ## Machines -/

/-- A setting for a size that was not left open. -/
def sized (f : Int → Setting) (w : Word) : List Setting :=
  if 0 < w then [f w.toInt] else []

/-- The settings of a machine that runs the project. -/
def settings (m : Manifest) : List Setting :=
  [.steps m.stepLimit.toInt, .trace m.trace] ++ sized .memory m.memory ++
    sized .stack m.stack ++ sized .calls m.callDepth

end Manifest

end WordMachine
