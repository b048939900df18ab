import WordMachine.Manifest.Basic
import WordMachine.Text.Utf8
import WordMachine.Toml.Basic

/-!
# Manifests as TOML documents

Each field of a manifest has a key in one of five tables.  Keys are matched
without regard to case.
-/

namespace WordMachine.Manifest

/-- The tables of a manifest file. -/
inductive Section where
  | project
  | source
  | machine
  | image
  | log
  deriving DecidableEq, Repr

/-- The fields of a manifest file. -/
inductive Field where
  | name
  | version
  | entry
  | memory
  | stepLimit
  | stack
  | callDepth
  | trace
  | output
  | verbosity
  | logFile
  deriving DecidableEq, Repr

namespace Section

/-- All tables in the order in which they are written. -/
def all : List Section :=
  [.project, .source, .machine, .image, .log]

def name : Section → Text
  | .project => Text.ofString "project"
  | .source => Text.ofString "source"
  | .machine => Text.ofString "vm"
  | .image => Text.ofString "image"
  | .log => Text.ofString "log"

/-- The fields of a table in the order in which they are written. -/
def fields : Section → List Field
  | .project => [.name, .version]
  | .source => [.entry]
  | .machine => [.memory, .stepLimit, .stack, .callDepth, .trace]
  | .image => [.output]
  | .log => [.verbosity, .logFile]

end Section

def Field.key : Field → Text
  | .name => Text.ofString "name"
  | .version => Text.ofString "version"
  | .entry => Text.ofString "entry"
  | .memory => Text.ofString "memory"
  | .stepLimit => Text.ofString "step-limit"
  | .stack => Text.ofString "stack"
  | .callDepth => Text.ofString "call-depth"
  | .trace => Text.ofString "trace"
  | .output => Text.ofString "output"
  | .verbosity => Text.ofString "verbosity"
  | .logFile => Text.ofString "file"

def section? (name : Text) : Option Section :=
  Section.all.find? fun s => Text.isNamed s.name name

def field? (s : Section) (key : Text) : Option Field :=
  s.fields.find? fun f => Text.isNamed f.key key

def get (m : Manifest) : Field → Toml
  | .name => .string m.name
  | .version => .string m.version
  | .entry => .string m.entry
  | .memory => .integer m.memory
  | .stepLimit => .integer m.stepLimit
  | .stack => .integer m.stack
  | .callDepth => .integer m.callDepth
  | .trace => .boolean m.trace
  | .output => .string m.output
  | .verbosity => .integer m.verbosity
  | .logFile => .string m.logFile

/-- Set a field; a value of the wrong type is refused. -/
def set (m : Manifest) (f : Field) (value : Toml) : Option Manifest :=
  match f, value with
  | .name, .string t => some { m with name := t }
  | .version, .string t => some { m with version := t }
  | .entry, .string t => some { m with entry := t }
  | .memory, .integer w => some { m with memory := w }
  | .stepLimit, .integer w => some { m with stepLimit := w }
  | .stack, .integer w => some { m with stack := w }
  | .callDepth, .integer w => some { m with callDepth := w }
  | .trace, .boolean b => some { m with trace := b }
  | .output, .string t => some { m with output := t }
  | .verbosity, .integer w => some { m with verbosity := w }
  | .logFile, .string t => some { m with logFile := t }
  | _, _ => none

end WordMachine.Manifest
