import WordMachine.Command.Flag

/-!
# Invocations

The command line names a command with flags and arguments of its own; flags that
concern all commands come before it.
-/

namespace WordMachine.Command

/-- What can be done. -/
inductive Verb where
  | assemble
  | run
  | list
  | check
  | serve
  | create
  deriving DecidableEq, Repr

namespace Verb

/-- All commands in the order in which they are explained. -/
def all : List Verb :=
  [.assemble, .run, .list, .check, .serve, .create]

def names : Verb → List String
  | .assemble => ["asm", "a"]
  | .run => ["run", "r"]
  | .list => ["disasm", "d"]
  | .check => ["check", "c"]
  | .serve => ["lsp"]
  | .create => ["init"]

def purpose : Verb → String
  | .assemble => "Assemble a source file into an image"
  | .run => "Assemble or load a program and run it"
  | .list => "Print a listing of a program"
  | .check => "Assemble without writing anything and report errors"
  | .serve => "Start the assembly language server on stdio"
  | .create => "Create a wordvm.toml and a starter program"

def helpFlag : Flag :=
  ⟨["help", "h"], .switch⟩

def flags : Verb → List Flag
  | .assemble => [⟨["o", "output"], .text⟩]
  | .run =>
    [⟨["steps"], .integer⟩, ⟨["memory"], .integer⟩, ⟨["trace"], .switch⟩]
  | _ => []

def find? (name : Text) : Option Verb :=
  all.find? fun verb => verb.names.any fun n => Text.ofString n == name

end Verb

/-- The flags that concern all commands. -/
def globalFlags : List Flag :=
  [⟨["no-color"], .switch⟩, ⟨["v", "verbose"], .integer⟩, ⟨["log"], .text⟩,
    ⟨["version"], .switch⟩, Verb.helpFlag]

/-- What was given for all commands. -/
structure Options where
  color : Bool := true
  /-- How much is logged; below zero the manifest decides. -/
  verbosity : Int := -1
  /-- Where the log goes; if empty the manifest decides. -/
  log : Text := []
  deriving DecidableEq, Repr

/-- What the command line asks for. -/
inductive Invocation where
  | help
  | version
  | refused (error : UsageError)
  | perform (options : Options) (verb : Verb) (arguments : Arguments)
  deriving DecidableEq, Repr

namespace Invocation

def ofCommand (options : Options) (verb : Verb)
    (arguments : List Text) : Invocation :=
  let flags := verb.flags ++ [Verb.helpFlag]
  match readArguments flags (reorder flags arguments) with
  | .error e => .refused e
  | .ok read => if read.isOn "help" then .help else .perform options verb read

def ofArguments (arguments : List Text) : Invocation :=
  match readArguments globalFlags arguments with
  | .error e => .refused e
  | .ok read =>
    if read.isOn "help" then .help
    else if read.isOn "version" then .version
    else
      let options : Options :=
        ⟨!read.isOn "no-color", ((read.integer? "v").map Int64.toInt).getD (-1),
          read.text "log"⟩
      match read.rest with
      | [] => .help
      | name :: rest =>
        match Verb.find? name with
        | none => .help
        | some verb => ofCommand options verb rest

end Invocation

end WordMachine.Command
