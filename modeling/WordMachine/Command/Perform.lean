import WordMachine.Assembly.Listing
import WordMachine.Command.Invocation
import WordMachine.Image.Basic
import WordMachine.Image.Codec
import WordMachine.Machine.Native
import WordMachine.Manifest.Load
import WordMachine.Report.Diagnostic
import WordMachine.Text.Utf8

/-!
# Commands

What the commands do.  A command ends well, or with trouble that was reported
already, or with an error that is still to be shown.  Of a program that breaks
off only the first line it leaves behind is shown, not the calls it was in.
-/

namespace WordMachine.Command

open Assembly

/-- Why a command did not end well. -/
inductive Trouble where
  /-- The user was told already. -/
  | reported
  | error (message : Text)
  /-- The program broke off. -/
  | brokenOff (message : Text)
  deriving DecidableEq, Repr

abbrev Work := ExceptT Trouble Shell

namespace Work

def request {β : Type} (r : Shell.Request β) : Work β :=
  ExceptT.lift (Shell.request r)

def fail {α : Type} (message : Text) : Work α :=
  throw (.error message)

/-- Go on with a result, or end with the wording of what went wrong. -/
def orFail {α ε : Type} (wording : ε → Text) : Except ε α → Work α
  | .ok a => pure a
  | .error e => fail (wording e)

/-- Show a report and end. -/
def report {α : Type} (text : Text) : Work α := do
  request (.complain (text ++ [Text.newline]))
  throw .reported

end Work

open Work

/-! ## Projects -/

/-- At this verbosity and below nothing is logged at all. -/
def silence : Int := -4

/-- From this verbosity on every instruction of a traced run is logged. -/
def tracing : Int := 2

/-- How much is logged. -/
def verbosityOf (options : Options) (m : Manifest) : Int :=
  if 0 ≤ options.verbosity then options.verbosity else m.verbosity.toInt

/-- Where the log goes, if it goes into a file. -/
def logPath? (options : Options) (m : Manifest) : Option Text :=
  if options.log.isEmpty then m.logPath? else some options.log

/-- Write to the log file, which is made if it is missing, or to the standard
error output. -/
def writeLog (options : Options) (m : Manifest) (text : Text) : Work Unit := do
  match logPath? options m with
  | none => request (.complain text)
  | some path =>
    match ← request (.append path text) with
    | .ok _ => return ()
    | .error fault => report (Text.ofString "log file error: " ++ fault.message)

/-- Start the log, unless nothing is logged. -/
def startLog (options : Options) (m : Manifest) : Work Unit := do
  if silence < verbosityOf options m then writeLog options m []

/-- A line of the log as it is shown at a verbosity. -/
def logText (verbosity : Int) : LogLine → Text
  | .info text =>
    if 1 ≤ verbosity then
      Text.ofString "INFO " ++ text ++ [Text.newline] else []
  | .debug text =>
    if tracing ≤ verbosity then
      Text.ofString "DEBUG " ++ text ++ [Text.newline] else []

/-- The manifest in force, with its log started. -/
def loadProject (options : Options) : Work Manifest := do
  let dir ← request .workingDir
  let found ← orFail Manifest.Error.message (← ExceptT.lift (Manifest.find dir))
  let m := found.getD (.default dir)
  startLog options m
  return m

/-- The first argument, or else the source file of the project. -/
def inputPath (m : Manifest) (arguments : Arguments) : Text :=
  arguments.rest.head?.getD m.entryPath

/-! ## Programs -/

/-- Assemble a file; problems in it are reported. -/
def assembleFile (options : Options) (path : Text) : Work Assembled := do
  let source ← orFail FileFault.message (← request (.read path))
  match assemble path source NativeAddress.standard with
  | .ok a => return a
  | .error failure =>
    report (Report.failureReport ⟨options.color⟩ (some source) failure)

def imageOf (path : Text) (a : Assembled) : Work Image := do
  let (id, time) ← request .stamp
  return .ofAssembled id (Path.base path) time a

/-- The wording of a refused operation on an image file. -/
def imageFault (fault : FileFault) : Text :=
  Text.ofString "image: " ++ fault.message

def readImage (path : Text) : Work Image := do
  let data ← orFail imageFault (← request (.read path))
  orFail (fun fault => path ++ Text.ofString ": " ++ fault.message)
    (Image.decode data)

/-- Load an image file, or assemble a file of any other extension. -/
def loadImage (options : Options) (path : Text) : Work Image := do
  if Text.isNamed Manifest.imageExtension (Path.extension path) then
    readImage path
  else imageOf path (← assembleFile options path)

/-! ## Commands -/

/-- Where the image of an assembled file goes. -/
def outputPath (m : Manifest) (arguments : Arguments) (path : Text) : Text :=
  let output := arguments.text "output"
  if !output.isEmpty then output
  else if arguments.rest.isEmpty then m.imagePath
  else Path.withoutExtension path ++ Manifest.imageExtension

def assembleCommand (options : Options) (arguments : Arguments) :
    Work Unit := do
  let m ← loadProject options
  let path := inputPath m arguments
  let a ← assembleFile options path
  let output := outputPath m arguments path
  let img ← imageOf path a
  orFail imageFault (← request (.write output img.encode))
  request <| .print <| path ++ Text.ofString ": " ++ Text.ofNat a.code.size
    ++ Text.ofString " words, " ++ Text.ofNat a.labels.size ++
      Text.ofString " labels -> "
    ++ output ++ [Text.newline]

/-- The settings of a run: those of the project, then those of the flags. -/
def runSettings (m : Manifest) (arguments : Arguments) : List Setting :=
  m.settings
    ++ ((arguments.integer? "steps").map fun n => Setting.steps n.toInt).toList
    ++ ((arguments.integer? "memory").map fun n =>
      Setting.memory n.toInt).toList
    ++ (if arguments.isOn "trace" then [.trace true] else [])

/-- A machine that only traces if the trace is logged. -/
def traceAt (verbosity : Int) (m : Machine) : Machine :=
  if tracing ≤ verbosity then m
    else { m with host := { m.host with tracing := false } }

/-- A machine with the given settings, unless they are refused or break off the
program. -/
def makeMachine (settings : List Setting) : Work Machine :=
  match Machine.new {} settings with
  | .ok machine => pure machine
  | .error fault =>
    if fault.cause.breaksOff then throw (.brokenOff fault.message)
      else fail fault.message

def runCommand (options : Options) (arguments : Arguments) : Work Unit := do
  let m ← loadProject options
  let verbosity := verbosityOf options m
  let img ← loadImage options (inputPath m arguments)
  let machine ← makeMachine (runSettings m arguments)
  let machine ← orFail Fault.message (machine.boot img)
  let (machine, stop) ← request (.run (traceAt verbosity machine))
  if 1 ≤ verbosity then
    writeLog options m (machine.host.log.toList.flatMap (logText verbosity))
  match stop with
  | .failed fault =>
    report (Report.runtimeReport ⟨options.color⟩ machine.memory fault)
  | .cancelled => fail (Fault.root .cancelled).message
  | _ => return ()

def listCommand (options : Options) (arguments : Arguments) : Work Unit := do
  let m ← loadProject options
  let img ← loadImage options (inputPath m arguments)
  request (.print (writeListing img.words img.labelTable {}).1.text)

/-- Assemble files one by one; whether all of them are free of problems. -/
def checkFiles (options : Options) : List Text → Work Bool
  | [] => return true
  | path :: rest => do
    let good ← try
        let _ ← assembleFile options path
        pure true
      catch
        | .reported => pure false
        | trouble => throw trouble
    return (← checkFiles options rest) && good

def checkCommand (options : Options) (arguments : Arguments) : Work Unit := do
  let m ← loadProject options
  let paths := if arguments.rest.isEmpty then [m.entryPath] else arguments.rest
  unless ← checkFiles options paths do throw .reported

def serveCommand (options : Options) : Work Unit := do
  let _ ← loadProject options
  request .serve

/-- The program a new project starts with. -/
def starter : Text :=
  Text.ofString <| "; Entry point. Run with: wvm run\n"
    ++ "        loads greeting\n        call printf\n        end\n\n"
    ++ "greeting:\n        \"hello, world\\n\"\n"

def firstVersion : Text := Text.ofString "0.1.0"

def createCommand (arguments : Arguments) : Work Unit := do
  let dir := arguments.rest.head?.getD Path.here
  orFail FileFault.message (← request (.makeDirectories dir))
  let dir := Path.absolute (← request .workingDir) dir
  if (← request (.lookUp (Manifest.fileIn dir))) = .present then
    fail (Manifest.fileName ++ Text.ofString " already exists in " ++ dir)
  let m := { Manifest.default dir with version := firstVersion }
  orFail Manifest.Error.message (← ExceptT.lift m.save)
  if (← request (.lookUp m.entryPath)) = .absent then
    orFail FileFault.message (← request (.write m.entryPath starter))
  request <| .print <|
    Text.ofString "created " ++ Manifest.fileName ++ Text.ofString " in " ++
      dir ++ [Text.newline]

def perform (options : Options) (verb : Verb)
    (arguments : Arguments) : Work Unit :=
  match verb with
  | .assemble => assembleCommand options arguments
  | .run => runCommand options arguments
  | .list => listCommand options arguments
  | .check => checkCommand options arguments
  | .serve => serveCommand options
  | .create => createCommand arguments

/-! ## The command line -/

def versionText : Text :=
  Text.ofString "wvm version 0.1.0\n"

def helpText : Text :=
  let line (verb : Verb) : String :=
    "   " ++ String.intercalate ", " verb.names ++ "\t" ++ verb.purpose ++ "\n"
  Text.ofString <| "wvm - assemble, run and inspect wordvm programs\n\nUSAGE:\n"
    ++ "   wvm [--no-color] [-v N] [--log FILE] command [flags] [arguments]\n\n"
    ++ "COMMANDS:\n"
    ++ String.join (Verb.all.map line)

def showError (message : Text) : Shell Unit :=
  Shell.request (.complain (Text.ofString "Error: " ++ message ++
    [Text.newline]))

/-- Do what the command line asks for.  The value is the exit status. -/
def execute (arguments : List Text) : Shell Nat := do
  match Invocation.ofArguments arguments with
  | .help => Shell.request (.print helpText); return 0
  | .version => Shell.request (.print versionText); return 0
  | .refused e =>
    Shell.request (.print (Text.ofString "Incorrect Usage. " ++ e.message ++
      Text.ofString "\n\n" ++ helpText))
    showError e.message
    return 1
  | .perform options verb arguments =>
    match ← (perform options verb arguments).run with
    | .ok _ => return 0
    | .error .reported => return 1
    | .error (.error message) => showError message; return 1
    | .error (.brokenOff message) =>
      Shell.request (.complain (Text.ofString "panic: " ++ message ++
        [Text.newline]))
      return 2

end WordMachine.Command
