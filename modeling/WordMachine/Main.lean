import WordMachine.Command.Perform
import WordMachine.Editor.Rpc
import WordMachine.Machine.Printf
import Std.Time.DateTime.Timestamp

/-!
# The program

Answers the requests of commands from the computer the program runs on.  All
decisions are made elsewhere; here files are read and written, and bytes go to
the standard streams.
-/

namespace WordMachine.Console

/-- A path as the operating system takes it. -/
def pathString (path : Text) : String :=
  (String.fromUTF8? ⟨path.toArray⟩).getD ""

/-- The reason of a refused operation. -/
def reasonOf : IO.Error → Text
  | .noFileOrDirectory .. => FileReason.notFound.message
  | .inappropriateType _ code _ =>
    if code = 20 then FileReason.notDirectory.message
      else FileReason.isDirectory.message
  | .permissionDenied .. => Text.ofString "permission denied"
  | .alreadyExists .. => Text.ofString "file exists"
  | e => Text.ofString (toString e)

/-- Do a file operation; a refusal becomes a value. -/
def attempt {α : Type} (operation : String) (path : Text) (action : IO α) :
    IO (Except FileFault α) := do
  try
    return .ok (← action)
  catch e =>
    return .error ⟨Text.ofString operation, path, reasonOf e⟩

def send (stream : IO.FS.Stream) (bytes : Array UInt8) : IO Unit := do
  stream.write ⟨bytes⟩
  stream.flush

/-- Read a file; opening and reading may both be refused. -/
def readFile (path : Text) : IO (Except FileFault Text) := do
  match ← attempt "open" path (IO.FS.Handle.mk (pathString path) .read) with
  | .error fault => return .error fault
  | .ok handle =>
    let content ← attempt "read" path handle.readBinToEnd
    return content.map fun bytes => bytes.data.toList

/-- Open a file for writing and write to it. -/
def writeFile (mode : IO.FS.Mode) (path content : Text) :
    IO (Except FileFault Unit) :=
  attempt "open" path do
    let handle ← IO.FS.Handle.mk (pathString path) mode
    handle.write ⟨content.toArray⟩
    handle.flush

/-- What is found under a path.  A file that may not be read is there all the
same, unless a directory on the way to it may not be searched. -/
def lookUp (path : Text) : IO Presence := do
  try
    let _ ← IO.FS.realPath (pathString path)
    return .present
  catch _ =>
    try
      let _ ← IO.FS.Handle.mk (pathString path) .read
      return .present
    catch
      | .noFileOrDirectory .. => return .absent
      | _ => return .unreachable

/-- A name made of random bytes, and the time. -/
def stamp : IO (Text × Word) := do
  let bytes ← (List.range 16).mapM fun _ => do return (← IO.rand 0 255).toUInt8
  let seconds := (← Std.Time.Timestamp.now).toSecondsSinceUnixEpoch
  return (Image.identity bytes, Int64.ofInt seconds.val)

/-- How many rounds a machine runs before its output is shown. -/
def stretch : Nat := 1000000

/-- Run a machine to its end, showing its output as it goes. -/
partial def runMachine (m : Machine) : IO (Machine × Stop) := do
  let (m, stop) := m.run .standard .never stretch
  send (← IO.getStdout) m.host.output.written
  let m := m.withOutput m.host.output.emptied
  match stop with
  | .unfinished => runMachine m
  | stop => return (m, stop)

/-- Read the header of a message; the value is the length of its content. -/
partial def readHeader (input : IO.FS.Stream) (length : Option Nat) :
    IO (Option Nat) := do
  let line ← input.getLine
  if line.isEmpty then return none
  else if line == "\r\n" || line == "\n" then return length
  else readHeader input ((Editor.lengthIn? (Text.ofString line)).or length)

/-- Read bytes until there are `count` of them, or no more. -/
partial def readBytes (input : IO.FS.Stream) (count : Nat) (done : ByteArray) :
    IO ByteArray := do
  if count ≤ done.size then return done
  let more ← input.read (count - done.size).toUSize
  if more.isEmpty then return done else readBytes input count (done ++ more)

partial def serve (input output : IO.FS.Stream)
    (session : Editor.Session) : IO Unit := do
  match ← readHeader input none with
  | none => return
  | some length =>
    let content ← readBytes input length .empty
    let (session, outgoing) := session.exchangeText content.data.toList
    for text in outgoing do
      send output (Editor.framed text).toArray
    serve input output session

def answer : {β : Type} → Shell.Request β → IO β
  | _, .workingDir => do return Text.ofString (toString (← IO.currentDir))
  | _, .lookUp path => lookUp path
  | _, .read path => readFile path
  | _, .write path content => writeFile .write path content
  | _, .append path content => writeFile .append path content
  | _, .makeDirectories path =>
    attempt "mkdir" path (IO.FS.createDirAll (pathString path))
  | _, .print text => do send (← IO.getStdout) text.toArray
  | _, .complain text => do send (← IO.getStderr) text.toArray
  | _, .stamp => stamp
  | _, .run m => runMachine m
  | _, .serve => do serve (← IO.getStdin) (← IO.getStdout) {}

end WordMachine.Console

/-- Do what the command line asks for. -/
def main (arguments : List String) : IO UInt32 := do
  let command := WordMachine.Command.execute
    (arguments.map WordMachine.Text.ofString)
  return (← command.interpret WordMachine.Console.answer).toUInt32
