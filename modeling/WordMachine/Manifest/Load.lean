import WordMachine.Manifest.Codec
import WordMachine.Shell.Basic

/-!
# Manifest files

The manifest in force is that of the nearest directory that has one, going up
from where one stands.
-/

namespace WordMachine.Manifest

/-- Why a manifest could not be loaded or saved. -/
inductive Error where
  | unreadable (path : Text) (fault : FileFault)
  | malformed (path : Text)
  | unknownKey (path : Text) (key : Toml.Key)
  | negativeSize (key : String)
  | unwritable (path : Text) (fault : FileFault)
  deriving DecidableEq, Repr

def Error.message : Error → Text
  | .unreadable path fault =>
    Text.ofString "cannot read " ++ path ++ Text.ofString ": " ++ fault.message
  | .malformed path => Text.ofString "parse error in " ++ path
  | .unknownKey path key =>
    path ++ Text.ofString ": unknown key " ++ Toml.keyText key
  | .negativeSize key =>
    fileName ++ Text.ofString ": " ++ Text.ofString key ++
      Text.ofString " must not be negative"
  | .unwritable path fault =>
    Text.ofString "cannot write " ++ path ++ Text.ofString ": " ++ fault.message

def fileIn (dir : Text) : Text :=
  Path.join dir fileName

/-- What a manifest file of the given content, found at `path`, makes of the
project in `dir`. -/
def ofContent (dir path content : Text) : Except Error Manifest :=
  match decode content with
  | .error .malformed => .error (.malformed path)
  | .error (.unknownKey key) => .error (.unknownKey path key)
  | .ok m =>
    match m.negativeSize? with
    | some key => .error (.negativeSize key)
    | none => .ok { m with dir := dir }.withDefaults

def load (dir : Text) : Shell (Except Error Manifest) := do
  let path := fileIn dir
  match ← Shell.request (.read path) with
  | .error fault => return .error (.unreadable path fault)
  | .ok content =>
    return ofContent (Path.absolute (← Shell.request .workingDir) dir) path
      content

/-- The directory with the given names, which are held in reverse, if it has a
manifest file. -/
def holding (names : List Text) : Shell (Option Text) := do
  let dir := (⟨true, names.reverse⟩ : Path).toText
  match ← Shell.request (.lookUp (fileIn dir)) with
  | .present => return some dir
  | _ => return none

/-- The nearest directory with a manifest file, going up from the directory with
the given names, which are held in reverse. -/
def nearest : List Text → Shell (Option Text)
  | [] => holding []
  | name :: up => do
    match ← holding (name :: up) with
    | some dir => return some dir
    | none => nearest up

/-- Load the manifest in force in a directory, if there is one. -/
def find (dir : Text) : Shell (Except Error (Option Manifest)) := do
  let start := Path.ofText (Path.absolute (← Shell.request .workingDir) dir)
  match ← nearest start.parts.reverse with
  | none => return .ok none
  | some dir => return (← load dir).map some

def save (m : Manifest) : Shell (Except Error Unit) := do
  let path := fileIn m.dir
  match ← Shell.request (.write path m.encode) with
  | .error fault => return .error (.unwritable path fault)
  | .ok _ => return .ok ()

end WordMachine.Manifest
