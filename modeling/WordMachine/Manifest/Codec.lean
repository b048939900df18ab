import WordMachine.Manifest.Field
import WordMachine.Toml.Reader

/-!
# Reading and writing manifests

A manifest file that mentions a key of no use is refused, and the first such key
is named: one that nobody knows, or whose value was replaced later on.
-/

namespace WordMachine.Manifest

/-! ## Writing -/

def valueText : Toml → Text
  | .string t => Toml.quoted t
  | .integer w => w.toText
  | .boolean b => Text.ofString (if b then "true" else "false")
  | _ => []

def fieldLine (m : Manifest) (f : Field) : Text :=
  Text.ofString "  " ++ f.key ++ Text.ofString " = " ++ valueText (m.get f) ++
    [Text.newline]

def sectionText (m : Manifest) (s : Section) : Text :=
  Text.ofString "[" ++ s.name ++ Text.ofString "]\n" ++
    s.fields.flatMap m.fieldLine

/-- The text of a manifest file, with an empty line between tables. -/
def encode (m : Manifest) : Text :=
  Text.join [Text.newline] (Section.all.map m.sectionText)

/-! ## Reading -/

/-- Set the fields of a table; unknown keys are passed over. -/
def setEntries (s : Section) : Toml.Table → Manifest → Option Manifest
  | [], m => some m
  | (key, value) :: rest, m =>
    match field? s key with
    | none => setEntries s rest m
    | some f =>
      match m.set f value with
      | some m => setEntries s rest m
      | none => none

/-- Set the fields of all tables; unknown names are passed over. -/
def setTables : Toml.Table → Manifest → Option Manifest
  | [], m => some m
  | (name, value) :: rest, m =>
    match section? name, value with
    | none, _ => setTables rest m
    | some s, .table entries =>
      match setEntries s entries m with
      | some m => setTables rest m
      | none => none
    | some _, _ => none

/-- Whether a key leads to a table or a field of a manifest. -/
def isUsed (root : Toml.Table) (key : Toml.Key) : Bool :=
  (Toml.valueAt? key root).isSome &&
    match key with
    | [name] => (section? name).isSome
    | [name, key] => (section? name).any fun s => (field? s key).isSome
    | _ => false

/-- Why the content of a manifest file was refused. -/
inductive Refusal where
  | malformed
  | unknownKey (key : Toml.Key)
  deriving DecidableEq, Repr

/-- Read the content of a manifest file.  A value of the wrong type counts
before a key of no use. -/
def decode (t : Text) : Except Refusal Manifest :=
  match Toml.read? t with
  | none => .error .malformed
  | some document =>
    match setTables document.root {} with
    | none => .error .malformed
    | some m =>
      match document.mentioned.reverse.find? fun key =>
        !isUsed document.root key with
      | some key => .error (.unknownKey key)
      | none => .ok m

end WordMachine.Manifest
