import WordMachine.Assembly.Assemble
import WordMachine.Image.Sha256
import WordMachine.Machine.Basic

/-!
# Program images

An image holds an assembled program together with the tables it was linked
against, so that it can be run and listed without its source.  A digest of the
code tells whether the code was damaged.  A machine that is started with an
image has the code in its memory and begins at the entry.
-/

namespace WordMachine

/-- An assembled program as it is stored.  A table or the code may be missing
altogether, which is kept apart from being empty. -/
structure Image where
  version : Nat
  id : Text
  name : Text
  code : Option (Array Word)
  labels : Option NameTable
  natives : Option NameTable
  /-- The address a run starts at. -/
  entry : Word
  /-- When the image was made, in seconds. -/
  created : Word
  /-- The digest of the code. -/
  digest : Text

namespace Image

/-- The version of the format that is written and understood. -/
def formatVersion : Nat := 1

/-- The label a program starts at, if it declares it. -/
def entryLabel : Text := Text.ofString "main"

/-- The little-endian bytes of a word. -/
def wordBytes (w : Word) : Text :=
  (List.range 8).map fun i => (w.bits / Nat.pow 256 i).toUInt8

def digestOf (code : Array Word) : Text :=
  Sha256.digest (code.toList.flatMap wordBytes)

/-- The name made of sixteen random bytes: hexadecimal digits in five groups,
with the marks of a random name in the seventh and the ninth byte. -/
def identity (bytes : Text) : Text :=
  let marked := bytes.mapIdx fun i b =>
    if i = 6 then b % 16 + 64 else if i = 8 then b % 64 + 128 else b
  let group (start count : Nat) : Text :=
    Text.hexBytes ((marked.drop start).take count)
  Text.join [Text.minus] [group 0 4, group 4 2, group 6 2,
    group 8 2, group 10 6]

/-- An empty table is stored as a missing one. -/
def nonEmpty? (t : NameTable) : Option NameTable :=
  if t.entries.isEmpty then none else some t

/-- The image of a program.  It starts at the entry label, or else at zero. -/
def new (id name : Text) (created : Word) (code : Array Word)
    (labels natives : NameTable) :
    Image where
  version := formatVersion
  id := id
  name := name
  code := some code
  labels := nonEmpty? labels
  natives := nonEmpty? natives
  entry := (labels.get? entryLabel).getD 0
  created := created
  digest := digestOf code

/-- The code as words; missing code is no words. -/
def words (img : Image) : Array Word :=
  img.code.getD #[]

/-- The labels; a missing table is an empty one. -/
def labelTable (img : Image) : NameTable :=
  img.labels.getD .empty

end Image

/-! ## From program to image to machine -/

def Image.ofAssembled (id name : Text) (created : Word)
    (a : Assembly.Assembled) : Image :=
  .new id name created a.code a.labels a.natives

/-- Load an image and set the program counter to its entry. -/
def Machine.boot (m : Machine) (img : Image) : Except Fault Machine := do
  let m ← m.load img.words
  return { m with pc := img.entry.toInt }

end WordMachine
