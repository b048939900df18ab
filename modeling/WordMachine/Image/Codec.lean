import WordMachine.Cbor.Reader
import WordMachine.Cbor.Writer
import WordMachine.Fault
import WordMachine.Image.Basic
import WordMachine.Text.Quoted

/-!
# Image files

An image file begins with four letters and the version of the format, followed
by the image as a CBOR map with small integers as keys.  A key may also be the
text of such an integer.

The reader takes whatever can be understood: unknown keys are skipped, of a
repeated key the first one counts, tags are looked through, and a null leaves a
field as it was.
-/

namespace WordMachine.Image

/-! ## Writing -/

/-- The letters an image file begins with. -/
def magic : Text := Text.ofString "WVMI"

def littleEndian32 (n : Nat) : Text :=
  (List.range 4).map fun i => (n / Nat.pow 256 i).toUInt8

def wordItem (w : Word) : Cbor :=
  .ofInt w.toInt

def tableItem (t : NameTable) : Cbor :=
  .map (t.entries.map fun (name, address) => (.text [name], wordItem address))

/-- The entry for a table, which is left out if there are no names. -/
def tableEntry (key : Nat) : Option NameTable → List (Cbor × Cbor)
  | some t => if t.entries.isEmpty then [] else [(.unsigned key, tableItem t)]
  | none => []

def toCbor (img : Image) : Cbor :=
  .map <|
    [(.unsigned 1, .text [img.id]), (.unsigned 2, .text [img.name]),
      (.unsigned 3,
        match img.code with
        | some code => .array (code.toList.map wordItem)
        | none => .null)]
    ++ tableEntry 4 img.labels ++ tableEntry 5 img.natives
    ++ [(.unsigned 6, wordItem img.entry), (.unsigned 7, wordItem img.created),
      (.unsigned 8, .bytes [img.digest])]

def encode (img : Image) : Text :=
  magic ++ littleEndian32 formatVersion ++ img.toCbor.write

/-! ## Reading single values -/

/-- Whether the content of a tag is of the kind the tag calls for: text for a
date, a number for a time, bytes for a large integer. -/
def tagAllows (tag : Nat) (content : Cbor) : Bool :=
  match tag, content with
  | 0, .text _ => true
  | 0, _ => false
  | 1, .unsigned _ | 1, .negative _ | 1, .float _ _ => true
  | 1, _ => false
  | 2, .bytes _ | 3, .bytes _ => true
  | 2, _ | 3, _ => false
  | _, _ => true

/-- An item with its tags taken off, but for the one that makes bytes a large
integer. -/
def untagged : Cbor → Option Cbor
  | .tagged tag content =>
    if tagAllows tag content then
      if tag = 2 ∨ tag = 3 then some (.tagged tag content) else untagged content
    else none
  | item => some item

/-- Read an integer within bounds; `previous` is what a null leaves in place. -/
def readInt (low high previous : Int) (item : Cbor) : Option Int :=
  let bounded (n : Int) : Option Int :=
    if low ≤ n ∧ n ≤ high then some n else none
  match untagged item with
  | some (.unsigned n) => bounded n
  | some (.negative n) => bounded (-1 - n)
  | some (.tagged 2 (.bytes chunks)) =>
    bounded (Cbor.bigEndianValue chunks.flatten)
  | some (.tagged 3 (.bytes chunks)) =>
    bounded (-1 - Cbor.bigEndianValue chunks.flatten)
  | some (.simple n) =>
    if n = 22 ∨ n = 23 then some previous
    else if n = 20 ∨ n = 21 then none
    else bounded n
  | _ => none

def readWord (previous : Word) (item : Cbor) : Option Word :=
  (readInt (-0x8000000000000000) 0x7FFFFFFFFFFFFFFF previous.toInt item).map
    Int64.ofInt

/-- Read a text, each chunk of which is valid UTF-8; `previous` is what a null
leaves in place. -/
def readText (previous : Text) (item : Cbor) : Option Text :=
  match untagged item with
  | some (.text chunks) =>
    if chunks.all Text.isValid then some chunks.flatten else none
  | some item => if item.isNull then some previous else none
  | none => none

/-! ## Reading lists and tables -/

/-- Read words behind `done`, which is held in reverse. -/
def readWords : List Cbor → List Word → Option (List Word)
  | [], done => some done.reverse
  | item :: rest, done =>
    match readWord 0 item with
    | some w => readWords rest (w :: done)
    | none => none

/-- Read code; it stays missing under a null. -/
def readCode (item : Cbor) : Option (Option (Array Word)) :=
  match untagged item with
  | some (.array elements) =>
    (readWords elements []).map fun ws => some ws.toArray
  | some item => if item.isNull then some none else none
  | none => none

/-- Read the entries of a table behind those of `table`.  A null repeats the
name or the address of the entry before. -/
def readEntries : List (Cbor × Cbor) → (name : Text) →
    (address : Word) → NameTable → Option NameTable
  | [], _, _, table => some table
  | (key, value) :: rest, name, address, table =>
    match readText name key, readWord address value with
    | some name, some address =>
      readEntries rest name address (table.insert name address)
    | _, _ => none

/-- Read a table; it stays missing under a null. -/
def readTable (item : Cbor) : Option (Option NameTable) :=
  match untagged item with
  | some (.map entries) => (readEntries entries [] 0 .empty).map some
  | some item => if item.isNull then some none else none
  | none => none

def digestLength : Nat := 32

/-- Cut or fill up with zeros to the length of a digest. -/
def fitDigest (bytes : Text) : Text :=
  bytes.take digestLength ++ List.replicate (digestLength - bytes.length) 0

/-- Read a digest from bytes, be they tagged as a large integer or not, or from
a list of small integers; elements too many are not looked at. -/
def readDigest (item : Cbor) : Option Text :=
  match untagged item with
  | some (.bytes chunks) | some (.tagged _ (.bytes chunks)) =>
    some (fitDigest chunks.flatten)
  | some (.array elements) =>
    ((elements.take digestLength).mapM fun e => (readInt 0 255 0 e).map fun n =>
      n.toNat.toUInt8).map fitDigest
  | some item => if item.isNull then some (fitDigest []) else none
  | none => none

/-! ## Reading images -/

def blank : Image :=
  ⟨formatVersion, [], [], none, none, none, 0, 0, fitDigest []⟩

/-- The image with the field of the given key replaced by what an item holds. -/
def setField (img : Image) (key : Nat) (item : Cbor) : Option Image :=
  match key with
  | 1 => (readText [] item).map fun t => { img with id := t }
  | 2 => (readText [] item).map fun t => { img with name := t }
  | 3 => (readCode item).map fun code => { img with code := code }
  | 4 => (readTable item).map fun t => { img with labels := t }
  | 5 => (readTable item).map fun t => { img with natives := t }
  | 6 => (readWord 0 item).map fun w => { img with entry := w }
  | 7 => (readWord 0 item).map fun w => { img with created := w }
  | 8 => (readDigest item).map fun d => { img with digest := d }
  | _ => some img

/-- The number of the field that a text names: its one digit. -/
def numberIn? : Text → Option Nat
  | [b] => if Text.isDigitByte b then some (b.toNat - 48) else none
  | _ => none

/-- What the key of an entry says: the number of a field, given as an integer or
as a text, or none that a field could have. -/
def fieldKey? : Cbor → Option (Option Nat)
  | .unsigned n => some (some n)
  | .negative n => if n < Nat.pow 2 63 then some none else none
  | .text chunks =>
    if chunks.all Text.isValid then some (numberIn? chunks.flatten) else none
  | _ => none

/-- Read the entries of an image map; `seen` holds the numbers read already. -/
def readFields : List (Cbor × Cbor) → (seen : List Nat) → Image → Option Image
  | [], _, img => some img
  | (key, item) :: rest, seen, img =>
    match fieldKey? key with
    | none => none
    | some none => readFields rest seen img
    | some (some n) =>
      if seen.contains n then readFields rest seen img
      else match img.setField n item with
        | some img => readFields rest (n :: seen) img
        | none => none

/-- Read an image from an item; a null is an image with nothing in it. -/
def ofCbor (item : Cbor) : Option Image :=
  match untagged item with
  | some (.map entries) => readFields entries [] blank
  | some item => if item.isNull then some blank else none
  | none => none

/-- The failure for bytes that are not an image. -/
def bad (detail : Text) : Fault :=
  .detailed (.root .badImage) detail

/-- The number of bytes before the CBOR item. -/
def headerLength : Nat := 8

def littleEndianValue (bytes : Text) : Nat :=
  bytes.foldr (fun b n => n * 256 + b.toNat) 0

/-- Read an image file and check its digest. -/
def decode (data : Text) : Except Fault Image :=
  if data.length < headerLength then
    .error (bad (Text.ofString "truncated header"))
  else
    let letters : Text := data.take 4
    let version := littleEndianValue ((data.drop 4).take 4)
    if letters ≠ magic then
      .error (bad (Text.ofString "invalid magic " ++ letters.quoted))
    else if version ≠ formatVersion then
      .error (bad (Text.ofString "version " ++ Text.ofNat version ++
        Text.ofString ", expected " ++ Text.ofNat formatVersion))
    else match (Cbor.read? (data.drop headerLength)).bind ofCbor with
      | none => .error (bad (Text.ofString "unmarshal"))
      | some img =>
        if digestOf img.words = img.digest then .ok img
        else .error (bad (Text.ofString "code hash mismatch"))

end WordMachine.Image
