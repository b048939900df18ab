import WordMachine.Cbor.Basic

/-!
# Writing CBOR

The canonical form: every head as short as possible, definite lengths only, and
the entries of a map sorted by their keys, shorter keys first.
-/

namespace WordMachine.Cbor

/-- The big-endian bytes of a number, `count` of them. -/
def bigEndianBytes (count n : Nat) : Text :=
  (List.range count).map fun i => (n / Nat.pow 256 (count - 1 - i)).toUInt8

/-- The head of an item: its major type and an argument. -/
def head (major argument : Nat) : Text :=
  let initial (low : Nat) : UInt8 := (major * 32 + low).toUInt8
  if argument < 24 then [initial argument]
  else if argument < Nat.pow 2 8 then initial 24 :: bigEndianBytes 1 argument
  else if argument < Nat.pow 2 16 then initial 25 :: bigEndianBytes 2 argument
  else if argument < Nat.pow 2 32 then initial 26 :: bigEndianBytes 4 argument
  else initial 27 :: bigEndianBytes 8 argument

/-- The order of keys: by length, then by bytes. -/
def keyLe (s t : Text) : Bool :=
  s.length < t.length || (s.length == t.length && s.le t)

mutual

/-- The canonical form of an item. -/
def write : Cbor → Text
  | .unsigned n => head 0 n
  | .negative n => head 1 n
  | .bytes chunks => head 2 chunks.flatten.length ++ chunks.flatten
  | .text chunks => head 3 chunks.flatten.length ++ chunks.flatten
  | .array elements =>
    head 4 elements.length ++ (writeElements elements []).flatten
  | .map entries =>
    let written := (writeEntries entries []).mergeSort fun a b => keyLe a.1 b.1
    head 5 entries.length ++ written.flatMap fun entry => entry.1 ++ entry.2
  | .tagged tag content => head 6 tag ++ write content
  | .simple n => head 7 n
  | .float width bits =>
    (7 * 32 +
        (if width = 2 then 25 else if width = 4 then 26 else 27) : Nat).toUInt8
      :: bigEndianBytes width bits

def writeElements : List Cbor → List Text → List Text
  | [], done => done.reverse
  | item :: rest, done => writeElements rest (write item :: done)

def writeEntries : List (Cbor × Cbor) → List (Text × Text) → List (Text × Text)
  | [], done => done.reverse
  | (key, value) :: rest, done =>
    writeEntries rest ((write key, write value) :: done)

end

end WordMachine.Cbor
