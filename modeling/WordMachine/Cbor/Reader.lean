import WordMachine.Cbor.Basic

/-!
# Reading CBOR

A text is read if it is one well-formed item.  Heads need not be as short as
possible and lengths may be indefinite.  There are limits on how deep items nest
and on how many elements an array or a map has.

Each call passes on less fuel, and a byte was consumed before, so twice the
length of the text is enough.
-/

namespace WordMachine.Cbor

/-- How deep arrays, maps and tags of tags may nest. -/
def maxDepth : Nat := 32

/-- How many elements an array, or entries a map, may have. -/
def maxElements : Nat := 131072

inductive Argument where
  | value (n : Nat)
  | indefinite
  deriving DecidableEq

/-- A head: major type, the low bits of its first byte and the argument. -/
structure Head where
  major : Nat
  low : Nat
  argument : Argument

def bigEndianValue (t : Text) : Nat :=
  t.foldl (fun n b => n * 256 + b.toNat) 0

/-- The first `count` bytes and what follows them. -/
def takeBytes? (count : Nat) (t : Text) : Option (Text × Text) :=
  let taken := t.take count
  if taken.length = count then some (taken, t.drop count) else none

/-- Read a head.  Low bits 28 to 30 have no meaning, simple values below 32 have
no two-byte form, and only strings, arrays and maps can be indefinite. -/
def readHead? : Text → Option (Head × Text)
  | [] => none
  | b :: rest =>
    let major := b.toNat / 32
    let low := b.toNat % 32
    let sized (count : Nat) : Option (Head × Text) :=
      (takeBytes? count rest).bind fun (taken, after) =>
        let n := bigEndianValue taken
        if major = 7 ∧ low = 24 ∧ n < 32 then none
          else some (⟨major, low, .value n⟩, after)
    if low < 24 then some (⟨major, low, .value low⟩, rest)
    else if low = 24 then sized 1
    else if low = 25 then sized 2
    else if low = 26 then sized 4
    else if low = 27 then sized 8
    else if low = 31 ∧ 2 ≤ major ∧ major ≤ 5 then
      some (⟨major, low, .indefinite⟩, rest)
    else none

def breakByte : UInt8 := 0xFF

/-- Read the chunks of a string of indefinite length; `done` is held in
reverse. -/
def readChunks (major : Nat) :
    (fuel : Nat) → Text → List Text → Option (List Text × Text)
  | 0, _, _ => none
  | fuel + 1, t, done =>
    if t.head? = some breakByte then some (done.reverse, t.drop 1)
    else match readHead? t with
      | some (⟨chunkMajor, _, .value n⟩, rest) =>
        if chunkMajor = major then
          match takeBytes? n rest with
          | some (chunk, rest) => readChunks major fuel rest (chunk :: done)
          | none => none
        else none
      | _ => none

def pairUp : List Cbor → Option (List (Cbor × Cbor))
  | elements => go elements []
where
  /-- Pair up the elements behind `done`, which is held in reverse. -/
  go : List Cbor → List (Cbor × Cbor) → Option (List (Cbor × Cbor))
    | [], done => some done.reverse
    | [_], _ => none
    | key :: value :: rest, done => go rest ((key, value) :: done)

def startsTag (t : Text) : Bool :=
  t.head?.any fun b => b.toNat / 32 == 6

mutual

/-- Read one item at the given depth. -/
def readItem : (fuel depth : Nat) → Text → Option (Cbor × Text)
  | 0, _, _ => none
  | fuel + 1, depth, t =>
    match readHead? t with
    | none => none
    | some (⟨major, low, argument⟩, rest) =>
      match major, argument with
      | 0, .value n => some (.unsigned n, rest)
      | 1, .value n => some (.negative n, rest)
      | 2, .value n =>
        (takeBytes? n rest).map fun (chunk, rest) => (.bytes [chunk], rest)
      | 2, .indefinite =>
        (readChunks 2 (rest.length + 1) rest []).map fun (chunks, rest) =>
          (.bytes chunks, rest)
      | 3, .value n =>
        (takeBytes? n rest).map fun (chunk, rest) => (.text [chunk], rest)
      | 3, .indefinite =>
        (readChunks 3 (rest.length + 1) rest []).map fun (chunks, rest) =>
          (.text chunks, rest)
      | 4, .value n =>
        if maxDepth ≤ depth ∨ maxElements < n then none
        else (readElements fuel (depth + 1) n rest []).map fun (items, rest) =>
          (.array items, rest)
      | 4, .indefinite =>
        if maxDepth ≤ depth then none
        else match readUntilBreak fuel (depth + 1) rest [] with
          | some (items, rest) =>
            if maxElements < items.length then none
              else some (.array items, rest)
          | none => none
      | 5, .value n =>
        if maxDepth ≤ depth ∨ maxElements < n then none
        else match readElements fuel (depth + 1) (2 * n) rest [] with
          | some (items, rest) =>
            (pairUp items).map fun entries => (.map entries, rest)
          | none => none
      | 5, .indefinite =>
        if maxDepth ≤ depth then none
        else match readUntilBreak fuel (depth + 1) rest [] with
          | some (items, rest) =>
            if 2 * maxElements < items.length then none
            else (pairUp items).map fun entries => (.map entries, rest)
          | none => none
      | 6, .value tag =>
        if startsTag rest then
          if maxDepth ≤ depth then none
          else (readItem fuel (depth + 1) rest).map fun (item, rest) =>
            (.tagged tag item, rest)
        else (readItem fuel depth rest).map fun (item, rest) =>
          (.tagged tag item, rest)
      | 7, .value n =>
        if low = 25 then some (.float 2 n, rest)
        else if low = 26 then some (.float 4 n, rest)
        else if low = 27 then some (.float 8 n, rest)
        else some (.simple n, rest)
      | _, _ => none

/-- Read `count` items; `done` is held in reverse. -/
def readElements : (fuel depth count : Nat) → Text → List Cbor →
    Option (List Cbor × Text)
  | _, _, 0, t, done => some (done.reverse, t)
  | 0, _, _ + 1, _, _ => none
  | fuel + 1, depth, count + 1, t, done =>
    match readItem fuel depth t with
    | some (item, rest) => readElements fuel depth count rest (item :: done)
    | none => none

/-- Read items up to the break byte; `done` is held in reverse. -/
def readUntilBreak :
    (fuel depth : Nat) → Text → List Cbor → Option (List Cbor × Text)
  | 0, _, _, _ => none
  | fuel + 1, depth, t, done =>
    if t.head? = some breakByte then some (done.reverse, t.drop 1)
    else match readItem fuel depth t with
      | some (item, rest) => readUntilBreak fuel depth rest (item :: done)
      | none => none

end

/-- Read a text that is one item. -/
def read? (t : Text) : Option Cbor :=
  match readItem (2 * t.length + 2) 0 t with
  | some (item, []) => some item
  | _ => none

end WordMachine.Cbor
