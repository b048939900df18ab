import WordMachine.Text.Basic

/-!
# Texts as characters

A text is read as UTF-8 from the left.  A byte that does not begin a
well-formed character counts as one replacement character `U+FFFD`, so every
text has a reading and every byte belongs to exactly one character of it.

The walks below carry the number of bytes still owed to the character they are
in, which keeps them structural on the bytes.
-/

namespace WordMachine.Text

/-- The character read where the bytes are not well formed. -/
def replacement : Char := Char.ofNat 0xFFFD

def encodeChar (c : Char) : Text :=
  String.utf8EncodeChar c

/-- A byte `10xxxxxx`, which continues a character. -/
def isContinuation (b : UInt8) : Bool :=
  0x80 ≤ b && b ≤ 0xBF

/-- The six payload bits of a continuation byte. -/
def payload (b : UInt8) : Nat :=
  b.toNat % 64

/-- The character at the front of `b :: rest` and the number of bytes of `rest`
it takes, or `none` if `b` does not begin a well-formed character.  Overlong
forms, surrogates and values above `U+10FFFF` are not well formed. -/
def decodeFirst? (b : UInt8) (rest : Text) : Option (Char × Nat) :=
  if b < 0x80 then some (Char.ofNat b.toNat, 0)
  else if 0xC2 ≤ b && b ≤ 0xDF then
    match rest with
    | c :: _ =>
      if isContinuation c then
        some (Char.ofNat (b.toNat % 32 * 64 + payload c), 1)
      else none
    | [] => none
  else if 0xE0 ≤ b && b ≤ 0xEF then
    match rest with
    | c :: d :: _ =>
      let value := b.toNat % 16 * 4096 + payload c * 64 + payload d
      if isContinuation c && isContinuation d && 0x800 ≤ value
          && !(0xD800 ≤ value && value ≤ 0xDFFF) then
        some (Char.ofNat value, 2)
      else none
    | _ => none
  else if 0xF0 ≤ b && b ≤ 0xF4 then
    match rest with
    | c :: d :: e :: _ =>
      let value := b.toNat % 8 * 262144 + payload c * 4096 + payload d *
        64 + payload e
      if isContinuation c && isContinuation d && isContinuation e
          && 0x10000 ≤ value && value ≤ 0x10FFFF then
        some (Char.ofNat value, 3)
      else none
    | _ => none
  else none

/-- Like `decodeFirst?`, with the replacement character for a stray byte. -/
def decodeFirst (b : UInt8) (rest : Text) : Char × Nat :=
  (decodeFirst? b rest).getD (replacement, 0)

/-- Auxiliary walk of `chars`; `done` is held in reverse. -/
def charsFrom : Nat → Text → List Char → List Char
  | _, [], done => done.reverse
  | owed + 1, _ :: rest, done => charsFrom owed rest done
  | 0, b :: rest, done =>
    let (c, more) := decodeFirst b rest
    charsFrom more rest (c :: done)

def chars (t : Text) : List Char :=
  charsFrom 0 t []

def ofChars (cs : List Char) : Text :=
  cs.flatMap encodeChar

/-- Auxiliary walk of `isValid`. -/
def validFrom : Nat → Text → Bool
  | _, [] => true
  | owed + 1, _ :: rest => validFrom owed rest
  | 0, b :: rest =>
    match decodeFirst? b rest with
    | some (_, more) => validFrom more rest
    | none => false

/-- Whether the whole text is well-formed UTF-8. -/
def isValid (t : Text) : Bool :=
  validFrom 0 t

/-- Auxiliary walk of `spanLength`; `seen` counts the bytes passed. -/
def spanFrom (p : Char → Bool) : Nat → Text → Nat → Nat
  | _, [], seen => seen
  | owed + 1, _ :: rest, seen => spanFrom p owed rest (seen + 1)
  | 0, b :: rest, seen =>
    let (c, more) := decodeFirst b rest
    if p c then spanFrom p more rest (seen + 1) else seen

/-- How many bytes the leading characters that satisfy `p` take. -/
def spanLength (p : Char → Bool) (t : Text) : Nat :=
  spanFrom p 0 t 0

def allChars (p : Char → Bool) (t : Text) : Bool :=
  t.spanLength p == t.length

/-- The byte offset of the first character that satisfies `p`. -/
def indexWhere? (p : Char → Bool) (t : Text) : Option Nat :=
  let n := t.spanLength fun c => !p c
  if n < t.length then some n else none

/-- Auxiliary walk of `contentLength`: `seen` counts the bytes passed and
`last` those up to the last character that does not satisfy `p`. -/
def contentFrom (p : Char → Bool) : Nat → Text → Nat → Nat → Nat
  | _, [], _, last => last
  | owed + 1, _ :: rest, seen, last => contentFrom p owed rest (seen + 1) last
  | 0, b :: rest, seen, last =>
    let (c, more) := decodeFirst b rest
    contentFrom p more rest (seen + 1) (if p c then last else seen + 1 + more)

/-- How many bytes are left when the trailing characters that satisfy `p` are
taken away. -/
def contentLength (p : Char → Bool) (t : Text) : Nat :=
  contentFrom p 0 t 0 0

/-- `t` without its leading characters that satisfy `p`. -/
def trimStart (p : Char → Bool) (t : Text) : Text :=
  t.drop (t.spanLength p)

/-- `t` without its trailing characters that satisfy `p`. -/
def trimEnd (p : Char → Bool) (t : Text) : Text :=
  t.take (t.contentLength p)

/-! ## Names in any case

Keys of manifests and of protocol messages are matched without regard to case.
All names they are matched with consist of ASCII characters.
-/

/-- The small letter that stands for a character when case does not matter.  Two
characters outside ASCII count as letters of it: the long s and the kelvin
sign. -/
def foldChar (c : Char) : Char :=
  if c = Char.ofNat 0x17F then 's' else if c = Char.ofNat 0x212A then 'k'
    else c.toLower

/-- Whether a key is a name, case aside. -/
def isNamed (name key : Text) : Bool :=
  key.chars.map foldChar == name.chars.map foldChar

end WordMachine.Text
