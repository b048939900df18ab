import WordMachine.Toml.Document
import WordMachine.Toml.Numbers
import WordMachine.Toml.Strings

/-!
# Reading TOML

A document is a sequence of lines, each of which opens a table or gives a key
its value.  Arrays and inline tables may run over several lines.

A byte order mark at the front is skipped.  All of the text has to be
well-formed UTF-8 without control characters other than tabs and line breaks.
-/

namespace WordMachine.Toml

/-! ## Blanks and comments -/

/-- The rest of a text behind a comment, from the end of its line on. -/
def skipComment (t : Text) : Text :=
  t.dropWhile fun b => !isLineEnd b

/-- The rest of a text behind blanks, line breaks and comments. -/
def skipGaps : (fuel : Nat) → Text → Text
  | 0, t => t
  | fuel + 1, t =>
    match t with
    | [] => []
    | b :: rest =>
      if isBlankByte b || isLineEnd b then skipGaps fuel rest
      else if b = Text.hash then skipGaps fuel (skipComment rest)
      else t

/-- The rest of a text behind everything that has no meaning. -/
def skipAll (t : Text) : Text :=
  skipGaps t.length t

/-- The rest of a text from its next line on; only blanks and a comment may
stand before that. -/
def endLine (t : Text) : Option Text :=
  match skipBlanks t with
  | [] => some []
  | b :: rest =>
    if b = Text.hash then some (skipComment rest)
    else if isLineEnd b then some rest
    else none

/-! ## Values -/

def isArray : Toml → Bool
  | .array _ => true
  | _ => false

/-- Write a value into a table under a dotted key.  The tables it goes through
are made if they are missing; anything else in the way is refused. -/
def write (value : Toml) : Key → Table → Option Table
  | [], _ => none
  | [name], entries => some (setEntry name value entries)
  | name :: rest, entries =>
    match entries.lookup name with
    | none =>
      (write value rest []).map fun inner =>
        setEntry name (.table inner) entries
    | some (.table inner) =>
      (write value rest inner).map fun inner =>
        setEntry name (.table inner) entries
    | some _ => none

/-- A value with the document it left behind and the text that follows it. -/
structure Read where
  value : Toml
  document : Document
  rest : Text

/-- A key with its value, the document they left behind and the text that
follows them. -/
structure ReadPair extends Read where
  key : Key

mutual

/-- Read the value of the key `context ++ [name]`.  The entries of an inline
table are put into the document as they are read; inside an array each inline
table is added as one of a list of tables. -/
def readValue (context : Key) (name : Text) (inArray : Bool) :
    (fuel : Nat) → Document → Text → Option Read
  | 0, _, _ => none
  | fuel + 1, d, t =>
    match skipBlanks t with
    | [] => none
    | b :: rest =>
      let plain (r : Option (Toml × Text)) : Option Read :=
        r.map fun (value, rest) => ⟨value, d, rest⟩
      if b = Text.quote ∨ b = apostrophe then
        plain ((readString (b :: rest)).map fun (s, rest) => (.string s, rest))
      else if Text.isDigitByte b then plain (readUnsigned (b :: rest))
      else if b = Text.plus ∨ b = Text.minus then plain (readSigned b rest)
      else if b = 91 then
        readElements context name fuel
          (d.noteForm (Document.formKey context name) true) rest []
      else if b = 123 then do
        let key := context ++ [name]
        let d := d.imply key
        let d ← if inArray then d.addTable key else d.openTable key
        readPairs key fuel d rest []
      else plain (readWord (b :: rest))

/-- Read the elements of an array up to its closing bracket; those in `done` are
held in reverse. -/
def readElements (context : Key) (name : Text) :
    (fuel : Nat) → Document → Text → (done : List Toml) → Option Read
  | 0, _, _, _ => none
  | fuel + 1, d, t, done =>
    match skipAll t with
    | 93 :: rest => some ⟨.array done.reverse, d, rest⟩
    | t => do
      let r ← readValue context name true fuel d t
      match skipAll r.rest with
      | 44 :: rest =>
        readElements context name fuel r.document rest (r.value :: done)
      | 93 :: rest => some ⟨.array (r.value :: done).reverse, r.document, rest⟩
      | _ => none

/-- Read the entries of an inline table up to its closing brace; those in `done`
were read before. -/
def readPairs (context : Key) :
    (fuel : Nat) → Document → Text → (done : Table) → Option Read
  | 0, _, _, _ => none
  | fuel + 1, d, t, done =>
    match skipAll t with
    | 125 :: rest => some ⟨.table done, d, rest⟩
    | t => do
      let r ← readPair context fuel d t
      let done ← write r.value r.key done
      match skipAll r.rest with
      | 44 :: rest => readPairs context fuel r.document rest done
      | 125 :: rest => some ⟨.table done, r.document, rest⟩
      | _ => none

/-- Read a key with its value into the table that `context` leads to. -/
def readPair (context : Key) : (fuel : Nat) → Document → Text → Option ReadPair
  | 0, _, _ => none
  | fuel + 1, d, t => do
    let (key, rest) ← readKey t
    let name ← key.getLast?
    let d ← d.enter context key.dropLast
    let context := context ++ key.dropLast
    let d := d.mention (context ++ [name])
    match rest with
    | 61 :: rest =>
      let r ← readValue context name false fuel d rest
      let d ← r.document.put context name r.value
      let d := d.noteForm (Document.formKey context name) (isArray r.value)
      return ⟨⟨r.value, d, r.rest⟩, key⟩
    | _ => none

end

/-! ## Documents -/

/-- Take note that a table was opened by a line of its own. -/
def opened (d : Document) (key : Key) : Document :=
  (d.noteForm key false).mention key

/-- Read the line that opens a table, behind its bracket.  Gives the key of the
table, too. -/
def readHeader (d : Document) (t : Text) : Option (Document × Key × Text) :=
  match t with
  | 91 :: rest => do
    let (key, rest) ← readKey rest
    match rest with
    | 93 :: 93 :: rest => return (opened (← d.addTable key) key, key, rest)
    | _ => none
  | t => do
    let (key, rest) ← readKey t
    match rest with
    | 93 :: rest => return (opened (← d.openTable key) key, key, rest)
    | _ => none

/-- Read lines; `context` is the key of the table that is open. -/
def readLines : (fuel : Nat) → (context : Key) → Document → Text →
    Option Document
  | 0, _, _, _ => none
  | fuel + 1, context, d, t =>
    match skipAll t with
    | [] => some d
    | 91 :: rest => do
      let (d, key, rest) ← readHeader d rest
      readLines fuel key d (← endLine rest)
    | t => do
      let r ← readPair context (2 * t.length + 2) d t
      readLines fuel context r.document (← endLine r.rest)

/-- Whether a text has no control characters other than tabs and line breaks. -/
def isPlain : Text → Bool
  | [] => true
  | b :: rest =>
    let allowed :=
      if b = Text.carriageReturn then rest.head? == some Text.newline
      else b == Text.tab || b == Text.newline || (32 ≤ b && b != 127)
    allowed && isPlain rest

/-- The text without a byte order mark. -/
def skipMark : Text → Text
  | 0xEF :: 0xBB :: 0xBF :: rest => rest
  | 0xFF :: 0xFE :: rest => rest
  | 0xFE :: 0xFF :: rest => rest
  | t => t

def read? (t : Text) : Option Document :=
  let t := skipMark t
  if t.isValid && isPlain t then readLines (t.length + 1) [] {} t else none

end WordMachine.Toml
