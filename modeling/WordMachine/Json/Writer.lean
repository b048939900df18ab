import WordMachine.Json.Basic

/-!
# Writing JSON

The compact form: no white space, and escapes only where a string could not hold
the byte itself.
-/

namespace WordMachine.Json

def writeByte (b : UInt8) : Text :=
  if b = 34 then [92, 34]
  else if b = 92 then [92, 92]
  else if b < 32 then Text.ofString "\\u00" ++ Text.hexByte b
  else [b]

def writeString (t : Text) : Text :=
  34 :: t.flatMap writeByte ++ [34]

mutual

/-- The compact form of a value. -/
def write : Json → Text
  | .null => Text.ofString "null"
  | .bool true => Text.ofString "true"
  | .bool false => Text.ofString "false"
  | .number literal => literal
  | .string t => writeString t
  | .array elements => 91 :: Text.join [44] (writeElements elements []) ++ [93]
  | .object members => 123 :: Text.join [44] (writeMembers members []) ++ [125]

def writeElements : List Json → List Text → List Text
  | [], done => done.reverse
  | value :: rest, done => writeElements rest (write value :: done)

def writeMembers : List (Text × Json) → List Text → List Text
  | [], done => done.reverse
  | (name, value) :: rest, done =>
    writeMembers rest ((writeString name ++ 58 :: write value) :: done)

end

end WordMachine.Json
