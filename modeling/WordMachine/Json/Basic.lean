import WordMachine.Text.Basic

/-!
# JSON values

The editor protocol exchanges JSON.  Numbers keep the literal they were written
with, since the protocol tells integers from other numbers by their spelling,
and members of an object keep their order.
-/

namespace WordMachine

/-- A JSON value; strings are UTF-8. -/
inductive Json where
  | null
  | bool (value : Bool)
  | number (literal : Text)
  | string (value : Text)
  | array (elements : List Json)
  | object (members : List (Text × Json))
  deriving Inhabited

namespace Json

def ofString (s : String) : Json :=
  .string (Text.ofString s)

def ofInt (n : Int) : Json :=
  .number (Text.ofInt n)

def ofNat (n : Nat) : Json :=
  .number (Text.ofNat n)

/-- An object from constant names and values. -/
def record (members : List (String × Json)) : Json :=
  .object (members.map fun (name, value) => (Text.ofString name, value))

/-- The last member of an object with the given name. -/
def member? (j : Json) (name : String) : Option Json :=
  match j with
  | .object members =>
    (members.reverse.find? fun entry =>
      entry.1 == Text.ofString name).map Prod.snd
  | _ => none

def text? : Json → Option Text
  | .string t => some t
  | _ => none

def bool? : Json → Option Bool
  | .bool b => some b
  | _ => none

def elements? : Json → Option (List Json)
  | .array elements => some elements
  | _ => none

/-- The natural number spelt by digits alone. -/
def digits? (t : Text) : Option Nat :=
  if t.isEmpty || !t.all Text.isDigitByte then none
  else some (t.foldl (fun n b => n * 10 + (b.toNat - 48)) 0)

/-- The value of a number written as an integer. -/
def int? : Json → Option Int
  | .number (Text.minus :: digits) => (digits? digits).map fun n => -(n : Int)
  | .number digits => (digits? digits).map fun n => (n : Int)
  | _ => none

end Json

end WordMachine
