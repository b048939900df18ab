import WordMachine.Json.Basic
import WordMachine.Numeral
import WordMachine.Text.Utf8

/-!
# Shapes of messages

A shape says which JSON values make sense as the content of a message.  A null
fits every shape and leaves things as they are, and members nobody asked for are
not looked at.  Names of members are matched without regard to case.
-/

namespace WordMachine.Json

/-- What a value has to look like. -/
inductive Shape where
  /-- Whatever there is; it is not looked at. -/
  | any
  /-- Any value, as long as its numbers are in the range of doubles. -/
  | value
  | text
  | flag
  /-- A whole number of 32 bits with a sign. -/
  | signed
  /-- A whole number of 32 bits without a sign. -/
  | unsigned
  /-- One shape or the other. -/
  | either (first second : Shape)
  | list (element : Shape)
  | record (fields : List (String × Shape))

/-- The value of a whole number of 32 bits without a sign. -/
def unsigned? : Json → Option Nat
  | .number literal => (digits? literal).filter (· < Nat.pow 2 32)
  | _ => none

/-- The value of a whole number of 32 bits with a sign. -/
def signed? (j : Json) : Option Int :=
  j.int?.filter fun n => -0x80000000 ≤ n ∧ n < 0x80000000

mutual

/-- Whether all numbers in a value are in the range of doubles. -/
def inRange : Json → Bool
  | .number literal => (Numeral.readFloat? literal).isSome
  | .array elements => elementsInRange elements
  | .object members => membersInRange members
  | _ => true

def elementsInRange : List Json → Bool
  | [] => true
  | j :: rest => j.inRange && elementsInRange rest

def membersInRange : List (Text × Json) → Bool
  | [] => true
  | (_, j) :: rest => j.inRange && membersInRange rest

end

namespace Shape

mutual

def fits : Shape → Json → Bool
  | _, .null => true
  | any, _ => true
  | value, j => j.inRange
  | text, j => j.text?.isSome
  | flag, j => j.bool?.isSome
  | signed, j => j.signed?.isSome
  | unsigned, j => j.unsigned?.isSome
  | either first second, j => first.fits j || second.fits j
  | list element, .array elements => elements.all element.fits
  | list _, _ => false
  | record fields, .object members =>
    members.all fun (name, j) => memberFits fields name j
  | record _, _ => false

/-- Whether a member has the shape that the fields ask for under its name. -/
def memberFits : List (String × Shape) → (name : Text) → Json → Bool
  | [], _, _ => true
  | (field, shape) :: rest, name, j =>
    if Text.isNamed (Text.ofString field) name then shape.fits j
      else memberFits rest name j

end

end Shape

/-! ## Picking values -/

/-- All that is given under a name inside the given values, in order.  A member
may be given more than once, and what is given later counts. -/
def pick (name : String) (values : List Json) : List Json :=
  values.flatMap fun
    | .object members =>
      members.filterMap fun (key, j) =>
        if Text.isNamed (Text.ofString name) key then some j else none
    | _ => []

/-- The last text among the values, or the empty one. -/
def lastText (values : List Json) : Text :=
  ((values.filterMap text?).getLast?).getD []

/-- The last number without a sign among the values, or zero. -/
def lastUnsigned (values : List Json) : Nat :=
  ((values.filterMap unsigned?).getLast?).getD 0

/-- The last truth value among the values, or false. -/
def lastFlag (values : List Json) : Bool :=
  ((values.filterMap bool?).getLast?).getD false

/-- The elements of the last value, if it is a list. -/
def lastElements (values : List Json) : List Json :=
  (values.getLast?.bind elements?).getD []

/-- Whether the last value is there and is not null. -/
def lastIsGiven (values : List Json) : Bool :=
  match values.getLast? with
  | none | some .null => false
  | some _ => true

end WordMachine.Json
