import WordMachine.Numeral
import WordMachine.Text.Quoted

/-!
# Flags

A flag begins with one or two dashes and has a value, which follows it as the
next argument or behind an equals sign; a switch needs none.  Flags come before
other arguments, and two dashes alone end them.
-/

namespace WordMachine.Command

/-- What values a flag takes. -/
inductive FlagKind where
  | switch
  | integer
  | text
  deriving DecidableEq, Repr

/-- A flag that is understood, with all its names. -/
structure Flag where
  names : List String
  kind : FlagKind
  deriving DecidableEq, Repr

inductive FlagValue where
  | switch (on : Bool)
  | integer (n : Word)
  | text (t : Text)
  deriving DecidableEq, Repr

/-- A flag as it was given. -/
structure GivenFlag where
  /-- The name it was given by. -/
  name : Text
  flag : Flag
  value : FlagValue
  deriving DecidableEq, Repr

/-- Flags and the arguments behind them. -/
structure Arguments where
  given : List GivenFlag
  rest : List Text
  deriving DecidableEq, Repr

/-- Why arguments make no sense. -/
inductive UsageError where
  | badFlag (argument : Text)
  | unknownFlag (name : Text)
  | missingValue (name : Text)
  | badValue (value name : Text)
  | twoForms (names : List Text)
  deriving DecidableEq, Repr

def UsageError.message : UsageError → Text
  | .badFlag argument => Text.ofString "bad flag syntax: " ++ argument
  | .unknownFlag name =>
    Text.ofString "flag provided but not defined: -" ++ name
  | .missingValue name => Text.ofString "flag needs an argument: -" ++ name
  | .badValue value name =>
    Text.ofString "invalid value " ++ value.quoted ++
      Text.ofString " for flag -" ++ name
  | .twoForms names =>
    Text.ofString "Cannot use two forms of the same flag: " ++
      Text.join [Text.space] names

namespace Flag

def isCalled (f : Flag) (name : Text) : Bool :=
  f.names.any fun n => Text.ofString n == name

def find? (flags : List Flag) (name : Text) : Option Flag :=
  flags.find? (·.isCalled name)

end Flag

/-- The spellings of a truth value. -/
def truthValue? (t : Text) : Option Bool :=
  if ["1", "t", "T", "TRUE", "true", "True"].any (Text.ofString · == t) then
    some true
  else if ["0", "f", "F", "FALSE", "false", "False"].any (Text.ofString · ==
    t) then some false
  else none

def FlagKind.read? (kind : FlagKind) (t : Text) : Option FlagValue :=
  match kind with
  | .switch => (truthValue? t).map .switch
  | .integer =>
    match Numeral.readInteger t with
    | .value n => some (.integer n)
    | _ => none
  | .text => some (.text t)

/-- What stands behind the dashes of an argument, if it has dashes and more. -/
def behindDashes? : Text → Option Text
  | Text.minus :: Text.minus :: name => some name
  | Text.minus :: b :: name => some (b :: name)
  | _ => none

/-- A name and the value behind an equals sign; the first byte belongs to the
name. -/
def splitValue (t : Text) : Text × Option Text :=
  let (name, rest) := t.tail.span (· != 61)
  (t.take 1 ++ name, rest.tail?)

/-- Read the flags at the front of the arguments; those in `done` are held in
reverse. -/
def readFlags (flags : List Flag) : List Text → (done : List GivenFlag) →
    Except UsageError Arguments
  | [], done => .ok ⟨done.reverse, []⟩
  | argument :: rest, done =>
    match behindDashes? argument with
    | none => .ok ⟨done.reverse, argument :: rest⟩
    | some [] => .ok ⟨done.reverse, rest⟩
    | some (b :: behind) =>
      if b = Text.minus ∨ b = 61 then .error (.badFlag argument)
      else
        let (name, value?) := splitValue (b :: behind)
        match Flag.find? flags name with
        | none => .error (.unknownFlag name)
        | some flag =>
          match value?, flag.kind, rest with
          | some value, kind, rest =>
            match kind.read? value with
            | some v => readFlags flags rest (⟨name, flag, v⟩ :: done)
            | none => .error (.badValue value name)
          | none, .switch, rest =>
            readFlags flags rest (⟨name, flag, .switch true⟩ :: done)
          | none, kind, value :: rest =>
            match kind.read? value with
            | some v => readFlags flags rest (⟨name, flag, v⟩ :: done)
            | none => .error (.badValue value name)
          | none, _, [] => .error (.missingValue name)

/-- The names of a flag that was given by more than one of them. -/
def twoForms? (given : List GivenFlag) : Option (List Text) :=
  given.findSome? fun g =>
    let names := ((given.filter (·.flag == g.flag)).map (·.name)).eraseDups
    if 1 < names.length then some names else none

/-- Read the flags at the front of the arguments. -/
def readArguments (flags : List Flag) (arguments : List Text) :
    Except UsageError Arguments :=
  match readFlags flags arguments [] with
  | .error e => .error e
  | .ok read =>
    match twoForms? read.given with
    | some names => .error (.twoForms names)
    | none => .ok read

/-! ## Order -/

def isFlag (flags : List Flag) (argument : Text) : Bool :=
  match behindDashes? argument with
  | none | some [] => false
  | some name => (Flag.find? flags (splitValue name).1).isSome

/-- Move flags, each with the argument behind it, before all other arguments;
what follows two dashes stays where it is.  With `mayBeValue` the next argument
goes with the flag before it.  Both `moved` and `kept` are held in reverse. -/
def reorderFrom (flags : List Flag) :
    List Text → (mayBeValue : Bool) → (moved kept : List Text) →
    List Text
  | [], _, moved, kept => moved.reverse ++ kept.reverse
  | argument :: rest, mayBeValue, moved, kept =>
    if isFlag flags argument then
      reorderFrom flags rest (!argument.contains 61) (argument :: moved) kept
    else if mayBeValue then
      reorderFrom flags rest false (argument :: moved) kept
    else if argument = [Text.minus, Text.minus] then
      moved.reverse ++ kept.reverse ++ argument :: rest
    else reorderFrom flags rest false moved (argument :: kept)

def reorder (flags : List Flag) (arguments : List Text) : List Text :=
  reorderFrom flags arguments false [] []

/-! ## Values -/

namespace Arguments

/-- The last value given to a flag. -/
def value? (a : Arguments) (name : String) : Option FlagValue :=
  ((a.given.filter (·.flag.isCalled (Text.ofString name))).getLast?).map
    (·.value)

def isOn (a : Arguments) (name : String) : Bool :=
  a.value? name == some (.switch true)

def integer? (a : Arguments) (name : String) : Option Word :=
  match a.value? name with
  | some (.integer n) => some n
  | _ => none

/-- The text given to a flag, or the empty one. -/
def text (a : Arguments) (name : String) : Text :=
  match a.value? name with
  | some (.text t) => t
  | _ => []

end Arguments

end WordMachine.Command
