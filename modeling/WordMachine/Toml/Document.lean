import WordMachine.Toml.Basic

/-!
# Building documents

While a document is read, tables come into being in two ways: by being opened,
or because a key or the name of another table goes through them.  The latter are
only implied, and may still be opened once.  What a key goes through counts as
implied again until it is entered; an array that is in the way is then replaced
by a table.

The document also remembers in which order keys were mentioned, for messages
about keys that nobody knows.
-/

namespace WordMachine.Toml

/-- A document that is being built. -/
structure Document where
  root : Table := []
  /-- The tables that are only implied so far. -/
  implied : List Key := []
  /-- The keys whose latest value was written as an array. -/
  arrays : List Key := []
  /-- The keys mentioned so far, the latest first. -/
  mentioned : List Key := []

/-- Put a value under a name, in place of what had that name. -/
def setEntry (name : Text) (value : Toml) : Table → Table
  | [] => [(name, value)]
  | entry :: rest =>
    if entry.1 = name then (name, value) :: rest
      else entry :: setEntry name value rest

/-- Change the table that a key leads to.  A list of tables is entered through
its last one. -/
def changeTable (change : Table → Option Table) : Key → Table → Option Table
  | [], entries => change entries
  | name :: rest, entries =>
    match entries.lookup name with
    | some (.table inner) =>
      (changeTable change rest inner).map fun inner =>
        setEntry name (.table inner) entries
    | some (.tables list) =>
      match list.reverse with
      | [] => none
      | last :: before =>
        (changeTable change rest last).map fun last =>
          setEntry name (.tables (last :: before).reverse) entries
    | _ => none

def valueAt? : Key → Table → Option Toml
  | [], entries => some (.table entries)
  | [name], entries => entries.lookup name
  | name :: rest, entries =>
    match entries.lookup name with
    | some (.table inner) => valueAt? rest inner
    | some (.tables list) => list.getLast?.bind (valueAt? rest)
    | _ => none

namespace Document

def mention (d : Document) (key : Key) : Document :=
  { d with mentioned := key :: d.mentioned }

/-- Take note that a table is only implied. -/
def imply (d : Document) (key : Key) : Document :=
  { d with implied := key :: d.implied.filter (· ≠ key) }

/-- The key under which the form of an entry is noted.  An entry without a name
has none of its own and goes with its table. -/
def formKey (context : Key) (name : Text) : Key :=
  if !name.isEmpty || context.isEmpty then context ++ [name] else context

/-- Take note whether the value of a key was written as an array. -/
def noteForm (d : Document) (key : Key) (isArray : Bool) : Document :=
  let others := d.arrays.filter (· ≠ key)
  { d with arrays := if isArray then key :: others else others }

/-- Put a value into the table that `context` leads to.  A name that is taken is
refused, unless what has it is only implied: then an array gives way and
everything else stays, and the name counts as given from now on. -/
def put (d : Document) (context : Key) (name : Text) (value : Toml) :
    Option Document :=
  let key := context ++ [name]
  let place (entries : Table) : Option Table :=
    match entries.lookup name with
    | none => some (setEntry name value entries)
    | some _ =>
      if !d.implied.contains key then none
      else if d.arrays.contains key then some (setEntry name value entries)
      else some entries
  let taken := (valueAt? key d.root).isSome
  (changeTable place context d.root).map fun root =>
    { d with
      root := root
      implied := if taken then d.implied.filter (· ≠ key) else d.implied }

/-- Make the tables that a key goes through, as far as they are missing. -/
def makeWay (d : Document) (context : Key) : Key → Option Document
  | [] => some d
  | name :: rest =>
    let key := context ++ [name]
    match valueAt? key d.root with
    | none => do
      let d ← d.put context name (.table [])
      (d.imply key).makeWay key rest
    | some (.table _) | some (.tables _) => d.makeWay key rest
    | some _ => none

def openTable (d : Document) (key : Key) : Option Document := do
  let name ← key.getLast?
  let d ← d.makeWay [] key.dropLast
  d.put key.dropLast name (.table [])

/-- Add a table to the list of tables with the given key. -/
def addTable (d : Document) (key : Key) : Option Document := do
  let name ← key.getLast?
  let d ← d.makeWay [] key.dropLast
  let add (entries : Table) : Option Table :=
    match entries.lookup name with
    | none => some (setEntry name (.tables [[]]) entries)
    | some (.tables list) =>
      some (setEntry name (.tables (list ++ [[]])) entries)
    | some _ => none
  let root ← changeTable add key.dropLast d.root
  return { d with root := root }

/-- Enter the tables that the front parts of a dotted key name, one by one. -/
def enter (d : Document) (context : Key) : Key → Option Document
  | [] => some d
  | name :: rest => do
    let key := context ++ [name]
    let d ← (d.imply key).openTable key
    d.enter key rest

end Document

end WordMachine.Toml
