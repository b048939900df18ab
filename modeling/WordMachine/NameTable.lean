import WordMachine.Word

/-!
# Tables of names

A name table gives each of its names one address: label tables, tables of native
functions and the merged table the assembler resolves operands with.  The
entries are kept in the order in which the names arrived.
-/

namespace WordMachine

/-- Names with an address each, in order of arrival. -/
structure NameTable where
  entries : List (Text × Word) := []
  nodup : (entries.map Prod.fst).Nodup := by simp

namespace NameTable

def empty : NameTable := {}

instance : Inhabited NameTable := ⟨empty⟩

/-- The names in order of arrival. -/
def names (t : NameTable) : List Text :=
  t.entries.map Prod.fst

def get? (t : NameTable) (name : Text) : Option Word :=
  t.entries.lookup name

def contains (t : NameTable) (name : Text) : Bool :=
  (t.get? name).isSome

def size (t : NameTable) : Nat :=
  t.entries.length

/-- Give a name an address.  A name already present keeps its place. -/
def setEntry (name : Text) (address : Word) :
    List (Text × Word) → List (Text × Word)
  | [] => [(name, address)]
  | entry :: rest =>
    if entry.1 = name then (name, address) :: rest
      else entry :: setEntry name address rest

theorem mem_map_fst_setEntry {name other : Text} {address : Word}
    {entries : List (Text × Word)} :
    other ∈ (setEntry name address entries).map Prod.fst ↔
      other = name ∨ other ∈ entries.map Prod.fst := by
  induction entries with
  | nil => simp [setEntry]
  | cons entry rest ih =>
    by_cases same : entry.1 = name
    · simp [setEntry, same]
    · simp only [setEntry, same, if_false, List.map_cons, List.mem_cons, ih]
      exact or_left_comm

theorem nodup_setEntry {name : Text} {address : Word}
    {entries : List (Text × Word)} (distinct : (entries.map Prod.fst).Nodup) :
    ((setEntry name address entries).map Prod.fst).Nodup := by
  induction entries with
  | nil => simp [setEntry]
  | cons entry rest ih =>
    rw [List.map_cons, List.nodup_cons] at distinct
    by_cases same : entry.1 = name
    · subst same
      simpa only [setEntry, if_true, List.map_cons, List.nodup_cons]
        using distinct
    · simp only [setEntry, same, if_false, List.map_cons, List.nodup_cons]
      refine ⟨fun member => ?_, ih distinct.2⟩
      rcases mem_map_fst_setEntry.1 member with equal | old
      · exact same equal
      · exact distinct.1 old

/-- Give a name an address, replacing the one it had. -/
def insert (t : NameTable) (name : Text) (address : Word) : NameTable where
  entries := setEntry name address t.entries
  nodup := nodup_setEntry t.nodup

/-- The table with the given entries; the last address of a name counts. -/
def ofList (entries : List (Text × Word)) : NameTable :=
  entries.foldl (fun t entry => t.insert entry.1 entry.2) empty

def sortedNames (t : NameTable) : List Text :=
  Text.sorted t.names

end NameTable

end WordMachine
