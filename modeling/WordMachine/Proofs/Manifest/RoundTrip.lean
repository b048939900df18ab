import WordMachine.Manifest.Codec
import WordMachine.Proofs.Toml.Tables

/-!
# Reading a manifest that was written

The text of a manifest is a document with one table for each section, so it is
read back as these tables, and the tables set each field to the value that was
written.
-/

namespace WordMachine.Manifest

open Toml

/-! ## Values of fields -/

/-- A value that a manifest can hold. -/
inductive IsScalar : Toml → Prop where
  | string {t : Text} (valid : t.isValid = true) : IsScalar (.string t)
  | integer (w : Word) : IsScalar (.integer w)
  | boolean (b : Bool) : IsScalar (.boolean b)

theorem isBare_boolean (b : Bool) : IsBare (valueText (.boolean b)) := by
  cases b <;> exact .of_all rfl rfl

def scalarLine (key : Text) (bare : IsBare key) {value : Toml}
    (scalar : IsScalar value) :
    Toml.Line where
  key := key
  text := valueText value
  value := value
  bare := bare
  reads := by
    cases scalar with
    | string => exact .string _
    | integer w => exact .integer w
    | boolean b => exact .boolean b
  single := by cases scalar <;> rfl
  valid := by
    cases scalar with
    | string valid => exact isValid_quoted valid
    | integer w => exact (isBare_toText w).isValid
    | boolean b => exact (isBare_boolean b).isValid
  printed := by
    cases scalar with
    | string => exact printed_quoted _
    | integer w => exact (isBare_toText w).printed
    | boolean b => exact (isBare_boolean b).printed

/-! ## Sections -/

theorem isBare_key (f : Field) : IsBare f.key := by
  cases f <;> exact .of_all rfl rfl

theorem isBare_name (s : Section) : IsBare s.name := by
  cases s <;> exact .of_all rfl rfl

theorem nodup_keys (s : Section) : (s.fields.map Field.key).Nodup := by
  cases s <;> decide

theorem nodup_names : (Section.all.map Section.name).Nodup := by decide

theorem section?_name (s : Section) : section? s.name = some s := by
  cases s <;> rfl

theorem field?_key (s : Section) : ∀ f ∈ s.fields, field? s f.key = some f := by
  cases s <;> decide

def texts (m : Manifest) : List Text :=
  [m.name, m.version, m.entry, m.output, m.logFile]

section Writing

variable {m : Manifest} (valid : ∀ t ∈ m.texts, t.isValid = true)

include valid in
theorem isScalar_get (f : Field) : IsScalar (m.get f) := by
  simp only [texts, List.forall_mem_cons] at valid
  obtain ⟨name, version, entry, output, logFile, -⟩ := valid
  cases f with
  | name => exact .string name
  | version => exact .string version
  | entry => exact .string entry
  | output => exact .string output
  | logFile => exact .string logFile
  | memory | stepLimit | stack | callDepth | verbosity => exact .integer _
  | trace => exact .boolean _

def block (s : Section) : Toml.Block where
  name := s.name
  lines := s.fields.map fun f =>
    scalarLine f.key (isBare_key f) (isScalar_get valid f)
  bare := isBare_name s
  distinct := by
    rw [List.map_map]
    exact nodup_keys s

theorem spelling_block (s : Section) :
    (block valid s).spelling = m.sectionText s := by
  rw [Block.spelling, block, List.flatMap_map]
  rfl

def blocks : List Toml.Block :=
  Section.all.map (block valid)

theorem nodup_blocks : ((blocks valid).map Block.name).Nodup := by
  rw [blocks, List.map_map]
  exact nodup_names

theorem read?_encode : Toml.read? m.encode =
    some { root := (blocks valid).map Block.entry,
           mentioned := ((blocks valid).flatMap Block.mentions).reverse } := by
  have text : m.encode =
      Text.join [Text.newline] ((blocks valid).map Block.spelling) := by
    rw [encode, blocks, List.map_map]
    simp only [Function.comp_def, spelling_block]
  rw [text]
  exact read?_blocks (nodup_blocks valid)

end Writing

/-! ## Setting the fields -/

/-- Take over a field from another manifest. -/
def takeOver (m : Manifest) (target : Manifest) (f : Field) : Manifest :=
  (target.set f (m.get f)).getD target

theorem set_get (m target : Manifest) (f : Field) :
    target.set f (m.get f) = some (m.takeOver target f) := by
  cases f <;> rfl

theorem setEntries_fields (s : Section) {fields : List Field}
    (inside : ∀ f ∈ fields, f ∈ s.fields) (m target : Manifest) :
    setEntries s (fields.map fun f => (f.key, m.get f)) target =
      some (fields.foldl m.takeOver target) := by
  induction fields generalizing target with
  | nil => rfl
  | cons f fields ih =>
      rw [List.forall_mem_cons] at inside
      rw [List.map_cons, setEntries, field?_key s f inside.1]
      simp only [set_get]
      exact ih inside.2 _

section Reading

variable {m : Manifest} (valid : ∀ t ∈ m.texts, t.isValid = true)

theorem setTables_blocks (sections : List Section) (target : Manifest) :
    setTables ((sections.map (block valid)).map Block.entry) target =
      some (sections.foldl (fun target s =>
        s.fields.foldl m.takeOver target) target) := by
  induction sections generalizing target with
  | nil => rfl
  | cons s sections ih =>
      have entry : (block valid s).entry =
          (s.name, .table (s.fields.map fun f => (f.key, m.get f))) := by
        rw [Block.entry, Block.entries, block, List.map_map]
        rfl
      rw [List.map_cons, List.map_cons, entry]
      simp only [setTables, section?_name,
        setEntries_fields s (fun f member => member)]
      exact ih _

theorem isUsed_mention {s : Section} {key : Key}
    (mentioned : key ∈ (block valid s).mentions) :
    isUsed ((blocks valid).map Block.entry) key = true := by
  have listed : block valid s ∈ blocks valid :=
    List.mem_map_of_mem (by cases s <;> decide)
  have present := valueAt?_mention (nodup_blocks valid) listed mentioned
  rw [Block.mentions, List.mem_cons, List.mem_map] at mentioned
  rcases mentioned with rfl | ⟨line, inside, rfl⟩
  · rw [isUsed, present]
    exact congrArg Option.isSome (section?_name s)
  · obtain ⟨f, member, rfl⟩ := List.mem_map.mp inside
    have known : ((section? s.name).any fun s =>
        (field? s f.key).isSome) = true := by
      rw [section?_name, Option.any_some, field?_key s f member]
      rfl
    rw [isUsed, present]
    exact known

include valid in
/-- A manifest is read back as it was written, except for its directory. -/
theorem decode_encode : decode m.encode = .ok { m with dir := [] } := by
  have used : ((blocks valid).flatMap Block.mentions).find?
      (fun key => !isUsed ((blocks valid).map Block.entry) key) = none := by
    rw [List.find?_eq_none]
    intro key mentioned
    rw [blocks, List.flatMap_map] at mentioned
    obtain ⟨s, -, inside⟩ := List.mem_flatMap.mp mentioned
    rw [isUsed_mention valid inside]
    exact Bool.false_ne_true
  have assigned := setTables_blocks valid Section.all {}
  rw [← blocks] at assigned
  simp only [decode, read?_encode valid, assigned, List.reverse_reverse, used]
  rfl

end Reading

end WordMachine.Manifest
