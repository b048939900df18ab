import Mathlib.Algebra.Group.Nat.Defs
import WordMachine.Image.Basic
import WordMachine.Proofs.Assembly.Labels
import WordMachine.Proofs.Image.Fields

/-!
# Loading what was saved

The file of an image reads back as the image, with its tables in the order of
the file, if the reader admits its code and its tables.  Since the writer knows
no limits, there are programs that can be saved but not loaded.
-/

namespace WordMachine

open Cbor

/-! ## The name of an image -/

private theorem ascii_digit {n : UInt8} (small : n.toNat < 16) :
    Text.hexByte.digit n < 0x80 := by
  rw [UInt8.lt_iff_toNat_lt, Text.hexByte.digit]
  split
  · rw [UInt8.toNat_add]
    show (48 + n.toNat) % 2 ^ 8 < 128
    omega
  · rw [UInt8.toNat_add]
    show (87 + n.toNat) % 2 ^ 8 < 128
    omega

private theorem ascii_hexBytes (t : Text) :
    ∀ b ∈ Text.hexBytes t, b < 0x80 := by
  intro b member
  simp only [Text.hexBytes, Text.hexByte, List.mem_flatMap, List.mem_cons,
    List.not_mem_nil, or_false] at member
  obtain ⟨byte, -, rfl | rfl⟩ := member
  · apply ascii_digit
    rw [UInt8.toNat_div]
    exact Nat.div_lt_of_lt_mul byte.toNat_lt
  · apply ascii_digit
    rw [UInt8.toNat_mod]
    exact Nat.mod_lt _ (by decide)

namespace Image

private theorem length_hexBytes (t : Text) :
    (Text.hexBytes t).length = 2 * t.length := by
  induction t with
  | nil => rfl
  | cons b rest ih =>
    rw [Text.hexBytes] at ih ⊢
    simp only [List.flatMap_cons, Text.hexByte, List.length_append,
      List.length_cons, List.length_nil, ih]
    omega

/-- The name of an image consists of digits and hyphens. -/
theorem storable_identity (bytes : Text) : (identity bytes).Storable where
  valid := by
    apply Text.isValid_of_ascii
    intro b member
    simp only [identity, Text.join, List.intercalate, List.intersperse,
      List.flatten_cons, List.mem_append, List.mem_singleton, List.flatten_nil,
      List.not_mem_nil, or_false] at member
    rcases member with digit | rfl | digit | rfl | digit | rfl |
      digit | rfl | digit
    all_goals first | exact ascii_hexBytes _ b digit | decide
  short := by
    simp only [identity, Text.join, List.intercalate, List.intersperse,
      List.flatten_cons, List.flatten_nil, List.append_nil, List.length_append,
      List.length_cons, List.length_nil, length_hexBytes, List.length_take]
    omega

/-! ## Images -/

/-- An image that a file can hold: valid texts and tables, and lengths that a
head can give. -/
structure Storable (img : Image) : Prop where
  id : img.id.Storable
  name : img.name.Storable
  code : img.words.size < 2 ^ 64
  labels : ∀ t ∈ img.labels, t.Storable
  natives : ∀ t ∈ img.natives, t.Storable
  digest : img.digest.length = digestLength

private theorem eq_of_nonEmpty? {s t : NameTable}
    (kept : nonEmpty? s = some t) : s = t := by
  rw [nonEmpty?] at kept
  split at kept
  · cases kept
  · exact Option.some.inj kept

private theorem storable_bind_nonEmpty? {table : Option NameTable}
    (storable : ∀ t ∈ table, t.Storable) :
    ∀ t ∈ table.bind nonEmpty?, t.Storable := by
  intro t given
  obtain ⟨s, present, kept⟩ := Option.bind_eq_some_iff.mp given
  exact eq_of_nonEmpty? kept ▸ storable s present

private theorem storable_map_inKeyOrder {table : Option NameTable}
    (storable : ∀ t ∈ table, t.Storable) :
    ∀ t ∈ table.map NameTable.inKeyOrder, t.Storable := by
  intro t given
  obtain ⟨s, present, rfl⟩ := Option.map_eq_some_iff.mp given
  exact (storable s present).inKeyOrder

theorem Storable.trimmed {img : Image} (storable : img.Storable) :
    img.trimmed.Storable :=
  { storable with
    labels := storable_bind_nonEmpty? storable.labels
    natives := storable_bind_nonEmpty? storable.natives }

theorem Storable.inKeyOrder {img : Image} (storable : img.Storable) :
    img.inKeyOrder.Storable :=
  { storable with
    labels := storable_map_inKeyOrder storable.labels
    natives := storable_map_inKeyOrder storable.natives }

theorem Storable.writable_fields {img : Image} (storable : img.Storable) :
    (Cbor.map (img.fields.map numbered)).Writable := by
  have few := img.numbers_sublist.length_le
  rw [List.length_map] at few
  refine .map ?_ ?_ ?_
  · rw [List.length_map]
    exact Nat.lt_of_le_of_lt few (by decide)
  · intro entry member
    obtain ⟨field, inside, rfl⟩ := List.mem_map.mp member
    exact .unsigned (Nat.lt_trans (number_lt inside) (by decide))
  · intro entry member
    obtain ⟨field, inside, rfl⟩ := List.mem_map.mp member
    simp only [fields, tableFields, List.mem_append, List.mem_cons,
      List.not_mem_nil, or_false, Option.mem_toList,
      Option.map_eq_some_iff] at inside
    rcases inside with
      (((rfl | rfl | rfl) | ⟨t, given, rfl⟩) | ⟨t, given, rfl⟩) |
        rfl | rfl | rfl
    · exact .text (by simpa using storable.id.short)
    · exact .text (by simpa using storable.name.short)
    · exact writable_codeItem storable.code
    · exact writable_tableItem (storable.labels t given)
    · exact writable_tableItem (storable.natives t given)
    · exact writable_wordItem img.entry
    · exact writable_wordItem img.created
    · exact .bytes (by simp [storable.digest, digestLength])

/-- Since no number comes twice, none of the fields is passed over. -/
private theorem readFields_numbered {fields : List (Nat × Cbor)}
    {seen : List Nat} (distinct : (fields.map Prod.fst).Nodup)
    (fresh : ∀ field ∈ fields, field.1 ∉ seen) (img : Image) :
    readFields (fields.map numbered) seen img =
      fields.foldlM (fun img field => img.setField field.1 field.2) img := by
  induction fields generalizing seen img with
  | nil => rfl
  | cons field rest ih =>
    rw [List.map_cons, List.nodup_cons] at distinct
    have new : seen.contains field.1 = false := by
      simpa using fresh field (List.mem_cons_self ..)
    have stillFresh : ∀ other ∈ rest, other.1 ∉ field.1 :: seen := by
      intro other member
      have unseen := fresh other (List.mem_cons_of_mem _ member)
      have unlike : other.1 ≠ field.1 := by
        intro same
        exact distinct.1 (List.mem_map.mpr ⟨other, member, same⟩)
      simp [unlike, unseen]
    simp only [List.map_cons, numbered, readFields, fieldKey?, new,
      List.foldlM_cons, Bool.false_eq_true, if_false]
    cases img.setField field.1 field.2 with
    | none => rfl
    | some next => exact ih distinct.2 stillFresh next

theorem readDigest_bytes {digest : Text}
    (whole : digest.length = digestLength) :
    readDigest (.bytes [digest]) = some digest := by
  simp [readDigest, untagged, fitDigest, ← whole]

theorem ofCbor_fields {img : Image} (storable : img.Storable) :
    ofCbor (.map (img.fields.map numbered)) =
      some { img with version := formatVersion } := by
  have distinct : (img.fields.map Prod.fst).Nodup :=
    img.numbers_sublist.nodup (by decide)
  have idRead := readText_text [] storable.id.valid
  have nameRead := readText_text [] storable.name.valid
  have digestRead := readDigest_bytes storable.digest
  have labels := fun t given => readTable_tableItem (storable.labels t given)
  have natives := fun t given => readTable_tableItem (storable.natives t given)
  rw [ofCbor]
  simp only [untagged]
  rw [readFields_numbered distinct (by simp), fields]
  -- Missing tables have no field, so there are four lists of fields to go
  -- through.
  cases givenLabels : img.labels <;> cases givenNatives : img.natives <;>
    simp_all [tableFields, setField, blank]

/-- Behind the header of a file stands an item that has to be an image. -/
private theorem decode_of_header {body : Text} {read : Option Image}
    (given : (read? body).bind ofCbor = read) :
    decode (magic ++ littleEndian32 formatVersion ++ body) =
      read.elim (.error (bad (Text.ofString "unmarshal"))) fun img =>
        if digestOf img.words = img.digest then .ok img
        else .error (bad (Text.ofString "code hash mismatch")) := by
  have letters : magic.length = 4 := by decide
  have number : (littleEndian32 formatVersion).length = 4 := by decide
  have value : littleEndianValue (littleEndian32 formatVersion) =
      formatVersion := by decide
  have long : ¬ (magic ++ littleEndian32 formatVersion ++ body).length <
      headerLength := by
    simp only [List.length_append, letters, number, headerLength]
    omega
  have first : (magic ++ littleEndian32 formatVersion ++ body).take 4 =
      magic := by
    simp [letters]
  have second :
      ((magic ++ littleEndian32 formatVersion ++ body).drop 4).take 4 =
        littleEndian32 formatVersion := by
    simp [letters, number]
  have behind : (magic ++ littleEndian32 formatVersion ++ body).drop
      headerLength = body := by
    apply List.drop_left'
    rw [List.length_append, letters, number]
    rfl
  rw [decode, if_neg long]
  simp only [behind, first, second, value, ne_eq, not_true_eq_false,
    if_false, given]
  cases read <;> rfl

/-- An image whose digest is right is read back from its file, but for the order
of its tables, unless the reader admits no code or table of that size. -/
theorem decode_encode {img : Image} (storable : img.Storable)
    (whole : digestOf img.words = img.digest) :
    decode img.encode =
      if img.toCbor.fits 0 then
        .ok { img.trimmed.inKeyOrder with version := formatVersion }
      else .error (bad (Text.ofString "unmarshal")) := by
  have writable : img.toCbor.Writable := by
    rw [toCbor_eq]
    exact storable.trimmed.writable_fields
  have read := read?_write writable
  rw [canonical_toCbor] at read
  rw [encode, decode_of_header rfl, read]
  by_cases fitting : img.toCbor.fits 0 = true
  · simp only [fitting, if_true, Option.bind_some,
      ofCbor_fields storable.trimmed.inKeyOrder]
    exact if_pos whole
  · simp [fitting]

/-! ## Images of programs -/

/-- Images that agree in every field.  A missing table is not an empty one. -/
structure Same (a b : Image) : Prop where
  version : a.version = b.version
  id : a.id = b.id
  name : a.name = b.name
  code : a.code = b.code
  labels : Option.Rel NameTable.Agrees a.labels b.labels
  natives : Option.Rel NameTable.Agrees a.natives b.natives
  entry : a.entry = b.entry
  created : a.created = b.created
  digest : a.digest = b.digest

private theorem agrees_map_inKeyOrder (table : Option NameTable) :
    Option.Rel NameTable.Agrees (table.map NameTable.inKeyOrder) table := by
  cases table with
  | none => exact .none
  | some t => exact .some t.agrees_inKeyOrder

theorem same_inKeyOrder (img : Image) : img.inKeyOrder.Same img where
  version := rfl
  id := rfl
  name := rfl
  code := rfl
  labels := agrees_map_inKeyOrder img.labels
  natives := agrees_map_inKeyOrder img.natives
  entry := rfl
  created := rfl
  digest := rfl

private theorem bind_nonEmpty? (t : NameTable) :
    (nonEmpty? t).bind nonEmpty? = nonEmpty? t := by
  cases kept : nonEmpty? t with
  | none => rfl
  | some s =>
    cases eq_of_nonEmpty? kept
    exact kept

private theorem size_nonEmpty? (t : NameTable) :
    ((nonEmpty? t).getD .empty).size = t.size := by
  by_cases empty : t.entries = []
  · simp [nonEmpty?, NameTable.size, NameTable.empty, empty]
  · simp [nonEmpty?, empty]

theorem length_digestOf (code : Array Word) :
    (digestOf code).length = digestLength := by
  simp [digestOf, Sha256.digest, Sha256.bigEndian, digestLength]

section Program

variable {id name : Text} {created : Word} {code : Array Word}
  {labels natives : NameTable}

theorem storable_new (created : Word) (idStored : id.Storable)
    (nameStored : name.Storable) (codeStored : code.size < 2 ^ 64)
    (labelsStored : labels.Storable) (nativesStored : natives.Storable) :
    (Image.new id name created code labels natives).Storable where
  id := idStored
  name := nameStored
  code := codeStored
  labels := by
    intro t kept
    exact eq_of_nonEmpty? kept ▸ labelsStored
  natives := by
    intro t kept
    exact eq_of_nonEmpty? kept ▸ nativesStored
  digest := length_digestOf code

/-- Whether the limits of the reader admit the code and the tables of a
program. -/
def Admitted (code : Array Word) (labels natives : NameTable) : Prop :=
  code.size ≤ maxElements ∧ labels.size ≤ maxElements ∧
    natives.size ≤ maxElements

theorem fits_new :
    (Image.new id name created code labels natives).toCbor.fits 0 = true ↔
      Admitted code labels natives := by
  rw [fits_toCbor, Admitted]
  simp only [words, labelTable, Image.new, Option.getD_some, size_nonEmpty?]

/-- The file of a program gives its image again, or is refused for its size. -/
theorem decode_encode_program
    (storable : (Image.new id name created code labels natives).Storable) :
    let img := Image.new id name created code labels natives
    decode img.encode =
      if img.toCbor.fits 0 then .ok img.inKeyOrder
      else .error (bad (Text.ofString "unmarshal")) := by
  intro img
  have trimmed : { img.trimmed.inKeyOrder with version := formatVersion } =
    img.inKeyOrder := by
    simp only [img, Image.trimmed, Image.inKeyOrder, Image.new, bind_nonEmpty?]
  rw [decode_encode storable rfl, trimmed]

/-- The file of an image can be loaded, to an image with the same fields, and
starting a machine with that is giving it the code and sending it to the
entry. -/
def Loads (img : Image) (code : Array Word) (entry : Word) : Prop :=
  ∃ back, decode img.encode = .ok back ∧ back.Same img ∧
    ∀ m : Machine, m.boot back =
      (m.load code).map fun loaded => { loaded with pc := entry.toInt }

theorem Same.boot {back img : Image} (same : back.Same img) (m : Machine) :
    m.boot back = (m.load img.words).map fun loaded =>
      { loaded with pc := img.entry.toInt } := by
  rw [Machine.boot, words, same.code, ← words, same.entry]
  cases m.load img.words <;> rfl

theorem loads_of_admitted
    (storable : (Image.new id name created code labels natives).Storable)
    (admitted : Admitted code labels natives) :
    (Image.new id name created code labels natives).Loads code
      ((labels.get? entryLabel).getD 0) := by
  have read := decode_encode_program storable
  have same := same_inKeyOrder (.new id name created code labels natives)
  exact ⟨_, read.trans (if_pos (fits_new.mpr admitted)), same, same.boot⟩

theorem refused_of_not_admitted
    (storable : (Image.new id name created code labels natives).Storable)
    (beyond : ¬ Admitted code labels natives) :
    decode (Image.new id name created code labels natives).encode =
      .error (bad (Text.ofString "unmarshal")) := by
  apply (decode_encode_program storable).trans (if_neg _)
  intro fitting
  exact beyond (fits_new.mp fitting)

end Program

/-- Whatever bytes its source has, the labels of a program that was assembled
can be stored. -/
theorem storable_labels {file source : Text} {natives : NameTable}
    {assembled : Assembly.Assembled}
    (result : Assembly.assemble file source natives = .ok assembled)
    (few : assembled.labels.size ≤ maxElements) :
    assembled.labels.Storable where
  short := Nat.lt_of_le_of_lt few (by decide)
  names := by
    intro label member
    obtain ⟨identifier, short⟩ := Assembly.assembled_label result member
    exact ⟨Assembly.isValid_of_isIdentifier identifier,
      Nat.lt_trans short (by decide)⟩

/-- Saving a program and loading it again loses nothing, and a machine started
with what was loaded is one that was given the code itself, so long as the code
and each table have at most `maxElements` elements.  A larger program is saved
all the same, but its file is no image to the reader.  Of programs that were
assembled nothing else has to be known. -/
theorem saved_program_loads (bytes name : Text) (created : Word)
    (natives : NameTable) (nameStored : name.Storable)
    (nativesStored : natives.Storable) :
    (∀ code labels, code.size < 2 ^ 64 → labels.Storable →
      let img := Image.new (identity bytes) name created code labels natives
      (Admitted code labels natives →
        img.Loads code ((labels.get? entryLabel).getD 0)) ∧
      (¬ Admitted code labels natives →
        decode img.encode = .error (bad (Text.ofString "unmarshal")))) ∧
    ∀ file source assembled, Assembly.assemble file source natives =
      .ok assembled → Admitted assembled.code assembled.labels natives →
      (Image.ofAssembled (identity bytes) name created assembled).Loads
        assembled.code ((assembled.labels.get? entryLabel).getD 0) := by
  have idStored := storable_identity bytes
  constructor
  · intro code labels codeStored labelsStored
    have storable := storable_new created idStored nameStored
      codeStored labelsStored nativesStored
    exact ⟨loads_of_admitted storable, refused_of_not_admitted storable⟩
  · intro file source assembled result admitted
    have codeStored : assembled.code.size < 2 ^ 64 :=
      Nat.lt_of_le_of_lt admitted.1 (by decide)
    have labelsStored := storable_labels result admitted.2.1
    rw [ofAssembled, (Assembly.read_of_assemble result).1]
    exact loads_of_admitted
      (storable_new created idStored nameStored codeStored labelsStored
        nativesStored) admitted

/-- Names of which one is beyond ASCII. -/
def wideLabels : NameTable :=
  .ofList [(Text.ofString "café", -1), (Text.ofString "main", 2)]

def wideNatives : NameTable :=
  .ofList [(Text.ofString "print", 1000)]

/-- A program with words at both ends of the range is loaded as it was saved,
and so is one that was assembled. -/
theorem saved_program_loads_wide :
    (Image.new (identity (List.replicate 16 0xA5)) (Text.ofString "wide") (-1)
        #[0, -9223372036854775808, 9223372036854775807] wideLabels
          wideNatives).Loads
        #[0, -9223372036854775808, 9223372036854775807] 2 ∧
      ∃ assembled,
        Assembly.assemble []
          (Text.ofString "noop\nmain: jump main\n") wideNatives =
          .ok assembled ∧
        (Image.ofAssembled (identity (List.replicate 16 0xA5))
          (Text.ofString "wide") (-1) assembled).Loads assembled.code 1 := by
  obtain ⟨given, made⟩ :=
    saved_program_loads (List.replicate 16 0xA5) (Text.ofString "wide") (-1)
    wideNatives (by decide) (by decide)
  constructor
  · exact (given _ wideLabels (by decide) (by decide)).1 ⟨by decide,
      by decide, by decide⟩
  · have loads := made [] (Text.ofString "noop\nmain: jump main\n") _ rfl
      ⟨by decide, by decide, by decide⟩
    exact ⟨_, rfl, loads⟩

/-- Code of one word more than the reader admits is saved but not loaded. -/
theorem long_program_refused :
    decode (Image.new (Text.ofString "x") (Text.ofString "big") 0
        (Array.replicate (maxElements + 1) 0) .empty .empty).encode =
      .error (bad (Text.ofString "unmarshal")) := by
  have storableId : (Text.ofString "x").Storable := by decide
  have storableName : (Text.ofString "big").Storable := by decide
  have empty : NameTable.empty.Storable := by decide
  have short : (Array.replicate (maxElements + 1) (0 : Word)).size <
      2 ^ 64 := by
    rw [Array.size_replicate]
    decide
  apply refused_of_not_admitted
    (storable_new 0 storableId storableName short empty empty)
  rintro ⟨within, -, -⟩
  rw [Array.size_replicate] at within
  exact Nat.not_succ_le_self _ within

end Image

end WordMachine
