import WordMachine.Proofs.Cbor.KeyOrder
import WordMachine.Proofs.Cbor.Limits
import WordMachine.Proofs.Image.RoundTrip
import WordMachine.Proofs.Text
import Mathlib.Algebra.Group.Nat.Defs
import Mathlib.Data.List.Nodup

/-!
# Writing what was read

The reader takes many files that the writer would not write.  Whatever it takes,
the image it returns can be written, is read back with the same fields, and is
then written as the same bytes.  The order in which the tables list their names
has no part in this.
-/

namespace WordMachine

open Cbor

namespace Image

/-! ## What fields are read as -/

section Fields

variable {item : Cbor}

theorem sized_of_untagged {inner : Cbor} (sized : item.Sized)
    (found : untagged item = some inner) : inner.Sized := by
  fun_induction untagged item with
  | case1 => exact Option.some.inj found ▸ sized
  | case2 tag content allowed small ih => exact ih sized.content found
  | case3 => cases found
  | case4 => exact Option.some.inj found ▸ sized

theorem storable_of_readText {previous t : Text} (sized : item.Sized)
    (before : previous.Storable) (read : readText previous item = some t) :
    t.Storable := by
  rw [readText] at read
  split at read
  next chunks found =>
    split at read
    next valid =>
      cases read
      exact ⟨Text.isValid_flatten valid, (sized_of_untagged sized found).text⟩
    next => cases read
  next =>
    split at read
    next =>
      cases read
      exact before
    next => cases read
  next => cases read

theorem length_of_readWords {items : List Cbor} {done ws : List Word}
    (read : readWords items done = some ws) :
    ws.length = done.length + items.length := by
  fun_induction readWords items done with
  | case1 =>
    cases read
    simp
  | case2 done item rest w found ih =>
    rw [ih read, List.length_cons, List.length_cons]
    omega
  | case3 => cases read

theorem size_of_readCode {code : Option (Array Word)} (sized : item.Sized)
    (read : readCode item = some code) :
    (code.getD #[]).size ≤ maxElements := by
  rw [readCode] at read
  split at read
  next elements found =>
    obtain ⟨ws, words, rfl⟩ := Option.map_eq_some_iff.mp read
    have length := length_of_readWords words
    rw [List.length_nil, Nat.zero_add] at length
    simpa [length] using (sized_of_untagged sized found).array
  next =>
    split at read
    next =>
      cases read
      exact Nat.zero_le _
    next => cases read
  next => cases read

/-- Each entry of a map gives a table at most one name, which can be stored. -/
theorem of_readEntries {entries : List (Cbor × Cbor)} {name : Text}
    {address : Word} {table t : NameTable}
    (sized : ∀ entry ∈ entries, entry.1.Sized) (before : name.Storable)
    (stored : ∀ other ∈ table.names, other.Storable)
    (read : readEntries entries name address table = some t) :
    (∀ other ∈ t.names, other.Storable) ∧
      t.size ≤ table.size + entries.length := by
  fun_induction readEntries entries name address table with
  | case1 =>
    cases read
    exact ⟨stored, Nat.le_refl _⟩
  | case2 key value rest name address table newName newAddress readAddress
      readName ih =>
    have here := storable_of_readText (sized _ (List.mem_cons_self ..))
      before readName
    have storedNext : ∀ other ∈ (table.insert newName newAddress).names,
        other.Storable := by
      intro other member
      rcases NameTable.mem_map_fst_setEntry.mp member with rfl | old
      · exact here
      · exact stored other old
    obtain ⟨names, size⟩ :=
      ih (fun entry member => sized entry (List.mem_cons_of_mem _ member))
      here storedNext read
    have grown := table.size_insert_le newName newAddress
    exact ⟨names, by rw [List.length_cons]; omega⟩
  | case3 => cases read

theorem of_readTable {table : Option NameTable} (sized : item.Sized)
    (read : readTable item = some table) :
    ∀ t ∈ table, t.Storable ∧ t.size ≤ maxElements := by
  rw [readTable] at read
  split at read
  next entries found =>
    obtain ⟨t, readAll, rfl⟩ := Option.map_eq_some_iff.mp read
    obtain ⟨few, each⟩ := (sized_of_untagged sized found).map
    obtain ⟨names, size⟩ :=
      of_readEntries (fun entry member => (each entry member).1)
      (by decide) (by intro other member; cases member) readAll
    have within : t.size ≤ maxElements := by
      have empty : NameTable.empty.size = 0 := rfl
      omega
    rintro t ⟨⟩
    exact ⟨⟨Nat.lt_of_le_of_lt within (by decide), names⟩, within⟩
  next =>
    split at read
    next =>
      cases read
      intro t member
      cases member
    next => cases read
  next => cases read

theorem length_fitDigest (bytes : Text) :
    (fitDigest bytes).length = digestLength := by
  rw [fitDigest, List.length_append, List.length_take, List.length_replicate]
  omega

theorem length_of_readDigest {digest : Text}
    (read : readDigest item = some digest) :
    digest.length = digestLength := by
  rw [readDigest] at read
  split at read
  next =>
    cases read
    exact length_fitDigest _
  next =>
    cases read
    exact length_fitDigest _
  next =>
    obtain ⟨bytes, -, rfl⟩ := Option.map_eq_some_iff.mp read
    exact length_fitDigest _
  next =>
    split at read
    next =>
      cases read
      exact length_fitDigest _
    next => cases read
  next => cases read

end Fields

/-! ## Images that were read -/

/-- An image that can be stored and that the limits of the reader admit. -/
structure Reloadable (img : Image) : Prop where
  version : img.version = formatVersion
  storable : img.Storable
  code : img.words.size ≤ maxElements
  labels : ∀ t ∈ img.labels, t.size ≤ maxElements
  natives : ∀ t ∈ img.natives, t.size ≤ maxElements

theorem reloadable_blank : blank.Reloadable where
  version := rfl
  storable :=
    { id := by decide
      name := by decide
      code := by decide
      labels := by
        intro t member
        cases member
      natives := by
        intro t member
        cases member
      digest := rfl }
  code := Nat.zero_le _
  labels := by
    intro t member
    cases member
  natives := by
    intro t member
    cases member

/-- One field is replaced by what was read, and the others stay. -/
theorem Reloadable.setField {img next : Image} {key : Nat} {item : Cbor}
    (reloadable : img.Reloadable) (sized : item.Sized)
    (assigned : img.setField key item = some next) : next.Reloadable := by
  have storable := reloadable.storable
  have empty : Text.Storable [] := by decide
  unfold Image.setField at assigned
  split at assigned
  next =>
    obtain ⟨t, read, rfl⟩ := Option.map_eq_some_iff.mp assigned
    exact { reloadable with
      storable := { storable with
        id := storable_of_readText sized empty read } }
  next =>
    obtain ⟨t, read, rfl⟩ := Option.map_eq_some_iff.mp assigned
    exact { reloadable with
      storable := { storable with
        name := storable_of_readText sized empty read } }
  next =>
    obtain ⟨code, read, rfl⟩ := Option.map_eq_some_iff.mp assigned
    have size := size_of_readCode sized read
    exact { reloadable with
      storable := { storable with code := Nat.lt_of_le_of_lt size (by decide) }
      code := size }
  next =>
    obtain ⟨table, read, rfl⟩ := Option.map_eq_some_iff.mp assigned
    have each := of_readTable sized read
    exact { reloadable with
      storable := { storable with labels := fun t member => (each t member).1 }
      labels := fun t member => (each t member).2 }
  next =>
    obtain ⟨table, read, rfl⟩ := Option.map_eq_some_iff.mp assigned
    have each := of_readTable sized read
    exact { reloadable with
      storable := { storable with natives := fun t member => (each t member).1 }
      natives := fun t member => (each t member).2 }
  next =>
    obtain ⟨w, -, rfl⟩ := Option.map_eq_some_iff.mp assigned
    exact { reloadable with storable := { storable with } }
  next =>
    obtain ⟨w, -, rfl⟩ := Option.map_eq_some_iff.mp assigned
    exact { reloadable with storable := { storable with } }
  next =>
    obtain ⟨digest, read, rfl⟩ := Option.map_eq_some_iff.mp assigned
    exact { reloadable with
      storable := { storable with digest := length_of_readDigest read } }
  next => exact Option.some.inj assigned ▸ reloadable

theorem Reloadable.readFields {entries : List (Cbor × Cbor)} {seen : List Nat}
    {img next : Image} (reloadable : img.Reloadable)
    (sized : ∀ entry ∈ entries, entry.2.Sized)
    (read : Image.readFields entries seen img = some next) :
    next.Reloadable := by
  induction entries generalizing seen img with
  | nil => exact Option.some.inj read ▸ reloadable
  | cons entry rest ih =>
    obtain ⟨key, item⟩ := entry
    have sizedRest : ∀ entry ∈ rest, entry.2.Sized := by
      intro entry member
      exact sized entry (List.mem_cons_of_mem _ member)
    rw [Image.readFields] at read
    split at read
    next => cases read
    next => exact ih reloadable sizedRest read
    next =>
      split at read
      next => exact ih reloadable sizedRest read
      next =>
        split at read
        next assigned =>
          have here := sized (key, item) (List.mem_cons_self ..)
          exact ih (reloadable.setField here assigned) sizedRest read
        next => cases read

theorem reloadable_of_ofCbor {item : Cbor} {img : Image} (sized : item.Sized)
    (read : ofCbor item = some img) : img.Reloadable := by
  rw [ofCbor] at read
  split at read
  next entries found =>
    have each := (sized_of_untagged sized found).map.2
    exact reloadable_blank.readFields (fun entry member =>
      (each entry member).2) read
  next =>
    split at read
    next =>
      cases read
      exact reloadable_blank
    next => cases read
  next => cases read

/-- Reading a file gives an image that can be written and read again, with the
digest of its code, or fails for a bad image. -/
theorem decode_cases (data : Text) :
    (∃ img, decode data = .ok img ∧ img.digest = digestOf img.words ∧
      (data.length < 2 ^ 64 → img.Reloadable)) ∨
    ∃ detail, decode data = .error (bad detail) := by
  unfold decode
  split
  · exact .inr ⟨_, rfl⟩
  dsimp only
  split
  · exact .inr ⟨_, rfl⟩
  split
  · exact .inr ⟨_, rfl⟩
  split
  next => exact .inr ⟨_, rfl⟩
  next img read =>
    obtain ⟨item, found, ofItem⟩ := Option.bind_eq_some_iff.mp read
    split
    next whole =>
      refine .inl ⟨img, rfl, whole.symm, ?_⟩
      intro short
      refine reloadable_of_ofCbor (sized_of_read? found ?_) ofItem
      rw [List.length_drop]
      omega
    next => exact .inr ⟨_, rfl⟩

/-! ## The order of tables -/

theorem write_name_injective {name other : Text} (short : name.length < 2 ^ 64)
    (otherShort : other.length < 2 ^ 64)
    (same : write (.text [name]) = write (.text [other])) : name = other := by
  have own := read?_write
    (.text (by simpa using short) : (Cbor.text [name]).Writable)
  have others := read?_write
    (.text (by simpa using otherShort) : (Cbor.text [other]).Writable)
  rw [same, others] at own
  simpa [fits, canonical] using own.symm

/-- Tables with the same entries are listed in the same order. -/
theorem inKeyOrder_eq_of_agrees {s t : NameTable} (agrees : s.Agrees t)
    (storable : t.Storable) :
    s.inKeyOrder = t.inKeyOrder := by
  have distinct : (t.names.map fun name => write (.text [name])).Nodup := by
    apply t.nodup.map_on
    intro name member other otherMember same
    exact write_name_injective (storable.names name member).short
      (storable.names other otherMember).short same
  rw [NameTable.names, List.map_map] at distinct
  exact NameTable.ext
    (inOrderOf_eq_of_perm _ (NameTable.perm_of_agrees agrees) distinct)

theorem write_tableItem (t : NameTable) :
    (tableItem t).write =
      head 5 t.size ++ writeAll
        (inTurn (t.inKeyOrder.entries.map entryItems)) := by
  rw [tableItem_eq, write_map, ← entryItems_inKeyOrder, List.length_map,
    NameTable.size]

theorem write_tableItem_congr {s t : NameTable} (agrees : s.Agrees t)
    (storable : t.Storable) :
    (tableItem s).write = (tableItem t).write := by
  have size : s.size = t.size := (NameTable.perm_of_agrees agrees).length_eq
  rw [write_tableItem, write_tableItem, size,
    inKeyOrder_eq_of_agrees agrees storable]

/-! ## Images that differ in the order of their tables -/

/-- Images that agree in every field.  An empty table counts as a missing one,
and the order in which a table lists its names does not count. -/
structure Alike (a b : Image) : Prop where
  version : a.version = b.version
  id : a.id = b.id
  name : a.name = b.name
  code : a.code = b.code
  labels : (a.labels.getD .empty).Agrees (b.labels.getD .empty)
  natives : (a.natives.getD .empty).Agrees (b.natives.getD .empty)
  entry : a.entry = b.entry
  created : a.created = b.created
  digest : a.digest = b.digest

def writtenFields (fields : List (Nat × Cbor)) : List (Nat × Text) :=
  fields.map fun field => (field.1, field.2.write)

theorem writtenFields_append (first second : List (Nat × Cbor)) :
    writtenFields (first ++ second) = writtenFields first ++
      writtenFields second :=
  List.map_append

theorem write_toCbor (img : Image) :
    img.toCbor.write =
      head 5 (writtenFields img.trimmed.fields).length ++
        (writtenFields img.trimmed.fields).flatMap fun field =>
          head 0 field.1 ++ field.2 := by
  rw [toCbor_eq, write_map, inKeyOrder_numbered, List.length_map, writtenFields,
    List.length_map, writeAll, inTurn, List.flatMap_assoc, List.flatMap_map,
    List.flatMap_map]
  simp [numbered, write]

theorem bind_nonEmpty?_eq (table : Option NameTable) :
    table.bind nonEmpty? = nonEmpty? (table.getD .empty) := by
  cases table <;> rfl

theorem writtenFields_table_congr {s t : Option NameTable} (number : Nat)
    (agrees : (s.getD .empty).Agrees (t.getD .empty))
    (storable : ∀ u ∈ t, u.Storable) :
    writtenFields (tableFields number (s.bind nonEmpty?)) =
      writtenFields (tableFields number (t.bind nonEmpty?)) := by
  have stored : (t.getD .empty).Storable := by
    cases t with
    | none => decide
    | some u => exact storable u rfl
  have same : (s.getD .empty).entries.isEmpty =
      (t.getD .empty).entries.isEmpty :=
    (NameTable.perm_of_agrees agrees).isEmpty_eq
  rw [bind_nonEmpty?_eq, bind_nonEmpty?_eq, nonEmpty?, nonEmpty?, same]
  split
  · rfl
  · simp [tableFields, writtenFields, write_tableItem_congr agrees stored]

/-- The bytes of a file do not depend on the order in which tables list their
names. -/
theorem Alike.encode {a b : Image} (alike : a.Alike b) (storable : b.Storable) :
    a.encode = b.encode := by
  have labels := writtenFields_table_congr 4 alike.labels storable.labels
  have natives := writtenFields_table_congr 5 alike.natives storable.natives
  have same : writtenFields a.trimmed.fields =
      writtenFields b.trimmed.fields := by
    simp only [fields, trimmed, writtenFields_append, labels, natives,
      alike.id, alike.name, alike.code, alike.entry,
      alike.created, alike.digest]
  rw [Image.encode, Image.encode, write_toCbor, write_toCbor, same]

/-! ## Reading and writing again -/

theorem agrees_listed (table : Option NameTable) :
    (((table.bind nonEmpty?).map NameTable.inKeyOrder).getD .empty).Agrees
      (table.getD .empty) := by
  rw [bind_nonEmpty?_eq, nonEmpty?]
  split
  next empty =>
    apply NameTable.agrees_of_perm
    rw [List.isEmpty_iff.mp empty]
    exact .nil
  next => exact NameTable.agrees_inKeyOrder _

/-- What an image is read back as. -/
def readBack (img : Image) : Image :=
  { img.trimmed.inKeyOrder with version := formatVersion }

theorem Reloadable.decode_encode {img : Image} (reloadable : img.Reloadable)
    (whole : img.digest = digestOf img.words) :
    decode img.encode = .ok img.readBack := by
  have atMost : ∀ table : Option NameTable,
      (∀ t ∈ table, t.size ≤ maxElements) →
      (table.getD .empty).size ≤ maxElements := by
    intro table each
    cases table with
    | none => exact Nat.zero_le _
    | some t => exact each t rfl
  have fitting : img.toCbor.fits 0 = true := fits_toCbor img |>.mpr
    ⟨reloadable.code, atMost _ reloadable.labels, atMost _ reloadable.natives⟩
  exact (Image.decode_encode reloadable.storable whole.symm).trans
    (if_pos fitting)

theorem Reloadable.alike_readBack {img : Image} (reloadable : img.Reloadable) :
    img.readBack.Alike img where
  version := reloadable.version.symm
  id := rfl
  name := rfl
  code := rfl
  labels := agrees_listed img.labels
  natives := agrees_listed img.natives
  entry := rfl
  created := rfl
  digest := rfl

theorem Storable.readBack {img : Image} (storable : img.Storable) :
    img.readBack.Storable :=
  { storable.trimmed.inKeyOrder with }

/-- However its tables list their names, the file of an image is read back with
the same fields, and what was read is written as that file again. -/
def Rewrites (img : Image) : Prop :=
  ∀ a : Image, a.Alike img →
    ∃ back, decode a.encode = .ok back ∧ back.Alike img ∧
      ∀ b : Image, b.Alike back → b.encode = a.encode

theorem Reloadable.rewrites {img : Image} (reloadable : img.Reloadable)
    (whole : img.digest = digestOf img.words) : img.Rewrites := by
  intro a alike
  have same := alike.encode reloadable.storable
  have back := reloadable.alike_readBack
  refine ⟨img.readBack, ?_, back, ?_⟩
  · rw [same]
    exact reloadable.decode_encode whole
  · intro b alikeBack
    rw [alikeBack.encode reloadable.storable.readBack,
      back.encode reloadable.storable, same]

/-- Whatever bytes are taken for an image file, the image is of the current
version, has the digest of its code, and can be written, read and written again
without a change.  Bytes that are not taken are refused as a bad image. -/
theorem decoded_image_stable (data : Text) (short : data.length < 2 ^ 64) :
    (∃ img, decode data = .ok img ∧ img.version = formatVersion ∧
      img.digest = digestOf img.words ∧ img.Rewrites) ∨
    ∃ fault, decode data = .error fault ∧ fault.cause = .badImage := by
  rcases decode_cases data with ⟨img, read, whole, reloadable⟩ |
    ⟨detail, failed⟩
  · have kept := reloadable short
    exact .inl ⟨img, read, kept.version, whole, kept.rewrites whole⟩
  · exact .inr ⟨bad detail, failed, rfl⟩

/-- A file that the writer would not write: a tag in front, fields out of order,
one under the text of its number and one twice, an unknown one, an integer and a
name of indefinite length in longer forms than needed, a table with a null and
an empty table. -/
def scrambledFile : Text :=
  magic ++ littleEndian32 formatVersion ++
  [0xD9, 0xD9, 0xF7, 0xBF,
    0x08, 0x58, 0x20,
      0x22, 0x0E, 0xAB, 0xF7, 0xA8, 0x83, 0xB9, 0x42, 0x3A, 0x7E, 0x29, 0xC2,
      0xE3, 0x8A, 0xED, 0xDD, 0x63, 0x0C, 0x37, 0xDC, 0x5C, 0xAA, 0xB0, 0xD6,
      0xC7, 0xA8, 0x1D, 0xA3, 0x6E, 0x63, 0x32, 0x7D,
    0x07, 0x20,
    0x06, 0x18, 0x02,
    0x05, 0xA0,
    0x04, 0xA2, 0x61, 0x62, 0xF6, 0x61, 0x61, 0x05,
    0x03, 0x82, 0x01, 0xC2, 0x41, 0x07,
    0x02, 0x7F, 0x61, 0x77, 0x61, 0x6D, 0xFF,
    0x61, 0x31, 0x61, 0x78, 0x01, 0x61, 0x79,
    0x09, 0xF5, 0xFF]

/-- What that file says. -/
def IsScrambled (img : Image) : Prop :=
  (img.id, img.name, img.words, img.entry, img.created) =
      (Text.ofString "x", Text.ofString "wm", #[1, 7], 2, -1) ∧
    img.labels.map NameTable.entries =
      some [(Text.ofString "b", 0), (Text.ofString "a", 5)] ∧
    img.natives.map NameTable.entries = some []

instance (img : Image) : Decidable img.IsScrambled :=
  inferInstanceAs (Decidable (_ ∧ _ ∧ _))

theorem decoded_image_stable_scrambled :
    scrambledFile.length < 2 ^ 64 ∧
    ∃ img, decode scrambledFile = .ok img ∧ img.IsScrambled ∧
      img.version = formatVersion ∧
      img.digest = digestOf img.words ∧ img.Rewrites := by
  have short : scrambledFile.length < 2 ^ 64 := by decide
  have said : (decode scrambledFile).toOption.map (fun img =>
      decide img.IsScrambled) =
      some true := by
    decide +kernel
  refine ⟨short, ?_⟩
  rcases decoded_image_stable scrambledFile short with
    ⟨img, read, version, whole, rewrites⟩ | ⟨fault, failed, -⟩
  · rw [read] at said
    exact ⟨img, read, of_decide_eq_true (Option.some.inj said), version,
      whole, rewrites⟩
  · rw [failed] at said
    cases said

end Image

end WordMachine
