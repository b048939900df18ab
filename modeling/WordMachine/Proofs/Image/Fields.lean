import WordMachine.Image.Codec
import WordMachine.Proofs.Cbor
import WordMachine.Proofs.NameTable
import Mathlib.Algebra.Group.Nat.Defs

/-!
# The fields of an image file

An image is written as a map from the numbers of its fields to words, texts,
code and tables.  For each kind of field this module tells what the writer
needs, what the limits of the reader admit, in which form the item comes back
and that reading it gives the field again.  Tables come back in the order of
their written names.
-/

namespace WordMachine

open Cbor

/-- A text that a file can hold: valid, and of a length that a head can give. -/
structure Text.Storable (t : Text) : Prop where
  valid : t.isValid = true
  short : t.length < 2 ^ 64

instance (t : Text) : Decidable t.Storable :=
  decidable_of_iff (t.isValid = true ∧ t.length < 2 ^ 64)
    ⟨fun ⟨valid, short⟩ => ⟨valid, short⟩, fun ⟨valid, short⟩ => ⟨valid, short⟩⟩

namespace NameTable

/-- A table that a file can hold. -/
structure Storable (t : NameTable) : Prop where
  short : t.size < 2 ^ 64
  names : ∀ name ∈ t.names, name.Storable

instance (t : NameTable) : Decidable t.Storable :=
  decidable_of_iff (t.size < 2 ^ 64 ∧ ∀ name ∈ t.names, name.Storable)
    ⟨fun ⟨short, names⟩ => ⟨short, names⟩, fun ⟨short, names⟩ => ⟨short, names⟩⟩

/-- The table in the order in which a file lists its names. -/
def inKeyOrder (t : NameTable) : NameTable where
  entries := t.entries.mergeSort fun a b =>
    keyLe (write (.text [a.1])) (write (.text [b.1]))
  nodup := ((List.mergeSort_perm ..).map Prod.fst).nodup_iff.mpr t.nodup

theorem entries_inKeyOrder_perm (t : NameTable) :
    t.inKeyOrder.entries.Perm t.entries :=
  List.mergeSort_perm ..

theorem agrees_inKeyOrder (t : NameTable) : t.inKeyOrder.Agrees t :=
  agrees_of_perm t.entries_inKeyOrder_perm

theorem Storable.inKeyOrder {t : NameTable} (storable : t.Storable) :
    t.inKeyOrder.Storable where
  short := by
    rw [size, t.entries_inKeyOrder_perm.length_eq]
    exact storable.short
  names := by
    intro name member
    exact storable.names name
      ((t.entries_inKeyOrder_perm.map Prod.fst).mem_iff.mp member)

end NameTable

namespace Image

/-! ## Words and texts -/

theorem writable_wordItem (w : Word) : (wordItem w).Writable := by
  have low := Int64.le_toInt w
  have high := Int64.toInt_lt w
  rw [wordItem]
  cases value : w.toInt with
  | ofNat n =>
      simp only [value, Int.ofNat_eq_natCast] at high
      exact .unsigned (by omega)
  | negSucc n => exact .negative (by omega)

@[simp] theorem fits_wordItem (depth : Nat) (w : Word) :
    (wordItem w).fits depth = true := by
  rw [wordItem]
  cases w.toInt <;> rfl

@[simp] theorem canonical_wordItem (w : Word) :
    (wordItem w).canonical = wordItem w := by
  rw [wordItem]
  cases w.toInt <;> rfl

@[simp] theorem readWord_wordItem (previous w : Word) :
    readWord previous (wordItem w) = some w := by
  have low := Int64.le_toInt w
  have high := Int64.toInt_lt w
  have back : (readInt (-0x8000000000000000) 0x7FFFFFFFFFFFFFFF previous.toInt
      (wordItem w)) = some w.toInt := by
    rw [wordItem]
    cases value : w.toInt with
    | ofNat n =>
      simp only [Cbor.ofInt, readInt, untagged]
      grind
    | negSucc n =>
      simp only [Cbor.ofInt, readInt, untagged]
      grind
  rw [readWord, back, Option.map_some, Int64.ofInt_toInt]

@[simp] theorem readText_text (previous : Text) {t : Text}
    (valid : t.isValid = true) :
    readText previous (.text [t]) = some t := by
  simp [readText, untagged, valid]

/-! ## Code -/

def codeItem : Option (Array Word) → Cbor
  | some code => .array (code.toList.map wordItem)
  | none => .null

theorem writable_codeItem {code : Option (Array Word)}
    (short : (code.getD #[]).size < 2 ^ 64) :
    (codeItem code).Writable := by
  cases code with
  | none => exact .simple (.inl (by decide))
  | some code =>
    refine .array (by simpa using short) ?_
    intro element member
    obtain ⟨w, -, rfl⟩ := List.mem_map.mp member
    exact writable_wordItem w

theorem fits_codeItem (code : Option (Array Word)) :
    (codeItem code).fits 1 = decide ((code.getD #[]).size ≤ maxElements) := by
  cases code with
  | none => rfl
  | some code => simp [codeItem, fits_array, maxDepth]

@[simp] theorem canonical_codeItem (code : Option (Array Word)) :
    (codeItem code).canonical = codeItem code := by
  cases code with
  | none => rfl
  | some code => simp [codeItem, canonical_array]

private theorem readWords_wordItem (ws done : List Word) :
    readWords (ws.map wordItem) done = some (done.reverse ++ ws) := by
  induction ws generalizing done with
  | nil => simp [readWords]
  | cons w rest ih => simp [readWords, ih]

@[simp] theorem readCode_codeItem (code : Option (Array Word)) :
    readCode (codeItem code) = some code := by
  cases code with
  | none => rfl
  | some code => simp [codeItem, readCode, untagged, readWords_wordItem]

/-! ## Tables -/

def entryItems (entry : Text × Word) : Cbor × Cbor :=
  (.text [entry.1], wordItem entry.2)

theorem tableItem_eq (t : NameTable) :
    tableItem t = .map (t.entries.map entryItems) := rfl

theorem writable_tableItem {t : NameTable} (storable : t.Storable) :
    (tableItem t).Writable := by
  rw [tableItem_eq]
  refine .map (by rw [List.length_map]; exact storable.short) ?_ ?_
  · intro entry member
    obtain ⟨⟨name, address⟩, inside, rfl⟩ := List.mem_map.mp member
    have stored := storable.names name (List.mem_map.mpr ⟨_, inside, rfl⟩)
    exact .text (by simpa using stored.short)
  · intro entry member
    obtain ⟨⟨name, address⟩, inside, rfl⟩ := List.mem_map.mp member
    exact writable_wordItem address

theorem fits_tableItem (t : NameTable) :
    (tableItem t).fits 1 = decide (t.size ≤ maxElements) := by
  have entriesFit : (t.entries.map entryItems).all (fun e =>
      e.1.fits 2 && e.2.fits 2) = true := by
    rw [List.all_map, List.all_eq_true]
    intro entry _
    exact fits_wordItem 2 entry.2
  rw [tableItem_eq, fits_map, entriesFit, List.length_map, Bool.and_true]
  rfl

theorem entryItems_inKeyOrder (t : NameTable) :
    t.inKeyOrder.entries.map entryItems =
      Cbor.inKeyOrder (t.entries.map entryItems) :=
  List.map_mergeSort fun _ _ _ _ => rfl

theorem canonical_tableItem (t : NameTable) :
    (tableItem t).canonical = tableItem t.inKeyOrder := by
  rw [tableItem_eq, canonical_map, ← entryItems_inKeyOrder,
    tableItem_eq, List.map_map]
  simp [Function.comp_def, entryItems, canonical]

private theorem readEntries_entryItems {entries : List (Text × Word)}
    {table : NameTable}
    (distinct : ((table.entries ++ entries).map Prod.fst).Nodup)
    (valid : ∀ entry ∈ entries, entry.1.isValid = true) (name : Text)
    (address : Word) :
    readEntries (entries.map entryItems) name address table =
      some ⟨table.entries ++ entries, distinct⟩ := by
  -- The names read so far and those to come stay distinct, so that each entry
  -- goes behind the others.
  induction entries generalizing table name address with
  | nil => simp [readEntries]
  | cons entry rest ih =>
    obtain ⟨here, word⟩ := entry
    have fresh : here ∉ table.names := by
      intro member
      rw [List.map_append, List.nodup_append] at distinct
      exact distinct.2.2 here member here (by simp) rfl
    have moved : (table.insert here word).entries ++ rest =
        table.entries ++ (here, word) :: rest := by
      rw [NameTable.entries_insert_of_fresh word fresh, List.append_assoc,
        List.singleton_append]
    have more := @ih (table.insert here word) (by rwa [moved])
      (fun entry member =>
        valid entry (List.mem_cons_of_mem _ member)) here word
    have read := readText_text name (valid (here, word) (List.mem_cons_self ..))
    simp only [List.map_cons, entryItems, readEntries, read, readWord_wordItem]
    rw [more]
    simp only [moved]

@[simp] theorem readTable_tableItem {t : NameTable} (storable : t.Storable) :
    readTable (tableItem t) = some (some t) := by
  have valid : ∀ entry ∈ t.entries, entry.1.isValid = true := by
    intro entry member
    exact (storable.names entry.1 (List.mem_map_of_mem member)).valid
  have read := @readEntries_entryItems t.entries .empty t.nodup valid [] 0
  rw [tableItem_eq, readTable]
  simp only [untagged, read, Option.map_some]
  rfl

/-! ## Fields -/

/-- The item for a field, under the number of the field. -/
def numbered (field : Nat × Cbor) : Cbor × Cbor :=
  (.unsigned field.1, field.2)

def tableFields (number : Nat) (table : Option NameTable) : List (Nat × Cbor) :=
  (table.map fun t => (number, tableItem t)).toList

/-- The fields of an image in order of their numbers. -/
def fields (img : Image) : List (Nat × Cbor) :=
  [(1, .text [img.id]), (2, .text [img.name]), (3, codeItem img.code)]
    ++ tableFields 4 img.labels ++ tableFields 5 img.natives
    ++ [(6, wordItem img.entry), (7, wordItem img.created),
      (8, .bytes [img.digest])]

/-- The image without tables that have no names. -/
def trimmed (img : Image) : Image :=
  { img with
    labels := img.labels.bind nonEmpty?, natives := img.natives.bind nonEmpty? }

/-- The image with its tables in the order of a file. -/
def inKeyOrder (img : Image) : Image :=
  { img with
    labels := img.labels.map NameTable.inKeyOrder
    natives := img.natives.map NameTable.inKeyOrder }

private theorem tableEntry_eq (number : Nat) (table : Option NameTable) :
    tableEntry number table =
      (tableFields number (table.bind nonEmpty?)).map numbered := by
  cases table with
  | none => rfl
  | some t =>
    by_cases empty : t.entries.isEmpty = true
    · simp [tableEntry, tableFields, nonEmpty?, empty]
    · simp [tableEntry, tableFields, nonEmpty?, empty, numbered]

theorem toCbor_eq (img : Image) :
    img.toCbor = .map (img.trimmed.fields.map numbered) := by
  simp only [toCbor, tableEntry_eq, fields, trimmed, List.map_append]
  rfl

theorem numbers_sublist (img : Image) :
    (img.fields.map Prod.fst).Sublist [1, 2, 3, 4, 5, 6, 7, 8] := by
  rw [fields]
  cases img.labels <;> cases img.natives <;> simp [tableFields]

theorem number_lt {img : Image} {field : Nat × Cbor}
    (member : field ∈ img.fields) :
    field.1 < 24 := by
  have known := img.numbers_sublist.subset (List.mem_map_of_mem member)
  simp at known
  omega

private theorem keyLe_unsigned {m n : Nat} (ordered : m < n) (small : n < 24) :
    keyLe (write (.unsigned m)) (write (.unsigned n)) = true := by
  have shape : ∀ k < 24, write (.unsigned k) = [k.toUInt8] := by
    intro k below
    simp [write, head, below]
  rw [shape m (by omega), shape n small]
  have less : m.toUInt8 < n.toUInt8 := by
    rw [UInt8.lt_iff_toNat_lt]
    simp
    omega
  simp [keyLe, Text.le, less]

theorem inKeyOrder_numbered (img : Image) :
    Cbor.inKeyOrder (img.fields.map numbered) = img.fields.map numbered := by
  have increasing : (img.fields.map Prod.fst).Pairwise (· < ·) :=
    List.Pairwise.sublist img.numbers_sublist (by decide)
  apply List.mergeSort_of_pairwise
  rw [List.pairwise_map] at increasing ⊢
  apply increasing.imp_of_mem
  intro a b _ member ordered
  exact keyLe_unsigned ordered (number_lt member)

theorem canonical_fields (img : Image) :
    img.fields.map (fun field => (field.1, field.2.canonical)) =
      img.inKeyOrder.fields := by
  rw [fields, fields, Image.inKeyOrder]
  cases img.labels <;> cases img.natives <;>
    simp [tableFields, canonical_tableItem, canonical]

theorem canonical_toCbor (img : Image) :
    img.toCbor.canonical =
      .map (img.trimmed.inKeyOrder.fields.map numbered) := by
  rw [toCbor_eq, canonical_map, inKeyOrder_numbered, ← canonical_fields,
    List.map_map, List.map_map]
  rfl

private theorem fits_tableFields (number : Nat) (table : Option NameTable) :
    (tableFields number (table.bind nonEmpty?)).all (fun field =>
      field.2.fits 1) =
      decide ((table.getD .empty).size ≤ maxElements) := by
  cases table with
  | none => rfl
  | some t =>
    by_cases empty : t.entries = []
    · simp [tableFields, nonEmpty?, NameTable.size, empty]
    · simp [tableFields, nonEmpty?, empty, fits_tableItem]

/-- The reader admits the item of an image exactly if it admits its code and
tables. -/
theorem fits_toCbor (img : Image) :
    img.toCbor.fits 0 = true ↔
      img.words.size ≤ maxElements ∧ img.labelTable.size ≤ maxElements ∧
        (img.natives.getD .empty).size ≤ maxElements := by
  have few : img.trimmed.fields.length ≤ maxElements := by
    have atMost := img.trimmed.numbers_sublist.length_le
    rw [List.length_map] at atMost
    exact Nat.le_trans atMost (by decide)
  have fieldsFit : (img.trimmed.fields.map numbered).all (fun e =>
      e.1.fits 1 && e.2.fits 1) =
      img.trimmed.fields.all fun field => field.2.fits 1 := by
    rw [List.all_map]
    rfl
  rw [toCbor_eq, fits_map, fieldsFit, List.length_map, decide_eq_true few]
  simp [fields, trimmed, fits_tableFields, fits_codeItem, maxDepth, fits,
    words, labelTable]

end Image

end WordMachine
