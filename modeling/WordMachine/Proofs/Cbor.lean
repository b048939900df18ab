import WordMachine.Cbor.Reader
import WordMachine.Cbor.Writer
import Mathlib.Algebra.Group.Nat.Defs

/-!
# Reading back what was written

A written item reads back as its canonical form: strings in one chunk and the
entries of maps in the order of their keys.  That is so exactly if the item
keeps to the limits of the reader, since the writer knows no limits.
-/

namespace WordMachine.Cbor

/-! ## Numbers -/

theorem bigEndianBytes_succ (count n : Nat) :
    bigEndianBytes (count + 1) n = (n / 256 ^ count).toUInt8 ::
      bigEndianBytes count n := by
  simp only [bigEndianBytes, List.range_succ_eq_map, List.map_cons,
    List.map_map, Nat.pow_eq]
  refine congrArg _ (List.map_congr_left ?_)
  intro i _
  have shift : count + 1 - 1 - (i + 1) = count - 1 - i := by omega
  simp only [Function.comp_apply, Nat.succ_eq_add_one, shift]

@[simp] theorem length_bigEndianBytes (count n : Nat) :
    (bigEndianBytes count n).length = count := by
  simp [bigEndianBytes]

private theorem foldl_bigEndianBytes (count n start : Nat) :
    (bigEndianBytes count n).foldl (fun n b => n * 256 + b.toNat) start =
      start * 256 ^ count + n % 256 ^ count := by
  induction count generalizing start with
  | zero => simp [bigEndianBytes, Nat.mod_one]
  | succ count ih =>
    rw [bigEndianBytes_succ, List.foldl_cons, ih,
      Nat.mod_pow_succ, Nat.pow_succ]
    have digit : (n / 256 ^ count).toUInt8.toNat = n / 256 ^ count % 256 := by
      simp
    rw [digit, Nat.add_mul, Nat.mul_comm (256 ^ count) (_ % 256), Nat.mul_assoc,
      Nat.mul_comm 256]
    omega

theorem bigEndianValue_bigEndianBytes {count n : Nat}
    (small : n < 256 ^ count) :
    bigEndianValue (bigEndianBytes count n) = n := by
  rw [bigEndianValue, foldl_bigEndianBytes, Nat.mod_eq_of_lt small]
  omega

@[simp] theorem takeBytes?_append (t rest : Text) :
    takeBytes? t.length (t ++ rest) = some (t, rest) := by
  simp [takeBytes?]

/-! ## Heads -/

/-- The low bits of the first byte of a head, which tell where its argument
is. -/
def headLow (argument : Nat) : Nat :=
  if argument < 24 then argument
  else if argument < 2 ^ 8 then 24
  else if argument < 2 ^ 16 then 25
  else if argument < 2 ^ 32 then 26
  else 27

/-- The number of bytes behind the first byte of a head. -/
def argumentWidth (argument : Nat) : Nat :=
  if argument < 24 then 0
  else if argument < 2 ^ 8 then 1
  else if argument < 2 ^ 16 then 2
  else if argument < 2 ^ 32 then 4
  else 8

theorem head_eq (major n : Nat) :
    head major n =
      (major * 32 + headLow n).toUInt8 ::
        bigEndianBytes (argumentWidth n) n := by
  simp only [head, headLow, argumentWidth, Nat.pow_eq]
  split
  · rfl
  split
  · rfl
  split
  · rfl
  split <;> rfl

theorem headLow_lt (n : Nat) : headLow n < 32 := by
  grind [headLow]

/-- The low bits and the widths that go with them. -/
theorem headLow_argumentWidth {n : Nat} (long : 24 ≤ n) (small : n < 2 ^ 64) :
    (headLow n, argumentWidth n) ∈ [(24, 1), (25, 2), (26, 4), (27, 8)] ∧
      n < 256 ^ argumentWidth n := by
  have notShort : ¬ n < 24 := by omega
  simp only [headLow, argumentWidth, notShort, if_false]
  split
  next below => exact ⟨by decide, below⟩
  split
  next below => exact ⟨by decide, below⟩
  split
  next below => exact ⟨by decide, below⟩
  · exact ⟨by decide, small⟩

private theorem toNat_initial {major low : Nat} (known : major < 8)
    (small : low < 32) :
    (major * 32 + low).toUInt8.toNat = major * 32 + low := by
  simp
  omega

private theorem readHead?_sized {major low count n : Nat} (rest : Text)
    (known : major < 8)
    (sized : (low, count) ∈ [(24, 1), (25, 2), (26, 4), (27, 8)])
    (small : n < 256 ^ count) (assigned : ¬ (major = 7 ∧ low = 24 ∧ n < 32)) :
    readHead? ((major * 32 + low).toUInt8 :: (bigEndianBytes count n ++ rest)) =
      some (⟨major, low, .value n⟩, rest) := by
  have taken : takeBytes? count (bigEndianBytes count n ++ rest) =
      some (bigEndianBytes count n, rest) := by
    simpa using takeBytes?_append (bigEndianBytes count n) rest
  have value := bigEndianValue_bigEndianBytes small
  have below : low < 32 := by
    simp at sized
    omega
  have quotient : (major * 32 + low) / 32 = major := by omega
  have remainder : (major * 32 + low) % 32 = low := by omega
  simp only [readHead?, toNat_initial known below, quotient, remainder]
  simp only [List.mem_cons, Prod.mk.injEq, List.not_mem_nil, or_false] at sized
  rcases sized with ⟨rfl, rfl⟩ | ⟨rfl, rfl⟩ | ⟨rfl, rfl⟩ | ⟨rfl, rfl⟩ <;>
    simp_all

/-- What the reader makes of a written head.  Simple values have gaps. -/
theorem readHead?_head {major n : Nat} (rest : Text) (known : major < 8)
    (small : n < 2 ^ 64) (assigned : major = 7 → n < 24 ∨ 32 ≤ n) :
    readHead? (head major n ++ rest) =
      some (⟨major, headLow n, .value n⟩, rest) := by
  rw [head_eq, List.cons_append]
  by_cases short : n < 24
  · have low : headLow n = n := if_pos short
    have width : argumentWidth n = 0 := if_pos short
    have quotient : (major * 32 + n) / 32 = major := by omega
    have remainder : (major * 32 + n) % 32 = n := by omega
    rw [low, width]
    simp only [readHead?,
      toNat_initial known (Nat.lt_trans short (by decide)), quotient, remainder,
      short, if_true]
    rfl
  · obtain ⟨sized, below⟩ :=
      headLow_argumentWidth (Nat.le_of_not_lt short) small
    refine readHead?_sized rest known sized below ?_
    rintro ⟨special, -, unassigned⟩
    have := assigned special
    omega

@[simp] theorem startsTag_head {major : Nat} (n : Nat) (rest : Text)
    (known : major < 8) :
    startsTag (head major n ++ rest) = (major == 6) := by
  have below := headLow_lt n
  have quotient : (major * 32 + headLow n) / 32 = major := by omega
  simp only [startsTag, head_eq, List.cons_append, List.head?_cons,
    Option.any_some, toNat_initial known below, quotient]

theorem head_ne_nil (major n : Nat) : head major n ≠ [] := by
  rw [head_eq]
  exact List.cons_ne_nil _ _

/-- Enough fuel for an item is more than enough for what follows its head. -/
private theorem exists_spent {major n fuel : Nat} (body : Text)
    (enough : 2 * (head major n ++ body).length ≤ fuel + 1) :
    ∃ spent, fuel = spent + 1 ∧ 2 * body.length ≤ spent := by
  have positive := List.length_pos_iff.mpr (head_ne_nil major n)
  rw [List.length_append] at enough
  exact ⟨fuel - 1, by omega, by omega⟩

/-! ## Written items -/

/-- The items whose numbers and lengths a head can give, simple values that are
assigned and numbers of the widths there are. -/
inductive Writable : Cbor → Prop
  | unsigned {n : Nat} (small : n < 2 ^ 64) : Writable (.unsigned n)
  | negative {n : Nat} (small : n < 2 ^ 64) : Writable (.negative n)
  | bytes {chunks : List Text} (short : chunks.flatten.length < 2 ^ 64) :
      Writable (.bytes chunks)
  | text {chunks : List Text} (short : chunks.flatten.length < 2 ^ 64) :
      Writable (.text chunks)
  | array {elements : List Cbor} (short : elements.length < 2 ^ 64)
      (each : ∀ element ∈ elements, Writable element) :
      Writable (.array elements)
  | map {entries : List (Cbor × Cbor)} (short : entries.length < 2 ^ 64)
      (keys : ∀ entry ∈ entries, Writable entry.1)
      (values : ∀ entry ∈ entries, Writable entry.2) : Writable (.map entries)
  | tagged {tag : Nat} {content : Cbor} (small : tag < 2 ^ 64)
      (inner : Writable content) :
      Writable (.tagged tag content)
  | simple {n : Nat} (assigned : n < 24 ∨ 32 ≤ n ∧ n < 2 ^ 8) :
      Writable (.simple n)
  | float {width bits : Nat} (known : width = 2 ∨ width = 4 ∨ width = 8)
      (small : bits < 256 ^ width) : Writable (.float width bits)

private theorem writeElements_eq (elements : List Cbor) (done : List Text) :
    writeElements elements done = done.reverse ++ elements.map write := by
  induction elements generalizing done with
  | nil => simp [writeElements]
  | cons item rest ih => simp [writeElements, ih]

private theorem writeEntries_eq (entries : List (Cbor × Cbor))
    (done : List (Text × Text)) :
    writeEntries entries done = done.reverse ++ entries.map fun e =>
      (e.1.write, e.2.write) := by
  induction entries generalizing done with
  | nil => simp [writeEntries]
  | cons entry rest ih => simp [writeEntries, ih]

def writeAll (items : List Cbor) : Text :=
  items.flatMap write

/-- The entries of a map in the order of their written keys. -/
def inKeyOrder (entries : List (Cbor × Cbor)) : List (Cbor × Cbor) :=
  entries.mergeSort fun a b => keyLe a.1.write b.1.write

/-- The keys and values of entries in turn. -/
def inTurn (entries : List (Cbor × Cbor)) : List Cbor :=
  entries.flatMap fun entry => [entry.1, entry.2]

theorem inKeyOrder_perm (entries : List (Cbor × Cbor)) :
    (inKeyOrder entries).Perm entries :=
  List.mergeSort_perm ..

theorem length_inTurn (entries : List (Cbor × Cbor)) :
    (inTurn entries).length = 2 * entries.length := by
  induction entries with
  | nil => rfl
  | cons entry rest ih =>
    rw [inTurn] at ih ⊢
    simp only [List.flatMap_cons, List.length_append, List.length_cons,
      List.length_nil, ih]
    omega

private theorem map_inTurn (f : Cbor → Cbor) (entries : List (Cbor × Cbor)) :
    (inTurn entries).map f = inTurn (entries.map fun e => (f e.1, f e.2)) := by
  simp [inTurn, List.map_flatMap, List.flatMap_map]

theorem all_inTurn (p : Cbor → Bool) (entries : List (Cbor × Cbor)) :
    (inTurn entries).all p = entries.all fun e => p e.1 && p e.2 := by
  simp [inTurn, List.all_flatMap]

theorem write_array (elements : List Cbor) :
    write (.array elements) = head 4 elements.length ++ writeAll elements := by
  simp [write, writeElements_eq, writeAll, List.flatMap_def]

private theorem writeAll_inTurn (entries : List (Cbor × Cbor)) :
    writeAll (inTurn entries) = entries.flatMap fun e =>
      e.1.write ++ e.2.write := by
  simp [writeAll, inTurn, List.flatMap_assoc]

theorem write_map (entries : List (Cbor × Cbor)) :
    write (.map entries) = head 5 entries.length ++
      writeAll (inTurn (inKeyOrder entries)) := by
  have sorted : (inKeyOrder entries).map (fun e => (e.1.write, e.2.write)) =
      (entries.map fun e => (e.1.write, e.2.write)).mergeSort fun a b =>
        keyLe a.1 b.1 :=
    List.map_mergeSort fun _ _ _ _ => rfl
  rw [writeAll_inTurn]
  simp only [write, writeEntries_eq, List.reverse_nil,
    List.nil_append, ← sorted, List.flatMap_map]

/-! ## What is read back -/

def isTagged : Cbor → Bool
  | .tagged _ _ => true
  | _ => false

mutual

/-- Whether an item keeps to the limits of the reader at the given depth. -/
def fits (depth : Nat) : Cbor → Bool
  | .array elements =>
    depth < maxDepth && elements.length ≤ maxElements &&
      allFit (depth + 1) elements
  | .map entries =>
    depth < maxDepth && entries.length ≤ maxElements &&
      entriesFit (depth + 1) entries
  | .tagged _ content =>
    if content.isTagged then depth < maxDepth && fits (depth + 1) content
    else fits depth content
  | _ => true

def allFit (depth : Nat) : List Cbor → Bool
  | [] => true
  | item :: rest => fits depth item && allFit depth rest

def entriesFit (depth : Nat) : List (Cbor × Cbor) → Bool
  | [] => true
  | (key, value) :: rest =>
    fits depth key && fits depth value && entriesFit depth rest

end

mutual

/-- The form in which an item is read back: strings in one chunk and entries in
the order of their keys. -/
def canonical : Cbor → Cbor
  | .bytes chunks => .bytes [chunks.flatten]
  | .text chunks => .text [chunks.flatten]
  | .array elements => .array (canonicalElements elements)
  | .map entries =>
    .map (((keyedEntries entries).mergeSort fun a b =>
      keyLe a.1 b.1).map Prod.snd)
  | .tagged tag content => .tagged tag (canonical content)
  | item => item

def canonicalElements : List Cbor → List Cbor
  | [] => []
  | item :: rest => canonical item :: canonicalElements rest

/-- The entries of a map in canonical form, each with its written key. -/
def keyedEntries : List (Cbor × Cbor) → List (Text × Cbor × Cbor)
  | [] => []
  | (key, value) :: rest =>
    (write key, canonical key, canonical value) :: keyedEntries rest

end

private theorem allFit_eq (depth : Nat) (elements : List Cbor) :
    allFit depth elements = elements.all (fits depth) := by
  induction elements with
  | nil => rfl
  | cons item rest ih => rw [allFit, ih, List.all_cons]

private theorem entriesFit_eq (depth : Nat) (entries : List (Cbor × Cbor)) :
    entriesFit depth entries = entries.all fun e =>
      fits depth e.1 && fits depth e.2 := by
  induction entries with
  | nil => rfl
  | cons entry rest ih => rw [entriesFit, ih, List.all_cons]

private theorem canonicalElements_eq (elements : List Cbor) :
    canonicalElements elements = elements.map canonical := by
  induction elements with
  | nil => rfl
  | cons item rest ih => rw [canonicalElements, ih, List.map_cons]

private theorem keyedEntries_eq (entries : List (Cbor × Cbor)) :
    keyedEntries entries = entries.map fun e =>
      (e.1.write, e.1.canonical, e.2.canonical) := by
  induction entries with
  | nil => rfl
  | cons entry rest ih => rw [keyedEntries, ih, List.map_cons]

theorem fits_array (depth : Nat) (elements : List Cbor) :
    fits depth (.array elements) =
      (depth < maxDepth && elements.length ≤ maxElements &&
        elements.all (fits (depth + 1))) := by
  rw [fits, allFit_eq]

theorem fits_map (depth : Nat) (entries : List (Cbor × Cbor)) :
    fits depth (.map entries) =
      (depth < maxDepth && entries.length ≤ maxElements
        && entries.all fun e =>
          fits (depth + 1) e.1 && fits (depth + 1) e.2) := by
  rw [fits, entriesFit_eq]

theorem canonical_array (elements : List Cbor) :
    canonical (.array elements) = .array (elements.map canonical) := by
  rw [canonical, canonicalElements_eq]

theorem canonical_map (entries : List (Cbor × Cbor)) :
    canonical (.map entries) =
      .map ((inKeyOrder entries).map fun e =>
        (e.1.canonical, e.2.canonical)) := by
  have sorted : (inKeyOrder entries).map (fun e =>
      (e.1.write, e.1.canonical, e.2.canonical)) =
      (entries.map fun e => (e.1.write, e.1.canonical, e.2.canonical)).mergeSort
        fun a b => keyLe a.1 b.1 :=
    List.map_mergeSort fun _ _ _ _ => rfl
  rw [canonical, keyedEntries_eq, ← sorted, List.map_map]
  rfl

/-! ## Reading back -/

/-- At the given depth the item is read back from the front of a text, given
fuel for its length, or refused if it does not fit. -/
def ReadsBack (depth : Nat) (item : Cbor) : Prop :=
  ∀ fuel rest, 2 * item.write.length ≤ fuel + 1 →
    readItem fuel depth (item.write ++ rest) =
      if item.fits depth then some (item.canonical, rest) else none

theorem write_ne_nil {item : Cbor} : item.write ≠ [] := by
  cases item <;> simp [write, head_ne_nil]

/-- Items that read back one by one read back in a row.  Every item takes a
byte, which pays for the two calls that lead to the next one. -/
private theorem readElements_written {depth : Nat} {items : List Cbor}
    (each : ∀ item ∈ items, ReadsBack depth item) (fuel : Nat) (rest : Text)
    (done : List Cbor) (enough : 2 * (writeAll items).length ≤ fuel) :
    readElements fuel depth items.length (writeAll items ++ rest) done =
      if items.all (fits depth) then
        some (done.reverse ++ items.map canonical, rest)
      else none := by
  induction items generalizing fuel done with
  | nil => simp [readElements, writeAll]
  | cons item more ih =>
    have positive : 0 < item.write.length :=
      List.length_pos_iff.mpr write_ne_nil
    have split : writeAll (item :: more) = item.write ++ writeAll more := rfl
    rw [split, List.length_append] at enough
    obtain ⟨spent, rfl⟩ : ∃ spent, fuel = spent + 1 := ⟨fuel - 1, by omega⟩
    rw [split, List.length_cons, readElements, List.append_assoc,
      each item (List.mem_cons_self ..) spent _ (by omega), List.all_cons]
    by_cases fitting : item.fits depth = true
    · simp only [fitting, if_true, Bool.true_and]
      rw [ih (fun other member => each other (List.mem_cons_of_mem _ member))
        spent _ (by omega)]
      simp
    · simp [fitting]

private theorem pairUp_inTurn (entries : List (Cbor × Cbor)) :
    pairUp (inTurn entries) = some entries := by
  -- The pairs made so far are in the way of an induction on `pairUp` itself.
  have behind : ∀ done, pairUp.go (inTurn entries) done =
      some (done.reverse ++ entries) := by
    induction entries with
    | nil => simp [inTurn, pairUp.go]
    | cons entry rest ih =>
      intro done
      rw [inTurn] at ih
      simp [inTurn, pairUp.go, ih]
  exact behind []

private theorem startsTag_write (item : Cbor) (rest : Text) :
    startsTag (item.write ++ rest) = item.isTagged := by
  cases item with
  | float width bits =>
    simp only [write, startsTag, isTagged, List.cons_append, List.head?_cons,
      Option.any_some]
    split
    · rfl
    · split <;> rfl
  | map entries => simp [write_map, isTagged, startsTag_head]
  | _ => simp [write, isTagged, startsTag_head]

namespace ReadsBack

variable {depth : Nat}

private theorem array {elements : List Cbor} (short : elements.length < 2 ^ 64)
    (each : ∀ element ∈ elements, ReadsBack (depth + 1) element) :
    ReadsBack depth (.array elements) := by
  intro fuel rest enough
  rw [write_array] at enough ⊢
  obtain ⟨spent, rfl, left⟩ := exists_spent _ enough
  have elementsRead := readElements_written each spent rest [] left
  rw [List.append_assoc, readItem, readHead?_head _ (by decide) short (by simp)]
  simp only [elementsRead, fits_array, canonical_array]
  grind

private theorem map {entries : List (Cbor × Cbor)}
    (short : entries.length < 2 ^ 64)
    (keys : ∀ entry ∈ entries, ReadsBack (depth + 1) entry.1)
    (values : ∀ entry ∈ entries, ReadsBack (depth + 1) entry.2) :
    ReadsBack depth (.map entries) := by
  have sorted := inKeyOrder_perm entries
  have each : ∀ item ∈ inTurn (inKeyOrder entries),
      ReadsBack (depth + 1) item := by
    intro item member
    simp only [inTurn, List.mem_flatMap, sorted.mem_iff, List.mem_cons,
      List.not_mem_nil, or_false] at member
    obtain ⟨entry, inside, rfl | rfl⟩ := member
    · exact keys entry inside
    · exact values entry inside
  intro fuel rest enough
  rw [write_map] at enough ⊢
  obtain ⟨spent, rfl, left⟩ := exists_spent _ enough
  have itemsRead := readElements_written each spent rest [] left
  rw [length_inTurn, sorted.length_eq, all_inTurn, sorted.all_eq,
    map_inTurn] at itemsRead
  rw [List.append_assoc, readItem, readHead?_head _ (by decide) short (by simp)]
  simp only [itemsRead, fits_map, canonical_map]
  grind [pairUp_inTurn]

/-- A tag counts as a level of its own only in front of another tag. -/
private theorem tagged {tag : Nat} {content : Cbor} (small : tag < 2 ^ 64)
    (here : ReadsBack depth content) (deeper : ReadsBack (depth + 1) content) :
    ReadsBack depth (.tagged tag content) := by
  intro fuel rest enough
  rw [write] at enough ⊢
  obtain ⟨spent, rfl, left⟩ := exists_spent _ enough
  rw [List.append_assoc, readItem, readHead?_head _ (by decide) small (by simp)]
  simp only [startsTag_write, fits, canonical]
  rw [here spent rest (by omega), deeper spent rest (by omega)]
  grind

private theorem simple {n : Nat} (assigned : n < 24 ∨ 32 ≤ n ∧ n < 2 ^ 8) :
    ReadsBack depth (.simple n) := by
  intro fuel rest enough
  rw [write] at enough ⊢
  obtain ⟨spent, rfl, -⟩ := exists_spent [] (by simpa using enough)
  rw [readItem, readHead?_head rest (by decide) (by omega) (by omega)]
  -- Low bits from 25 on would make it a floating-point number.
  have low : headLow n < 25 := by
    grind [headLow]
  simp only [fits, canonical, if_true]
  grind

private theorem float {width bits : Nat}
    (known : width = 2 ∨ width = 4 ∨ width = 8) (small : bits < 256 ^ width) :
    ReadsBack depth (.float width bits) := by
  intro fuel rest enough
  obtain ⟨spent, rfl⟩ : ∃ spent, fuel = spent + 1 := by
    simp only [write, List.length_cons, length_bigEndianBytes] at enough
    exact ⟨fuel - 1, by omega⟩
  rw [write, List.cons_append, readItem]
  rcases known with rfl | rfl | rfl
  · rw [readHead?_sized rest (by decide) (by decide) small (by simp)]
    simp [fits, canonical]
  · rw [readHead?_sized rest (by decide) (by decide) small (by simp)]
    simp [fits, canonical]
  · rw [readHead?_sized rest (by decide) (by decide) small (by simp)]
    simp [fits, canonical]

end ReadsBack

theorem Writable.readsBack {item : Cbor} (writable : item.Writable)
    (depth : Nat) :
    ReadsBack depth item := by
  induction writable generalizing depth with
  | unsigned small | negative small =>
    intro fuel rest enough
    rw [write] at enough ⊢
    obtain ⟨spent, rfl, -⟩ := exists_spent [] (by simpa using enough)
    rw [readItem, readHead?_head rest (by decide) small (by simp)]
    simp only [fits, canonical, if_true]
  | bytes short | text short =>
    intro fuel rest enough
    rw [write] at enough ⊢
    obtain ⟨spent, rfl, -⟩ := exists_spent _ enough
    rw [List.append_assoc, readItem,
      readHead?_head _ (by decide) short (by simp)]
    simp only [takeBytes?_append, Option.map_some, fits, canonical, if_true]
  | array short _ ih =>
    exact .array short fun element member => ih element member (depth + 1)
  | map short _ _ keys values =>
    exact .map short (fun entry member => keys entry member (depth + 1))
      fun entry member => values entry member (depth + 1)
  | tagged small _ ih => exact .tagged small (ih depth) (ih (depth + 1))
  | simple assigned => exact .simple assigned
  | float known small => exact .float known small

/-- A written item is read back in canonical form if it keeps to the limits of
the reader, and is no item to the reader otherwise. -/
theorem read?_write {item : Cbor} (writable : item.Writable) :
    read? item.write = if item.fits 0 then some item.canonical else none := by
  have back := writable.readsBack 0 (2 * item.write.length + 2) [] (by omega)
  rw [List.append_nil] at back
  rw [read?, back]
  by_cases fitting : item.fits 0 = true
  · simp [fitting]
  · simp [fitting]

end WordMachine.Cbor
