import WordMachine.Proofs.NameTable
import WordMachine.Proofs.Text.Splitting
import WordMachine.Proofs.Toml.Values

/-!
# Tables read back

A document whose tables are written one after another, with one value on a line,
is read back as these tables: each line adds one entry to the table that was
opened last, and each heading adds an empty table.
-/

namespace WordMachine.Toml

/-! ## Gaps -/

theorem skipAll_gap {b : UInt8}
    (gap : (isBlankByte b || isLineEnd b) = true) (t : Text) :
    skipAll (b :: t) = skipAll t := by
  rw [skipAll, List.length_cons, skipGaps, if_pos gap, skipAll]

theorem skipAll_solid {b : UInt8}
    (solid : (isBlankByte b || isLineEnd b) = false)
    (notHash : b ≠ Text.hash) (t : Text) : skipAll (b :: t) = b :: t := by
  rw [skipAll, List.length_cons, skipGaps, solid, if_neg Bool.false_ne_true,
    if_neg notHash]

theorem skipBlanks_solid {b : UInt8}
    (solid : isBlankByte b = false) (t : Text) :
    skipBlanks (b :: t) = b :: t := by
  rw [skipBlanks, List.dropWhile_cons, solid]
  rfl

theorem endLine_newline (t : Text) : endLine (Text.newline :: t) = some t :=
  rfl

/-! ## Keys -/

/-- A key that is written without quotes. -/
structure IsBare (key : Text) : Prop where
  nonempty : key ≠ []
  bytes : ∀ b ∈ key, isBareByte b = true

/-- What the byte of a key is not. -/
theorem of_isBareByte {b : UInt8} (bare : isBareByte b = true) :
    (isBlankByte b || isLineEnd b) = false ∧ b ≠ Text.hash ∧ b ≠ Text.quote ∧
      b ≠ apostrophe ∧ b ≠ 91 ∧ isPrinted b = true ∧ b < 0x80 := by
  revert b
  apply Text.byte_forall
  decide +kernel

section Keys

variable {key : Text}

theorem IsBare.of_all (present : key.isEmpty = false)
    (bytes : key.all isBareByte = true) :
    IsBare key :=
  ⟨List.isEmpty_eq_false_iff.mp present, List.all_eq_true.mp bytes⟩

theorem IsBare.exists_cons (bare : IsBare key) :
    ∃ first tail, key = first :: tail ∧ isBareByte first = true := by
  cases key with
  | nil => exact absurd rfl bare.nonempty
  | cons first tail =>
      exact ⟨first, tail, rfl, bare.bytes first List.mem_cons_self⟩

theorem IsBare.append_ne_bracket (bare : IsBare key) (rest more : Text) :
    key ++ rest ≠ 91 :: more := by
  intro bracket
  obtain ⟨first, tail, rfl, byte⟩ := bare.exists_cons
  obtain ⟨-, -, -, -, notBracket, -⟩ := of_isBareByte byte
  exact notBracket (List.cons.inj bracket).1

theorem IsBare.skipAll_append (bare : IsBare key) (rest : Text) :
    skipAll (key ++ rest) = key ++ rest := by
  obtain ⟨first, tail, rfl, byte⟩ := bare.exists_cons
  obtain ⟨solid, notHash, -⟩ := of_isBareByte byte
  exact skipAll_solid solid notHash _

theorem IsBare.skipBlanks_append (bare : IsBare key) (rest : Text) :
    skipBlanks (key ++ rest) = key ++ rest := by
  obtain ⟨first, tail, rfl, byte⟩ := bare.exists_cons
  exact skipBlanks_solid (Bool.or_eq_false_iff.mp (of_isBareByte byte).1).1 _

theorem IsBare.readKeyPart_append (bare : IsBare key) {b : UInt8}
    (stop : isBareByte b = false) (rest : Text) :
    readKeyPart (key ++ b :: rest) = some (key, b :: rest) := by
  obtain ⟨first, tail, rfl, byte⟩ := bare.exists_cons
  obtain ⟨-, -, notQuote, notApostrophe, -⟩ := of_isBareByte byte
  rw [readKeyPart, span_append bare.bytes stop]
  · rfl
  · exact fun more quote => notQuote (List.cons.inj quote).1
  · exact fun more quote => notApostrophe (List.cons.inj quote).1

/-- A key is read up to the first byte that is no part of it. -/
theorem IsBare.readKey_append (bare : IsBare key) {b c : UInt8}
    {rest after : Text} (stop : isBareByte b = false)
    (skip : skipBlanks (b :: rest) = c :: after)
    (notDot : c ≠ Text.dot) :
    readKey (key ++ b :: rest) = some ([key], c :: after) := by
  rw [readKey, readKeyFrom, bare.skipBlanks_append,
    bare.readKeyPart_append stop]
  simp only [skip]
  split
  next dot => exact absurd (List.cons.inj dot).1 notDot
  next => rfl

end Keys

/-! ## Entries -/

section Entries

variable {name : Text} {entries : Table}

theorem setEntry_append (fresh : entries.lookup name = none) (value : Toml)
    (more : Table) :
    setEntry name value (entries ++ more) =
      entries ++ setEntry name value more := by
  induction entries with
  | nil => rfl
  | cons entry entries ih =>
      rw [List.lookup_eq_none_iff, List.forall_mem_cons] at fresh
      have other : entry.1 ≠ name := fun same => by simp [same] at fresh
      rw [List.cons_append, setEntry, if_neg other,
        ih (List.lookup_eq_none_iff.mpr fresh.2)]
      rfl

theorem setEntry_fresh (fresh : entries.lookup name = none) (value : Toml) :
    setEntry name value entries = entries ++ [(name, value)] := by
  have appended := setEntry_append fresh value []
  rwa [List.append_nil] at appended

theorem setEntry_concat (fresh : entries.lookup name = none)
    (old value : Toml) :
    setEntry name value (entries ++ [(name, old)]) =
      entries ++ [(name, value)] := by
  rw [setEntry_append fresh, setEntry, if_pos rfl]

theorem lookup_concat (fresh : entries.lookup name = none) (value : Toml) :
    (entries ++ [(name, value)]).lookup name = some value := by
  rw [List.lookup_append, fresh, List.lookup_cons_self]
  rfl

theorem lookup_concat_of_ne {other : Text} (fresh : entries.lookup other = none)
    (unlike : other ≠ name) (value : Toml) :
    (entries ++ [(name, value)]).lookup other = none := by
  simp [List.lookup_append, fresh, unlike]

/-- A table that nothing was said about is opened behind the others. -/
theorem openTable_fresh (fresh : entries.lookup name = none)
    (mentioned : List Key) :
    ({ root := entries, mentioned := mentioned } : Document).openTable [name] =
      some {
        root := entries ++ [(name, .table [])], mentioned := mentioned } := by
  simp [Document.openTable, Document.makeWay, Document.put, changeTable, fresh,
    setEntry_fresh fresh]

/-- A value goes to the end of the table that was opened last. -/
theorem put_fresh {key : Text} {inner : Table}
    (last : entries.lookup name = none) (fresh : inner.lookup key = none)
    (value : Toml) (mentioned : List Key) :
    Document.put {
        root := entries ++ [(name, .table inner)], mentioned := mentioned }
        [name] key value =
      some {
        root := entries ++ [(name, .table (inner ++ [(key, value)]))]
        mentioned := mentioned } := by
  simp [Document.put, changeTable, lookup_concat last, fresh,
    setEntry_fresh fresh, setEntry_concat last]

end Entries

/-! ## Lines -/

/-- A line that gives a key its value. -/
structure Line where
  key : Text
  /-- How the value is written. -/
  text : Text
  value : Toml
  bare : IsBare key
  reads : ReadsAs text value
  single : isArray value = false
  valid : text.isValid = true
  printed : text.all isPrinted = true

def Line.spelling (line : Line) : Text :=
  Text.ofString "  " ++ line.key ++ Text.ofString " = " ++ line.text ++
    [Text.newline]

/-- A table with its lines. -/
structure Block where
  name : Text
  lines : List Line
  bare : IsBare name
  distinct : (lines.map Line.key).Nodup

namespace Block

def spelling (block : Block) : Text :=
  Text.ofString "[" ++ block.name ++ Text.ofString "]\n" ++
    block.lines.flatMap Line.spelling

def entries (block : Block) : Table :=
  block.lines.map fun line => (line.key, line.value)

/-- The entry of a table in its document. -/
def entry (block : Block) : Text × Toml :=
  (block.name, .table block.entries)

/-- The keys that a table mentions, one on each of its lines. -/
def mentions (block : Block) : List Key :=
  [block.name] :: block.lines.map fun line => [block.name, line.key]

/-- The spelling of tables that follow another one. -/
def following (blocks : List Block) : Text :=
  blocks.flatMap fun block => Text.newline :: block.spelling

end Block

section Reading

variable {root : Table} {name : Text} {mentioned : List Key}

theorem readPair_line (line : Line) {inner : Table}
    (last : root.lookup name = none) (fresh : inner.lookup line.key = none)
    (fuel : Nat) (rest : Text) :
    readPair [name] (fuel + 2)
        { root := root ++ [(name, .table inner)], mentioned := mentioned }
        (line.key ++ Text.space :: 61 :: Text.space ::
          (line.text ++ Text.newline :: rest)) =
      some ⟨⟨line.value,
        { root := root ++ [(name, .table (inner ++ [(line.key, line.value)]))],
          mentioned := [name, line.key] :: mentioned },
        Text.newline :: rest⟩, [line.key]⟩ := by
  have key := line.bare.readKey_append (b := Text.space) rfl
    (skipBlanks_space (b := 61) rfl
      (Text.space :: (line.text ++ Text.newline :: rest))) (by decide)
  have value := line.reads [name] line.key fuel
    { root := root ++ [(name, .table inner)], mentioned := [name, line.key] ::
      mentioned } rest
  simp [readPair, key, Document.enter, Document.mention, value,
    put_fresh last fresh, Document.noteForm, line.single]

/-- A line adds an entry to the table that was opened last. -/
theorem readLines_line (line : Line) {inner : Table}
    (last : root.lookup name = none) (fresh : inner.lookup line.key = none)
    (fuel : Nat) (rest : Text) :
    readLines (fuel + 1) [name]
        { root := root ++ [(name, .table inner)], mentioned := mentioned }
        (line.spelling ++ rest) =
      readLines fuel [name]
        { root := root ++ [(name, .table (inner ++ [(line.key, line.value)]))],
          mentioned := [name, line.key] :: mentioned } rest := by
  have shape : line.spelling ++ rest = Text.space :: Text.space ::
      (line.key ++ Text.space :: 61 :: Text.space ::
        (line.text ++ Text.newline :: rest)) := by
    have indent : Text.ofString "  " = [Text.space, Text.space] := rfl
    have equals : Text.ofString " = " = [Text.space, 61, Text.space] := rfl
    simp [Line.spelling, indent, equals]
  rw [shape, readLines, skipAll_gap rfl, skipAll_gap rfl,
    line.bare.skipAll_append]
  split
  next blank =>
    exact absurd (List.append_eq_nil_iff.mp blank).1 line.bare.nonempty
  next bracket => exact absurd bracket (line.bare.append_ne_bracket _ _)
  next => simp [readPair_line line last fresh, endLine_newline]

/-- A heading adds an empty table. -/
theorem readLines_heading (bare : IsBare name)
    (fresh : root.lookup name = none) (fuel : Nat) (context : Key)
    (rest : Text) :
    readLines (fuel + 1) context { root := root, mentioned := mentioned }
        (Text.ofString "[" ++ name ++ Text.ofString "]\n" ++ rest) =
      readLines fuel [name]
        { root := root ++ [(name, .table [])],
          mentioned := [name] :: mentioned } rest := by
  have shape : Text.ofString "[" ++ name ++ Text.ofString "]\n" ++ rest =
      91 :: (name ++ 93 :: Text.newline :: rest) := by
    have opening : Text.ofString "[" = [91] := rfl
    have closing : Text.ofString "]\n" = [93, Text.newline] := rfl
    simp [opening, closing]
  have key := bare.readKey_append (b := 93) rfl
    (skipBlanks_solid (b := 93) rfl (Text.newline :: rest)) (by decide)
  have header : readHeader { root := root, mentioned := mentioned }
      (name ++ 93 :: Text.newline :: rest) =
      some (
        { root := root ++ [(name, .table [])]
          mentioned := [name] :: mentioned },
        [name], Text.newline :: rest) := by
    unfold readHeader
    split
    next bracket => exact absurd bracket (bare.append_ne_bracket _ _)
    next =>
      simp [key, openTable_fresh fresh, opened, Document.noteForm,
        Document.mention]
  rw [shape, readLines, skipAll_solid rfl (by decide)]
  simp [header, endLine_newline]

/-- Lines add their entries in order. -/
theorem readLines_lines {lines : List Line} {inner : Table}
    (last : root.lookup name = none) (distinct : (lines.map Line.key).Nodup)
    (fresh : ∀ line ∈ lines, inner.lookup line.key = none) (fuel : Nat)
    (rest : Text) :
    readLines (fuel + lines.length) [name]
        { root := root ++ [(name, .table inner)], mentioned := mentioned }
        (lines.flatMap Line.spelling ++ rest) =
      readLines fuel [name]
        { root := root ++ [(name,
            .table (inner ++ lines.map fun line => (line.key, line.value)))],
          mentioned := (lines.map fun line => [name, line.key]).reverse ++
            mentioned } rest := by
  induction lines generalizing inner mentioned with
  | nil => simp
  | cons line lines ih =>
      rw [List.map_cons, List.nodup_cons] at distinct
      rw [List.forall_mem_cons] at fresh
      have later : ∀ other ∈ lines,
          (inner ++ [(line.key, line.value)]).lookup other.key = none := by
        intro other member
        refine lookup_concat_of_ne (fresh.2 other member) (fun same => ?_) _
        exact distinct.1 (same ▸ List.mem_map_of_mem member)
      rw [List.length_cons, ← Nat.add_assoc, List.flatMap_cons,
        List.append_assoc, readLines_line line last fresh.1,
        ih distinct.2 later]
      simp

/-- A table is read back behind those before it. -/
theorem readLines_block (block : Block)
    (fresh : root.lookup block.name = none) (fuel : Nat) (context : Key)
    (rest : Text) :
    readLines (fuel + block.mentions.length) context
        { root := root, mentioned := mentioned } (block.spelling ++ rest) =
      readLines fuel [block.name]
        { root := root ++ [block.entry],
          mentioned := block.mentions.reverse ++ mentioned } rest := by
  have heading : (fuel + block.mentions.length) =
      fuel + block.lines.length + 1 := by
    simp [Block.mentions, Nat.add_assoc]
  rw [heading, Block.spelling, List.append_assoc,
    readLines_heading block.bare fresh,
    readLines_lines fresh block.distinct fun _ _ => rfl]
  simp [Block.entry, Block.entries, Block.mentions]

/-- An empty line changes nothing. -/
theorem readLines_newline (fuel : Nat) (context : Key)
    (d : Document) (t : Text) :
    readLines (fuel + 1) context d (Text.newline :: t) =
      readLines (fuel + 1) context d t := by
  rw [readLines, skipAll_gap rfl, readLines]

/-- Tables behind empty lines are read back in order. -/
theorem readLines_blocks {blocks : List Block}
    (distinct : (blocks.map Block.name).Nodup)
    (fresh : ∀ block ∈ blocks, root.lookup block.name = none) (fuel : Nat)
    (context : Key) :
    readLines (fuel + (blocks.flatMap Block.mentions).length + 1) context
        { root := root, mentioned := mentioned } (Block.following blocks) =
      some { root := root ++ blocks.map Block.entry,
             mentioned := (blocks.flatMap Block.mentions).reverse ++
               mentioned } := by
  induction blocks generalizing root mentioned context with
  | nil => simp [Block.following, readLines, skipAll, skipGaps]
  | cons block blocks ih =>
      rw [List.map_cons, List.nodup_cons] at distinct
      rw [List.forall_mem_cons] at fresh
      have later : ∀ other ∈ blocks,
          (root ++ [block.entry]).lookup other.name = none := by
        intro other member
        refine lookup_concat_of_ne (fresh.2 other member) (fun same => ?_) _
        exact distinct.1 (same ▸ List.mem_map_of_mem member)
      have share : fuel +
          ((block :: blocks).flatMap Block.mentions).length + 1 =
          fuel + (blocks.flatMap Block.mentions).length + 1 +
            block.mentions.length := by
        rw [List.flatMap_cons, List.length_append]
        omega
      have text : Block.following (block :: blocks) =
          Text.newline :: (block.spelling ++ Block.following blocks) :=
            List.flatMap_cons
      rw [text, readLines_newline, share, readLines_block block fresh.1,
        ih distinct.2 later]
      simp

end Reading

/-! ## Documents -/

theorem isPlain_of_printed {t : Text} (printed : t.all isPrinted = true) :
    isPlain t = true := by
  induction t with
  | nil => rfl
  | cons b t ih =>
      rw [List.all_cons, Bool.and_eq_true] at printed
      have notReturn : b ≠ Text.carriageReturn := by
        rintro rfl
        exact absurd printed.1 (by decide)
      have allowed : (b == Text.tab || b == Text.newline ||
          (32 ≤ b && b != 127)) = true := by
        rw [Bool.or_assoc]
        exact Bool.or_eq_true_iff.mpr (.inr printed.1)
      rw [isPlain, ih printed.2, if_neg notReturn, allowed]
      rfl

theorem IsBare.isValid {key : Text} (bare : IsBare key) :
    key.isValid = true := by
  apply Text.isValid_of_ascii
  intro b member
  obtain ⟨-, -, -, -, -, -, ascii⟩ := of_isBareByte (bare.bytes b member)
  exact ascii

theorem IsBare.printed {key : Text} (bare : IsBare key) :
    key.all isPrinted = true := by
  rw [List.all_eq_true]
  intro b member
  obtain ⟨-, -, -, -, -, printed, -⟩ := of_isBareByte (bare.bytes b member)
  exact printed

theorem isBare_toText (w : Word) : IsBare w.toText := by
  have digits (n : Nat) : ∀ b ∈ Text.ofNat n, isBareByte b = true := by
    intro b member
    simp [isBareByte, Text.isDigitByte_of_mem_ofNat member]
  rcases toText_cases w with ⟨n, text⟩ | ⟨n, -, text⟩
  · rw [text]
    exact ⟨Text.ofNat_ne_nil n, digits n⟩
  · rw [text]
    refine ⟨List.cons_ne_nil _ _, ?_⟩
    rw [List.forall_mem_cons]
    exact ⟨rfl, digits n⟩

theorem Line.isValid_spelling (line : Line) : line.spelling.isValid = true := by
  have key := Text.isValid_append (s := Text.ofString "  ") rfl
    line.bare.isValid
  have equals := Text.isValid_append key (t := Text.ofString " = ") rfl
  exact Text.isValid_append (Text.isValid_append equals line.valid) rfl

theorem Line.printed_spelling (line : Line) :
    line.spelling.all isPrinted = true := by
  have indent : (Text.ofString "  ").all isPrinted = true := rfl
  have equals : (Text.ofString " = ").all isPrinted = true := rfl
  have newline : [Text.newline].all isPrinted = true := rfl
  simp only [spelling, List.all_append, indent, line.bare.printed, equals,
    line.printed, newline, Bool.and_self]

theorem Line.length_spelling_pos (line : Line) : 0 < line.spelling.length := by
  rw [spelling, List.length_append]
  exact Nat.lt_add_left _ Nat.one_pos

namespace Block

theorem isValid_spelling (block : Block) : block.spelling.isValid = true := by
  have name := Text.isValid_append (s := Text.ofString "[") rfl
    block.bare.isValid
  have heading := Text.isValid_append name (t := Text.ofString "]\n") rfl
  refine Text.isValid_append heading ?_
  apply Text.isValid_flatten
  rw [List.all_map, List.all_eq_true]
  exact fun line _ => line.isValid_spelling

theorem printed_spelling (block : Block) :
    block.spelling.all isPrinted = true := by
  have opening : (Text.ofString "[").all isPrinted = true := rfl
  have closing : (Text.ofString "]\n").all isPrinted = true := rfl
  have lines : (block.lines.flatMap Line.spelling).all isPrinted = true := by
    rw [List.all_flatMap, List.all_eq_true]
    exact fun line _ => line.printed_spelling
  simp only [spelling, List.all_append, opening, block.bare.printed,
    closing, lines, Bool.and_self]

/-- No line is empty, so a table has no more lines than bytes. -/
theorem length_mentions_le (block : Block) :
    block.mentions.length ≤ block.spelling.length := by
  have lines : block.lines.length ≤
      (block.lines.flatMap Line.spelling).length := by
    induction block.lines with
    | nil => exact Nat.le_refl 0
    | cons line lines ih =>
        have positive := line.length_spelling_pos
        rw [List.flatMap_cons, List.length_append, List.length_cons]
        omega
  have heading : (Text.ofString "[").length = 1 := rfl
  simp only [mentions, spelling, List.length_append, List.length_cons,
    List.length_map, heading]
  omega

theorem isValid_following (blocks : List Block) :
    (following blocks).isValid = true := by
  apply Text.isValid_flatten
  rw [List.all_map, List.all_eq_true]
  exact fun block _ =>
    Text.isValid_append (s := [Text.newline]) rfl block.isValid_spelling

theorem printed_following (blocks : List Block) :
    (following blocks).all isPrinted = true := by
  rw [following, List.all_flatMap, List.all_eq_true]
  exact fun block _ => block.printed_spelling

theorem length_mentions_le_following (blocks : List Block) :
    (blocks.flatMap mentions).length ≤ (following blocks).length := by
  induction blocks with
  | nil => exact Nat.le_refl 0
  | cons block blocks ih =>
      have least := block.length_mentions_le
      rw [following] at ih ⊢
      rw [List.flatMap_cons, List.flatMap_cons, List.length_append,
        List.length_append, List.length_cons]
      omega

theorem join_spelling (first : Block) (blocks : List Block) :
    Text.join [Text.newline] ((first :: blocks).map spelling) =
      first.spelling ++ following blocks := by
  rw [List.map_cons, Text.join_cons, List.flatMap_map]
  rfl

end Block

/-- A document that is written table by table is read back as its tables. -/
theorem read?_blocks {first : Block} {blocks : List Block}
    (distinct : ((first :: blocks).map Block.name).Nodup) :
    read? (Text.join [Text.newline] ((first :: blocks).map Block.spelling)) =
      some { root := (first :: blocks).map Block.entry,
             mentioned := ((first :: blocks).flatMap
               Block.mentions).reverse } := by
  have unmarked : skipMark (first.spelling ++ Block.following blocks) =
      first.spelling ++ Block.following blocks := rfl
  have valid := Text.isValid_append first.isValid_spelling
    (Block.isValid_following blocks)
  have plain : isPlain (first.spelling ++ Block.following blocks) = true := by
    apply isPlain_of_printed
    rw [List.all_append, first.printed_spelling, Block.printed_following]
    rfl
  obtain ⟨fuel, enough⟩ :
      ∃ fuel, (first.spelling ++ Block.following blocks).length + 1 =
      fuel + (blocks.flatMap Block.mentions).length + 1 +
        first.mentions.length := by
    have front := first.length_mentions_le
    have back := Block.length_mentions_le_following blocks
    rw [List.length_append]
    exact ⟨first.spelling.length + (Block.following blocks).length -
      ((blocks.flatMap Block.mentions).length + first.mentions.length), by
        omega⟩
  rw [List.map_cons, List.nodup_cons] at distinct
  rw [Block.join_spelling, read?, unmarked, valid, plain, enough]
  simp only [Bool.and_self, if_true]
  have fresh : ∀ other ∈ blocks,
      ([first.entry] : Table).lookup other.name = none := by
    intro other member
    have empty : ([] : Table).lookup other.name = none := rfl
    refine lookup_concat_of_ne empty (fun same => ?_) _
    exact distinct.1 (same ▸ List.mem_map_of_mem member)
  exact (readLines_block first rfl _ [] _).trans
    ((readLines_blocks distinct.2 fresh fuel _).trans (by simp))

/-- Every key that is mentioned leads to a value. -/
theorem valueAt?_mention {blocks : List Block}
    (distinct : (blocks.map Block.name).Nodup)
    {block : Block} (member : block ∈ blocks) {key : Key}
    (mentioned : key ∈ block.mentions) :
    (valueAt? key (blocks.map Block.entry)).isSome = true := by
  have names : (blocks.map Block.entry).map Prod.fst =
      blocks.map Block.name := by
    rw [List.map_map]
    rfl
  have table : (blocks.map Block.entry).lookup block.name =
      some (.table block.entries) := by
    rw [lookup_eq_some_iff_mem (names ▸ distinct)]
    exact List.mem_map_of_mem member
  rw [Block.mentions, List.mem_cons, List.mem_map] at mentioned
  rcases mentioned with rfl | ⟨line, inside, rfl⟩
  · rw [valueAt?, table]
    rfl
  · have keys : block.entries.map Prod.fst = block.lines.map Line.key := by
      rw [Block.entries, List.map_map]
      rfl
    have value : block.entries.lookup line.key = some line.value := by
      rw [lookup_eq_some_iff_mem (keys ▸ block.distinct)]
      exact List.mem_map_of_mem inside
    simp [valueAt?, table, value]

end WordMachine.Toml
