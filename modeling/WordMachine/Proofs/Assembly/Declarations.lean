import Mathlib.Algebra.Group.Nat.Defs
import WordMachine.Proofs.Assembly.Labels
import WordMachine.Proofs.Assembly.Listing
import WordMachine.Proofs.Assembly.Reassembly

/-!
# Which labels a listing declares

A listing declares the labels of an address before the line that begins there.
Lines begin where the sweep comes to, and the sweep does not know of labels: it
passes over the address of the second word of an instruction, which may be data
with a label of its own, and it stops at the end of the program, where labels
may stand too.  These labels are not declared.  All others are, and each of them
once.
-/

namespace WordMachine

namespace Assembly

/-! ## Rows -/

namespace ListingLine

/-- A listing line without the labels before it. -/
def row (l : ListingLine) : Text :=
  Text.padLeft 6 Text.space (Text.ofNat l.address) ++
    Text.ofString "  " ++ l.instruction
    ++ l.target.elim [] (Text.ofString "  ; " ++ ·)

/-- A listing line and the declarations before it, without their newlines. -/
def rows (l : ListingLine) : List Text :=
  l.labels.map (· ++ [Text.colon]) ++ [l.row]

theorem text_eq (l : ListingLine) :
    l.text = l.rows.flatMap (· ++ [Text.newline]) := by
  simp only [text, rows, row, List.flatMap_append, List.flatMap_map,
    List.flatMap_singleton, List.append_assoc, List.singleton_append]
  cases l.target with
  | none => rfl
  | some name => simp only [Option.elim_some, List.append_assoc]

theorem space_mem_row (l : ListingLine) : Text.space ∈ l.row := by
  have gap : Text.space ∈ Text.ofString "  " := by decide
  simp [row, gap]

end ListingLine

variable {code : Array Word} {labels : NameTable}

/-- The rows of a listing are the lines that are written. -/
theorem lines_writeListing
    (unbroken : ∀ line ∈ listing code labels, ∀ row ∈ line.rows,
      Text.newline ∉ row) :
    (writeListing code labels (.ofLimit none)).1.text.lines =
      (listing code labels).flatMap ListingLine.rows ++ [[]] := by
  have written : (writeListing code labels (.ofLimit none)).1.text =
      ((listing code labels).flatMap ListingLine.rows).flatMap
        (· ++ [Text.newline]) := by
    have empty : (Sink.ofLimit none).text = [] := rfl
    rw [writeListing_eq, StickyWriter.append_of_unlimited rfl,
      List.flatMap_assoc]
    refine (Sink.text_write_of_unlimited rfl rfl _).trans ?_
    rw [empty, List.nil_append]
    exact congrArg (List.flatMap · _) (funext ListingLine.text_eq)
  rw [written]
  refine splitFrom_lines ?_ []
  intro row member b inside same
  obtain ⟨line, shown, own⟩ := List.mem_flatMap.mp member
  exact unbroken line shown row own (same ▸ inside)

/-! ## Lines -/

/-- Every line of a listing is the one for its address. -/
theorem mem_listing {line : ListingLine} (member : line ∈ listing code labels) :
    line = listingLine code labels line.address := by
  have behind : ∀ address done,
      (∀ line ∈ done, line = listingLine code labels line.address) →
      ∀ line ∈ listingFrom code labels address done,
        line = listingLine code labels line.address := by
    intro address done before
    fun_induction listingFrom code labels address done with
    | case1 address done inside line ih =>
        apply ih
        exact List.forall_mem_cons.mpr ⟨rfl, before⟩
    | case2 address done outside =>
        intro line member
        exact before line (List.mem_reverse.mp member)
  exact behind 0 [] (List.forall_mem_nil _) line member

theorem Shown.length_words (s : Shown) :
    s.words.length = 1 ∨ s.words.length = 2 := by
  cases s with
  | data | cut | plain => exact .inl rfl
  | full => exact .inr rfl

namespace Lists

variable {address : Nat} {lines : List ListingLine} {ws : List Word}

/-- Lines that show words lie between their first and their last address. -/
theorem of_mem (lists : Lists address lines ws) {line : ListingLine}
    (member : line ∈ lines) :
    (∃ s : Shown, line.instruction = s.text ∧ line.width = s.words.length) ∧
      address ≤ line.address ∧
      line.address + line.width ≤ address + ws.length := by
  induction lists with
  | nil => cases member
  | @cons address first lines s rest here instruction width _ ih =>
      rw [List.length_append, ← width]
      rcases List.mem_cons.mp member with rfl | later
      · exact ⟨⟨s, instruction, width⟩, by omega, by omega⟩
      · obtain ⟨shown, above, below⟩ := ih later
        exact ⟨shown, by omega, by omega⟩

/-- Each line ends before the next one begins. -/
theorem spaced (lists : Lists address lines ws) :
    lines.Pairwise fun line next =>
      line.address + line.width ≤ next.address := by
  induction lists with
  | nil => exact .nil
  | cons here _ _ rest ih =>
      refine List.pairwise_cons.mpr ⟨?_, ih⟩
      intro next member
      rw [here]
      exact (rest.of_mem member).2.1

theorem apart (lists : Lists address lines ws) {line other : ListingLine}
    (member : line ∈ lines) (otherMember : other ∈ lines) :
    line = other ∨ line.address + line.width ≤ other.address ∨
      other.address + other.width ≤ line.address := by
  obtain ⟨i, inside, rfl⟩ := List.mem_iff_getElem.mp member
  obtain ⟨j, otherInside, rfl⟩ := List.mem_iff_getElem.mp otherMember
  have ordered := List.pairwise_iff_getElem.mp lists.spaced
  rcases Nat.lt_trichotomy i j with before | rfl | after
  · exact .inr (.inl (ordered i j inside otherInside before))
  · exact .inl rfl
  · exact .inr (.inr (ordered j i otherInside inside after))

/-- An address has a line, or it is that of a second word, or it is the end. -/
theorem covers (lists : Lists address lines ws) {a : Nat} (above : address ≤ a)
    (below : a ≤ address + ws.length) :
    (∃ line ∈ lines, line.address = a) ∨ a = address + ws.length ∨
      ∃ line ∈ lines, line.width = 2 ∧ line.address + 1 = a := by
  induction lists with
  | nil => exact .inr (.inl (Nat.le_antisymm below above))
  | @cons address line lines s rest here instruction width _ ih =>
      rw [List.length_append, ← width] at below ⊢
      have short := s.length_words
      rcases Nat.lt_or_ge a (address + line.width) with inside | behind
      · by_cases first : a = address
        · exact .inl ⟨line, List.mem_cons_self, here.trans first.symm⟩
        · exact .inr (.inr ⟨line, List.mem_cons_self, by omega, by omega⟩)
      · rcases ih behind (by omega) with ⟨other, member, starts⟩ | last |
          ⟨other, member, inside⟩
        · exact .inl ⟨other, List.mem_cons_of_mem line member, starts⟩
        · exact .inr (.inl (by omega))
        · exact .inr (.inr ⟨other, List.mem_cons_of_mem line member, inside⟩)

/-- A line begins at an address exactly if this is neither the end nor a second
word. -/
theorem starts_iff (lists : Lists address lines ws) {a : Nat}
    (above : address ≤ a) (below : a ≤ address + ws.length) :
    (∃ line ∈ lines, line.address = a) ↔
      a ≠ address + ws.length ∧ ∀ line ∈ lines, line.width = 2 →
        line.address + 1 ≠ a := by
  constructor
  · rintro ⟨line, member, rfl⟩
    obtain ⟨⟨s, -, width⟩, -, within⟩ := lists.of_mem member
    have short := s.length_words
    refine ⟨by omega, ?_⟩
    intro other otherMember two inside
    rcases lists.apart member otherMember with rfl | before | after <;> omega
  · rintro ⟨notLast, notInside⟩
    rcases lists.covers above below with
      starts | last | ⟨line, member, two, inside⟩
    · exact starts
    · exact absurd last notLast
    · exact absurd inside (notInside line member two)

end Lists

/-- A line of the listing of a program begins at an address of the program
exactly if this is not that of a second word. -/
theorem line_starts_iff (code : Array Word) (labels : NameTable) {a : Nat}
    (inside : a ≤ code.size) :
    (∃ line ∈ listing code labels, line.address = a) ↔
      a ≠ code.size ∧ ∀ line ∈ listing code labels, line.width = 2 →
        line.address + 1 ≠ a := by
  have starts := (lists_listing code labels).starts_iff (Nat.zero_le a)
  rw [Nat.zero_add, Array.length_toList] at starts
  exact starts inside

/-! ## Programs without data -/

/-- A line begins at every address that a sweep comes to, but for the end. -/
theorem Swept.line_starts {a : Nat} (swept : Swept code a)
    (inside : a < code.size) :
    ∃ line ∈ listing code labels, line.address = a := by
  induction swept with
  | start =>
      rw [line_starts_iff code labels (Nat.zero_le _)]
      exact ⟨Nat.ne_of_lt inside, fun _ _ _ => Nat.succ_ne_zero _⟩
  | @next address swept before ih =>
      obtain ⟨line, member, rfl⟩ := ih before
      have next : (disassemble code line.address {}).next.toNat =
          line.address + line.width := by
        have width : line.width = (instructionAt code line.address).2 :=
          congrArg ListingLine.width (mem_listing member)
        rw [next_disassemble ⟨Int.natCast_nonneg _, Int.ofNat_lt.mpr before⟩,
          Int.toNat_natCast, width]
        omega
      rw [next] at inside ⊢
      rw [line_starts_iff code labels (Nat.le_of_lt inside)]
      refine ⟨Nat.ne_of_lt inside, ?_⟩
      intro other otherMember two within
      rcases (lists_listing code labels).apart member otherMember with
        rfl | behind | ahead <;>
        omega

/-- A sweep that comes to a label or an instruction comes behind it. -/
theorem Swept.behind_item {table : NameTable} {it : Item}
    {front rest : List Word} (swept : Swept code front.length)
    (isCode : it.IsCode) (clean : emitOffence? table.contains it = none)
    (split : code.toList = front ++ (it.words table ++ rest)) :
    Swept code (front ++ it.words table).length := by
  rcases isCode with label | ⟨operand, instruction⟩
  · have wordless : it.words table = [] := by
      rw [Item.words, Item.encode, label]
    rwa [wordless, List.append_nil]
  · have encoded := encode_of_clean clean
    rw [Item.encode, instruction] at encoded
    obtain ⟨s, readable, words⟩ := encodeInstruction_shown encoded
    rw [words] at split ⊢
    have nonempty : s.words ++ rest ≠ [] := by
      simp [s.words_ne_nil]
    obtain ⟨t, others, same, shows⟩ := exists_shows split nonempty
    -- what is decoded here is the instruction itself
    have decoded := shows.decode
    rw [← same, decode_words_append readable] at decoded
    rw [(List.cons.inj decoded).1]
    exact swept.step shows

theorem swept_of_items {table : NameTable} {items : List Item}
    {front : List Word} (isCode : ∀ it ∈ items, it.IsCode)
    (clean : ∀ it ∈ items, emitOffence? table.contains it = none)
    (agree : ∀ it ∈ items, (it.words table).length = it.extent)
    (split : code.toList = front ++ items.flatMap (Item.words table))
    (swept : Swept code front.length) (i : Nat) :
    Swept code (front.length + addressOf items i) := by
  induction items generalizing front i with
  | nil => simpa [addressOf] using swept
  | cons it rest ih =>
      cases i with
      | zero => exact swept
      | succ i =>
          rw [List.flatMap_cons] at split
          have behind := swept.behind_item (isCode it List.mem_cons_self)
            (clean it List.mem_cons_self) split
          have later := ih (fun other member =>
            isCode other (List.mem_cons_of_mem it member))
            (fun other member => clean other (List.mem_cons_of_mem it member))
            (fun other member => agree other (List.mem_cons_of_mem it member))
            (by rw [split, List.append_assoc]) behind i
          rwa [List.length_append, agree it List.mem_cons_self, Nat.add_assoc,
            ← addressOf_cons_succ] at later

/-! ## Declarations -/

theorem mem_labelsAt {labels : NameTable} {address : Word} {name : Text} :
    name ∈ labelsAt labels address ↔ labels.get? name = some address := by
  rw [labelsAt, Text.sorted, List.mem_mergeSort, NameTable.get?_eq_some_iff]
  simp

theorem nodup_labelsAt (labels : NameTable) (address : Word) :
    (labelsAt labels address).Nodup := by
  rw [labelsAt, Text.sorted, (List.mergeSort_perm _ _).nodup_iff]
  exact labels.nodup.sublist (List.filter_sublist.map _)

/-- An identifier has neither white space nor newlines. -/
theorem unspaced_of_isIdentifier {t : Text}
    (identifier : isIdentifier t = true) :
    Text.space ∉ t ∧ Text.newline ∉ t := by
  cases t with
  | nil => cases identifier
  | cons b rest =>
      rw [isIdentifier, Bool.and_eq_true] at identifier
      constructor
      · intro member
        exact absurd (Text.of_mem_of_allChars identifier.2 member (by decide))
          (by decide +kernel)
      · intro member
        exact absurd (Text.of_mem_of_allChars identifier.2 member (by decide))
          (by decide +kernel)

theorem declaration_ne_row {label : Text}
    (identifier : isIdentifier label = true) (line : ListingLine) :
    label ++ [Text.colon] ≠ line.row := by
  intro same
  have space := line.space_mem_row
  rw [← same] at space
  rcases List.mem_append.mp space with inside | colon
  · exact (unspaced_of_isIdentifier identifier).1 inside
  · exact absurd colon (by decide)

section Rows

variable {line : ListingLine}
  (identifiers : ∀ name ∈ labels.names, isIdentifier name = true)
  (member : line ∈ listing code labels)

include member

theorem labels_of_mem_listing :
    line.labels = labelsAt labels (Int64.ofNat line.address) :=
  congrArg ListingLine.labels (mem_listing member)

theorem target_of_mem_listing {name : Text} (target : line.target = some name) :
    name ∈ labels.names := by
  have shown : targetAt code labels line.address = some name := by
    rw [← target]
    exact (congrArg ListingLine.target (mem_listing member)).symm
  unfold targetAt at shown
  split at shown
  next =>
    split at shown
    next =>
      obtain ⟨immediate, -, first⟩ := Option.bind_eq_some_iff.mp shown
      exact NameTable.mem_names_iff.mpr ⟨_,
        mem_labelsAt.mp (List.mem_of_head? first)⟩
    next => cases shown
  next => cases shown

include identifiers

theorem newline_not_mem_row : Text.newline ∉ line.row := by
  obtain ⟨⟨s, instruction, -⟩, -, -⟩ :=
    (lists_listing code labels).of_mem member
  have number : Text.newline ∉
      Text.padLeft 6 Text.space (Text.ofNat line.address) := by
    intro inside
    rcases List.mem_append.mp inside with blank | digit
    · exact absurd (List.eq_of_mem_replicate blank) (by decide)
    · exact absurd (Text.isDigitByte_of_mem_ofNat digit) (by decide)
  have shown : Text.newline ∉ s.text := by
    intro inside
    rcases s.plain_text _ inside with plain | space
    · exact absurd plain (by decide)
    · exact absurd space (by decide)
  have comment : Text.newline ∉
      line.target.elim [] (Text.ofString "  ; " ++ ·) := by
    cases target : line.target with
    | none => exact List.not_mem_nil
    | some name =>
        have clean := unspaced_of_isIdentifier
          (identifiers name (target_of_mem_listing member target))
        have sign : Text.newline ∉ Text.ofString "  ; " := by decide
        simp [clean.2, sign]
  have gap : Text.newline ∉ Text.ofString "  " := by decide
  simp only [ListingLine.row, instruction, List.mem_append, number, gap, shown,
    comment, or_self, not_false_eq_true]

theorem newline_not_mem_rows : ∀ row ∈ line.rows, Text.newline ∉ row := by
  intro row own
  rcases List.mem_append.mp own with declaration | isRow
  · obtain ⟨name, declared, rfl⟩ := List.mem_map.mp declaration
    rw [labels_of_mem_listing member, mem_labelsAt] at declared
    have clean := unspaced_of_isIdentifier
      (identifiers name (NameTable.mem_names_iff.mpr ⟨_, declared⟩))
    intro inside
    rcases List.mem_append.mp inside with inName | colon
    · exact clean.2 inName
    · exact absurd colon (by decide)
  · rw [List.mem_singleton.mp isRow]
    exact newline_not_mem_row identifiers member

omit identifiers

/-- The rows of a line declare a label exactly if it names the address of the
line. -/
theorem declaration_mem_rows {label : Text}
    (identifier : isIdentifier label = true) :
    label ++ [Text.colon] ∈ line.rows ↔
      labels.get? label = some (Int64.ofNat line.address) := by
  rw [← mem_labelsAt, ← labels_of_mem_listing member, ListingLine.rows,
    List.mem_append, List.mem_singleton,
    or_iff_left (declaration_ne_row identifier line)]
  constructor
  · intro declaration
    obtain ⟨name, own, same⟩ := List.mem_map.mp declaration
    rwa [← List.append_cancel_right same]
  · intro own
    exact List.mem_map.mpr ⟨label, own, rfl⟩

end Rows

/-- The labels of an address are declared right before the row, in alphabetical
order, and the given one is declared nowhere else. -/
def DeclaredBefore (labels : NameTable) (address : Word) (label row : Text)
    (rows : List Text) : Prop :=
  ∃ before group after : List Text,
    rows = before ++ group.map (· ++ [Text.colon]) ++ row :: after ∧
    group.Pairwise (fun s t => s.le t = true) ∧ group.Nodup ∧
    (∀ other, other ∈ group ↔ labels.get? other = some address) ∧
    label ++ [Text.colon] ∉ before ∧ label ++ [Text.colon] ∉ row :: after

section Declarations

variable {label : Text} {address : Nat} (short : code.size < 2 ^ 63)
  (identifier : isIdentifier label = true) (inside : address ≤ code.size)
  (named : labels.get? label = some (Int64.ofNat address))

include short identifier inside named

/-- Only a line at the address of a label declares it. -/
theorem address_of_declaration {line : ListingLine}
    (member : line ∈ listing code labels)
    (declares : label ++ [Text.colon] ∈ line.rows) :
    line.address = address := by
  rw [declaration_mem_rows member identifier, named,
    Option.some.injEq] at declares
  have within := ((lists_listing code labels).of_mem member).2.2
  rw [Nat.zero_add, Array.length_toList] at within
  have equal := congrArg Int64.toInt declares
  rw [Int64.toInt_ofNat_of_lt (by omega), Int64.toInt_ofNat_of_lt (by omega)]
    at equal
  omega

theorem declaredBefore_of_line {line : ListingLine}
    (member : line ∈ listing code labels) (starts : line.address = address) :
    DeclaredBefore labels (Int64.ofNat address) label line.row
      ((listing code labels).flatMap ListingLine.rows ++ [[]]) := by
  have lists := lists_listing code labels
  have positive : ∀ other ∈ listing code labels, 0 < other.width := by
    intro other otherMember
    obtain ⟨⟨s, -, width⟩, -, -⟩ := lists.of_mem otherMember
    have short := s.length_words
    omega
  obtain ⟨front, back, split⟩ := List.append_of_mem member
  have spaced := lists.spaced
  rw [split, List.pairwise_append, List.pairwise_cons] at spaced
  obtain ⟨-, ⟨behind, -⟩, ahead⟩ := spaced
  refine ⟨front.flatMap ListingLine.rows, labelsAt labels (Int64.ofNat address),
    back.flatMap ListingLine.rows ++ [[]], ?_, Text.pairwise_sorted _,
    nodup_labelsAt _ _, fun other => mem_labelsAt, ?_, ?_⟩
  · rw [split, List.flatMap_append, List.flatMap_cons, ListingLine.rows,
      labels_of_mem_listing member, starts]
    simp only [List.append_assoc, List.cons_append, List.nil_append]
  · intro early
    obtain ⟨other, inFront, declares⟩ := List.mem_flatMap.mp early
    have otherMember : other ∈ listing code labels := by
      rw [split]
      exact List.mem_append_left _ inFront
    have same := address_of_declaration short identifier inside named
      otherMember declares
    have before := ahead other inFront line List.mem_cons_self
    have sized := positive other otherMember
    omega
  · intro late
    rcases List.mem_cons.mp late with isRow | later
    · exact declaration_ne_row identifier line isRow
    · rcases List.mem_append.mp later with declared | last
      · obtain ⟨other, inBack, declares⟩ := List.mem_flatMap.mp declared
        have otherMember : other ∈ listing code labels := by
          rw [split]
          exact List.mem_append_right _ (List.mem_cons_of_mem _ inBack)
        have same := address_of_declaration short identifier inside named
          otherMember declares
        have after := behind other inBack
        have sized := positive line member
        omega
      · exact absurd (List.mem_singleton.mp last) (by simp)

theorem not_declared_of_no_line
    (lineless : ∀ line ∈ listing code labels, line.address ≠ address) :
    label ++ [Text.colon] ∉
      (listing code labels).flatMap ListingLine.rows ++ [[]] := by
  intro declared
  rcases List.mem_append.mp declared with shown | last
  · obtain ⟨line, member, declares⟩ := List.mem_flatMap.mp shown
    exact lineless line member
      (address_of_declaration short identifier inside named member declares)
  · exact absurd (List.mem_singleton.mp last) (by simp)

end Declarations

/-! ## Programs that were assembled -/

section Assembled

variable {name source : Text} {natives : NameTable} {assembled : Assembled}
  (result : assemble name source natives = .ok assembled)

include result

theorem placed_of_assemble :
    Placed assembled.program.items
      (assembled.program.link assembled.program.layout.labels natives).table
        assembled.code := by
  obtain ⟨-, -, code, laid, -, emitted⟩ := assemble_ok result
  rw [code]
  exact placed_of_passes laid emitted

theorem size_lt_of_assemble (fits : source.length < 2 ^ 63) :
    assembled.code.size < 2 ^ 63 := by
  obtain ⟨program, -⟩ := assemble_ok result
  rw [(placed_of_assemble result).length, program]
  exact Nat.lt_of_le_of_lt (totalExtent_sourceItems_le name source) fits

/-- A label names the address of an item. -/
theorem exists_address_of_label {label : Text}
    (member : label ∈ assembled.labels.names) :
    ∃ i, addressOf assembled.program.items i ≤ assembled.code.size ∧
      assembled.labels.get? label =
        some (Int64.ofNat (addressOf assembled.program.items i)) := by
  obtain ⟨-, table, -, laid, -⟩ := assemble_ok result
  obtain ⟨value, named⟩ := NameTable.mem_names_iff.mp member
  rw [table] at named ⊢
  obtain ⟨i, it, item, declares, rfl⟩ :=
    (layout_get?_iff laid label value).mp named
  refine ⟨i, ?_, named⟩
  rw [(placed_of_assemble result).length]
  exact addressOf_le _ i

/-- Without data, a line begins at the address of every item but at the end. -/
theorem line_starts_of_isCode
    (isCode : ∀ it ∈ assembled.program.items, it.IsCode) {i : Nat}
    (inside : addressOf assembled.program.items i < assembled.code.size) :
    ∃ line ∈ listing assembled.code assembled.labels,
      line.address = addressOf assembled.program.items i := by
  obtain ⟨-, -, code, -, -, emitted⟩ := assemble_ok result
  have placed := placed_of_assemble result
  have clean := emitFrom_clean emitted
  have agree := fun it member =>
    length_words (placed.sizes it member) (clean it member)
  have split : assembled.code.toList = [] ++
      assembled.program.items.flatMap (Item.words
        (assembled.program.link assembled.program.layout.labels
          natives).table) := by
    rw [code, Program.emit, emitFrom_code #[] clean]
    simp
  have swept := swept_of_items isCode clean agree split .start i
  rw [List.length_nil, Nat.zero_add] at swept
  exact swept.line_starts inside

end Assembled

/-- A listing declares a label of a program that was assembled where a line
begins at its address: right before that line, together with the other labels of
the address in alphabetical order, and nowhere else.  A label at whose address
no line begins is not declared.  That happens to the labels at the end of the
program and to those of a word that is shown as the second one of an
instruction; without data only to the former. -/
theorem label_declared_where_line_begins {name source : Text}
    {natives : NameTable} {assembled : Assembled}
    (result : assemble name source natives = .ok assembled)
    (fits : source.length < 2 ^ 63) :
    let shown := listing assembled.code assembled.labels
    let rows := (writeListing assembled.code assembled.labels
      (.ofLimit none)).1.text.lines
    ∀ label ∈ assembled.labels.names, ∃ address ≤ assembled.code.size,
      assembled.labels.get? label = some (Int64.ofNat address) ∧
      (∀ line ∈ shown, line.address = address →
        DeclaredBefore assembled.labels (Int64.ofNat address) label
          line.row rows) ∧
      ((∀ line ∈ shown, line.address ≠ address) →
        label ++ [Text.colon] ∉ rows) ∧
      ((∃ line ∈ shown, line.address = address) ↔
        address ≠ assembled.code.size ∧
          ∀ line ∈ shown, line.width = 2 → line.address + 1 ≠ address) ∧
      ((∀ it ∈ assembled.program.items, it.IsCode) →
        address ≠ assembled.code.size →
        ∃ line ∈ shown, line.address = address) := by
  intro shown rows label member
  have identifiers : ∀ label ∈ assembled.labels.names,
      isIdentifier label = true :=
    fun label member => (assembled_label result member).1
  have written : rows = shown.flatMap ListingLine.rows ++ [[]] :=
    lines_writeListing fun line member =>
      newline_not_mem_rows identifiers member
  have short := size_lt_of_assemble result fits
  have identifier := identifiers label member
  obtain ⟨i, inside, named⟩ := exists_address_of_label result member
  refine ⟨_, inside, named, ?_, ?_, line_starts_iff _ _ inside, ?_⟩
  · intro line onLine starts
    rw [written]
    exact declaredBefore_of_line short identifier inside named onLine starts
  · rw [written]
    exact not_declared_of_no_line short identifier inside named
  · intro isCode notLast
    exact line_starts_of_isCode result isCode
      (Nat.lt_of_le_of_ne inside notLast)

/-- Two numbers, of which the second looks like the immediate of the first, an
instruction and the end, each with a label. -/
def labelledNumbers : Text :=
  Text.ofString "x: 1\ny: 2\nz: end\nlast:\n"

theorem label_declared_where_line_begins_numbers :
    ∃ assembled, assemble [] labelledNumbers .empty = .ok assembled ∧
      let rows := (writeListing assembled.code assembled.labels
        (.ofLimit none)).1.text.lines
      DeclaredBefore assembled.labels 0 (Text.ofString "x")
        (Text.ofString "     0  loads 2") rows ∧
      Text.ofString "y:" ∉ rows ∧
      DeclaredBefore assembled.labels 2 (Text.ofString "z")
        (Text.ofString "     2  end") rows ∧
      Text.ofString "last:" ∉ rows := by
  obtain ⟨assembled, result, size, labels, shown⟩ : ∃ assembled,
      assemble [] labelledNumbers .empty = .ok assembled ∧
        assembled.code.size = 3 ∧
      assembled.labels.entries =
        [(Text.ofString "x", 0), (Text.ofString "y", 1),
          (Text.ofString "z", 2), (Text.ofString "last", 3)] ∧
      (listing assembled.code assembled.labels).map (fun line =>
        (line.address, line.row)) = [(0, Text.ofString "     0  loads 2"),
          (2, Text.ofString "     2  end")] :=
    ⟨_, rfl, rfl, rfl, by decide +kernel⟩
  have declared := label_declared_where_line_begins result (by decide)
  have same : ∀ a ≤ 3, ∀ b ≤ 3, Int64.ofNat a = Int64.ofNat b →
      a = b := by decide
  have named : ∀ label n, n ≤ 3 →
      (label, Int64.ofNat n) ∈ assembled.labels.entries →
      (∀ row, (n, row) ∈ [(0, Text.ofString "     0  loads 2"),
        (2, Text.ofString "     2  end")] →
        DeclaredBefore assembled.labels (Int64.ofNat n) label row
          (writeListing assembled.code assembled.labels
            (.ofLimit none)).1.text.lines) ∧
      (n ∉ [0, 2] → label ++ [Text.colon] ∉
        (writeListing assembled.code assembled.labels
          (.ofLimit none)).1.text.lines) := by
    intro label n small member
    rw [← NameTable.get?_eq_some_iff] at member
    obtain ⟨address, inside, found, before, never, -⟩ :=
      declared label (NameTable.mem_names_iff.mpr ⟨_, member⟩)
    rw [member, Option.some.injEq] at found
    rw [size] at inside
    obtain rfl := same n small address inside found
    constructor
    · intro row isRow
      rw [← shown] at isRow
      obtain ⟨line, onLine, pair⟩ := List.mem_map.mp isRow
      obtain ⟨starts, rfl⟩ := Prod.mk.inj pair
      exact before line onLine starts
    · intro absent
      apply never
      intro line onLine starts
      apply absent
      have member := List.mem_map_of_mem (f := Prod.fst) (List.mem_map_of_mem
        (f := fun line : ListingLine => (line.address, line.row)) onLine)
      rw [shown, starts] at member
      exact member
  refine ⟨assembled, result, ?_, ?_, ?_, ?_⟩
  · exact (named (Text.ofString "x") 0 (by decide) (by rw [labels]; decide)).1 _
      (by decide)
  · exact (named (Text.ofString "y") 1 (by decide) (by rw [labels]; decide)).2
      (by decide)
  · exact (named (Text.ofString "z") 2 (by decide) (by rw [labels]; decide)).1 _
      (by decide)
  · exact (named (Text.ofString "last") 3 (by decide)
      (by rw [labels]; decide)).2 (by decide)

/-- The label at the end of a program is not declared. -/
theorem not_every_label_declared :
    ¬ ∀ (source : Text) (assembled : Assembled),
      assemble [] source .empty = .ok assembled →
      ∀ label ∈ assembled.labels.names,
        label ++ [Text.colon] ∈ (writeListing assembled.code assembled.labels
          (.ofLimit none)).1.text.lines := by
  intro every
  have declared := every (Text.ofString "end\nlast:\n") _ rfl
    (Text.ofString "last") (by decide)
  revert declared
  decide +kernel

end Assembly

end WordMachine
