import WordMachine.Proofs.Assembly.Addresses
import WordMachine.Proofs.Assembly.Extent

/-!
# The names of labels

A label is read only if its name is an identifier, and no byte of an identifier
stands for the replacement character.  So the labels of a program that was
assembled are well-formed texts, whatever bytes the source has otherwise, and
shorter than a line can be.
-/

namespace WordMachine

namespace Assembly

theorem isValid_of_isIdentifier {t : Text}
    (identifier : isIdentifier t = true) :
    t.isValid = true := by
  cases t with
  | nil => rfl
  | cons b rest =>
    rw [isIdentifier, Bool.and_eq_true] at identifier
    exact Text.isValid_of_allChars (by decide +kernel) identifier.2

/-! ## Labels of a line -/

/-- The name of a label as it can stand on a line. -/
structure LabelOf (line name : Text) : Prop where
  identifier : isIdentifier name = true
  short : name.length ≤ line.length

theorem Place.Statement.form_ne_label {p : Place} {s : Slice} {it : Item}
    (statement : p.Statement s it) : it.form ≠ .label := by
  cases statement <;> nofun

theorem LabelOf.of_code {p : Place} {s : Slice} {it : Item}
    (member : it ∈ (p.code s).items)
    (label : it.form = .label) : LabelOf s.text it.name := by
  have statements : ∀ (items : List Item) (t : Slice),
      it ∈ (LineReading.ofStatement items (p.statement t)).items →
        it ∈ items := by
    intro items t inside
    rcases p.statement_cases t with ⟨other, read, statement⟩ |
      ⟨problem, failed, -⟩
    · rw [read] at inside
      rcases List.mem_append.mp inside with before | last
      · exact before
      · rw [List.mem_singleton.mp last] at label
        exact absurd label statement.form_ne_label
    · rw [failed] at inside
      exact inside
  unfold Place.code at member
  split at member
  · cases member
  · split at member
    next => cases statements _ _ member
    next n _ =>
      dsimp only at member
      split at member
      next identifier =>
        have named : it.name = s.text.take n := by
          split at member
          · rw [List.mem_singleton.mp member]
          · rw [List.mem_singleton.mp (statements _ _ member)]
        rw [named]
        exact ⟨identifier, List.length_take_le' _ _⟩
      next => cases member

theorem LabelOf.of_readLine {p : Place} {line : Text} {it : Item}
    (member : it ∈ (readLine p line).items) (label : it.form = .label) :
    LabelOf line it.name := by
  unfold readLine at member
  split at member
  next => cases member
  next n _ =>
    obtain ⟨identifier, short⟩ := LabelOf.of_code member label
    have trimmed := Slice.length_trimStart_le ⟨line.take n, 0⟩
    exact ⟨identifier,
      Nat.le_trans short (Nat.le_trans trimmed (List.length_take_le' _ _))⟩

/-! ## Labels of a source -/

/-- A source that is read to its end has no line that is too long. -/
theorem short_of_readLines {name : Text} {lines : List Text} {line : Nat}
    {items : List Item} {found : List Problem} {reading : Reading}
    (result : readLines name lines line items found = .ok reading)
    (clean : reading.problems = []) :
    ∀ text ∈ lines, text.length < maxLineLength := by
  induction lines generalizing line items found with
  | nil => nofun
  | cons text rest ih =>
    rw [readLines] at result
    split at result
    next => cases result
    next fitting =>
      split at result
      next full =>
        cases result
        rw [isFull_iff] at full
        have empty : found.length = 0 := by
          simpa using congrArg List.length clean
        rw [empty] at full
        exact absurd full (by decide)
      next =>
        intro other member
        rcases List.mem_cons.mp member with rfl | later
        · exact Nat.lt_of_not_le fitting
        · exact ih result other later

theorem declared_readingsFrom {name : Text} {lines : List Text} {line : Nat}
    {label : Text} (member : label ∈
      declared ((readingsFrom name lines line).flatMap LineReading.items)) :
    ∃ text ∈ lines, LabelOf text label := by
  obtain ⟨it, inside, isLabel⟩ := List.mem_filterMap.mp member
  obtain ⟨form, rfl⟩ := label?_eq_some.mp isLabel
  clear member isLabel
  induction lines generalizing line with
  | nil => cases inside
  | cons text rest ih =>
    rw [readingsFrom, List.flatMap_cons, List.mem_append] at inside
    rcases inside with here | later
    · obtain ⟨identifier, short⟩ := LabelOf.of_readLine here form
      exact ⟨text, List.mem_cons_self, identifier,
        Nat.le_trans short (length_withoutReturn_le text)⟩
    · obtain ⟨other, member, found⟩ := ih later
      exact ⟨other, List.mem_cons_of_mem text member, found⟩

/-- A source that was assembled was read without problems, and linked against
the given native functions. -/
theorem read_of_assemble {name source : Text} {natives : NameTable}
    {assembled : Assembled}
    (result : assemble name source natives = .ok assembled) :
    assembled.natives = natives ∧
      ∃ reading, read name source = .ok reading ∧ reading.problems = [] := by
  cases readResult : read name source with
  | error fault => simp [assemble, readResult] at result
  | ok reading =>
    rw [assemble_of_read readResult] at result
    split at result
    next clean =>
      split at result
      next =>
        split at result
        next =>
          split at result
          next =>
            cases result
            exact ⟨rfl, reading, rfl, clean⟩
          next => cases result
        next => cases result
      next => cases result
    next => cases result

/-- The labels of a program that was assembled are identifiers and fit on a
line. -/
theorem assembled_label {name source : Text} {natives : NameTable}
    {assembled : Assembled}
    (result : assemble name source natives = .ok assembled) {label : Text}
    (member : label ∈ assembled.labels.names) :
    isIdentifier label = true ∧ label.length < maxLineLength := by
  obtain ⟨program, labels, -, laid, -, -⟩ := assemble_ok result
  obtain ⟨-, reading, readResult, clean⟩ := read_of_assemble result
  have isDeclared : label ∈ declared (sourceItems name source) := by
    obtain ⟨⟨_, address⟩, inside, rfl⟩ := List.mem_map.mp member
    have items : assembled.program.items = sourceItems name source := by
      rw [program]
    rw [← items, ← layout_names_iff laid, ← labels]
    exact ⟨address, NameTable.get?_eq_some_iff.mpr inside⟩
  obtain ⟨line, inSource, identifier, short⟩ := declared_readingsFrom isDeclared
  have fitting := short_of_readLines readResult clean line inSource
  exact ⟨identifier, Nat.lt_of_le_of_lt short fitting⟩

end Assembly

end WordMachine
