import WordMachine.Proofs.Assembly.Labels
import WordMachine.Proofs.Assembly.Positions

/-!
# Reading is line by line

What a line yields depends on its text and its number only, and a source yields
what its lines yield, up to the line with the tenth problem.  So a line with a
problem changes nothing about the others, and two sources without problems, one
below the other, yield what they yield alone, the second one at lines further
down.
-/

namespace WordMachine

/-! ## Lines of joined texts -/

namespace Text

theorem splitFrom_append (separator : UInt8) (s t current : Text) :
    splitFrom separator (s ++ separator :: t) current [] =
      splitFrom separator s current [] ++ t.split separator := by
  induction s generalizing current with
  | nil =>
      have parts : splitFrom separator (separator :: t) current [] =
          splitFrom separator t [] [current.reverse] := by
        rw [splitFrom, if_pos rfl]
      rw [List.nil_append, parts, splitFrom_done]
      rfl
  | cons b s ih =>
      rw [List.cons_append, splitFrom, splitFrom]
      split
      · rw [splitFrom_done, ih, splitFrom_done separator s [] [current.reverse]]
        simp
      · exact ih (b :: current)

theorem lines_append (s t : Text) :
    lines (s ++ newline :: t) = lines s ++ lines t :=
  splitFrom_append newline s t []

theorem length_splitFrom (separator : UInt8) (t current : Text) :
    (splitFrom separator t current []).length = t.count separator + 1 := by
  induction t generalizing current with
  | nil => rfl
  | cons b t ih =>
      rw [splitFrom]
      split
      next equal =>
        rw [splitFrom_done, List.length_append, ih, equal, List.count_cons_self]
        simp [Nat.add_comm]
      next unequal =>
        rw [ih, List.count_cons_of_ne unequal]

theorem length_lines (t : Text) : t.lines.length = t.count newline + 1 :=
  length_splitFrom newline t []

theorem lines_ne_nil (t : Text) : t.lines ≠ [] := by
  apply List.ne_nil_of_length_pos
  rw [length_lines]
  exact Nat.succ_pos _

/-- Every part of a text that is split, ended by the separator. -/
theorem flatMap_splitFrom (separator : UInt8) (t current : Text) :
    (splitFrom separator t current []).flatMap (· ++ [separator]) =
      current.reverse ++ t ++ [separator] := by
  induction t generalizing current with
  | nil => simp [splitFrom]
  | cons b t ih =>
      rw [splitFrom]
      split
      next equal =>
        rw [splitFrom_done, List.flatMap_append, ih, equal]
        simp
      next unequal =>
        rw [ih]
        simp

theorem flatMap_lines (t : Text) :
    t.lines.flatMap (· ++ [newline]) = t ++ [newline] :=
  flatMap_splitFrom newline t []

theorem newline_not_mem_of_mem_lines {t line : Text} (member : line ∈ t.lines) :
    newline ∉ line := by
  obtain ⟨k, found⟩ := List.mem_iff_getElem?.mp member
  obtain ⟨_, _, _, _, _, inner, _⟩ :=
    exists_of_getElem?_splitFrom List.not_mem_nil found
  exact inner

end Text

namespace Assembly

/-- The source consists of these lines: ended by newlines, they make the source,
which itself may lack the newline at the end of its last line. -/
def ConsistsOf (source : Text) (lines : List Text) : Prop :=
  (∀ line ∈ lines, Text.newline ∉ line) ∧
    lines.flatMap (· ++ [Text.newline]) =
      if source = [] ∨ source.getLast? = some Text.newline then source
      else source ++ [Text.newline]

theorem sourceLines_append (s t : Text) :
    sourceLines (s ++ Text.newline :: t) = s.lines ++ sourceLines t := by
  have last : (s.lines ++ t.lines).getLast? = t.lines.getLast? := by
    rw [List.getLast?_append, List.getLast?_eq_some_getLast t.lines_ne_nil,
      Option.some_or]
  simp only [sourceLines, Text.lines_append, last]
  split
  · exact List.dropLast_append_of_ne_nil t.lines_ne_nil
  · rfl

/-- Among the lines of a text, the source has all but an empty last one. -/
theorem lines_cases (source : Text) :
    source.lines = sourceLines source ∨
      source.lines = sourceLines source ++ [[]] := by
  simp only [sourceLines]
  split
  next empty =>
    obtain ⟨front, lines⟩ := List.getLast?_eq_some_iff.mp empty
    rw [lines, List.dropLast_concat]
    exact .inr rfl
  next => exact .inl rfl

/-- The last line is empty exactly if nothing follows the last newline. -/
theorem getLast?_lines_iff {source : Text} :
    source.lines.getLast? = some [] ↔
      source = [] ∨ source.getLast? = some Text.newline := by
  constructor
  · intro empty
    obtain ⟨front, lines⟩ := List.getLast?_eq_some_iff.mp empty
    have ended := Text.flatMap_lines source
    rw [lines, List.flatMap_append] at ended
    have same : front.flatMap (· ++ [Text.newline]) = source :=
      List.append_cancel_right ended
    rcases List.eq_nil_or_concat front with rfl | ⟨before, last, rfl⟩
    · exact .inl same.symm
    · right
      rw [← same, List.concat_eq_append, List.flatMap_append]
      simp
  · rintro (rfl | last)
    · rfl
    · obtain ⟨front, rfl⟩ := List.getLast?_eq_some_iff.mp last
      rw [Text.lines_append, List.getLast?_append]
      rfl

theorem consistsOf_sourceLines (source : Text) :
    ConsistsOf source (sourceLines source) := by
  have ended := Text.flatMap_lines source
  constructor
  · intro line member
    apply Text.newline_not_mem_of_mem_lines
    rcases lines_cases source with same | empty
    · exact same ▸ member
    · rw [empty]
      exact List.mem_append_left _ member
  · simp only [sourceLines, ← getLast?_lines_iff]
    split
    next empty =>
      obtain ⟨front, lines⟩ := List.getLast?_eq_some_iff.mp empty
      rw [lines, List.flatMap_append] at ended
      rw [lines, List.dropLast_concat]
      exact List.append_cancel_right ended
    next => exact ended

/-! ## Lines further down -/

/-- The position some lines further down. -/
def Position.lowered (depth : Nat) (p : Position) : Position :=
  { p with line := p.line + depth }

def Operand.lowered (depth : Nat) (o : Operand) : Operand :=
  { o with pos := o.pos.lowered depth }

def Item.Form.lowered (depth : Nat) : Item.Form → Item.Form
  | .instruction operand => .instruction (operand.map (Operand.lowered depth))
  | form => form

def Item.lowered (depth : Nat) (it : Item) : Item :=
  { it with pos := it.pos.lowered depth, form := it.form.lowered depth }

def Problem.lowered (depth : Nat) (problem : Problem) : Problem :=
  { problem with pos := problem.pos.lowered depth }

def LineReading.lowered (depth : Nat) (reading : LineReading) : LineReading :=
  ⟨reading.items.map (Item.lowered depth),
    reading.problem?.map (Problem.lowered depth)⟩

def Place.lowered (depth : Nat) (p : Place) : Place :=
  { p with line := p.line + depth }

section Lowered

variable (p : Place) (depth : Nat)

theorem Place.numeral_lowered (token : Slice) :
    (p.lowered depth).numeral token =
      (p.numeral token).mapError (Problem.lowered depth) := by
  unfold numeral
  cases Numeral.read token.text <;> rfl

theorem Place.operand_lowered (token : Slice) :
    (p.lowered depth).operand token =
      ((p.operand token).map (Operand.lowered depth)).mapError
        (Problem.lowered depth) := by
  unfold operand
  split
  · rw [numeral_lowered]
    cases p.numeral token <;> rfl
  · split <;> rfl

theorem Place.string_lowered (s : Slice) :
    (p.lowered depth).string s =
      ((p.string s).map (Item.lowered depth)).mapError
        (Problem.lowered depth) := by
  unfold string
  dsimp only
  cases StringLiteral.encode (s.text.trimEnd Text.isBlank) <;> rfl

theorem Place.data_lowered (token : Slice) (rest : List Slice) :
    (p.lowered depth).data token rest =
      ((p.data token rest).map (Item.lowered depth)).mapError
        (Problem.lowered depth) := by
  cases rest with
  | nil =>
      rw [data, data, numeral_lowered]
      cases p.numeral token <;> rfl
  | cons extra rest => rfl

theorem Place.instruction_lowered (token : Slice) (rest : List Slice) :
    (p.lowered depth).instruction token rest =
      ((p.instruction token rest).map (Item.lowered depth)).mapError
        (Problem.lowered depth) := by
  unfold instruction
  split
  · rfl
  · split
    · rfl
    · rw [operand_lowered]
      cases p.operand _ <;> rfl
    · rfl

theorem Place.statement_lowered (s : Slice) :
    (p.lowered depth).statement s =
      ((p.statement s).map (Item.lowered depth)).mapError
        (Problem.lowered depth) := by
  unfold statement
  split
  · exact string_lowered p depth s
  · split
    · rfl
    · split
      · exact data_lowered p depth _ _
      · exact instruction_lowered p depth _ _

theorem LineReading.ofStatement_lowered (items : List Item)
    (statement : Except Problem Item) :
    ofStatement (items.map (Item.lowered depth))
        ((statement.map (Item.lowered depth)).mapError
          (Problem.lowered depth)) =
      (ofStatement items statement).lowered depth := by
  cases statement with
  | error problem => rfl
  | ok item =>
      have placed : items.map (Item.lowered depth) ++ [item.lowered depth] =
          (items ++ [item]).map (Item.lowered depth) := by
        rw [List.map_append]
        rfl
      exact congrArg (LineReading.mk · none) placed

theorem Place.code_lowered (s : Slice) :
    (p.lowered depth).code s = (p.code s).lowered depth := by
  unfold code
  split
  · rfl
  · split
    next =>
      rw [statement_lowered]
      exact LineReading.ofStatement_lowered depth [] _
    next n _ =>
      dsimp only
      split
      · split
        · rfl
        · rw [statement_lowered]
          let label : Item :=
            { pos := p.offset s.offset, name := s.text.take n, form := .label }
          exact LineReading.ofStatement_lowered depth [label] _
      · rfl

/-- The number of a line appears in positions and nowhere else. -/
theorem readLine_lowered (line : Text) :
    readLine (p.lowered depth) line = (readLine p line).lowered depth := by
  unfold readLine
  split
  · rfl
  · exact p.code_lowered depth _

end Lowered

theorem readLine_nil (p : Place) : readLine p [] = {} := rfl

/-! ## The lines of a source -/

theorem readingsFrom_append (name : Text) (lines more : List Text)
    (line : Nat) :
    readingsFrom name (lines ++ more) line =
      readingsFrom name lines line ++
        readingsFrom name more (line + lines.length) := by
  induction lines generalizing line with
  | nil => rfl
  | cons text lines ih =>
      rw [List.cons_append, readingsFrom, ih, readingsFrom, List.cons_append,
        List.length_cons, Nat.add_assoc, Nat.add_comm 1]

theorem readingsFrom_lowered (name : Text) (lines : List Text)
    (line depth : Nat) :
    readingsFrom name lines (line + depth) =
      (readingsFrom name lines line).map (LineReading.lowered depth) := by
  induction lines generalizing line with
  | nil => rfl
  | cons text lines ih =>
      rw [readingsFrom, readingsFrom, List.map_cons, Nat.add_right_comm, ih]
      exact congrArg (· :: _) (readLine_lowered ⟨name, line⟩ depth _)

theorem getElem?_readingsFrom (name : Text) (lines : List Text) (line i : Nat) :
    (readingsFrom name lines line)[i]? =
      lines[i]?.map fun text =>
        readLine ⟨name, line + i⟩ (withoutReturn text) := by
  induction lines generalizing line i with
  | nil => rfl
  | cons text lines ih =>
      cases i with
      | zero => rfl
      | succ i =>
          rw [readingsFrom, List.getElem?_cons_succ,
            List.getElem?_cons_succ, ih, Nat.add_assoc, Nat.add_comm 1]

def Reading.ofLines (name : Text) (readings : List LineReading) : Reading :=
  ⟨⟨name, readings.flatMap LineReading.items⟩,
    readings.filterMap LineReading.problem?⟩

/-- Reading that has found some problems goes over `count` lines: the fewest
that bring the problems to ten, or all of them. -/
structure ReadsOver (found : Nat) (readings : List LineReading)
    (count : Nat) : Prop where
  inside : count ≤ readings.length
  fewest : ∀ fewer < count,
    found + ((readings.take fewer).filterMap LineReading.problem?).length <
      maxProblems
  enough : found + ((readings.take count).filterMap
    LineReading.problem?).length = maxProblems ∨
    count = readings.length

namespace ReadsOver

variable {found count : Nat} {readings : List LineReading}

theorem nil (found : Nat) : ReadsOver found [] 0 :=
  ⟨Nat.le_refl 0, fun _ below => absurd below (Nat.not_lt_zero _), .inr rfl⟩

theorem of_full (full : found = maxProblems) : ReadsOver found readings 0 :=
  ⟨Nat.zero_le _, fun _ below => absurd below (Nat.not_lt_zero _), .inl full⟩

/-- One line is read before the others, with the problem it may have. -/
theorem cons {reading : LineReading} (room : found < maxProblems)
    (goes : ReadsOver (found + reading.problem?.toList.length) readings count) :
    ReadsOver found (reading :: readings) (count + 1) := by
  -- the problem of the first line counts among those found, or among those of
  -- the lines
  have counted (n : Nat) :
      found + (((reading :: readings).take (n + 1)).filterMap
        LineReading.problem?).length = found + reading.problem?.toList.length +
          ((readings.take n).filterMap LineReading.problem?).length := by
    rw [List.take_succ_cons, List.filterMap_cons]
    cases reading.problem? with
    | none => rfl
    | some problem =>
        simp only [Option.toList_some, List.length_cons, List.length_nil]
        omega
  refine ⟨Nat.succ_le_succ goes.inside, ?_, ?_⟩
  · intro fewer below
    cases fewer with
    | zero => exact room
    | succ fewer =>
        rw [counted]
        exact goes.fewest fewer (Nat.lt_of_succ_lt_succ below)
  · rw [counted, List.length_cons]
    rcases goes.enough with full | all
    · exact .inl full
    · exact .inr (congrArg (· + 1) all)

/-- Without problems, reading goes over all lines. -/
theorem eq_length (goes : ReadsOver 0 readings count)
    (clean : readings.filterMap LineReading.problem? = []) :
    count = readings.length := by
  rcases goes.enough with full | all
  · have unreported :
        (readings.take count).filterMap LineReading.problem? = [] :=
      List.sublist_nil.mp
        (clean ▸ (List.take_sublist count readings).filterMap _)
    rw [unreported] at full
    cases full
  · exact all

theorem le {fewer : Nat} (goes : ReadsOver found readings count)
    (other : ReadsOver found readings fewer) : count ≤ fewer := by
  apply Nat.le_of_not_lt
  intro below
  have missing := goes.fewest fewer below
  have inside := goes.inside
  rcases other.enough with full | all <;> omega

/-- There is only one number of lines that reading can go over. -/
theorem unique {count' : Nat} (goes : ReadsOver found readings count)
    (goes' : ReadsOver found readings count') : count = count' :=
  Nat.le_antisymm (goes.le goes') (goes'.le goes)

end ReadsOver

/-- Reading goes over the lines one by one and collects what they yield. -/
theorem readLines_over {lines : List Text} (name : Text) (line : Nat)
    (items : List Item) (found : List Problem)
    (short : ∀ text ∈ lines, text.length < maxLineLength)
    (room : found.length ≤ maxProblems) :
    ∃ count, ReadsOver found.length (readingsFrom name lines line) count ∧
      readLines name lines line items found = .ok
        ⟨⟨name,
            items.reverse ++
              ((readingsFrom name lines line).take count).flatMap
                LineReading.items⟩,
          found.reverse ++
            ((readingsFrom name lines line).take count).filterMap
              LineReading.problem?⟩ := by
  induction lines generalizing line items found with
  | nil => exact ⟨0, .nil _, by simp [readLines, readingsFrom]⟩
  | cons text rest ih =>
      obtain ⟨first, restShort⟩ := List.forall_mem_cons.mp short
      rw [readLines, if_neg (Nat.not_le.mpr first)]
      split
      next full =>
        -- the line after the tenth problem is looked at, but not read
        rw [isFull_iff] at full
        exact ⟨0, .of_full (Nat.le_antisymm room full), by simp⟩
      next notFull =>
        rw [isFull_iff, Nat.not_le] at notFull
        dsimp only
        generalize next : readLine ⟨name, line⟩ (withoutReturn text) = reading
        have length : (reading.problem?.toList ++ found).length =
            found.length + reading.problem?.toList.length := by
          rw [List.length_append, Nat.add_comm]
        have roomNext : (reading.problem?.toList ++ found).length ≤
            maxProblems := by
          have single : reading.problem?.toList.length ≤ 1 := by
            cases reading.problem? <;> simp
          omega
        obtain ⟨count, goes, result⟩ :=
          ih (line + 1) (reading.items.reverse ++ items) _ restShort
          roomNext
        rw [length] at goes
        refine ⟨count + 1, ?_, ?_⟩
        · rw [readingsFrom, next]
          exact goes.cons notFull
        · rw [result, readingsFrom, next]
          cases problem : reading.problem? <;> simp [problem]

/-- A source whose lines fit yields what its lines yield, as far as reading
goes. -/
theorem read_over (name : Text) {source : Text}
    (short : ∀ line ∈ sourceLines source, line.length < maxLineLength) :
    ∃ count, ReadsOver 0 (lineReadings name source) count ∧
      read name source =
        .ok (.ofLines name ((lineReadings name source).take count)) :=
  readLines_over name 1 [] [] short (Nat.zero_le _)

/-- A source is read without problems exactly if its lines fit and have none. -/
theorem read_eq_clean_iff {name source : Text} {program : Program} :
    read name source = .ok ⟨program, []⟩ ↔
      (∀ line ∈ sourceLines source, line.length < maxLineLength) ∧
      (lineReadings name source).filterMap LineReading.problem? = [] ∧
      program = ⟨name, sourceItems name source⟩ := by
  constructor
  · intro result
    have clean := read_problems result
    rcases List.take_eq_nil_iff.mp clean.symm with zero | problemless
    · cases zero
    · exact ⟨short_of_readLines result rfl, problemless,
        readLines_program result rfl⟩
  · rintro ⟨short, clean, rfl⟩
    obtain ⟨count, goes, result⟩ := read_over name short
    rw [result, goes.eq_length clean, List.take_length, Reading.ofLines, clean]
    rfl

/-- All the lines of a text yield what the lines of the source yield: an empty
line yields nothing. -/
theorem readingsFrom_lines (name source : Text) :
    (readingsFrom name source.lines 1).flatMap LineReading.items =
      sourceItems name source ∧
      (readingsFrom name source.lines 1).filterMap LineReading.problem? =
        (lineReadings name source).filterMap LineReading.problem? := by
  rcases lines_cases source with same | empty
  · rw [same]
    exact ⟨rfl, rfl⟩
  · rw [empty, readingsFrom_append]
    simp [readingsFrom, withoutReturn, readLine_nil, sourceItems, lineReadings]

theorem items_lowered (depth : Nat) (readings : List LineReading) :
    (readings.map (LineReading.lowered depth)).flatMap LineReading.items =
      (readings.flatMap LineReading.items).map (Item.lowered depth) := by
  rw [List.flatMap_map, List.map_flatMap]
  rfl

theorem problems_lowered (depth : Nat) (readings : List LineReading) :
    (readings.map (LineReading.lowered depth)).filterMap LineReading.problem? =
      (readings.filterMap LineReading.problem?).map
        (Problem.lowered depth) := by
  rw [List.filterMap_map, List.map_filterMap]
  rfl

theorem lineReadings_append (name source below : Text) :
    lineReadings name (source ++ Text.newline :: below) =
      readingsFrom name source.lines 1 ++
        (lineReadings name below).map
          (LineReading.lowered (source.count Text.newline + 1)) := by
  rw [lineReadings, sourceLines_append, readingsFrom_append, Text.length_lines,
    readingsFrom_lowered]
  rfl

theorem short_append {source below : Text}
    (short : ∀ line ∈ sourceLines source, line.length < maxLineLength)
    (short' : ∀ line ∈ sourceLines below, line.length < maxLineLength) :
    ∀ line ∈ sourceLines (source ++ Text.newline :: below),
      line.length < maxLineLength := by
  rw [sourceLines_append, List.forall_mem_append]
  refine ⟨?_, short'⟩
  rcases lines_cases source with same | empty
  · rw [same]
    exact short
  · rw [empty, List.forall_mem_append]
    refine ⟨short, ?_⟩
    intro line last
    rw [List.mem_singleton.mp last]
    decide

/-- Two sources without problems, one below the other, yield what they yield
alone, the second one at lines further down. -/
theorem read_append {name source below : Text} {program program' : Program}
    (first : read name source = .ok ⟨program, []⟩)
    (second : read name below = .ok ⟨program', []⟩) :
    read name (source ++ Text.newline :: below) = .ok
      ⟨⟨name,
          program.items ++
            program'.items.map (Item.lowered (source.count Text.newline + 1))⟩,
        []⟩ := by
  obtain ⟨short, clean, rfl⟩ := read_eq_clean_iff.mp first
  obtain ⟨short', clean', rfl⟩ := read_eq_clean_iff.mp second
  obtain ⟨items, problems⟩ := readingsFrom_lines name source
  refine read_eq_clean_iff.mpr ⟨short_append short short', ?_, ?_⟩
  · rw [lineReadings_append, List.filterMap_append, problems, clean,
      problems_lowered, clean']
    rfl
  · have both : sourceItems name (source ++ Text.newline :: below) =
        sourceItems name source ++
          (sourceItems name below).map
            (Item.lowered (source.count Text.newline + 1)) := by
      rw [sourceItems, lineReadings_append, List.flatMap_append, items,
        items_lowered]
      rfl
    rw [both]

/-- Another text for one line changes the reading of this line only. -/
theorem readingsFrom_set (name : Text) (lines : List Text) (line i : Nat)
    (text : Text) :
    readingsFrom name (lines.set i text) line =
      (readingsFrom name lines line).set i
        (readLine ⟨name, line + i⟩ (withoutReturn text)) := by
  induction lines generalizing line i with
  | nil => rfl
  | cons first lines ih =>
      cases i with
      | zero => rfl
      | succ i =>
          rw [List.set_cons_succ, readingsFrom, readingsFrom,
            List.set_cons_succ, ih, Nat.add_assoc, Nat.add_comm 1]

/-- A source whose lines fit yields, in order, the items and the problems of its
lines, each read on its own at its number, up to the line with the tenth
problem.  Another text for a line leaves the other lines as they are; and two
sources without problems, one below the other, yield the items of both, the
second ones at lines further down. -/
theorem read_line_by_line (name source : Text)
    (short : ∀ line ∈ sourceLines source, line.length < maxLineLength) :
    (∃ count, (∀ n, ReadsOver 0 (lineReadings name source) n ↔ n = count) ∧
      read name source =
        .ok (.ofLines name ((lineReadings name source).take count))) ∧
    ConsistsOf source (sourceLines source) ∧
    (∀ i, (lineReadings name source)[i]? =
      (sourceLines source)[i]?.map fun line =>
        readLine ⟨name, 1 + i⟩ (withoutReturn line)) ∧
    (∀ other text i, sourceLines other = (sourceLines source).set i text →
      lineReadings name other =
        (lineReadings name source).set i
          (readLine ⟨name, 1 + i⟩ (withoutReturn text))) ∧
    ∀ below program program', read name source = .ok ⟨program, []⟩ →
      read name below = .ok ⟨program', []⟩ →
      read name (source ++ Text.newline :: below) = .ok
        ⟨⟨name,
            program.items ++ program'.items.map
              (Item.lowered (source.count Text.newline + 1))⟩,
          []⟩ := by
  refine ⟨?_, consistsOf_sourceLines source,
    getElem?_readingsFrom name (sourceLines source) 1, ?_,
    fun _ _ _ => read_append⟩
  · obtain ⟨count, goes, result⟩ := read_over name short
    refine ⟨count, ?_, result⟩
    intro n
    constructor
    · intro goes'
      exact goes'.unique goes
    · rintro rfl
      exact goes
  · intro other text i replaced
    rw [lineReadings, replaced, readingsFrom_set]
    rfl

/-- Twelve lines: all but the first and the last have a problem. -/
def crowded : Text :=
  Text.ofString "start: halt\r\n?\n?\n?\n?\n?\n?\n?\n?\n?\n?\njump start"

/-- The same lines with a blank one in place of the second. -/
def relieved : Text :=
  Text.ofString "start: halt\r\n\n?\n?\n?\n?\n?\n?\n?\n?\n?\njump start"

/-- Reading gives up before the last line, and reaches it when one problem is
mended. -/
theorem read_line_by_line_crowded :
    (∀ line ∈ sourceLines crowded, line.length < maxLineLength) ∧
    (lineReadings [] crowded).length = 12 ∧
    read [] crowded = .ok (.ofLines [] ((lineReadings [] crowded).take 11)) ∧
    lineReadings [] relieved =
      (lineReadings [] crowded).set 1 (readLine ⟨[], 2⟩ (withoutReturn [])) ∧
    read [] relieved = .ok (.ofLines [] (lineReadings [] relieved)) ∧
    read [] (Text.ofString "start: halt\r" ++ Text.newline ::
      Text.ofString "jump start") = .ok
      ⟨⟨[],
          sourceItems [] (Text.ofString "start: halt\r") ++
            (sourceItems [] (Text.ofString "jump start")).map (Item.lowered 1)⟩,
        []⟩ := by
  have short : ∀ line ∈ sourceLines crowded, line.length < maxLineLength := by
    decide +kernel
  have short' : ∀ line ∈ sourceLines relieved, line.length < maxLineLength := by
    decide +kernel
  have cut : ReadsOver 0 (lineReadings [] crowded) 11 :=
    ⟨by decide +kernel, by decide +kernel, by decide +kernel⟩
  have whole : ReadsOver 0 (lineReadings [] relieved) 12 :=
    ⟨by decide +kernel, by decide +kernel, by decide +kernel⟩
  have above : read [] (Text.ofString "start: halt\r") =
      .ok ⟨⟨[], sourceItems [] (Text.ofString "start: halt\r")⟩, []⟩ :=
    read_eq_clean_iff.mpr ⟨by decide +kernel, by decide +kernel, rfl⟩
  have below : read [] (Text.ofString "jump start") =
      .ok ⟨⟨[], sourceItems [] (Text.ofString "jump start")⟩, []⟩ :=
    read_eq_clean_iff.mpr ⟨by decide +kernel, by decide +kernel, rfl⟩
  obtain ⟨⟨count, goes, result⟩, -, -, replace, -⟩ :=
    read_line_by_line [] crowded short
  obtain ⟨⟨count', goes', result'⟩, -⟩ := read_line_by_line [] relieved short'
  obtain ⟨-, -, -, -, joined⟩ :=
    read_line_by_line [] (Text.ofString "start: halt\r") (by decide +kernel)
  rw [← (goes 11).mp cut] at result
  rw [← (goes' 12).mp whole] at result'
  exact ⟨short, by decide +kernel, result,
    replace relieved [] 1 (by decide +kernel), result',
        joined _ _ _ above below⟩

end Assembly

end WordMachine
