import WordMachine.Proofs.Assembly.Grammar
import WordMachine.Proofs.Assembly.SourceOrder

/-!
# Positions name the places where things are written

Every item and operand that is read has the position of the bytes it was read
from, and items and operands stand in source order.  The problems that the
passes report lie on lines of the source.  All this holds next to problems too.
-/

namespace WordMachine

/-! ## Lines of a text -/

namespace Text

/-- `line` is line number `n` of a text: it ends at a newline or at the end of
the text, and `n - 1` newlines stand in front of it.  There is no line behind a
last newline. -/
def IsLine (t : Text) (n : Nat) (line : Text) : Prop :=
  ∃ before after : Text, t = before ++ (line ++ after) ∧
    before.count newline + 1 = n ∧
    (before = [] ∨ before.getLast? = some newline) ∧ newline ∉ line ∧
    (after.head? = some newline ∨ after = [] ∧ line ≠ [])

theorem splitFrom_done (separator : UInt8) (t current : Text)
    (done : List Text) :
    splitFrom separator t current done = done.reverse ++
      splitFrom separator t current [] := by
  induction t generalizing current done with
  | nil => simp [splitFrom]
  | cons b t ih =>
      rw [splitFrom, splitFrom]
      split
      · rw [ih [] (current.reverse :: done), ih [] [current.reverse]]
        simp
      · exact ih (b :: current) done

/-- A part of a text that is split stands between two separators, the first and
the last part between a separator and an end of the text. -/
theorem exists_of_getElem?_splitFrom {separator : UInt8}
    {t current line : Text} {k : Nat} (unbroken : separator ∉ current)
    (part : (splitFrom separator t current [])[k]? = some line) :
    ∃ before after : Text, current.reverse ++ t = before ++ (line ++ after) ∧
      before.count separator = k ∧
        (before = [] ∨ before.getLast? = some separator) ∧
      separator ∉ line ∧
      (after.head? = some separator ∨
        after = [] ∧ (splitFrom separator t current []).length = k + 1) := by
  induction t generalizing current k with
  | nil =>
      have parts : splitFrom separator [] current [] = [current.reverse] := rfl
      rw [parts] at part ⊢
      cases k with
      | zero =>
          cases part
          exact ⟨[], [], by simp, rfl, .inl rfl, by simpa using unbroken,
            .inr ⟨rfl, rfl⟩⟩
      | succ k => cases part
  | cons b t ih =>
      by_cases ends : b = separator
      · subst ends
        have parts : splitFrom b (b :: t) current [] = current.reverse ::
            splitFrom b t [] [] := by
          rw [splitFrom, if_pos rfl, splitFrom_done]
          rfl
        rw [parts] at part ⊢
        cases k with
        | zero =>
            cases part
            exact ⟨[], b :: t, rfl, rfl, .inl rfl,
              by simpa using unbroken, .inl rfl⟩
        | succ k =>
            obtain ⟨before, after, split, count, start, inner, stop⟩ :=
              ih List.not_mem_nil part
            refine ⟨current.reverse ++ b :: before, after, ?_, ?_,
              .inr ?_, inner, ?_⟩
            · rw [List.reverse_nil, List.nil_append] at split
              simp [split]
            · have absent : current.reverse.count b = 0 :=
                List.count_eq_zero.mpr (by simpa using unbroken)
              rw [List.count_append, List.count_cons_self, absent,
                count, Nat.zero_add]
            · rcases start with rfl | last
              · simp
              · simp [List.getLast?_append, List.getLast?_cons, last]
            · rcases stop with next | ⟨ended, length⟩
              · exact .inl next
              · exact .inr ⟨ended, by rw [List.length_cons, length]⟩
      · have parts : splitFrom separator (b :: t) current [] =
            splitFrom separator t (b :: current) [] := by
          rw [splitFrom, if_neg ends]
        rw [parts] at part ⊢
        have shifted : (b :: current).reverse ++ t = current.reverse ++
            b :: t := by simp
        rw [← shifted]
        apply ih _ part
        simp only [List.mem_cons, not_or]
        exact ⟨Ne.symm ends, unbroken⟩

end Text

namespace Assembly

/-- A line of a source is a part of it, but not the empty part behind a last
newline. -/
theorem getElem?_sourceLines {source line : Text} {k : Nat}
    (found : (sourceLines source)[k]? = some line) :
    source.lines[k]? = some line ∧
      (source.lines.getLast? = some [] → k + 1 < source.lines.length) := by
  by_cases last : source.lines.getLast? = some []
  · simp only [sourceLines, last, if_true, List.getElem?_dropLast] at found
    split at found
    next inside => exact ⟨found, fun _ => by omega⟩
    next => cases found
  · simp only [sourceLines, last, if_false] at found
    exact ⟨found, fun empty => absurd empty last⟩

theorem isLine_of_getElem? {source line : Text} {k : Nat}
    (found : (sourceLines source)[k]? = some line) :
    source.IsLine (k + 1) line := by
  obtain ⟨part, notLast⟩ := getElem?_sourceLines found
  obtain ⟨before, after, split, count, start, inner, stop⟩ :=
    Text.exists_of_getElem?_splitFrom List.not_mem_nil part
  refine ⟨before, after, split, by rw [count], start, inner, ?_⟩
  rcases stop with next | ⟨ended, length⟩
  · exact .inl next
  · refine .inr ⟨ended, ?_⟩
    rintro rfl
    have total : source.lines.length = k + 1 := length
    have last : source.lines.getLast? = some [] := by
      rw [List.getLast?_eq_getElem?, total]
      exact part
    have inside := notLast last
    omega

/-! ## Where items are written -/

/-- Where a token ends: at white space, at a comment or at the end of the
line. -/
def EndsToken (rest : Text) : Prop :=
  StartsBlank rest ∨ EndsCode rest

/-- On the line, `written` stands at the position, and what stands behind it is
as told. -/
def Place.Shows (p : Place) (line : Text) (pos : Position) (written : Text)
    (behind : Text → Prop) : Prop :=
  ∃ front rest, line = front ++ (written ++ rest) ∧
    pos = p.offset front.length ∧ behind rest

/-- A numeric token with the value stands at the position. -/
def Place.ShowsNumber (p : Place) (line : Text) (pos : Position)
    (value : Numeral) : Prop :=
  ∃ token : NumberToken, token.value = value ∧
    p.Shows line pos token.text EndsToken

/-- The operand is written on the line where its position says. -/
def Operand.WrittenOn (p : Place) (line : Text) (o : Operand) : Prop :=
  match o.value with
  | .numeral value => p.ShowsNumber line o.pos value
  | .name symbol => p.Shows line o.pos symbol EndsToken

/-- The item and its operand are written on the line where their positions
say. -/
def Item.WrittenOn (p : Place) (line : Text) (it : Item) : Prop :=
  match it.form with
  | .label => p.Shows line it.pos (it.name ++ [Text.colon]) fun _ => True
  | .instruction operand =>
    p.Shows line it.pos it.name EndsToken ∧ ∀ o, operand = some o →
      o.WrittenOn p line
  | .data value => p.ShowsNumber line it.pos value
  | .string literal => p.Shows line it.pos literal EndsToken
  | .unknown => False

section Line

variable {p : Place} {line front written rest : Text} {behind : Text → Prop}

theorem Place.shows_of_eq (text : line = front ++ (written ++ rest))
    (after : behind rest) :
    p.Shows line (p.offset front.length) written behind :=
  ⟨front, rest, text, rfl, after⟩

theorem OperandSyntax.writtenOn_operand (operand : OperandSyntax) (p : Place)
    (text : line = front ++ (operand.text ++ rest)) (ends : EndsToken rest) :
    (operand.operand p front.length).WrittenOn p line := by
  cases operand with
  | number token => exact ⟨token, rfl, Place.shows_of_eq text ends⟩
  | name symbol => exact Place.shows_of_eq text ends

theorem StatementSyntax.writtenOn_item (statement : StatementSyntax) (p : Place)
    (text : line = front ++ (statement.text ++ rest)) (ends : EndsToken rest) :
    (statement.item p front.length).WrittenOn p line := by
  cases statement with
  | string literal => exact Place.shows_of_eq text ends
  | data token => exact ⟨token, rfl, Place.shows_of_eq text ends⟩
  | instruction mnemonic operand =>
      cases operand with
      | none => exact ⟨Place.shows_of_eq text ends, nofun⟩
      | some arguments =>
          obtain ⟨gap, operand⟩ := arguments
          rw [StatementSyntax.text, List.append_assoc,
            List.append_assoc] at text
          refine ⟨Place.shows_of_eq text
            (.inl (.of_blank gap.allBlank gap.nonempty _)), ?_⟩
          intro o equal
          cases equal
          have behind : line = (front ++ mnemonic.text ++ gap.text) ++
              (operand.text ++ rest) := by
            simp [text]
          have written := operand.writtenOn_operand p behind ends
          rwa [List.length_append, List.length_append] at written

theorem Identifier.writtenOn_labelItem (name : Identifier) (p : Place)
    (text : line = front ++ (name.text ++ Text.colon :: rest)) :
    (name.labelItem p front.length).WrittenOn p line := by
  refine ⟨front, rest, ?_, rfl, trivial⟩
  rw [text, Identifier.labelItem, List.append_assoc]
  rfl

end Line

theorem exists_withoutReturn (line : Text) :
    ∃ ending, line = withoutReturn line ++ ending ∧ StartsBlank ending := by
  unfold withoutReturn
  split
  next last =>
    obtain ⟨front, rfl⟩ := List.getLast?_eq_some_iff.mp last
    refine ⟨[Text.carriageReturn], ?_, .of_allBlank (by decide)⟩
    rw [List.dropLast_concat]
  next => exact ⟨[], by simp, rfl⟩

theorem endsToken_trail (trail : Blank) (comment : Option Comment)
    {ending : Text} (startsBlank : StartsBlank ending) :
    EndsToken (trail.text ++ (commentText comment ++ ending)) := by
  by_cases empty : trail.text = []
  · rw [empty, List.nil_append]
    cases comment with
    | none => exact .inl startsBlank
    | some comment =>
        right
        intro b head
        cases head
        exact comment.isSign
  · exact .inl (.of_blank trail.allBlank empty _)

theorem LineSyntax.writtenOn_items (s : LineSyntax) (p : Place) {ending : Text}
    (startsBlank : StartsBlank ending) :
    ∀ it ∈ s.items p, it.WrittenOn p (s.text ++ ending) := by
  intro it member
  rcases List.mem_append.mp member with isLabel | isStatement
  · obtain ⟨name, label, rfl⟩ :=
      Option.map_eq_some_iff.mp (Option.mem_toList.mp isLabel)
    apply name.writtenOn_labelItem p
    simp only [LineSyntax.text, LineSyntax.code, label, labelText,
      List.append_assoc, List.singleton_append]
    rfl
  · obtain ⟨statement, found, rfl⟩ :=
      Option.map_eq_some_iff.mp (Option.mem_toList.mp isStatement)
    have text : s.text ++ ending =
        (s.indent.text ++ labelText s.label ++ s.gap.text) ++
        (statement.text ++
          (s.trail.text ++ (commentText s.comment ++ ending))) := by
      simp only [LineSyntax.text, LineSyntax.code, found, statementText,
        List.append_assoc]
    have written := statement.writtenOn_item p text
      (endsToken_trail s.trail s.comment startsBlank)
    rwa [List.length_append, List.length_append] at written

/-- What is read from a line is written there, also where the line has a
problem. -/
theorem readLine_writtenOn (p : Place) (line : Text) :
    ∀ it ∈ (readLine p (withoutReturn line)).items, it.WrittenOn p line := by
  intro it member
  obtain ⟨ending, text, startsBlank⟩ := exists_withoutReturn line
  rcases readLine_cases p (withoutReturn line) with ⟨s, written⟩ | rejected
  · rw [← written, s.readLine_text] at member
    rw [← written] at text
    rw [text]
    exact s.writtenOn_items p startsBlank it member
  · rcases rejected.items with empty | ⟨indent, name, rest, isLine, items⟩
    · rw [empty] at member
      cases member
    · rw [items, List.mem_singleton] at member
      rw [member]
      rw [isLine, List.append_assoc, List.append_assoc] at text
      exact name.writtenOn_labelItem p text

/-! ## Order -/

theorem Position.Before.trans {a b c : Position} (first : a.Before b)
    (second : b.Before c) :
    a.Before c := by
  simp only [Position.Before] at *
  omega

/-- The positions of an item: its own and that of its operand. -/
def Item.positions (it : Item) : List Position :=
  it.pos :: (it.operand?.map Operand.pos).toList

theorem Item.mem_positions {it : Item} {pos : Position} :
    pos ∈ it.positions ↔
      pos = it.pos ∨ ∃ o, it.operand? = some o ∧ o.pos = pos := by
  simp [Item.positions]

theorem Item.OnLine.line_of_mem {it : Item} {n : Nat} {pos : Position}
    (onLine : it.OnLine n) (member : pos ∈ it.positions) : pos.line = n := by
  rcases Item.mem_positions.mp member with rfl | ⟨o, operand, rfl⟩
  · exact onLine.pos
  · exact onLine.operand o operand

theorem StatementSyntax.before_operand (statement : StatementSyntax) (p : Place)
    (offset : Nat) {o : Operand}
    (operand : (statement.item p offset).operand? = some o) :
    (statement.item p offset).pos.Before o.pos := by
  cases statement with
  | string literal => cases operand
  | data token => cases operand
  | instruction mnemonic arguments =>
      cases arguments with
      | none => cases operand
      | some arguments =>
          obtain ⟨gap, written⟩ := arguments
          cases operand
          have apart := List.length_pos_iff.mpr gap.nonempty
          refine .inr ⟨rfl, ?_⟩
          have later : (offset : Int) + 1 <
              (offset + mnemonic.text.length + gap.text.length : Nat) + 1 := by
            omega
          exact later

/-- An operand stands behind its mnemonic. -/
theorem readLine_before_operand (p : Place) (line : Text) :
    ∀ it ∈ (readLine p line).items, ∀ o, it.operand? = some o →
      it.pos.Before o.pos := by
  intro it member o operand
  rcases readLine_cases p line with ⟨s, rfl⟩ | rejected
  · rw [s.readLine_text] at member
    rcases List.mem_append.mp member with isLabel | isStatement
    · obtain ⟨name, -, rfl⟩ :=
        Option.map_eq_some_iff.mp (Option.mem_toList.mp isLabel)
      cases operand
    · obtain ⟨statement, -, rfl⟩ :=
        Option.map_eq_some_iff.mp (Option.mem_toList.mp isStatement)
      exact statement.before_operand p _ operand
  · rcases rejected.items with empty | ⟨indent, name, rest, -, items⟩
    · rw [empty] at member
      cases member
    · rw [items, List.mem_singleton] at member
      rw [member] at operand
      cases operand

/-- The positions of items in source order are in source order. -/
theorem positions_before {items : List Item}
    (precedes : items.Pairwise Item.Precedes)
    (onLine : ∀ it ∈ items, ∃ n, it.OnLine n)
    (operands : ∀ it ∈ items, ∀ o, it.operand? = some o → it.pos.Before o.pos) :
    (items.flatMap Item.positions).Pairwise Position.Before := by
  rw [List.pairwise_flatMap]
  refine ⟨?_, precedes.imp_of_mem ?_⟩
  · intro it member
    rw [Item.positions]
    cases operand : it.operand? with
    | none => exact List.pairwise_singleton _ _
    | some o => exact List.pairwise_pair.mpr (operands it member o operand)
  · intro first second firstMember secondMember before a isFirst b isSecond
    obtain ⟨n, firstLine⟩ := onLine first firstMember
    obtain ⟨m, secondLine⟩ := onLine second secondMember
    rcases before with earlier | ⟨same, label, left⟩
    · left
      rw [firstLine.line_of_mem isFirst, secondLine.line_of_mem isSecond,
        ← firstLine.pos, ← secondLine.pos]
      exact earlier
    · -- only a label has another item on its line, and it has no operand
      have own : a = first.pos := by
        simpa [Item.positions, Item.operand?, label] using isFirst
      have behind : first.pos.Before second.pos := .inr ⟨same, left⟩
      rw [own]
      rcases Item.mem_positions.mp isSecond with rfl | ⟨o, operand, rfl⟩
      · exact behind
      · exact behind.trans (operands second secondMember o operand)

/-! ## Sources -/

/-- What the lines of a source yield comes from one of them. -/
theorem exists_of_mem_readingsFrom {name : Text}
    {lines : List Text} {line : Nat} {reading : LineReading}
    (member : reading ∈ readingsFrom name lines line) :
    ∃ k text, lines[k]? = some text ∧
      reading = readLine ⟨name, line + k⟩ (withoutReturn text) := by
  induction lines generalizing line with
  | nil => cases member
  | cons text rest ih =>
      rcases List.mem_cons.mp member with rfl | later
      · exact ⟨0, text, rfl, rfl⟩
      · obtain ⟨k, other, found, equal⟩ := ih later
        refine ⟨k + 1, other, found, ?_⟩
        rw [equal, Nat.add_assoc, Nat.add_comm 1]

theorem exists_of_mem_lineReadings {name source : Text} {reading : LineReading}
    (member : reading ∈ lineReadings name source) :
    ∃ n line, source.IsLine n line ∧
      reading = readLine ⟨name, n⟩ (withoutReturn line) := by
  obtain ⟨k, line, found, equal⟩ := exists_of_mem_readingsFrom member
  refine ⟨k + 1, line, isLine_of_getElem? found, ?_⟩
  rw [equal, Nat.add_comm 1]

/-- Reading yields the items of the first lines, also next to problems. -/
theorem readLines_items {name : Text} {lines : List Text} {line : Nat}
    {items : List Item} {found : List Problem} {reading : Reading}
    (result : readLines name lines line items found = .ok reading) :
    reading.program.items <+:
      items.reverse ++ (readingsFrom name lines line).flatMap
        LineReading.items := by
  induction lines generalizing line items found with
  | nil =>
      cases result
      simp
  | cons text rest ih =>
      rw [readLines] at result
      split at result
      next => cases result
      next =>
        split at result
        next =>
          cases result
          exact List.prefix_append _ _
        next =>
          have later := ih result
          rw [readingsFrom, List.flatMap_cons, ← List.append_assoc]
          simpa using later

theorem read_items {name source : Text} {reading : Reading}
    (result : read name source = .ok reading) :
    reading.program.items <+: sourceItems name source :=
  readLines_items result

theorem read_problems {name source : Text} {reading : Reading}
    (result : read name source = .ok reading) :
    reading.problems =
      ((lineReadings name source).filterMap LineReading.problem?).take
        maxProblems :=
  readLines_problems result (Nat.zero_le _)

/-! ## Problems -/

/-- Positions of what is written on a line are on the line. -/
theorem Place.Shows.exists_offset {p : Place} {line written : Text}
    {pos : Position} {behind : Text → Prop}
    (shows : p.Shows line pos written behind) :
    ∃ offset ≤ line.length, pos = p.offset offset := by
  obtain ⟨front, rest, rfl, pos, -⟩ := shows
  exact ⟨front.length, by simp, pos⟩

theorem Place.ShowsNumber.exists_offset {p : Place} {line : Text}
    {pos : Position} {value : Numeral} (shows : p.ShowsNumber line pos value) :
    ∃ offset ≤ line.length, pos = p.offset offset := by
  obtain ⟨token, -, shown⟩ := shows
  exact shown.exists_offset

theorem Operand.WrittenOn.exists_offset {p : Place} {line : Text} {o : Operand}
    (written : o.WrittenOn p line) :
    ∃ offset ≤ line.length, o.pos = p.offset offset := by
  unfold Operand.WrittenOn at written
  split at written
  next => exact written.exists_offset
  next => exact written.exists_offset

theorem Item.WrittenOn.operand {p : Place} {line : Text}
    {it : Item} {o : Operand} (written : it.WrittenOn p line)
    (found : it.operand? = some o) : o.WrittenOn p line := by
  unfold Item.operand? at found
  split at found
  next operand form =>
    simp only [Item.WrittenOn, form] at written
    exact written.2 o found
  next => cases found

theorem Item.WrittenOn.exists_offset {p : Place} {line : Text} {it : Item}
    {pos : Position} (written : it.WrittenOn p line)
    (member : pos ∈ it.positions) :
    ∃ offset ≤ line.length, pos = p.offset offset := by
  rcases Item.mem_positions.mp member with rfl | ⟨o, found, rfl⟩
  · unfold Item.WrittenOn at written
    split at written
    next => exact written.exists_offset
    next => exact written.1.exists_offset
    next => exact written.exists_offset
    next => exact written.exists_offset
    next => exact written.elim
  · exact (written.operand found).exists_offset

theorem mem_positions_of_emitOffence? {defined : Text → Bool} {it : Item}
    {problem : Problem} (offence : emitOffence? defined it = some problem) :
    problem.pos ∈ it.positions := by
  rw [Item.mem_positions]
  cases form : it.form with
  | label | data | unknown => simp [emitOffence?, form] at offence
  | string literal =>
      simp only [emitOffence?, form] at offence
      split at offence
      next => cases offence
      next =>
        cases offence
        exact .inl rfl
  | instruction operand =>
      simp only [emitOffence?, form] at offence
      split at offence
      next =>
        cases offence
        exact .inl rfl
      next =>
        split at offence
        next => cases offence
        next o _ =>
          cases offence
          exact .inr ⟨o, by simp [Item.operand?, form], rfl⟩
        next =>
          cases offence
          exact .inl rfl
        next o _ =>
          split at offence
          next => cases offence
          next =>
            split at offence
            next => cases offence
            next =>
              cases offence
              exact .inr ⟨o, by simp [Item.operand?, form], rfl⟩

section Source

variable {name source : Text} {reading : Reading}

theorem read_writtenOn (result : read name source = .ok reading) :
    ∀ it ∈ reading.program.items, ∃ n line, source.IsLine n line ∧
      it.WrittenOn ⟨name, n⟩ line := by
  intro it member
  have inSource := (read_items result).subset member
  obtain ⟨own, isReading, inReading⟩ := List.mem_flatMap.mp inSource
  obtain ⟨n, line, isLine, rfl⟩ := exists_of_mem_lineReadings isReading
  exact ⟨n, line, isLine, readLine_writtenOn ⟨name, n⟩ line it inReading⟩

theorem read_positions_before (result : read name source = .ok reading) :
    (reading.program.items.flatMap Item.positions).Pairwise
      Position.Before := by
  have inSource := (read_items result).sublist
  apply positions_before ((sourceItems_precedes name source).sublist inSource)
  · intro it member
    exact sourceItems_onLine (inSource.subset member)
  · intro it member o operand
    obtain ⟨own, isReading, inReading⟩ :=
      List.mem_flatMap.mp (inSource.subset member)
    obtain ⟨n, line, -, rfl⟩ := exists_of_mem_lineReadings isReading
    exact readLine_before_operand _ _ it inReading o operand

/-- The problems of reading lie on the lines. -/
theorem read_problem_within {problem : Problem}
    (result : read name source = .ok reading)
    (member : problem ∈ reading.problems) :
    ∃ n line, source.IsLine n line ∧
      (Place.mk name n).HasWithin line.length problem := by
  rw [read_problems result] at member
  obtain ⟨own, isReading, found⟩ :=
    List.mem_filterMap.mp (List.mem_of_mem_take member)
  obtain ⟨n, line, isLine, rfl⟩ := exists_of_mem_lineReadings isReading
  refine ⟨n, line, isLine, ?_⟩
  rcases readLine_cases ⟨name, n⟩ (withoutReturn line) with
    ⟨s, written⟩ | rejected
  · rw [← written, s.readLine_text] at found
    cases found
  · obtain ⟨other, isOther, within⟩ := rejected.problem
    rw [found] at isOther
    cases isOther
    obtain ⟨ending, text, -⟩ := exists_withoutReturn line
    have length := congrArg List.length text
    rw [List.length_append] at length
    exact within.mono (by omega)

/-- A problem of a later pass is at the position of an item or of its
operand. -/
theorem exists_position_of_problem (result : read name source = .ok reading)
    (labels natives table : NameTable) {problem : Problem}
    (member : problem ∈ reading.program.layout.problems ++
      (reading.program.link labels natives).problems ++
      (reading.program.emit table).problems) :
    ∃ it ∈ reading.program.items, problem.pos ∈ it.positions := by
  have literals : ∀ it ∈ reading.program.items, it.HasLiteral := by
    intro it member
    obtain ⟨n, onLine⟩ := sourceItems_onLine ((read_items result).subset member)
    exact onLine.literal
  rw [layout_problems, link_problems, Program.emit,
    emitFrom_problems #[] literals (by decide), List.reverse_nil,
    List.nil_append, List.mem_append, List.mem_append] at member
  rcases member with (inLayout | inLink) | inEmission
  · obtain ⟨it, inside, pos⟩ :=
      exists_of_mem_layoutOffences (List.mem_of_mem_take inLayout)
    exact ⟨it, inside, Item.mem_positions.mpr (.inl pos)⟩
  · obtain ⟨it, inside, offence⟩ :=
      List.mem_filterMap.mp (List.mem_of_mem_take inLink)
    exact ⟨it, inside,
      Item.mem_positions.mpr (.inl (pos_of_linkOffence? offence))⟩
  · obtain ⟨it, inside, offence⟩ :=
      List.mem_filterMap.mp (List.mem_of_mem_take inEmission)
    exact ⟨it, inside, mem_positions_of_emitOffence? offence⟩

end Source

/-- Positions are faithful: every item and operand that reading returns, also
next to problems, is written where its position says, items and operands stand
in strict source order, and every problem that reading, layout, linking or
emission reports lies on a line of the source, at most one column behind its
end. -/
theorem positions_faithful (name source : Text) {reading : Reading}
    (result : read name source = .ok reading)
    (labels natives table : NameTable) :
    (∀ it ∈ reading.program.items,
      ∃ n line, source.IsLine n line ∧ it.WrittenOn ⟨name, n⟩ line) ∧
    (reading.program.items.flatMap Item.positions).Pairwise Position.Before ∧
    ∀ problem ∈ reading.problems ++ (reading.program.layout.problems ++
        (reading.program.link labels natives).problems ++
          (reading.program.emit table).problems),
      ∃ n line, source.IsLine n line ∧ problem.pos.file = name ∧
        problem.pos.line = n ∧
        1 ≤ problem.pos.column ∧ problem.pos.column ≤ line.length + 1 := by
  refine ⟨read_writtenOn result, read_positions_before result, ?_⟩
  intro problem member
  have within : ∃ n line, source.IsLine n line ∧
      (Place.mk name n).HasWithin line.length problem := by
    rcases List.mem_append.mp member with ofReading | ofPass
    · exact read_problem_within result ofReading
    · obtain ⟨it, inside, position⟩ :=
        exists_position_of_problem result labels natives table ofPass
      obtain ⟨n, line, isLine, written⟩ := read_writtenOn result it inside
      exact ⟨n, line, isLine, written.exists_offset position⟩
  obtain ⟨n, line, isLine, offset, inside, pos⟩ := within
  refine ⟨n, line, isLine, by rw [pos]; rfl, by rw [pos]; rfl, ?_, ?_⟩
  · rw [pos, Place.offset]
    dsimp only
    omega
  · rw [pos, Place.offset]
    dsimp only
    omega

/-- A source with items on four of its lines and problems in every pass. -/
def mixedSource : Text :=
  Text.ofString "start:\r\n\tjump start ; go\n7 8\n\"a;b\" \nx: frob -1e3"

theorem positions_faithful_mixed :
    ∃ reading, read [] mixedSource = .ok reading ∧
      ((reading.program.items.flatMap Item.positions).map fun pos =>
        (pos.line, pos.column)) =
        [(1, 1), (2, 2), (2, 7), (4, 1), (5, 1), (5, 4), (5, 9)] ∧
      ((reading.problems ++ (reading.program.layout.problems ++
          (reading.program.link .empty
            (.insert .empty (Text.ofString "x") 0)).problems ++
          (reading.program.emit .empty).problems)).map fun problem =>
            (problem.pos.line, problem.pos.column)) =
        [(3, 3), (5, 4), (5, 1), (2, 7), (5, 4)] ∧
      (∀ it ∈ reading.program.items,
        ∃ n line, mixedSource.IsLine n line ∧ it.WrittenOn ⟨[], n⟩ line) ∧
      (reading.program.items.flatMap Item.positions).Pairwise Position.Before ∧
      ∀ problem ∈ reading.problems ++ (reading.program.layout.problems ++
          (reading.program.link .empty
            (.insert .empty (Text.ofString "x") 0)).problems ++
          (reading.program.emit .empty).problems),
        ∃ n line, mixedSource.IsLine n line ∧ problem.pos.file = [] ∧
          problem.pos.line = n ∧
          1 ≤ problem.pos.column ∧ problem.pos.column ≤ line.length + 1 := by
  refine ⟨_, rfl, ?_, ?_, positions_faithful [] mixedSource rfl _ _ _⟩
  · decide +kernel
  · decide +kernel

end Assembly

end WordMachine
