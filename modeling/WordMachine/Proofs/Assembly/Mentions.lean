import WordMachine.Proofs.Assembly.Positions

/-!
# Where names are mentioned

A program mentions a name where it declares it as a label and where the name is
an operand.  Each mention stands on a line of the source as a word of its own:
only white space can touch it from the left, and from the right also the colon
of a label or a comment.
-/

namespace WordMachine.Assembly

/-- Where labels of the name are declared, in source order. -/
def Program.labelPositions (program : Program) (name : Text) : List Position :=
  (program.items.filter fun it => it.label? == some name).map Item.pos

/-- Where the name is an operand, in source order. -/
def Program.operandPositions (program : Program) (name : Text) :
    List Position :=
  ((program.items.filterMap Item.operand?).filter fun o =>
    o.value == .name name).map Operand.pos

/-- On the line the name stands at the position as a word of its own. -/
def Place.Mentions (p : Place) (line : Text) (pos : Position)
    (name : Text) : Prop :=
  isIdentifier name = true ∧ ∃ (front : Text) (blank : Blank) (rest : Text),
    line = (front ++ blank.text) ++ (name ++ rest) ∧
      (front = [] ∨ blank.text ≠ []) ∧
      pos = p.offset (front ++ blank.text).length ∧
      (EndsToken rest ∨ rest.head? = some Text.colon)

/-! ## Lines -/

section Line

variable {p : Place} {line name : Text}

theorem Identifier.mentions_labelItem (label : Identifier)
    (indent : Blank) {rest : Text}
    (isLine : line = indent.text ++ (label.text ++ Text.colon :: rest)) :
    p.Mentions line (label.labelItem p indent.text.length).pos label.text :=
  ⟨label.identifier, [], indent, Text.colon :: rest, isLine, .inl rfl,
    rfl, .inr rfl⟩

/-- A name that is the operand of a statement stands behind a gap. -/
theorem StatementSyntax.mentions_operand (statement : StatementSyntax)
    {front rest : Text} (isLine : line = front ++ (statement.text ++ rest))
    (ends : EndsToken rest) {o : Operand}
    (found : (statement.item p front.length).operand? = some o)
    (named : o.value = .name name) :
    p.Mentions line o.pos name := by
  cases statement with
  | string literal => cases found
  | data token => cases found
  | instruction mnemonic arguments =>
      cases arguments with
      | none => cases found
      | some arguments =>
          obtain ⟨gap, operand⟩ := arguments
          cases found
          cases operand with
          | number token => cases named
          | name symbol =>
              cases named
              refine ⟨symbol.identifier, front ++ mnemonic.text,
                gap.toBlank, rest, ?_, .inr gap.nonempty, ?_, .inl ends⟩
              · rw [isLine, StatementSyntax.text]
                simp only [List.append_assoc]
                rfl
              · rw [List.length_append, List.length_append]
                rfl

/-- A statement is no label. -/
theorem StatementSyntax.label?_item (statement : StatementSyntax) (p : Place)
    (offset : Nat) :
    (statement.item p offset).label? = none := by
  cases statement with
  | string literal => rfl
  | data token => rfl
  | instruction mnemonic arguments => cases arguments <;> rfl

theorem LineSyntax.mentions (s : LineSyntax) (p : Place) {ending : Text}
    (startsBlank : StartsBlank ending) {it : Item} (member : it ∈ s.items p) :
    (it.label? = some name → p.Mentions (s.text ++ ending) it.pos name) ∧
      ∀ o, it.operand? = some o → o.value = .name name →
        p.Mentions (s.text ++ ending) o.pos name := by
  rcases List.mem_append.mp member with isLabel | isStatement
  · obtain ⟨label, written, rfl⟩ :=
      Option.map_eq_some_iff.mp (Option.mem_toList.mp isLabel)
    refine ⟨?_, nofun⟩
    intro declares
    cases declares
    apply label.mentions_labelItem s.indent
    simp only [LineSyntax.text, LineSyntax.code, written, labelText,
      List.append_assoc, List.singleton_append]
    rfl
  · obtain ⟨statement, written, rfl⟩ :=
      Option.map_eq_some_iff.mp (Option.mem_toList.mp isStatement)
    constructor
    · intro declares
      rw [statement.label?_item] at declares
      cases declares
    · intro o found named
      have isLine : s.text ++ ending =
          (s.indent.text ++ labelText s.label ++ s.gap.text) ++
          (statement.text ++
            (s.trail.text ++ (commentText s.comment ++ ending))) := by
        simp only [LineSyntax.text, LineSyntax.code, written, statementText,
          List.append_assoc]
      apply statement.mentions_operand isLine
        (endsToken_trail s.trail s.comment startsBlank) _ named
      rwa [List.length_append, List.length_append]

/-- What a line declares and what its operand names is mentioned on it, also
where the line has a problem. -/
theorem readLine_mentions (p : Place) (line : Text) {it : Item}
    (member : it ∈ (readLine p (withoutReturn line)).items) :
    (it.label? = some name → p.Mentions line it.pos name) ∧
      ∀ o, it.operand? = some o → o.value = .name name →
        p.Mentions line o.pos name := by
  obtain ⟨ending, text, startsBlank⟩ := exists_withoutReturn line
  rcases readLine_cases p (withoutReturn line) with ⟨s, written⟩ | rejected
  · rw [← written, s.readLine_text] at member
    rw [← written] at text
    rw [text]
    exact s.mentions p startsBlank member
  · rcases rejected.items with empty | ⟨indent, label, rest, isLine, items⟩
    · rw [empty] at member
      cases member
    · rw [items, List.mem_singleton] at member
      subst member
      refine ⟨?_, nofun⟩
      intro declares
      cases declares
      rw [isLine, List.append_assoc, List.append_assoc] at text
      exact label.mentions_labelItem indent text

end Line

/-! ## Sources -/

/-- What reading yields comes from a line that is not too long. -/
theorem exists_line_of_readLines {name : Text} {lines : List Text} {line : Nat}
    {items : List Item} {found : List Problem} {reading : Reading}
    (result : readLines name lines line items found = .ok reading) {it : Item}
    (member : it ∈ reading.program.items) :
    it ∈ items ∨
      ∃ k text, lines[k]? = some text ∧ text.length < maxLineLength ∧
        it ∈ (readLine ⟨name, line + k⟩ (withoutReturn text)).items := by
  induction lines generalizing line items found with
  | nil =>
      cases result
      exact .inl (List.mem_reverse.mp member)
  | cons text rest ih =>
      rw [readLines] at result
      split at result
      next => cases result
      next fitting =>
        split at result
        next =>
          cases result
          exact .inl (List.mem_reverse.mp member)
        next =>
          rcases ih result with own | ⟨k, other, found, short, inReading⟩
          · rcases List.mem_append.mp own with fromLine | earlier
            · exact .inr ⟨0, text, rfl, Nat.lt_of_not_le fitting,
                List.mem_reverse.mp fromLine⟩
            · exact .inl earlier
          · rw [Nat.add_assoc, Nat.add_comm 1] at inReading
            exact .inr ⟨k + 1, other, found, short, inReading⟩

section Source

variable {file source : Text} {reading : Reading}

theorem exists_line_of_read
    (result : read file source = .ok reading) {it : Item}
    (member : it ∈ reading.program.items) :
    ∃ k line, source.lines[k]? = some line ∧ line.length < maxLineLength ∧
      it ∈ (readLine ⟨file, k + 1⟩ (withoutReturn line)).items := by
  rcases exists_line_of_readLines result member with
    impossible | ⟨k, line, found, short, own⟩
  · cases impossible
  · rw [Nat.add_comm 1] at own
    exact ⟨k, line, (getElem?_sourceLines found).1, short, own⟩

/-- A name is mentioned where it is declared and where it is an operand. -/
theorem mentions_of_read (result : read file source = .ok reading) {name : Text}
    {pos : Position} (member : pos ∈ reading.program.labelPositions name ++
      reading.program.operandPositions name) :
    ∃ k line, source.lines[k]? = some line ∧ line.length < maxLineLength ∧
      (Place.mk file (k + 1)).Mentions line pos name := by
  rcases List.mem_append.mp member with declared | used
  · obtain ⟨it, isLabel, rfl⟩ := List.mem_map.mp declared
    obtain ⟨inside, declares⟩ := List.mem_filter.mp isLabel
    obtain ⟨k, line, found, short, own⟩ := exists_line_of_read result inside
    exact ⟨k, line, found, short,
      (readLine_mentions _ line own).1 (eq_of_beq declares)⟩
  · obtain ⟨o, isUse, rfl⟩ := List.mem_map.mp used
    obtain ⟨isOperand, named⟩ := List.mem_filter.mp isUse
    obtain ⟨it, inside, operand⟩ := List.mem_filterMap.mp isOperand
    obtain ⟨k, line, found, short, own⟩ := exists_line_of_read result inside
    exact ⟨k, line, found, short,
      (readLine_mentions _ line own).2 o operand (eq_of_beq named)⟩

end Source

/-! ## Order -/

theorem map_pos_sublist (items : List Item) :
    (items.map Item.pos).Sublist (items.flatMap Item.positions) := by
  induction items with
  | nil => exact .slnil
  | cons it rest ih =>
      rw [List.map_cons, List.flatMap_cons, Item.positions, List.cons_append]
      exact .cons_cons _ (ih.trans (List.sublist_append_right _ _))

theorem map_operand_sublist (items : List Item) :
    ((items.filterMap Item.operand?).map Operand.pos).Sublist
      (items.flatMap Item.positions) := by
  induction items with
  | nil => exact .slnil
  | cons it rest ih =>
      rw [List.flatMap_cons, Item.positions, List.cons_append]
      cases operand : it.operand? with
      | none =>
          rw [List.filterMap_cons_none operand]
          exact .cons _ ih
      | some o =>
          rw [List.filterMap_cons_some operand]
          exact .cons _ (.cons_cons _ ih)

/-- The mentions of either kind stand in source order. -/
theorem mentions_before {file source : Text} {reading : Reading}
    (result : read file source = .ok reading) (name : Text) :
    (reading.program.labelPositions name).Pairwise Position.Before ∧
      (reading.program.operandPositions name).Pairwise Position.Before := by
  have before := read_positions_before result
  exact ⟨before.sublist ((List.filter_sublist.map _).trans (map_pos_sublist _)),
    before.sublist ((List.filter_sublist.map _).trans (map_operand_sublist _))⟩

end WordMachine.Assembly
