import WordMachine.Proofs.Assembly.LineSyntax

/-!
# Lines are read exactly according to the grammar

A line that is read without a problem is written according to the grammar, and
any other line has one problem, which lies on the line, and yields at most its
label.
-/

namespace WordMachine.Assembly

/-! ## Tokens -/

namespace Slice

/-- What is trimmed from a slice is white space. -/
theorem exists_trimStart (s : Slice) :
    ∃ blank : Blank, s.text = blank.text ++ s.trimStart.text ∧
      s.trimStart.offset = s.offset + blank.text.length ∧
      blank.text.length = s.text.spanLength Text.isBlank := by
  have length : (s.text.take (s.text.spanLength Text.isBlank)).length =
      s.text.spanLength Text.isBlank := by
    rw [List.length_take, Nat.min_eq_left (Text.spanLength_le _ _)]
  refine ⟨⟨_, Text.allChars_take_spanLength Text.isBlank_replacement s.text⟩,
    ?_, ?_, length⟩
  · exact (List.take_append_drop _ _).symm
  · rw [length]
    rfl

theorem spanLength_trimStart (s : Slice) :
    s.trimStart.text.spanLength Text.isBlank = 0 :=
  Text.spanLength_drop_spanLength Text.isBlank s.text

theorem allBlank_of_tokens_nil {s : Slice} {count : Nat}
    (tokens : s.tokens (count + 1) = []) :
    ∃ blank : Blank, s.text = blank.text := by
  obtain ⟨blank, text, -⟩ := s.exists_trimStart
  simp only [Slice.tokens] at tokens
  split at tokens
  next empty =>
    rw [List.isEmpty_iff.mp empty, List.append_nil] at text
    exact ⟨blank, text⟩
  next => cases tokens

/-- The first token of a slice and the slice behind it. -/
theorem exists_of_tokens_cons {s token : Slice}
    {rest : List Slice} {count : Nat}
    (tokens : s.tokens (count + 1) = token :: rest) :
    ∃ (blank : Blank) (later : Text),
      s.text = blank.text ++ (token.text ++ later) ∧
      token.offset = s.offset + blank.text.length ∧
      blank.text.length = s.text.spanLength Text.isBlank ∧ StartsBlank later ∧
      rest = (Slice.mk later (token.offset + token.text.length)).tokens
        count := by
  obtain ⟨blank, text, offset, length⟩ := s.exists_trimStart
  simp only [Slice.tokens] at tokens
  split at tokens
  next => cases tokens
  next =>
    cases tokens
    refine ⟨blank, s.trimStart.text.drop s.trimStart.tokenLength, ?_,
      offset, length, Text.spanLength_drop_spanLength _ _, ?_⟩
    · rw [List.take_append_drop]
      exact text
    · have inside : s.trimStart.tokenLength ≤ s.trimStart.text.length :=
        Text.spanLength_le _ _
      dsimp only
      rw [List.length_take, Nat.min_eq_left inside]
      rfl

theorem offset_le_of_tokens_cons {s token : Slice}
    {rest : List Slice} {count : Nat}
    (tokens : s.tokens (count + 1) = token :: rest) :
    token.offset ≤ s.offset + s.text.length := by
  obtain ⟨blank, later, text, offset, -⟩ := exists_of_tokens_cons tokens
  rw [text, List.length_append, offset]
  omega

end Slice

/-! ## Statements -/

namespace Place

variable (p : Place)

/-- The problem is on the line, at most `n` bytes from its beginning. -/
def HasWithin (n : Nat) (problem : Problem) : Prop :=
  ∃ offset ≤ n, problem.pos = p.offset offset

theorem HasWithin.mono {p : Place} {n m : Nat} {problem : Problem}
    (within : p.HasWithin n problem) (le : n ≤ m) : p.HasWithin m problem := by
  obtain ⟨offset, inside, pos⟩ := within
  exact ⟨offset, Nat.le_trans inside le, pos⟩

theorem hasWithin_malformed {offset n : Nat} (within : offset ≤ n)
    (detail : Text) :
    p.HasWithin n (p.malformed offset detail) :=
  ⟨offset, within, rfl⟩

theorem exists_number (token : Slice)
    (starts : Numeral.startsNumber token.text = true) :
    (∃ number : NumberToken, number.text = token.text) ∨
      ∃ problem, p.numeral token = .error problem ∧
        problem.pos = p.offset token.offset := by
  unfold Place.numeral
  cases read : Numeral.read token.text with
  | ok value => exact .inl ⟨⟨token.text, value, starts, read⟩, rfl⟩
  | error e => exact .inr ⟨_, rfl, rfl⟩

theorem exists_operand (token : Slice) :
    (∃ operand : OperandSyntax, operand.text = token.text) ∨
      ∃ problem, p.operand token = .error problem ∧
        problem.pos = p.offset token.offset := by
  unfold Place.operand
  split
  next starts =>
    rcases p.exists_number token starts with
      ⟨number, text⟩ | ⟨problem, failed, pos⟩
    · exact .inl ⟨.number number, text⟩
    · exact .inr ⟨problem, by rw [failed]; rfl, pos⟩
  next =>
    split
    next identifier => exact .inl ⟨.name ⟨token.text, identifier⟩, rfl⟩
    next => exact .inr ⟨_, rfl, rfl⟩

section

variable {token : Slice} {others : List Slice} {later : Text}

theorem exists_data (starts : Numeral.startsNumber token.text = true)
    (behind : others =
      (Slice.mk later (token.offset + token.text.length)).tokens 2) :
    (∃ (statement : StatementSyntax) (trail : Blank),
        token.text ++ later = statement.text ++ trail.text) ∨
      ∃ problem, p.data token others = .error problem ∧
        p.HasWithin (token.offset + (token.text ++ later).length) problem := by
  rw [List.length_append]
  cases others with
  | nil =>
      obtain ⟨trail, trailText⟩ := Slice.allBlank_of_tokens_nil behind.symm
      rcases p.exists_number token starts with
        ⟨number, text⟩ | ⟨problem, failed, pos⟩
      · refine .inl ⟨.data number, trail, ?_⟩
        rw [StatementSyntax.text, text, ← trailText]
      · refine .inr ⟨problem, ?_, token.offset, by omega, pos⟩
        rw [Place.data, failed]
        rfl
  | cons extra more =>
      have inside := Slice.offset_le_of_tokens_cons behind.symm
      dsimp only at inside
      exact .inr ⟨_, rfl, p.hasWithin_malformed (by omega) _⟩

theorem exists_instruction (ends : StartsBlank later)
    (behind : others =
      (Slice.mk later (token.offset + token.text.length)).tokens 2) :
    (∃ (statement : StatementSyntax) (trail : Blank),
        token.text ++ later = statement.text ++ trail.text) ∨
      ∃ problem, p.instruction token others = .error problem ∧
        p.HasWithin (token.offset + (token.text ++ later).length) problem := by
  rw [List.length_append]
  cases identifier : isIdentifier token.text with
  | false =>
      refine .inr ⟨p.unexpected token "", ?_, token.offset, by omega, rfl⟩
      simp only [Place.instruction, identifier]
      rfl
  | true =>
      cases others with
      | nil =>
          obtain ⟨trail, trailText⟩ := Slice.allBlank_of_tokens_nil behind.symm
          refine .inl ⟨.instruction ⟨token.text, identifier⟩ none, trail, ?_⟩
          rw [StatementSyntax.text, ← trailText]
      | cons second more =>
          obtain ⟨gap, rest, text, offset, -, -, behindSecond⟩ :=
            Slice.exists_of_tokens_cons behind.symm
          dsimp only at text offset
          cases more with
          | cons extra most =>
              have inside := Slice.offset_le_of_tokens_cons behindSecond.symm
              refine .inr ⟨p.unexpected extra " after operand", ?_,
                extra.offset, ?_, rfl⟩
              · simp only [Place.instruction, identifier]
                rfl
              · dsimp only at inside
                rw [text, List.length_append, List.length_append]
                omega
          | nil =>
              obtain ⟨trail, trailText⟩ :=
                Slice.allBlank_of_tokens_nil behindSecond.symm
              dsimp only at trailText
              rcases p.exists_operand second with
                ⟨operand, written⟩ | ⟨problem, failed, pos⟩
              · -- without a gap the operand would be part of the first token
                have apart : gap.text ≠ [] := by
                  intro empty
                  rw [text, empty, List.nil_append, ← written] at ends
                  exact not_startsBlank_word operand.isWord rest ends
                refine .inl ⟨.instruction ⟨token.text, identifier⟩
                  (some (⟨gap, apart⟩, operand)), trail, ?_⟩
                simp only [StatementSyntax.text, List.append_assoc]
                rw [text, trailText, written]
              · refine .inr ⟨problem, ?_, second.offset, ?_, pos⟩
                · simp only [Place.instruction, identifier, failed]
                  rfl
                · rw [text, List.length_append]
                  omega

end

/-- A slice that does not hold a statement has a problem. -/
theorem exists_statement {s : Slice}
    (trimmed : s.text.spanLength Text.isBlank = 0) :
    (∃ (statement : StatementSyntax) (trail : Blank),
      s.text = statement.text ++ trail.text) ∨
      ∃ problem, p.statement s = .error problem ∧
        p.HasWithin (s.offset + s.text.length) problem := by
  by_cases quoted : s.text.head? = some Text.quote
  · rw [Place.statement, if_pos quoted, Place.string]
    cases encoded : StringLiteral.encode (s.text.trimEnd Text.isBlank) with
    | ok words =>
        refine .inl ⟨.string ⟨_, words, encoded⟩,
          ⟨_, Text.allChars_drop_contentLength Text.isBlank s.text⟩, ?_⟩
        exact (List.take_append_drop _ _).symm
    | error fault => exact .inr ⟨_, rfl, p.hasWithin_malformed (by omega) _⟩
  · cases tokens : s.tokens 3 with
    | nil =>
        refine .inr ⟨p.malformed s.offset [], ?_, s.offset, by omega, rfl⟩
        rw [Place.statement, if_neg quoted, tokens]
    | cons token others =>
        obtain ⟨blank, later, text, offset, length, ends, behind⟩ :=
          Slice.exists_of_tokens_cons tokens
        rw [trimmed] at length
        rw [length, Nat.add_zero] at offset
        rw [List.eq_nil_of_length_eq_zero length, List.nil_append] at text
        rw [p.statement_of_tokens quoted tokens, text, ← offset]
        split
        next starts => exact p.exists_data starts behind
        next => exact p.exists_instruction ends behind

end Place

/-! ## Lines -/

/-- A reading with one problem, which lies on the line, and at most the label of
it. -/
structure Rejected (p : Place) (line : Text)
    (reading : LineReading) : Prop where
  problem : ∃ problem, reading.problem? = some problem ∧
    p.HasWithin line.length problem
  items : reading.items = [] ∨
    ∃ (indent : Blank) (name : Identifier) (rest : Text),
      line = indent.text ++ (name.text ++ Text.colon :: rest) ∧
        reading.items = [name.labelItem p indent.text.length]

theorem exists_comment {t : Text} (ends : EndsCode t) :
    ∃ comment, commentText comment = t := by
  cases t with
  | nil => exact ⟨none, rfl⟩
  | cons sign rest => exact ⟨some ⟨sign, rest, ends sign rfl⟩, rfl⟩

/-- Behind a label stands an optional statement, or only the label is read. -/
theorem Place.label_cases (p : Place) (name : Identifier) (later : Text)
    (offset : Nat) :
    (∃ (gap : Blank) (statement : Option StatementSyntax) (trail : Blank),
        later = gap.text ++ (statementText statement ++ trail.text)) ∨
      ∃ problem, p.code ⟨name.text ++ Text.colon :: later, offset⟩ =
          ⟨[name.labelItem p offset], some problem⟩ ∧
        p.HasWithin (offset +
          (name.text ++ Text.colon :: later).length) problem := by
  rw [p.code_label]
  obtain ⟨gap, text, behind, -⟩ :=
    (Slice.mk later (offset + (name.text.length + 1))).exists_trimStart
  dsimp only at text behind ⊢
  split
  next empty =>
    refine .inl ⟨gap, none, ⟨[], rfl⟩, ?_⟩
    rw [List.isEmpty_iff.mp empty] at text
    exact text
  next =>
    rcases p.exists_statement (Slice.spanLength_trimStart _) with
      ⟨statement, trail, written⟩ | ⟨problem, failed, within⟩
    · refine .inl ⟨gap, some statement, trail, ?_⟩
      rw [statementText, ← written]
      exact text
    · rw [failed]
      refine .inr ⟨problem, rfl, within.mono ?_⟩
      have length := congrArg List.length text
      rw [List.length_append] at length
      rw [behind, List.length_append, List.length_cons]
      omega

/-- Code is a label and a statement, each of them optional, or it is
rejected. -/
theorem code_cases (p : Place) (indent : Blank) {code rest line : Text}
    (trimmed : code.spanLength Text.isBlank = 0)
    (isLine : line = indent.text ++ (code ++ rest)) :
    (∃ (label : Option Identifier) (gap : Blank)
      (statement : Option StatementSyntax)
        (trail : Blank),
        code = labelText label ++
          (gap.text ++ (statementText statement ++ trail.text))) ∨
      Rejected p line (p.code ⟨code, indent.text.length⟩) := by
  have inside : indent.text.length + code.length ≤ line.length := by
    rw [isLine, List.length_append, List.length_append]
    omega
  cases label : labelLength? code with
  | none =>
      unfold Place.code
      rw [label]
      split
      next empty =>
        exact .inl ⟨none, ⟨[], rfl⟩, none, ⟨[], rfl⟩, List.isEmpty_iff.mp empty⟩
      next =>
        rcases p.exists_statement (s := ⟨code, indent.text.length⟩) trimmed with
          ⟨statement, trail, text⟩ | ⟨problem, failed, within⟩
        · exact .inl ⟨none, ⟨[], rfl⟩, some statement, trail, text⟩
        · rw [failed]
          exact .inr ⟨⟨problem, rfl, within.mono inside⟩, .inl rfl⟩
  | some n =>
      obtain ⟨name, later, rfl, rfl⟩ := exists_of_labelLength? label
      by_cases identifier : isIdentifier name = true
      · rcases p.label_cases ⟨name, identifier⟩ later indent.text.length with
          ⟨gap, statement, trail, rfl⟩ | ⟨problem, read, within⟩
        · refine .inl ⟨some ⟨name, identifier⟩, gap, statement, trail, ?_⟩
          rw [labelText, List.append_assoc]
          rfl
        · rw [read]
          refine .inr ⟨⟨problem, rfl, within.mono inside⟩,
            .inr ⟨indent, ⟨name, identifier⟩, later ++ rest, ?_, rfl⟩⟩
          rw [isLine, List.append_assoc]
          rfl
      · have nonempty : (name ++ Text.colon :: later).isEmpty = false := by simp
        simp only [Place.code, nonempty, Bool.false_eq_true, if_false, label,
          List.take_left, identifier]
        exact .inr ⟨⟨_, rfl, p.hasWithin_malformed (by omega) _⟩, .inl rfl⟩

/-- A line is written according to the grammar, or it is rejected. -/
theorem readLine_cases (p : Place) (line : Text) :
    (∃ s : LineSyntax, s.text = line) ∨ Rejected p line (readLine p line) := by
  unfold readLine
  split
  next =>
    exact .inr ⟨⟨_, rfl, p.hasWithin_malformed (Nat.le_refl _) _⟩, .inl rfl⟩
  next n length =>
    obtain ⟨comment, isComment⟩ :=
      exists_comment (endsCode_of_codeLength? length)
    obtain ⟨indent, code, offset, -⟩ := Slice.exists_trimStart ⟨line.take n, 0⟩
    have isLine : line =
        indent.text ++ ((Slice.mk (line.take n) 0).trimStart.text ++
          line.drop n) := by
      rw [← List.append_assoc, ← code, List.take_append_drop]
    rcases code_cases p indent (Slice.spanLength_trimStart _) isLine with
      ⟨label, gap, statement, trail, text⟩ | rejected
    · refine .inl ⟨⟨indent, label, gap, statement, trail, comment⟩, ?_⟩
      rw [LineSyntax.text, LineSyntax.code, isComment, ← text, ← code]
      exact List.take_append_drop n line
    · rw [← Nat.zero_add indent.text.length, ← offset] at rejected
      exact .inr rejected

/-! ## Layout -/

def Position.withoutColumn (pos : Position) : Position :=
  { pos with column := 0 }

def Operand.withoutColumn (operand : Operand) : Operand :=
  { operand with pos := operand.pos.withoutColumn }

/-- The item with every column set to zero. -/
def Item.withoutColumns (it : Item) : Item :=
  { it with
    pos := it.pos.withoutColumn
    form := match it.form with
      | .instruction operand => .instruction (operand.map Operand.withoutColumn)
      | other => other }

/-- What a statement says, however it is laid out. -/
inductive BareStatement where
  | string (literal : Text)
  | data (value : Numeral)
  | instruction (mnemonic : Text) (operand : Option Operand.Value)

def StatementSyntax.bare : StatementSyntax → BareStatement
  | .string literal => .string literal.text
  | .data token => .data token.value
  | .instruction mnemonic operand =>
    .instruction mnemonic.text (operand.map fun arguments => arguments.2.value)

def BareStatement.item (pos : Position) : BareStatement → Item
  | .string literal => { pos, form := .string literal }
  | .data value => { pos, form := .data value }
  | .instruction mnemonic operand =>
    { pos, name := mnemonic, form := .instruction (operand.map fun value =>
      ⟨pos, value⟩) }

/-- The items that a label and a statement declare, all at one position. -/
def bareItems (pos : Position) (label : Option Text)
    (statement : Option BareStatement) :
    List Item :=
  (label.map fun name => { pos, name, form := .label }).toList
    ++ (statement.map fun statement => statement.item pos).toList

theorem StatementSyntax.withoutColumns_item
    (statement : StatementSyntax) (p : Place) (offset : Nat) :
    (statement.item p offset).withoutColumns =
      statement.bare.item ⟨p.file, p.line, 0⟩ := by
  cases statement with
  | string literal => rfl
  | data token => rfl
  | instruction mnemonic operand =>
      cases operand with
      | none => rfl
      | some arguments => rfl

/-- Apart from columns, white space and the comment have no part in the
items. -/
theorem LineSyntax.items_withoutColumns (s : LineSyntax) (p : Place) :
    (s.items p).map Item.withoutColumns =
      bareItems ⟨p.file, p.line, 0⟩ (s.label.map Identifier.text)
        (s.statement.map StatementSyntax.bare) := by
  have statement : (s.statement.map fun statement =>
      statement.item p s.statementOffset).toList.map
      Item.withoutColumns =
        ((s.statement.map StatementSyntax.bare).map fun statement =>
          statement.item ⟨p.file, p.line, 0⟩).toList := by
    cases s.statement with
    | none => rfl
    | some statement =>
        exact congrArg (fun it => [it]) (statement.withoutColumns_item p _)
  rw [LineSyntax.items, bareItems, List.map_append, statement]
  cases s.label with
  | none => rfl
  | some name => rfl

/-- A line is read without a problem exactly if it is written according to the
grammar.  Then it yields what the syntax says, which apart from columns does not
depend on the layout.  Any other line has one problem and yields at most its
label. -/
theorem readLine_follows_grammar (p : Place) (line : Text) :
    ((readLine p line).problem? = none ↔ ∃ s : LineSyntax, s.text = line) ∧
    (∀ s : LineSyntax, s.text = line →
      (readLine p line).items = s.items p ∧
      (readLine p line).items.map Item.withoutColumns =
        bareItems ⟨p.file, p.line, 0⟩ (s.label.map Identifier.text)
          (s.statement.map StatementSyntax.bare)) ∧
    ((¬ ∃ s : LineSyntax, s.text = line) →
      Rejected p line (readLine p line)) := by
  refine ⟨⟨?_, ?_⟩, ?_, ?_⟩
  · intro accepted
    rcases readLine_cases p line with written | rejected
    · exact written
    · obtain ⟨problem, found, -⟩ := rejected.problem
      rw [accepted] at found
      cases found
  · rintro ⟨s, rfl⟩
    rw [s.readLine_text]
  · rintro s rfl
    rw [s.readLine_text]
    exact ⟨rfl, s.items_withoutColumns p⟩
  · intro notWritten
    exact (readLine_cases p line).resolve_left notWritten

/-- A line with a label, an instruction and a comment. -/
def labelledLoad : LineSyntax where
  indent := ⟨Text.ofString "\t", by decide⟩
  label := some ⟨Text.ofString "loop", by decide +kernel⟩
  gap := ⟨Text.ofString "\u00A0 ", by decide⟩
  statement := some (.instruction ⟨Text.ofString "loads", by decide +kernel⟩
    (some (⟨⟨Text.ofString " ", by decide⟩, by decide⟩,
      .number ⟨Text.ofString "-0x1_0", .integer (-16), by decide, by rfl⟩)))
  trail := ⟨[], rfl⟩
  comment := some ⟨Text.hash, Text.ofString "\";", .inr rfl⟩

theorem readLine_follows_grammar_load :
    labelledLoad.text = Text.ofString "\tloop:\u00A0 loads -0x1_0#\";" ∧
    (readLine ⟨[], 7⟩ labelledLoad.text).problem? = none ∧
    (readLine ⟨[], 7⟩ labelledLoad.text).items =
      [{ pos := ⟨[], 7, 2⟩, name := Text.ofString "loop", form := .label },
        { pos := ⟨[], 7, 10⟩, name := Text.ofString "loads"
          form := .instruction
            (some ⟨⟨[], 7, 16⟩, .numeral (.integer (-16))⟩) }] ∧
    Rejected ⟨[], 7⟩ (Text.ofString "loop: loads 1 2")
      (readLine ⟨[], 7⟩ (Text.ofString "loop: loads 1 2")) := by
  obtain ⟨accepted, items, -⟩ :=
    readLine_follows_grammar ⟨[], 7⟩ labelledLoad.text
  refine ⟨by decide +kernel, accepted.mpr ⟨_, rfl⟩,
    (items labelledLoad rfl).1, ?_⟩
  obtain ⟨extra, -, rejected⟩ :=
    readLine_follows_grammar ⟨[], 7⟩ (Text.ofString "loop: loads 1 2")
  apply rejected
  intro written
  exact absurd (extra.mpr written) (by decide +kernel)

end WordMachine.Assembly
