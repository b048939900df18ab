import WordMachine.Assembly.Line

/-!
# What a line yields

The items of a line are an optional label and an optional statement behind it.
The relations below say how such items come about, one rule for each way; what
holds of all items that are read is proved by going through the rules.
-/

namespace WordMachine.Assembly

namespace Slice

@[simp] theorem offset_drop (s : Slice) (n : Nat) :
    (s.drop n).offset = s.offset + n := rfl

theorem length_drop_le (s : Slice) (n : Nat) :
    (s.drop n).text.length ≤ s.text.length := by
  simp [drop]

theorem offset_le_trimStart (s : Slice) : s.offset ≤ s.trimStart.offset :=
  Nat.le_add_right _ _

theorem length_trimStart_le (s : Slice) :
    s.trimStart.text.length ≤ s.text.length :=
  s.length_drop_le _

/-- The first token of a slice is a part of it. -/
theorem of_tokens_cons {s token : Slice} {rest : List Slice} {count : Nat}
    (tokens : s.tokens count = token :: rest) :
    s.offset ≤ token.offset ∧ 0 < s.text.length ∧
      token.text.length ≤ s.text.length := by
  cases count with
  | zero => cases tokens
  | succ count =>
      simp only [Slice.tokens] at tokens
      split at tokens
      next => cases tokens
      next nonempty =>
          simp only [List.cons.injEq] at tokens
          have positive : 0 < s.trimStart.text.length := by
            simpa [List.length_pos_iff] using nonempty
          have trimmed := s.length_trimStart_le
          refine ⟨?_, Nat.lt_of_lt_of_le positive trimmed, ?_⟩
          · rw [← tokens.1]
            exact s.offset_le_trimStart
          · rw [← tokens.1]
            exact Nat.le_trans (List.length_take_le' _ _) trimmed

end Slice

namespace Place

/-- The statements that a slice can yield. -/
inductive Statement (p : Place) (s : Slice) : Item → Prop where
  | string {words : List Word} :
      StringLiteral.encode (s.text.trimEnd Text.isBlank) = .ok words →
      Statement p s
        { pos := p.offset s.offset,
          form := .string (s.text.trimEnd Text.isBlank) }
  | data {token : Slice} {rest : List Slice} (value : Numeral) :
      s.tokens 3 = token :: rest →
      Statement p s { pos := p.offset token.offset, form := .data value }
  | instruction {token : Slice} {rest : List Slice} {operand : Option Operand} :
      s.tokens 3 = token :: rest →
      (∀ o, operand = some o → ∃ offset, o.pos = p.offset offset) →
      Statement p s
        { pos := p.offset token.offset, name := token.text,
          form := .instruction operand }

/-- The problem is on the line. -/
def Has (p : Place) (problem : Problem) : Prop :=
  ∃ offset, problem.pos = p.offset offset

theorem has_malformed (p : Place) (offset : Nat) (detail : Text) :
    p.Has (p.malformed offset detail) :=
  ⟨offset, rfl⟩

theorem pos_of_numeral {p : Place} {token : Slice} {problem : Problem}
    (failed : p.numeral token = .error problem) :
    problem.pos = p.offset token.offset := by
  unfold Place.numeral at failed
  split at failed
  · cases failed
  · cases failed
    rfl

/-- An operand, or the problem with it, is where its token is. -/
theorem operand_cases (p : Place) (token : Slice) :
    (∃ o, p.operand token = .ok o ∧ o.pos = p.offset token.offset) ∨
      ∃ problem, p.operand token = .error problem ∧
        problem.pos = p.offset token.offset := by
  unfold Place.operand
  split
  · cases number : p.numeral token with
    | ok value => exact Or.inl ⟨_, rfl, rfl⟩
    | error problem => exact Or.inr ⟨problem, rfl, pos_of_numeral number⟩
  · split
    · exact Or.inl ⟨_, rfl, rfl⟩
    · exact Or.inr ⟨_, rfl, rfl⟩

theorem instruction_cases {p : Place} {s token : Slice} {rest : List Slice}
    (tokens : s.tokens 3 = token :: rest) :
    (∃ it, p.instruction token rest = .ok it ∧ p.Statement s it) ∨
      ∃ problem, p.instruction token rest = .error problem ∧ p.Has problem := by
  simp only [Place.instruction]
  split
  · exact Or.inr ⟨_, rfl, p.has_malformed _ _⟩
  · cases rest with
    | nil => exact Or.inl ⟨_, rfl, .instruction tokens (by simp)⟩
    | cons second more =>
        cases more with
        | cons extra others => exact Or.inr ⟨_, rfl, p.has_malformed _ _⟩
        | nil =>
            rcases p.operand_cases second with
              ⟨o, read, pos⟩ | ⟨problem, failed, pos⟩
            · refine Or.inl ⟨_, by simp only [read]; rfl,
                .instruction tokens ?_⟩
              intro other equal
              cases equal
              exact ⟨second.offset, pos⟩
            · exact Or.inr ⟨problem, by simp only [failed]; rfl,
                second.offset, pos⟩

theorem data_cases {p : Place} {s token : Slice} {rest : List Slice}
    (tokens : s.tokens 3 = token :: rest) :
    (∃ it, p.data token rest = .ok it ∧ p.Statement s it) ∨
      ∃ problem, p.data token rest = .error problem ∧ p.Has problem := by
  cases rest with
  | cons extra more => exact Or.inr ⟨_, rfl, p.has_malformed _ _⟩
  | nil =>
      simp only [Place.data]
      cases number : p.numeral token with
      | ok value => exact Or.inl ⟨_, rfl, .data value tokens⟩
      | error problem =>
          exact Or.inr ⟨problem, rfl, token.offset, pos_of_numeral number⟩

/-- Reading a statement yields one of the statements, or a problem on the
line. -/
theorem statement_cases (p : Place) (s : Slice) :
    (∃ it, p.statement s = .ok it ∧ p.Statement s it) ∨
      ∃ problem, p.statement s = .error problem ∧ p.Has problem := by
  unfold Place.statement
  split
  · simp only [Place.string]
    split
    next words encoded => exact Or.inl ⟨_, rfl, .string encoded⟩
    next => exact Or.inr ⟨_, rfl, p.has_malformed _ _⟩
  · split
    next => exact Or.inr ⟨_, rfl, p.has_malformed _ _⟩
    next token rest tokens =>
        split
        · exact data_cases tokens
        · exact instruction_cases tokens

/-- The label whose name is the first `n` bytes of a slice. -/
def label (p : Place) (s : Slice) (n : Nat) : Item :=
  { pos := p.offset s.offset, name := s.text.take n, form := .label }

/-- The items that the code of a line can yield. -/
inductive CodeItems (p : Place) (s : Slice) : List Item → Prop where
  | nothing : CodeItems p s []
  | label (n : Nat) : CodeItems p s [p.label s n]
  | statement {it : Item} : p.Statement s it → CodeItems p s [it]
  | labelled {it : Item} (n : Nat) : p.Statement (s.drop (n + 1)).trimStart it →
      CodeItems p s [p.label s n, it]

/-- A reading has items from the code in `s` and at most a problem on the
line. -/
structure Yields (p : Place) (s : Slice) (reading : LineReading) : Prop where
  items : p.CodeItems s reading.items
  problem : ∀ problem, reading.problem? = some problem → p.Has problem

theorem yields_code (p : Place) (s : Slice) : p.Yields s (p.code s) := by
  unfold Place.code
  split
  · exact ⟨.nothing, by simp⟩
  · split
    next =>
        rcases p.statement_cases s with ⟨it, read, statement⟩ |
          ⟨problem, failed, has⟩
        · rw [read]
          exact ⟨.statement statement, by simp [LineReading.ofStatement]⟩
        · rw [failed]
          exact ⟨.nothing, by simpa [LineReading.ofStatement] using has⟩
    next n length =>
        dsimp only
        split
        · split
          · exact ⟨.label n, by simp⟩
          · rcases p.statement_cases (s.drop (n + 1)).trimStart with
              ⟨it, read, statement⟩ | ⟨problem, failed, has⟩
            · rw [read]
              exact ⟨.labelled n statement, by simp [LineReading.ofStatement]⟩
            · rw [failed]
              exact ⟨.label n, by simpa [LineReading.ofStatement] using has⟩
        · exact ⟨.nothing, by simpa using p.has_malformed _ _⟩

end Place

/-- A line is read from a part of it. -/
theorem readLine_yields (p : Place) (line : Text) :
    ∃ s : Slice, s.text.length ≤ line.length ∧
      p.Yields s (readLine p line) := by
  unfold readLine
  split
  next => exact ⟨⟨[], 0⟩, by simp, .nothing, by simpa using p.has_malformed _ _⟩
  next n length =>
      refine ⟨_, ?_, p.yields_code _⟩
      exact Nat.le_trans (Slice.length_trimStart_le _)
        (List.length_take_le' _ _)

end WordMachine.Assembly
