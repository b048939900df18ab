import WordMachine.Proofs.Assembly.Words

/-!
# The syntax of a line

`LineSyntax` is the syntax of a line: each of its parts carries the proof that
it is well formed, so every value is a line that the language allows.
`LineSyntax.text` is how it is written and `LineSyntax.items` what it declares.

The main result, `LineSyntax.readLine_text`, is that a line so written is read
without a problem and yields these items.
-/

namespace WordMachine.Assembly

/-! ## Syntax -/

/-- White space, possibly none. -/
structure Blank where
  text : Text
  allBlank : text.allChars Text.isBlank = true

/-- White space between two words. -/
structure Gap extends Blank where
  nonempty : text ≠ []

structure Identifier where
  text : Text
  identifier : isIdentifier text = true

/-- A token that begins as a number does and is read as one.  The first byte
decides: `inf` could be read as a number too, but is a name. -/
structure NumberToken where
  text : Text
  value : Numeral
  starts : Numeral.startsNumber text = true
  read : Numeral.read text = .ok value

/-- A quoted literal that stands for words. -/
structure Literal where
  text : Text
  words : List Word
  encoded : StringLiteral.encode text = .ok words

/-- A comment: a sign and any bytes behind it. -/
structure Comment where
  sign : UInt8
  rest : Text
  isSign : sign = Text.semicolon ∨ sign = Text.hash

inductive OperandSyntax where
  | number (token : NumberToken)
  | name (symbol : Identifier)

inductive StatementSyntax where
  | string (literal : Literal)
  | data (token : NumberToken)
  | instruction (mnemonic : Identifier) (operand : Option (Gap × OperandSyntax))

structure LineSyntax where
  indent : Blank
  label : Option Identifier
  gap : Blank
  statement : Option StatementSyntax
  trail : Blank
  comment : Option Comment

/-! ## How syntax is written -/

def OperandSyntax.text : OperandSyntax → Text
  | .number token => token.text
  | .name symbol => symbol.text

def StatementSyntax.text : StatementSyntax → Text
  | .string literal => literal.text
  | .data token => token.text
  | .instruction mnemonic none => mnemonic.text
  | .instruction mnemonic (some (gap, operand)) =>
    mnemonic.text ++ (gap.text ++ operand.text)

def labelText : Option Identifier → Text
  | some name => name.text ++ [Text.colon]
  | none => []

def statementText : Option StatementSyntax → Text
  | some statement => statement.text
  | none => []

def commentText : Option Comment → Text
  | some comment => comment.sign :: comment.rest
  | none => []

def LineSyntax.code (s : LineSyntax) : Text :=
  s.indent.text
    ++ (labelText s.label ++
      (s.gap.text ++ (statementText s.statement ++ s.trail.text)))

def LineSyntax.text (s : LineSyntax) : Text :=
  s.code ++ commentText s.comment

/-! ## What syntax yields -/

/-- The label that is written at a byte offset. -/
def Identifier.labelItem (name : Identifier) (p : Place)
    (offset : Nat) : Item :=
  { pos := p.offset offset, name := name.text, form := .label }

def OperandSyntax.value : OperandSyntax → Operand.Value
  | .number token => .numeral token.value
  | .name symbol => .name symbol.text

def OperandSyntax.operand (operand : OperandSyntax) (p : Place)
    (offset : Nat) : Operand :=
  ⟨p.offset offset, operand.value⟩

def StatementSyntax.item (p : Place) (offset : Nat) : StatementSyntax → Item
  | .string literal => { pos := p.offset offset, form := .string literal.text }
  | .data token => { pos := p.offset offset, form := .data token.value }
  | .instruction mnemonic none =>
    { pos := p.offset offset, name := mnemonic.text, form := .instruction none }
  | .instruction mnemonic (some (gap, operand)) =>
    { pos := p.offset offset, name := mnemonic.text
      form := .instruction
        (some (operand.operand p (offset + mnemonic.text.length +
          gap.text.length))) }

def LineSyntax.statementOffset (s : LineSyntax) : Nat :=
  s.indent.text.length + (labelText s.label).length + s.gap.text.length

def LineSyntax.items (s : LineSyntax) (p : Place) : List Item :=
  (s.label.map fun name => name.labelItem p s.indent.text.length).toList
    ++ (s.statement.map fun statement =>
      statement.item p s.statementOffset).toList

/-! ## Written syntax is read -/

theorem Identifier.isWord (name : Identifier) : IsWord name.text :=
  .of_isIdentifier name.identifier

theorem NumberToken.isWord (token : NumberToken) : IsWord token.text :=
  .of_read token.read

theorem OperandSyntax.isWord (operand : OperandSyntax) :
    IsWord operand.text := by
  cases operand with
  | number token => exact token.isWord
  | name symbol => exact symbol.isWord

theorem isIdentifierStart_of_startsNumber :
    ∀ b, Numeral.startsNumber [b] = true →
    b < 0x80 ∧ isIdentifierStart (Char.ofNat b.toNat) = false :=
  Text.byte_forall (by decide +kernel)

/-- An identifier does not begin as a number does. -/
theorem startsNumber_of_isIdentifier {t : Text}
    (identifier : isIdentifier t = true) :
    Numeral.startsNumber t = false := by
  cases t with
  | nil => rfl
  | cons b rest =>
      apply Bool.eq_false_iff.mpr
      intro starts
      obtain ⟨ascii, notStart⟩ := isIdentifierStart_of_startsNumber b starts
      rw [isIdentifier, Text.decodeFirst_ascii ascii, notStart] at identifier
      cases identifier

namespace Place

variable (p : Place)

theorem operand_text (operand : OperandSyntax) (offset : Nat) :
    p.operand ⟨operand.text, offset⟩ = .ok (operand.operand p offset) := by
  cases operand with
  | number token =>
      simp only [Place.operand, OperandSyntax.text, token.starts, if_true,
        Place.numeral, token.read]
      rfl
  | name symbol =>
      have notNumber := startsNumber_of_isIdentifier symbol.identifier
      simp only [Place.operand, OperandSyntax.text, notNumber,
        symbol.identifier, Bool.false_eq_true, if_false, if_true]
      rfl

/-- A literal and white space behind it are read as a string. -/
theorem string_text (literal : Literal) (trail : Blank) (offset : Nat) :
    p.statement ⟨literal.text ++ trail.text, offset⟩ =
      .ok ((StatementSyntax.string literal).item p offset) := by
  obtain ⟨inner, out, body, -⟩ := StringLiteral.exists_body literal.encoded
  have quoted : (literal.text ++ trail.text).head? = some Text.quote := by
    rw [body]
    rfl
  have trimmed : Text.trimEnd Text.isBlank (literal.text ++ trail.text) =
      literal.text := by
    -- the closing quote is no white space, so trimming stops at it
    have content := Text.contentLength_append_cons (b := Text.quote)
      (by decide) (by decide) (Text.quote :: inner) trail.allBlank
    have split : literal.text ++ trail.text =
        (Text.quote :: inner) ++ Text.quote :: trail.text := by
      rw [body]
      simp
    rw [Text.trimEnd, split, content, ← split]
    apply List.take_left'
    rw [body]
    simp
  rw [Place.statement, if_pos quoted, Place.string]
  simp only [trimmed, literal.encoded]
  rfl

/-- A statement and white space behind it are read as the statement says. -/
theorem statement_text (statement : StatementSyntax) (trail : Blank)
    (offset : Nat) :
    p.statement ⟨statement.text ++ trail.text, offset⟩ =
      .ok (statement.item p offset) := by
  have ends := StartsBlank.of_allBlank trail.allBlank
  cases statement with
  | string literal => exact p.string_text literal trail offset
  | data token =>
      have tokens := Slice.tokens_word token.isWord ends offset 2
      rw [Slice.tokens_allBlank trail.allBlank] at tokens
      rw [StatementSyntax.text,
        p.statement_of_tokens (head?_word token.isWord _) tokens,
        if_pos token.starts]
      simp only [Place.data, Place.numeral, token.read]
      rfl
  | instruction mnemonic operand =>
      have notNumber := startsNumber_of_isIdentifier mnemonic.identifier
      cases operand with
      | none =>
          have tokens := Slice.tokens_word mnemonic.isWord ends offset 2
          rw [Slice.tokens_allBlank trail.allBlank] at tokens
          rw [StatementSyntax.text,
            p.statement_of_tokens (head?_word mnemonic.isWord _) tokens,
            notNumber]
          simp only [Place.instruction, mnemonic.identifier]
          rfl
      | some arguments =>
          obtain ⟨gap, operand⟩ := arguments
          have tokens := Slice.tokens_word mnemonic.isWord
            (StartsBlank.of_blank gap.allBlank gap.nonempty
              (operand.text ++ trail.text)) offset 2
          rw [Slice.tokens_blank gap.allBlank,
            Slice.tokens_word operand.isWord ends,
            Slice.tokens_allBlank trail.allBlank] at tokens
          simp only [StatementSyntax.text, List.append_assoc]
          rw [p.statement_of_tokens (head?_word mnemonic.isWord _) tokens,
            notNumber]
          simp only [Place.instruction, mnemonic.identifier,
            p.operand_text operand]
          rfl

end Place

namespace PassesCode

theorem label (name : Option Identifier) : PassesCode (labelText name) := by
  cases name with
  | none => exact fun _ _ => rfl
  | some name => exact (word name.isWord).append fun _ _ => rfl

theorem statement (statement : Option StatementSyntax) :
    PassesCode (statementText statement) := by
  cases statement with
  | none => exact fun _ _ => rfl
  | some statement =>
      cases statement with
      | string literal => exact codeLengthFrom_literal literal.encoded
      | data token => exact word token.isWord
      | instruction mnemonic operand =>
          cases operand with
          | none => exact word mnemonic.isWord
          | some arguments =>
              obtain ⟨gap, operand⟩ := arguments
              exact (word mnemonic.isWord).append
                ((blank gap.allBlank).append (word operand.isWord))

end PassesCode

theorem endsCode_commentText (comment : Option Comment) :
    EndsCode (commentText comment) := by
  cases comment with
  | none => nofun
  | some comment =>
      intro b head
      cases head
      exact comment.isSign

theorem LineSyntax.codeLength?_text (s : LineSyntax) :
    codeLength? s.text = some s.code.length := by
  have passes : PassesCode s.code :=
    (PassesCode.blank s.indent.allBlank).append
      ((PassesCode.label s.label).append
        ((PassesCode.blank s.gap.allBlank).append
          ((PassesCode.statement s.statement).append
            (PassesCode.blank s.trail.allBlank))))
  rw [codeLength?, LineSyntax.text, passes, Nat.zero_add,
    codeLengthFrom_of_endsCode (endsCode_commentText s.comment)]

/-- A statement begins with a quote, or with a word that ends there or at white
space. -/
theorem StatementSyntax.begins (statement : StatementSyntax) :
    (∃ rest, statement.text = Text.quote :: rest) ∨
      ∃ w rest, IsWord w ∧ statement.text = w ++ rest ∧
        ∀ trail : Blank, StartsBlank (rest ++ trail.text) := by
  have alone (trail : Blank) : StartsBlank ([] ++ trail.text) :=
    .of_allBlank trail.allBlank
  cases statement with
  | string literal =>
      obtain ⟨inner, out, body, -⟩ := StringLiteral.exists_body literal.encoded
      exact .inl ⟨_, body⟩
  | data token =>
      exact .inr ⟨token.text, [], token.isWord, (List.append_nil _).symm, alone⟩
  | instruction mnemonic operand =>
      cases operand with
      | none =>
          exact .inr ⟨mnemonic.text, [], mnemonic.isWord,
            (List.append_nil _).symm, alone⟩
      | some arguments =>
          obtain ⟨gap, operand⟩ := arguments
          refine .inr ⟨mnemonic.text, gap.text ++ operand.text,
            mnemonic.isWord, rfl, ?_⟩
          intro trail
          rw [List.append_assoc]
          exact .of_blank gap.allBlank gap.nonempty _

theorem StatementSyntax.spanLength_isBlank (statement : StatementSyntax)
    (rest : Text) :
    Text.spanLength Text.isBlank (statement.text ++ rest) = 0 := by
  rcases statement.begins with ⟨behind, text⟩ | ⟨w, behind, word, text, -⟩
  · rw [text, List.cons_append, Text.spanLength_ascii _ (by decide),
      if_neg (by decide)]
  · rw [text, List.append_assoc]
    exact Slice.spanLength_word word _

theorem StatementSyntax.isEmpty_text (statement : StatementSyntax)
    (rest : Text) :
    (statement.text ++ rest).isEmpty = false := by
  rcases statement.begins with ⟨behind, text⟩ | ⟨w, behind, word, text, -⟩
  · rw [text]
    rfl
  · simp [text, word.nonempty]

/-- No part of a statement is taken for a label. -/
theorem StatementSyntax.labelLength?_text (statement : StatementSyntax)
    (trail : Blank) :
    labelLength? (statement.text ++ trail.text) = none := by
  rcases statement.begins with ⟨behind, text⟩ | ⟨w, behind, word, text, ends⟩
  · rw [text]
    exact labelLength?_quote _
  · rw [text, List.append_assoc]
    exact labelLength?_word word (ends trail)

theorem Blank.trimStart (b : Blank) (rest : Text) (offset : Nat) :
    (Slice.mk (b.text ++ rest) offset).trimStart =
      (Slice.mk rest (offset + b.text.length)).trimStart :=
  Slice.trimStart_blank b.allBlank rest offset

theorem Blank.trimStart_last (b : Blank) (offset : Nat) :
    (Slice.mk b.text offset).trimStart = ⟨[], offset + b.text.length⟩ := by
  have trimmed := b.trimStart [] offset
  rwa [List.append_nil] at trimmed

theorem StatementSyntax.trimStart (statement : StatementSyntax) (rest : Text)
    (offset : Nat) :
    (Slice.mk (statement.text ++ rest) offset).trimStart =
      ⟨statement.text ++ rest, offset⟩ :=
  Slice.trimStart_eq (statement.spanLength_isBlank rest) offset

/-- Code with a label is read as the label and what follows it. -/
theorem Place.code_label (p : Place) (name : Identifier) (rest : Text)
    (offset : Nat) :
    p.code ⟨name.text ++ Text.colon :: rest, offset⟩ =
      let behind := (Slice.mk rest (offset + (name.text.length + 1))).trimStart
      if behind.text.isEmpty then ⟨[name.labelItem p offset], none⟩
      else .ofStatement [name.labelItem p offset] (p.statement behind) := by
  have nonempty : (name.text ++ Text.colon :: rest).isEmpty = false := by simp
  have behind : (Slice.mk (name.text ++ Text.colon :: rest) offset).drop
      (name.text.length + 1) = ⟨rest, offset + (name.text.length + 1)⟩ := by
    simp [Slice.drop, List.drop_append]
  rw [Place.code]
  simp only [nonempty, Bool.false_eq_true, if_false,
    labelLength?_label name.isWord, List.take_left, name.identifier,
    if_true, behind]
  rfl

/-- A line that is written according to the grammar is read as the syntax
says. -/
theorem LineSyntax.readLine_text (s : LineSyntax) (p : Place) :
    readLine p s.text = ⟨s.items p, none⟩ := by
  have code : s.text.take s.code.length = s.code := List.take_left
  rw [readLine, s.codeLength?_text]
  simp only [code]
  -- the comment is gone; what is left is trimmed from part to part
  obtain ⟨indent, label, gap, statement, trail, comment⟩ := s
  simp only [LineSyntax.code, LineSyntax.items, LineSyntax.statementOffset]
  rw [indent.trimStart, Nat.zero_add]
  cases label with
  | none =>
      simp only [labelText, List.nil_append, List.length_nil, Nat.add_zero]
      rw [gap.trimStart]
      cases statement with
      | none =>
          rw [statementText, List.nil_append, trail.trimStart_last]
          rfl
      | some statement =>
          rw [statementText, statement.trimStart, Place.code]
          simp only [statement.isEmpty_text, Bool.false_eq_true, if_false,
            statement.labelLength?_text, p.statement_text]
          rfl
  | some name =>
      simp only [labelText, List.append_assoc, List.singleton_append,
        List.length_append, List.length_singleton]
      rw [Slice.trimStart_eq (Slice.spanLength_word name.isWord _),
        p.code_label, gap.trimStart]
      cases statement with
      | none =>
          rw [statementText, List.nil_append, trail.trimStart_last]
          rfl
      | some statement =>
          rw [statementText, statement.trimStart]
          simp only [statement.isEmpty_text, Bool.false_eq_true, if_false,
            p.statement_text]
          rfl

end WordMachine.Assembly
