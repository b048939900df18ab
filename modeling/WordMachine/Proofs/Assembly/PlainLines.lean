import WordMachine.Proofs.Assembly.Words

/-!
# Lines of plain words

A plain word consists of visible ASCII characters none of which has a meaning of
its own on a line.  A line of one or two plain words holds a statement with
these words as its tokens, and nothing else.
-/

namespace WordMachine

namespace Text

/-- A visible ASCII character that neither quotes nor ends anything. -/
def isPlain (b : UInt8) : Bool :=
  33 ≤ b && b ≤ 126 && b != quote && b != hash && b != colon && b != semicolon

/-- A text without white space that stands for itself. -/
structure PlainWord (t : Text) : Prop where
  nonempty : t ≠ []
  plain : ∀ b ∈ t, isPlain b = true

theorem PlainWord.of_all {t : Text} (nonempty : t ≠ [])
    (all : t.all isPlain = true) :
    PlainWord t :=
  ⟨nonempty, List.all_eq_true.mp all⟩

end Text

namespace Assembly

open Text (PlainWord)

variable {a b rest : Text}

theorem isWordChar_of_isPlain :
    ∀ b, Text.isPlain b = true →
      b < 0x80 ∧ isWordChar (Char.ofNat b.toNat) = true :=
  Text.byte_forall (by decide +kernel)

theorem IsWord.of_plainWord (word : PlainWord a) : IsWord a := by
  refine ⟨word.nonempty, Text.allChars_of_ascii ?_⟩
  intro b member
  exact isWordChar_of_isPlain b (word.plain b member)

theorem plain_append (word : PlainWord a)
    (others : ∀ c ∈ rest, Text.isPlain c = true ∨ c = Text.space) :
    ∀ c ∈ a ++ rest, Text.isPlain c = true ∨ c = Text.space := by
  intro c member
  rcases List.mem_append.mp member with front | back
  · exact .inl (word.plain c front)
  · exact others c back

theorem plain_space (word : PlainWord b) :
    ∀ c ∈ Text.space :: b, Text.isPlain c = true ∨ c = Text.space := by
  intro c member
  rcases List.mem_cons.mp member with space | own
  · exact .inr space
  · exact .inl (word.plain c own)

/-- A line that begins with a word and white space behind it holds a
statement. -/
theorem readLine_statement (p : Place) (word : IsWord a)
    (ends : StartsBlank rest) (passes : PassesCode rest) :
    readLine p (a ++ rest) = .ofStatement [] (p.statement ⟨a ++ rest, 0⟩) := by
  have length : codeLength? (a ++ rest) = some (a ++ rest).length := by
    have walk := (PassesCode.word word).append passes [] 0
    rwa [List.append_nil, Nat.zero_add] at walk
  have nonempty : (a ++ rest).isEmpty = false := by
    simp [word.nonempty]
  rw [readLine, length]
  simp only [List.take_length,
    Slice.trimStart_eq (Slice.spanLength_word word rest), Place.code, nonempty,
    Bool.false_eq_true, if_false, labelLength?_word word ends]

/-- A line of one plain word. -/
theorem readLine_word (p : Place) (word : PlainWord a) :
    readLine p a = .ofStatement []
      (if Numeral.startsNumber a then p.data ⟨a, 0⟩ [] else p.instruction
        ⟨a, 0⟩ []) := by
  have isWord := IsWord.of_plainWord word
  have tokens := Slice.tokens_word isWord startsBlank_nil 0 2
  rw [Slice.tokens_nil] at tokens
  have read := readLine_statement p isWord startsBlank_nil fun _ _ => rfl
  rw [p.statement_of_tokens (head?_word isWord []) tokens] at read
  rwa [List.append_nil] at read

/-- A line of two plain words. -/
theorem readLine_two_words (p : Place) (first : PlainWord a)
    (second : PlainWord b) :
    readLine p (a ++ Text.space :: b) = .ofStatement []
      (if Numeral.startsNumber a then p.data ⟨a, 0⟩ [⟨b, a.length + 1⟩]
        else p.instruction ⟨a, 0⟩ [⟨b, a.length + 1⟩]) := by
  have isFirst := IsWord.of_plainWord first
  have isSecond := IsWord.of_plainWord second
  have space : Text.allChars Text.isBlank [Text.space] = true := by decide
  have ends : StartsBlank ([Text.space] ++ b) :=
    .of_blank space (List.cons_ne_nil _ _) b
  have last := Slice.tokens_word isSecond startsBlank_nil (a.length + 1) 1
  rw [List.append_nil, Slice.tokens_nil] at last
  have tokens := Slice.tokens_word isFirst ends 0 2
  rw [Slice.tokens_blank space, Nat.zero_add, List.length_singleton,
    last] at tokens
  have read := readLine_statement p isFirst ends
    ((PassesCode.blank space).append (.word isSecond))
  rw [p.statement_of_tokens (head?_word isFirst _) tokens] at read
  exact read

end Assembly

end WordMachine
