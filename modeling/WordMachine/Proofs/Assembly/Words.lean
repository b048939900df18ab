import WordMachine.Assembly.Line
import WordMachine.Proofs.Numeral
import WordMachine.Proofs.StringLiteral
import WordMachine.Proofs.Text

/-!
# Words and blanks of a line

A word is a run of characters that neither separate words nor mean anything of
their own.  Identifiers and number literals are words.  This module follows the
walks over a line through words and white space: where the comment begins, where
a label ends and which tokens a slice has.
-/

namespace WordMachine

/-! ## White space -/

namespace Text

theorem CharRanges.exists_of_search {ranges : CharRanges}
    {code rounds lo hi : Nat} (found : ranges.search code rounds lo hi = true) :
    ∃ range ∈ ranges, range.1 ≤ code ∧ code ≤ range.2 := by
  induction rounds generalizing lo hi with
  | zero => cases found
  | succ rounds ih =>
      unfold CharRanges.search at found
      split at found
      next =>
        dsimp only at found
        split at found
        next => cases found
        next first last middle =>
          split at found
          next => exact ih found
          next above =>
            split at found
            next => exact ih found
            next below =>
              exact ⟨(first, last), Array.mem_of_getElem? middle,
                Nat.le_of_not_lt above, Nat.le_of_not_lt below⟩
      next => cases found

/-- The code points of blank characters, one by one. -/
def blankCodes : List Nat :=
  blankRanges.toList.flatMap fun range =>
    List.range' range.1 (range.2 + 1 - range.1)

theorem mem_blankCodes {c : Char} (blank : isBlank c = true) :
    c.toNat ∈ blankCodes := by
  have inRange : ∃ range ∈ blankRanges, range.1 ≤ c.toNat ∧
      c.toNat ≤ range.2 := by
    unfold isBlank at blank
    split at blank
    next =>
      simp only [Bool.or_eq_true, Bool.and_eq_true, decide_eq_true_eq,
        beq_iff_eq] at blank
      rcases blank with controls | space
      · exact ⟨(0x9, 0xD), by simp [blankRanges], controls⟩
      · exact ⟨(0x20, 0x20), by simp [blankRanges], by omega⟩
    next => exact CharRanges.exists_of_search blank
  obtain ⟨range, member, least, greatest⟩ := inRange
  apply List.mem_flatMap.mpr
  refine ⟨range, Array.mem_toList_iff.mpr member, ?_⟩
  rw [List.mem_range'_1]
  omega

theorem isBlank_replacement : isBlank replacement = false := by decide +kernel

end Text

namespace Assembly

/-! ## Words -/

def isWordChar (c : Char) : Bool :=
  !(Text.isBlank c || c == ':' || c == '"' || c == ';' || c == '#' ||
    c == Text.replacement)

theorem isWordChar_replacement : isWordChar Text.replacement = false := by
  decide +kernel

theorem isBlank_of_isWordChar {c : Char} (word : isWordChar c = true) :
    Text.isBlank c = false := by
  simp only [isWordChar, Bool.not_eq_true', Bool.or_eq_false_iff] at word
  exact word.1.1.1.1.1

theorem isWordChar_of_isIdentifierChar {c : Char}
    (identifier : isIdentifierChar c = true) :
    isWordChar c = true := by
  have other {x : Char} (excluded : isIdentifierChar x = false) :
      (c == x) = false := by
    apply beq_false_of_ne
    rintro rfl
    rw [excluded] at identifier
    cases identifier
  have notBlank : Text.isBlank c = false := by
    apply Bool.eq_false_iff.mpr
    intro blank
    -- no table tells letters from blanks, but there are few blanks to go
    -- through
    have excluded : ∀ code ∈ Text.blankCodes,
        isIdentifierChar (Char.ofNat code) = false := by
      decide +kernel
    have blankCode := excluded c.toNat (Text.mem_blankCodes blank)
    rw [Char.ofNat_toNat, identifier] at blankCode
    cases blankCode
  have colon := other (x := ':') (by decide +kernel)
  have quote := other (x := '"') (by decide +kernel)
  have semicolon := other (x := ';') (by decide +kernel)
  have hash := other (x := '#') (by decide +kernel)
  have stray := other (x := Text.replacement) (by decide +kernel)
  rw [isWordChar, notBlank, colon, quote, semicolon, hash, stray]
  rfl

theorem isWordChar_of_isNumeralByte :
    ∀ b, Numeral.isNumeralByte b = true →
      b < 0x80 ∧ isWordChar (Char.ofNat b.toNat) = true :=
  Text.byte_forall (by decide +kernel)

/-- A text that consists of word characters. -/
structure IsWord (t : Text) : Prop where
  nonempty : t ≠ []
  chars : Text.allChars isWordChar t = true

theorem IsWord.of_isIdentifier {t : Text} (identifier : isIdentifier t = true) :
    IsWord t := by
  cases t with
  | nil => cases identifier
  | cons b rest =>
      rw [isIdentifier, Bool.and_eq_true] at identifier
      refine ⟨List.cons_ne_nil b rest, ?_⟩
      have walk := Text.spanLength_append_of_allChars (q := isWordChar)
        (by decide +kernel)
        (fun c => isWordChar_of_isIdentifierChar) identifier.2 []
      rw [List.append_nil] at walk
      rw [Text.allChars, walk]
      simp [Text.spanLength, Text.spanFrom]

theorem IsWord.of_read {t : Text} {n : Numeral}
    (read : Numeral.read t = .ok n) : IsWord t := by
  refine ⟨?_, ?_⟩
  · rintro rfl
    cases read
  · apply Text.allChars_of_ascii
    intro b member
    exact isWordChar_of_isNumeralByte b
      (List.all_eq_true.mp (Numeral.all_of_read read) b member)

/-! ## Tokens -/

/-- The text is empty or begins with white space, so a token ends in front of
it. -/
def StartsBlank (t : Text) : Prop :=
  t.spanLength (fun c => !Text.isBlank c) = 0

theorem startsBlank_nil : StartsBlank [] := rfl

theorem StartsBlank.of_blank {blank : Text}
    (allBlank : blank.allChars Text.isBlank = true) (nonempty : blank ≠ [])
    (rest : Text) : StartsBlank (blank ++ rest) := by
  apply Text.spanLength_eq_zero_of_allChars Text.isBlank_replacement _
    allBlank nonempty
  intro c isBlank
  rw [isBlank]
  rfl

theorem StartsBlank.of_allBlank {blank : Text}
    (allBlank : blank.allChars Text.isBlank = true) :
    StartsBlank blank := by
  cases blank with
  | nil => rfl
  | cons b rest =>
      have starts := StartsBlank.of_blank allBlank (List.cons_ne_nil b rest) []
      rwa [List.append_nil] at starts

/-- A walk that does not accept white space stops where a token ends. -/
theorem StartsBlank.spanLength_eq_zero {t : Text} (starts : StartsBlank t)
    {q : Char → Bool} (rejects : ∀ c, Text.isBlank c = true → q c = false) :
    t.spanLength q = 0 := by
  cases t with
  | nil => rfl
  | cons b rest =>
      obtain ⟨c, tail, later, rfl, first, -⟩ := Text.exists_first b rest
      rw [StartsBlank, Text.spanLength_cons _ first] at starts
      rw [Text.spanLength_cons _ first, if_neg]
      cases blank : Text.isBlank c with
      | true => simp [rejects c blank]
      | false =>
          rw [blank, Bool.not_false, if_pos rfl] at starts
          omega

theorem spanLength_token {w : Text} (word : IsWord w) (rest : Text) :
    (w ++ rest).spanLength (fun c => !Text.isBlank c) =
      w.length + rest.spanLength (fun c => !Text.isBlank c) := by
  apply Text.spanLength_append_of_allChars isWordChar_replacement _ word.chars
  intro c isWord
  rw [isBlank_of_isWordChar isWord]
  rfl

/-- White space stands between a word and the next. -/
theorem not_startsBlank_word {w : Text} (word : IsWord w) (rest : Text) :
    ¬ StartsBlank (w ++ rest) := by
  intro starts
  rw [StartsBlank, spanLength_token word] at starts
  exact word.nonempty (List.eq_nil_of_length_eq_zero (by omega))

namespace Slice

variable {w blank rest : Text}

theorem trimStart_blank
    (allBlank : blank.allChars Text.isBlank = true) (rest : Text)
    (offset : Nat) :
    (Slice.mk (blank ++ rest) offset).trimStart =
      (Slice.mk rest (offset + blank.length)).trimStart := by
  have walk := Text.spanLength_append_of_allChars
    Text.isBlank_replacement (fun _ => id)
    allBlank rest
  simp only [trimStart, drop, walk, List.drop_append, Nat.add_sub_cancel_left,
    Nat.add_assoc]
  rw [List.drop_of_length_le (by omega), List.nil_append]

theorem trimStart_eq (starts : rest.spanLength Text.isBlank = 0)
    (offset : Nat) :
    (Slice.mk rest offset).trimStart = ⟨rest, offset⟩ := by
  simp only [trimStart, drop, starts, List.drop_zero, Nat.add_zero]

theorem spanLength_word (word : IsWord w) (rest : Text) :
    (w ++ rest).spanLength Text.isBlank = 0 :=
  Text.spanLength_eq_zero_of_allChars isWordChar_replacement
    (fun _ => isBlank_of_isWordChar) word.chars word.nonempty rest

theorem tokenLength_word (word : IsWord w) (ends : StartsBlank rest)
    (offset : Nat) :
    (Slice.mk (w ++ rest) offset).tokenLength = w.length := by
  rw [tokenLength, spanLength_token word, ends, Nat.add_zero]

@[simp] theorem tokens_nil (offset count : Nat) :
    (Slice.mk [] offset).tokens count = [] := by
  cases count with
  | zero => rfl
  | succ count => rfl

theorem tokens_word (word : IsWord w) (ends : StartsBlank rest)
    (offset count : Nat) :
    (Slice.mk (w ++ rest) offset).tokens (count + 1) =
      ⟨w, offset⟩ :: (Slice.mk rest (offset + w.length)).tokens count := by
  have nonempty : (w ++ rest).isEmpty = false := by simp [word.nonempty]
  simp only [tokens, trimStart_eq (spanLength_word word rest), nonempty,
    Bool.false_eq_true, if_false, tokenLength_word word ends, drop,
    List.take_left, List.drop_left]

theorem tokens_blank
    (allBlank : blank.allChars Text.isBlank = true) (rest : Text)
    (offset count : Nat) :
    (Slice.mk (blank ++ rest) offset).tokens count =
      (Slice.mk rest (offset + blank.length)).tokens count := by
  cases count with
  | zero => rfl
  | succ count => rw [tokens, tokens, trimStart_blank allBlank]

theorem tokens_allBlank (allBlank : blank.allChars Text.isBlank = true)
    (offset count : Nat) :
    (Slice.mk blank offset).tokens count = [] := by
  have tokens := tokens_blank allBlank [] offset count
  rwa [List.append_nil, tokens_nil] at tokens

end Slice

theorem head?_word {w : Text} (word : IsWord w) (rest : Text) :
    (w ++ rest).head? ≠ some Text.quote := by
  obtain ⟨b, others, rfl⟩ := List.exists_cons_of_ne_nil word.nonempty
  intro head
  cases head
  have isWord : isWordChar '"' = true :=
    Text.of_mem_of_allChars word.chars List.mem_cons_self (by decide)
  exact absurd isWord (by decide)

theorem Place.statement_of_tokens (p : Place) {s token : Slice}
    {others : List Slice} (unquoted : s.text.head? ≠ some Text.quote)
    (tokens : s.tokens 3 = token :: others) :
    p.statement s =
      if Numeral.startsNumber token.text then p.data token others
      else p.instruction token others := by
  rw [Place.statement, if_neg unquoted, tokens]

/-! ## Labels -/

/-- Whether the walk for a label passes a character. -/
def isLabelChar (c : Char) : Bool :=
  !(Text.isBlank c || c == ':' || c == '"')

theorem labelLength?_eq (t : Text) :
    labelLength? t =
      if t.spanLength isLabelChar ≠ 0 && t[t.spanLength isLabelChar]? ==
        some Text.colon then
        some (t.spanLength isLabelChar)
      else none := rfl

theorem isLabelChar_of_isWordChar {c : Char} (word : isWordChar c = true) :
    isLabelChar c = true := by
  simp only [isWordChar, Bool.not_eq_true', Bool.or_eq_false_iff] at word
  simp only [isLabelChar, word, Bool.or_self, Bool.not_false]

theorem spanLength_isLabelChar_word {w : Text} (word : IsWord w) (rest : Text) :
    (w ++ rest).spanLength isLabelChar =
      w.length + rest.spanLength isLabelChar :=
  Text.spanLength_append_of_allChars isWordChar_replacement
    (fun _ => isLabelChar_of_isWordChar) word.chars rest

theorem labelLength?_label {w : Text} (word : IsWord w) (rest : Text) :
    labelLength? (w ++ Text.colon :: rest) = some w.length := by
  have stops : Text.spanLength isLabelChar (Text.colon :: rest) = 0 := by
    rw [Text.spanLength_ascii _ (by decide), if_neg (by decide)]
  rw [labelLength?_eq, spanLength_isLabelChar_word word, stops,
    Nat.add_zero, if_pos]
  simp [word.nonempty]

theorem labelLength?_word {w rest : Text} (word : IsWord w)
    (ends : StartsBlank rest) :
    labelLength? (w ++ rest) = none := by
  have stops : rest.spanLength isLabelChar = 0 := by
    apply ends.spanLength_eq_zero
    intro c blank
    rw [isLabelChar, blank]
    rfl
  rw [labelLength?_eq, spanLength_isLabelChar_word word, stops,
    Nat.add_zero, if_neg]
  simp only [Bool.and_eq_true, beq_iff_eq, not_and]
  intro _ colon
  rw [List.getElem?_append_right (Nat.le_refl _), Nat.sub_self] at colon
  cases rest with
  | nil => cases colon
  | cons b rest =>
      cases colon
      rw [StartsBlank, Text.spanLength_ascii _ (by decide),
        if_pos (by decide)] at ends
      omega

theorem labelLength?_quote (rest : Text) :
    labelLength? (Text.quote :: rest) = none := by
  have stops : Text.spanLength isLabelChar (Text.quote :: rest) = 0 := by
    rw [Text.spanLength_ascii _ (by decide), if_neg (by decide)]
  rw [labelLength?_eq, stops]
  rfl

theorem exists_of_labelLength? {t : Text} {n : Nat}
    (label : labelLength? t = some n) :
    ∃ name later, t = name ++ Text.colon :: later ∧ name.length = n := by
  rw [labelLength?_eq] at label
  split at label
  next found =>
    cases label
    simp only [Bool.and_eq_true, beq_iff_eq] at found
    obtain ⟨inside, colon⟩ := List.getElem?_eq_some_iff.mp found.2
    refine ⟨t.take (t.spanLength isLabelChar),
      t.drop (t.spanLength isLabelChar + 1), ?_, ?_⟩
    · rw [← colon, List.getElem_cons_drop, List.take_append_drop]
    · rw [List.length_take, Nat.min_eq_left (Nat.le_of_lt inside)]
  next => cases label

/-! ## Comments -/

/-- Whether a byte means nothing to the walk to the end of the code. -/
def IsInert (quoted : Bool) (b : UInt8) : Prop :=
  b ≠ Text.quote ∧ if quoted then b ≠ Text.backslash
    else b ≠ Text.semicolon ∧ b ≠ Text.hash

theorem codeLengthFrom_append {quoted : Bool} {t : Text}
    (inert : ∀ b ∈ t, IsInert quoted b) (rest : Text) (seen : Nat) :
    codeLengthFrom quoted false (t ++ rest) seen =
      codeLengthFrom quoted false rest (seen + t.length) := by
  induction t generalizing seen with
  | nil => rfl
  | cons b t ih =>
      have own := inert b List.mem_cons_self
      have others := ih (fun other member =>
        inert other (List.mem_cons_of_mem b member)) (seen + 1)
      rw [Nat.add_assoc, Nat.add_comm 1] at others
      rw [List.cons_append, codeLengthFrom, List.length_cons]
      cases quoted with
      | true => simpa [own.1, show b ≠ Text.backslash from own.2] using others
      | false =>
          obtain ⟨noQuote, noSemicolon, noHash⟩ := own
          simpa [noQuote, noSemicolon, noHash] using others

theorem inert_of_allChars {p : Char → Bool} {t : Text}
    (all : t.allChars p = true) (quote : p '"' = false)
    (semicolon : p ';' = false) (hash : p '#' = false) :
    ∀ b ∈ t, IsInert false b := by
  intro b member
  refine ⟨?_, ?_, ?_⟩
  · rintro rfl
    have pass : p '"' = true := Text.of_mem_of_allChars all member (by decide)
    rw [quote] at pass
    cases pass
  · rintro rfl
    have pass : p ';' = true := Text.of_mem_of_allChars all member (by decide)
    rw [semicolon] at pass
    cases pass
  · rintro rfl
    have pass : p '#' = true := Text.of_mem_of_allChars all member (by decide)
    rw [hash] at pass
    cases pass

theorem inert_word {w : Text} (word : IsWord w) : ∀ b ∈ w, IsInert false b :=
  inert_of_allChars word.chars (by decide +kernel) (by decide +kernel)
    (by decide +kernel)

theorem inert_blank {blank : Text}
    (allBlank : blank.allChars Text.isBlank = true) :
    ∀ b ∈ blank, IsInert false b :=
  inert_of_allChars allBlank (by decide) (by decide) (by decide)

/-- The walk to the end of the code goes past the text as if it were not
there. -/
def PassesCode (t : Text) : Prop :=
  ∀ rest seen, codeLengthFrom false false (t ++ rest) seen =
    codeLengthFrom false false rest (seen + t.length)

namespace PassesCode

theorem append {s t : Text} (first : PassesCode s) (second : PassesCode t) :
    PassesCode (s ++ t) := by
  intro rest seen
  rw [List.append_assoc, first, second, List.length_append, Nat.add_assoc]

theorem word {w : Text} (isWord : IsWord w) : PassesCode w :=
  codeLengthFrom_append (inert_word isWord)

theorem blank {b : Text} (allBlank : b.allChars Text.isBlank = true) :
    PassesCode b :=
  codeLengthFrom_append (inert_blank allBlank)

end PassesCode

/-- The text is empty or a comment, so the code of a line ends in front of
it. -/
def EndsCode (t : Text) : Prop :=
  ∀ b ∈ t.head?, b = Text.semicolon ∨ b = Text.hash

theorem codeLengthFrom_of_endsCode {t : Text} (ends : EndsCode t) (seen : Nat) :
    codeLengthFrom false false t seen = some seen := by
  cases t with
  | nil => rfl
  | cons b rest =>
      rcases ends b rfl with rfl | rfl
      · rfl
      · rfl

theorem endsCode_of_codeLengthFrom {quoted escaped : Bool} {t : Text}
    {seen n : Nat} (length : codeLengthFrom quoted escaped t seen = some n) :
    ∃ k, n = seen + k ∧ EndsCode (t.drop k) := by
  fun_induction codeLengthFrom quoted escaped t seen with
  | case1 => cases length
  | case2 escaped quoted seen outside =>
      cases length
      exact ⟨0, rfl, nofun⟩
  | case3 quoted b rest seen ih
  | case4 quoted b rest seen _ ih
  | case5 quoted rest seen _ ih
  | case7 quoted b rest seen _ _ _ ih =>
      obtain ⟨k, rfl, ends⟩ := ih length
      exact ⟨k + 1, by omega, ends⟩
  | case6 quoted b rest seen _ _ sign =>
      cases length
      refine ⟨0, rfl, ?_⟩
      intro first head
      cases head
      simp only [Bool.and_eq_true, Bool.or_eq_true, beq_iff_eq] at sign
      exact sign.2

/-- The code of a line ends at its end or in front of a comment. -/
theorem endsCode_of_codeLength? {line : Text} {n : Nat}
    (length : codeLength? line = some n) :
    EndsCode (line.drop n) := by
  obtain ⟨k, rfl, ends⟩ := endsCode_of_codeLengthFrom length
  rwa [Nat.zero_add]

/-! ## Strings -/

/-- The walk passes the body of a string up to the closing quote, also from
behind a backslash. -/
theorem codeLengthFrom_body (body rest : Text) :
    (∀ done out seen, StringLiteral.unescapeFrom body.chars done = .ok out →
      codeLengthFrom true false (body ++ Text.quote :: rest) seen =
        codeLengthFrom false false rest (seen + body.length + 1)) ∧
    (∀ c cs e done out seen, body.chars = c :: cs →
      StringLiteral.escape? c = some e →
      StringLiteral.unescapeFrom cs done = .ok out →
      codeLengthFrom true true (body ++ Text.quote :: rest) seen =
        codeLengthFrom false false rest (seen + body.length + 1)) := by
  -- the two parts carry each other: a backslash leads into the second, and the
  -- character behind it back into the first
  induction body using Text.char_induction with
  | nil =>
      refine ⟨fun done out seen _ => rfl, ?_⟩
      intro c cs e done out seen chars
      cases chars
  | cons b c tail later first readAs ih =>
      rw [Text.chars_cons first]
      obtain ⟨plain, escaped⟩ := ih
      refine ⟨?_, ?_⟩
      · intro done out seen unescaped
        rcases StringLiteral.unescapeFrom_cons unescaped with
          ⟨rfl, d, ds, e, chars, escape, unescaped⟩ |
            ⟨notBackslash, notQuote, unescaped⟩
        · obtain ⟨rfl, byte⟩ := Text.of_first_ascii first readAs (by decide)
          have backslash : b = Text.backslash := UInt8.toNat_inj.mp byte
          have behind := escaped d ds e _ out (seen + 1) chars escape unescaped
          rw [backslash, List.nil_append, List.cons_append, codeLengthFrom,
            if_pos (by rfl), behind, List.length_cons]
          congr 1
          omega
        · have behind := plain _ out (seen + (b :: tail).length) unescaped
          rw [List.cons_append, List.append_assoc, ← List.cons_append,
            codeLengthFrom_append _, behind, List.length_cons, List.length_cons,
            List.length_append]
          · congr 1
            omega
          · intro x member
            refine ⟨?_, ?_⟩
            · rintro rfl
              exact notQuote (Text.eq_of_mem_first first readAs
                (by decide) member)
            · rintro rfl
              exact notBackslash
                (Text.eq_of_mem_first first readAs (by decide) member)
      · intro c' cs e done out seen chars escape unescaped
        cases chars
        obtain ⟨rfl, -⟩ :=
          Text.of_first_ascii first readAs
            (StringLiteral.ascii_of_escape? escape)
        have behind := plain done out (seen + 1) unescaped
        rw [List.nil_append, List.cons_append, codeLengthFrom, behind,
          List.length_cons]
        congr 1
        omega

/-- A string literal leaves the walk as it was: none of its bytes begins a
comment. -/
theorem codeLengthFrom_literal {literal : Text} {words : List Word}
    (encoded : StringLiteral.encode literal = .ok words) (rest : Text)
    (seen : Nat) :
    codeLengthFrom false false (literal ++ rest) seen =
      codeLengthFrom false false rest (seen + literal.length) := by
  obtain ⟨inner, out, rfl, unescaped, -⟩ := StringLiteral.exists_body encoded
  have behind := (codeLengthFrom_body inner rest).1 [] out (seen + 1) unescaped
  rw [List.cons_append, List.append_assoc, List.singleton_append,
    codeLengthFrom, if_neg (by decide), if_pos rfl, Bool.not_false, behind,
    List.length_cons, List.length_append]
  congr 1
  simp only [List.length_singleton]
  omega

end Assembly

end WordMachine
