import WordMachine.StringLiteral

/-!
# String literals and the strings in memory

A literal is accepted exactly if it stands between quotes and its body has no
quote that is not escaped, no backslash at its end and no unknown escape.  Its
words can be read back from wherever they stand in memory, up to the first zero
character.
-/

namespace WordMachine

/-! ## Characters as words -/

namespace Word

theorem toNat_char_lt (c : Char) : c.toNat < 0x110000 := by
  have valid := c.valid
  simp only [Char.toNat, UInt32.isValidChar, Nat.isValidChar] at valid ⊢
  omega

theorem toInt_ofChar (c : Char) : (ofChar c).toInt = c.toNat := by
  have small := toNat_char_lt c
  rw [ofChar, Int64.toInt_ofNat_of_lt (by omega)]

theorem bits_ofChar (c : Char) : (ofChar c).bits = c.toNat := by
  have small := toNat_char_lt c
  rw [bits, ofChar]
  simp
  omega

theorem ofChar_eq_zero_iff {c : Char} : ofChar c = 0 ↔ c = Char.ofNat 0 := by
  rw [← Int64.toInt_inj, toInt_ofChar]
  constructor
  · intro zero
    apply Char.toNat_inj.mp
    simpa using zero
  · rintro rfl
    rfl

@[simp] theorem toChar_ofChar (c : Char) : (ofChar c).toChar = c := by
  have small := toNat_char_lt c
  have code : (ofChar c).bits % Nat.pow 2 32 = c.toNat := by
    rw [bits_ofChar]
    exact Nat.mod_eq_of_lt (by simp; omega)
  have valid : c.toNat.isValidChar := c.valid
  simp only [toChar, code, valid, if_true, Char.ofNat_toNat]

end Word

namespace StringLiteral

theorem eq_of_body? {literal inner : Text} (body : body? literal = some inner) :
    literal = Text.quote :: (inner ++ [Text.quote]) := by
  unfold body? at body
  split at body
  next rest =>
    split at body
    next last =>
      cases body
      obtain ⟨front, rfl⟩ := List.getLast?_eq_some_iff.mp last
      rw [List.dropLast_concat]
      rfl
    next => cases body
  next => cases body

theorem exists_body {literal : Text} {words : List Word}
    (encoded : encode literal = .ok words) :
    ∃ inner out, literal = Text.quote :: (inner ++ [Text.quote]) ∧
      unescapeFrom (Text.chars inner) [] = .ok out ∧ words = layout out := by
  unfold encode at encoded
  split at encoded
  next out unescaped =>
    unfold unescape at unescaped
    split at unescaped
    next inner body =>
      cases encoded
      exact ⟨inner, out, eq_of_body? body, unescaped, rfl⟩
    next => cases unescaped
  next => cases encoded

/-- A character of a body stands for itself, or is a backslash that escapes the
next. -/
theorem unescapeFrom_cons {c : Char} {cs done out : List Char}
    (unescaped : unescapeFrom (c :: cs) done = .ok out) :
    (c = '\\' ∧ ∃ d ds e, cs = d :: ds ∧ escape? d = some e ∧
      unescapeFrom ds (e :: done) = .ok out) ∨
    (c ≠ '\\' ∧ c ≠ '"' ∧ unescapeFrom cs (c :: done) = .ok out) := by
  unfold unescapeFrom at unescaped
  split at unescaped
  next equal => cases equal
  next => cases unescaped
  next d ds equal =>
    cases equal
    split at unescaped
    next e escaped => exact .inl ⟨rfl, d, ds, e, rfl, escaped, unescaped⟩
    next => cases unescaped
  next notLast notEscape equal =>
    cases equal
    split at unescaped
    next => cases unescaped
    next notQuote =>
      refine .inr ⟨?_, notQuote, unescaped⟩
      rintro rfl
      cases cs with
      | nil => exact notLast rfl rfl
      | cons d ds => exact notEscape d ds rfl rfl

theorem ascii_of_escape? {c e : Char} (escaped : escape? c = some e) :
    c.toNat < 0x80 := by
  unfold escape? at escaped
  split at escaped
  all_goals first | decide | cases escaped

/-! ## Bodies of literals -/

/-- The escapes, each with the character it stands for. -/
def escapes : List (Char × Char) :=
  [('n', '\n'), ('\\', '\\'), ('"', '"'), ('r', '\r'), ('t', '\t'),
    ('v', Char.ofNat 11)]

theorem escape?_eq_some_iff {c e : Char} :
    escape? c = some e ↔ (c, e) ∈ escapes := by
  unfold escape?
  split
  all_goals simp_all [escapes, eq_comm]

/-- What the characters in the body of a literal stand for. -/
inductive StandsFor : List Char → List Char → Prop
  | nil : StandsFor [] []
  | plain {c : Char} {body text : List Char} (notBackslash : c ≠ '\\')
      (notQuote : c ≠ '"') (rest : StandsFor body text) :
      StandsFor (c :: body) (c :: text)
  | escape {c e : Char} {body text : List Char} (listed : (c, e) ∈ escapes)
      (rest : StandsFor body text) : StandsFor ('\\' :: c :: body) (e :: text)

theorem StandsFor.unescapeFrom {body text : List Char}
    (stands : StandsFor body text) (done : List Char) :
    unescapeFrom body done = .ok (done.reverse ++ text) := by
  induction stands generalizing done with
  | nil => simp [StringLiteral.unescapeFrom]
  | plain notBackslash notQuote rest ih =>
      rw [StringLiteral.unescapeFrom, if_neg notQuote, ih]
      · simp
      · exact fun equal => absurd equal notBackslash
      · exact fun _ _ equal => absurd equal notBackslash
  | escape listed rest ih =>
      simp [StringLiteral.unescapeFrom, escape?_eq_some_iff.mpr listed, ih]

theorem standsFor_of_unescapeFrom {body done out : List Char}
    (unescaped : unescapeFrom body done = .ok out) :
    ∃ text, StandsFor body text ∧ out = done.reverse ++ text := by
  -- on the length, since an escape takes two characters at once
  induction size : body.length using Nat.strongRecOn generalizing body done with
  | ind n ih =>
      cases body with
      | nil =>
          cases unescaped
          exact ⟨[], .nil, by simp⟩
      | cons c rest =>
          rw [List.length_cons] at size
          rcases unescapeFrom_cons unescaped with
            ⟨rfl, d, behind, e, rfl, escaped, later⟩ |
              ⟨notBackslash, notQuote, later⟩
          · rw [List.length_cons] at size
            obtain ⟨text, stands, rfl⟩ := ih behind.length (by omega) later rfl
            exact ⟨e :: text, .escape (escape?_eq_some_iff.mp escaped) stands,
              by simp⟩
          · obtain ⟨text, stands, rfl⟩ := ih rest.length (by omega) later rfl
            exact ⟨c :: text, .plain notBackslash notQuote stands, by simp⟩

theorem unescapeFrom_eq_ok_iff {body text : List Char} :
    unescapeFrom body [] = .ok text ↔ StandsFor body text := by
  constructor
  · intro unescaped
    obtain ⟨_, stands, rfl⟩ := standsFor_of_unescapeFrom unescaped
    exact stands
  · intro stands
    exact stands.unescapeFrom []

/-! ## Where escapes stand -/

/-- The number of backslashes at the end of a list. -/
def trailing (front : List Char) : Nat :=
  (front.reverse.takeWhile (· = '\\')).length

/-- The character at a position is escaped: an odd number of backslashes stands
right in front of it. -/
def IsEscaped (body : List Char) (i : Nat) : Prop :=
  trailing (body.take i) % 2 = 1

/-- The character at a position is in order: a quote is escaped, a backslash
that is not escaped has a character behind it, and what is escaped is listed. -/
def Allowed (body : List Char) (i : Nat) : Prop :=
  ∀ c, body[i]? = some c →
    (c = '"' → IsEscaped body i) ∧
    (c = '\\' → ¬ IsEscaped body i → i + 1 < body.length) ∧
    (IsEscaped body i → c ∈ escapes.map Prod.fst)

/-- The body of a literal has no quote that is not escaped, no dangling
backslash and no unknown escape. -/
def WellFormed (body : List Char) : Prop :=
  ∀ i, Allowed body i

theorem not_isEscaped_zero (body : List Char) : ¬ IsEscaped body 0 := by
  simp [IsEscaped, trailing]

theorem isEscaped_one_iff (c : Char) (rest : List Char) :
    IsEscaped (c :: rest) 1 ↔ c = '\\' := by
  by_cases backslash : c = '\\'
  · simp [IsEscaped, trailing, backslash]
  · simp [IsEscaped, trailing, backslash]

theorem trailing_append (front back : List Char) :
    trailing (front ++ back) =
      if trailing back = back.length then trailing front + back.length
        else trailing back := by
  rw [trailing, trailing, trailing, List.reverse_append, List.takeWhile_append,
    List.length_reverse]
  split
  · rw [List.length_append, List.length_reverse, Nat.add_comm]
  · rfl

section Append

variable {front : List Char} (even : trailing front % 2 = 0)
  (body : List Char) (i : Nat)

include even

/-- Behind an even number of backslashes a body reads as it does alone. -/
theorem isEscaped_append : IsEscaped (front ++ body) (front.length + i) ↔
    IsEscaped body i := by
  rw [IsEscaped, IsEscaped, List.take_length_add_append, trailing_append]
  split
  next all => omega
  next => rfl

theorem allowed_append : Allowed (front ++ body) (front.length + i) ↔
    Allowed body i := by
  have room : front.length + i + 1 < (front ++ body).length ↔
      i + 1 < body.length := by
    rw [List.length_append]
    omega
  rw [Allowed, Allowed, List.getElem?_append_right (Nat.le_add_right ..),
    Nat.add_sub_cancel_left, isEscaped_append even, room]

theorem wellFormed_append :
    WellFormed (front ++ body) ↔
      (∀ i < front.length, Allowed (front ++ body) i) ∧ WellFormed body := by
  constructor
  · intro wellFormed
    refine ⟨fun i _ => wellFormed i, ?_⟩
    intro i
    exact (allowed_append even body i).mp (wellFormed _)
  · rintro ⟨inFront, behind⟩ i
    by_cases inside : i < front.length
    · exact inFront i inside
    · obtain ⟨k, rfl⟩ := Nat.exists_eq_add_of_le (Nat.le_of_not_lt inside)
      exact (allowed_append even body k).mpr (behind k)

end Append

theorem wellFormed_plain {c : Char} {rest : List Char}
    (notBackslash : c ≠ '\\') :
    WellFormed (c :: rest) ↔ c ≠ '"' ∧ WellFormed rest := by
  have even : trailing [c] % 2 = 0 := by simp [trailing, notBackslash]
  have first : (∀ i < [c].length, Allowed ([c] ++ rest) i) ↔ c ≠ '"' := by
    have unescaped := not_isEscaped_zero (c :: rest)
    simp [Allowed, unescaped, notBackslash]
  rw [← first]
  exact wellFormed_append even rest

theorem wellFormed_escape {c : Char} {rest : List Char} :
    WellFormed ('\\' :: c :: rest) ↔
      c ∈ escapes.map Prod.fst ∧ WellFormed rest := by
  have even : trailing ['\\', c] % 2 = 0 := by
    by_cases backslash : c = '\\'
    · simp [trailing, backslash]
    · simp [trailing, backslash]
  have pair : (∀ i < ['\\', c].length, Allowed (['\\', c] ++ rest) i) ↔
      c ∈ escapes.map Prod.fst := by
    have unescaped := not_isEscaped_zero ('\\' :: c :: rest)
    have escaped := (isEscaped_one_iff '\\' (c :: rest)).mpr rfl
    constructor
    · intro both
      exact (both 1 (by simp) c rfl).2.2 escaped
    · intro listed i inside
      have position : i = 0 ∨ i = 1 := by
        simp only [List.length_cons, List.length_nil] at inside
        omega
      rcases position with rfl | rfl
      · rintro _ ⟨⟩
        exact ⟨fun quote => absurd quote (by decide), fun _ _ => by simp,
          fun escaped => absurd escaped unescaped⟩
      · rintro _ ⟨⟩
        exact ⟨fun _ => escaped, fun _ unescaped => absurd escaped unescaped,
          fun _ => listed⟩
  rw [← pair]
  exact wellFormed_append even rest

theorem not_wellFormed_backslash : ¬ WellFormed ['\\'] := by
  intro wellFormed
  have behind := (wellFormed 0 '\\' rfl).2.1 rfl (not_isEscaped_zero _)
  exact absurd behind (by decide)

/-- The bodies that stand for something are those that are well formed. -/
theorem wellFormed_iff {body : List Char} :
    WellFormed body ↔ ∃ text, StandsFor body text := by
  constructor
  · intro wellFormed
    induction size : body.length using Nat.strongRecOn generalizing body with
    | ind n ih =>
        cases body with
        | nil => exact ⟨[], .nil⟩
        | cons c rest =>
            rw [List.length_cons] at size
            by_cases backslash : c = '\\'
            · subst backslash
              cases rest with
              | nil => exact absurd wellFormed not_wellFormed_backslash
              | cons d rest =>
                  rw [List.length_cons] at size
                  obtain ⟨listed, behind⟩ := wellFormed_escape.mp wellFormed
                  obtain ⟨⟨d, e⟩, member, rfl⟩ := List.mem_map.mp listed
                  obtain ⟨text, stands⟩ := ih rest.length (by omega) behind rfl
                  exact ⟨e :: text, .escape member stands⟩
            · obtain ⟨notQuote, behind⟩ :=
                (wellFormed_plain backslash).mp wellFormed
              obtain ⟨text, stands⟩ := ih rest.length (by omega) behind rfl
              exact ⟨c :: text, .plain backslash notQuote stands⟩
  · rintro ⟨text, stands⟩
    induction stands with
    | nil =>
        intro i c found
        cases found
    | plain notBackslash notQuote rest ih =>
        exact (wellFormed_plain notBackslash).mpr ⟨notQuote, ih⟩
    | escape listed rest ih =>
        exact wellFormed_escape.mpr ⟨List.mem_map_of_mem listed, ih⟩

/-! ## Literals -/

/-- What stands between the first and the last byte of a literal. -/
def content (literal : Text) : Text :=
  (literal.drop 1).dropLast

@[simp] theorem content_quoted (inner : Text) :
    content (Text.quote :: (inner ++ [Text.quote])) = inner := by
  simp [content]

/-- The text begins and ends with a quote, and these are two quotes. -/
theorem quoted_iff {literal : Text} :
    2 ≤ literal.length ∧ literal.head? = some Text.quote ∧
        literal.getLast? = some Text.quote ↔
      literal = Text.quote :: (content literal ++ [Text.quote]) := by
  constructor
  · rintro ⟨long, first, last⟩
    obtain ⟨rest, rfl⟩ := List.head?_eq_some_iff.mp first
    have nonempty : rest ≠ [] := by
      rintro rfl
      exact absurd long (by decide)
    rw [List.getLast?_cons_of_ne_nil nonempty] at last
    obtain ⟨inner, rfl⟩ := List.getLast?_eq_some_iff.mp last
    rw [content_quoted]
  · intro quoted
    rw [quoted]
    refine ⟨by simp, rfl, ?_⟩
    rw [← List.cons_append, List.getLast?_concat]

theorem encode_quoted {inner : Text} {text : List Char}
    (stands : StandsFor inner.chars text) :
    encode (Text.quote :: (inner ++ [Text.quote])) = .ok (layout text) := by
  have between : body? (Text.quote :: (inner ++ [Text.quote])) =
      some inner := by
    have last : (inner ++ [Text.quote]).getLast? = some Text.quote :=
      List.getLast?_concat
    refine (if_pos last).trans ?_
    rw [List.dropLast_concat]
  rw [encode, unescape, between]
  dsimp only
  rw [unescapeFrom_eq_ok_iff.mpr stands]

/-- A literal is accepted as the text that its body stands for. -/
theorem encode_eq_ok_iff {literal : Text} {words : List Word} :
    encode literal = .ok words ↔
      literal = Text.quote :: (content literal ++ [Text.quote]) ∧
        ∃ text, StandsFor (content literal).chars text ∧
          words = layout text := by
  constructor
  · intro encoded
    obtain ⟨inner, text, rfl, unescaped, rfl⟩ := exists_body encoded
    rw [content_quoted]
    exact ⟨rfl, text, unescapeFrom_eq_ok_iff.mp unescaped, rfl⟩
  · rintro ⟨quoted, text, stands, rfl⟩
    rw [quoted]
    exact encode_quoted stands

theorem length_layout (text : List Char) : (layout text).length % 2 = 0 := by
  rw [layout, terminator, List.length_append, List.length_map]
  split
  next even =>
    simp only [List.length_cons, List.length_nil]
    omega
  next odd =>
    simp only [List.length_cons, List.length_nil]
    omega

/-- A string is ended by a zero word, and there may be one more. -/
theorem exists_layout (text : List Char) :
    ∃ more, layout text = text.map Word.ofChar ++ 0 :: more ∧
      (more = [] ∨ more = [0]) := by
  rw [layout, terminator]
  split
  · exact ⟨[0], rfl, .inr rfl⟩
  · exact ⟨[], rfl, .inl rfl⟩

/-! ## Strings in memory -/

def wordsFrom (memory : Array Word) (address : Word) : List Word :=
  if 0 ≤ address.toInt then memory.toList.drop address.toInt.toNat else []

/-- The text of the words at an address, up to the first zero word. -/
def textAt (memory : Array Word) (address : Word) : Text :=
  Text.ofChars (((wordsFrom memory address).takeWhile (· ≠ 0)).map Word.toChar)

section Memory

variable {memory : Array Word} {address : Word}

theorem wordsFrom_of_index? {p : Nat}
    (found : address.index? memory.size = some p) :
    wordsFrom memory address = memory.toList.drop p := by
  rw [Word.index?] at found
  split at found
  next inside =>
    cases found
    rw [wordsFrom, if_pos inside.1]
  next => cases found

theorem wordsFrom_eq_nil (outside : address.index? memory.size = none) :
    wordsFrom memory address = [] := by
  rw [Word.index?] at outside
  split at outside
  next => cases outside
  next beyond =>
    rw [wordsFrom]
    split
    next positive =>
      apply List.drop_eq_nil_of_le
      rw [Array.length_toList]
      omega
    next => rfl

theorem drop_toList {p : Nat} (inside : p < memory.size) :
    memory.toList.drop p = memory[p] :: memory.toList.drop (p + 1) := by
  rw [List.drop_eq_getElem_cons (by simpa using inside), Array.getElem_toList]

/-- The walk over a string ends at its first zero word, or fails without one. -/
theorem decodeFrom_cases (memory : Array Word) (start : Word) (p : Nat)
    (done : List Char) :
    ((0 : Word) ∈ memory.toList.drop p ∧
      decodeFrom memory start p done =
        (Text.ofChars (done.reverse ++
          ((memory.toList.drop p).takeWhile (· ≠ 0)).map Word.toChar), none)) ∨
    ((0 : Word) ∉ memory.toList.drop p ∧
      ∃ text fault, decodeFrom memory start p done = (text, some fault)) := by
  fun_induction decodeFrom memory start p done with
  | case1 p done inside w zero =>
      rw [drop_toList inside]
      exact .inl ⟨by simp [← zero, w], by simp [w] at zero; simp [zero]⟩
  | case2 p done inside w nonzero ih =>
      have keeps : decide (memory[p] ≠ 0) = true := decide_eq_true nonzero
      simp only [drop_toList inside, List.takeWhile_cons, keeps, if_true]
      rcases ih with ⟨member, read⟩ | ⟨absent, failed⟩
      · refine .inl ⟨List.mem_cons_of_mem _ member, ?_⟩
        rw [read]
        simp [w]
      · refine .inr ⟨?_, failed⟩
        rw [List.mem_cons, not_or]
        exact ⟨Ne.symm nonzero, absent⟩
  | case3 p done outside =>
      refine .inr ⟨?_, _, _, rfl⟩
      rw [List.drop_eq_nil_of_le (by simpa using outside)]
      exact List.not_mem_nil

theorem decode_of_zero (ended : (0 : Word) ∈ wordsFrom memory address) :
    decode memory address = (textAt memory address, none) := by
  rw [decode]
  split
  next p found =>
    rw [textAt]
    rw [wordsFrom_of_index? found] at ended ⊢
    rcases decodeFrom_cases memory address p [] with ⟨-, read⟩ | ⟨absent, -⟩
    · exact read
    · exact absurd ended absent
  next outside =>
    rw [wordsFrom_eq_nil outside] at ended
    cases ended

theorem decode_of_no_zero (unended : (0 : Word) ∉ wordsFrom memory address) :
    ∃ text fault, decode memory address = (text, some fault) := by
  rw [decode]
  split
  next p found =>
    rw [wordsFrom_of_index? found] at unended
    rcases decodeFrom_cases memory address p [] with ⟨member, -⟩ | ⟨-, failed⟩
    · exact absurd member unended
    · exact failed
  next => exact ⟨_, _, rfl⟩

end Memory

/-- Memory holds the words from the address on. -/
def Holds (memory : Array Word) (address : Word) (words : List Word) : Prop :=
  ∃ before after, memory.toList = before ++ words ++ after ∧
    address.toInt = before.length

theorem Holds.wordsFrom {memory : Array Word} {address : Word}
    {words : List Word} (holds : Holds memory address words) :
    ∃ after, StringLiteral.wordsFrom memory address = words ++ after := by
  obtain ⟨before, after, split, start⟩ := holds
  refine ⟨after, ?_⟩
  rw [StringLiteral.wordsFrom, start, if_pos (Int.natCast_nonneg _),
    Int.toNat_natCast, split, List.append_assoc, List.drop_left]

theorem takeWhile_ofChar (text : List Char) (rest : List Word) :
    (text.map Word.ofChar ++ 0 :: rest).takeWhile (· ≠ 0) =
      (text.takeWhile (· ≠ Char.ofNat 0)).map Word.ofChar := by
  induction text with
  | nil => simp
  | cons c text ih =>
      by_cases zero : c = Char.ofNat 0
      · subst zero
        rfl
      · have nonzero : Word.ofChar c ≠ 0 :=
          fun equal => zero (Word.ofChar_eq_zero_iff.mp equal)
        rw [List.map_cons, List.cons_append,
          List.takeWhile_cons_of_pos (by simpa using nonzero),
          List.takeWhile_cons_of_pos (by simpa using zero), ih, List.map_cons]

/-- A string is read back from wherever it stands, up to its first zero
character. -/
theorem decode_layout {memory : Array Word} {address : Word} {text : List Char}
    (holds : Holds memory address (layout text)) :
    decode memory address =
      (Text.ofChars (text.takeWhile (· ≠ Char.ofNat 0)), none) := by
  obtain ⟨after, stored⟩ := holds.wordsFrom
  obtain ⟨more, shape, -⟩ := exists_layout text
  rw [shape, List.append_assoc, List.cons_append] at stored
  rw [decode_of_zero (by simp [stored]), textAt, stored,
    takeWhile_ofChar, List.map_map]
  simp [Function.comp_def]

theorem toInt_layout (text : List Char) :
    ∃ zeros, (zeros = [0] ∨ zeros = [0, 0]) ∧
      (layout text).map Int64.toInt =
        text.map (fun c => (c.toNat : Int)) ++ zeros := by
  have codes : (text.map Word.ofChar).map Int64.toInt = text.map fun c =>
      (c.toNat : Int) := by
    rw [List.map_map]
    exact List.map_congr_left fun c _ => Word.toInt_ofChar c
  obtain ⟨more, shape, rfl | rfl⟩ := exists_layout text
  · exact ⟨[0], .inl rfl, by rw [shape, List.map_append, codes]; rfl⟩
  · exact ⟨[0, 0], .inr rfl, by rw [shape, List.map_append, codes]; rfl⟩

/-- A literal is accepted exactly if it stands between two quotes and its body,
read as characters, is well formed.  Its words are the codes of the text that
the body stands for, with one or two zeros behind them that make their number
even; and wherever memory holds them, the text is read back up to its first zero
character. -/
theorem literal_reads_back (literal : Text) :
    ((∃ words, encode literal = .ok words) ↔
      2 ≤ literal.length ∧ literal.head? = some Text.quote ∧
        literal.getLast? = some Text.quote ∧
          WellFormed (content literal).chars) ∧
    ∀ words, encode literal = .ok words →
      ∃ text, StandsFor (content literal).chars text ∧
        (∃ zeros, (zeros = [0] ∨ zeros = [0, 0]) ∧
          words.map Int64.toInt =
            text.map (fun c => (c.toNat : Int)) ++ zeros) ∧
        words.length % 2 = 0 ∧
        ∀ memory address, Holds memory address words →
          decode memory address =
            (Text.ofChars (text.takeWhile (· ≠ Char.ofNat 0)), none) := by
  constructor
  · constructor
    · rintro ⟨words, encoded⟩
      obtain ⟨quoted, text, stands, -⟩ := encode_eq_ok_iff.mp encoded
      obtain ⟨long, first, last⟩ := quoted_iff.mpr quoted
      exact ⟨long, first, last, wellFormed_iff.mpr ⟨text, stands⟩⟩
    · rintro ⟨long, first, last, wellFormed⟩
      have quoted := quoted_iff.mp ⟨long, first, last⟩
      obtain ⟨text, stands⟩ := wellFormed_iff.mp wellFormed
      exact ⟨layout text, encode_eq_ok_iff.mpr ⟨quoted, text, stands, rfl⟩⟩
  · intro words encoded
    obtain ⟨-, text, stands, rfl⟩ := encode_eq_ok_iff.mp encoded
    exact ⟨text, stands, toInt_layout text, length_layout text, fun _ _ =>
      decode_layout⟩

/-- An escaped quote, a character beyond ASCII, a stray byte and a zero between
quotes. -/
def awkwardLiteral : Text :=
  [34, 104, 92, 34, 0xC3, 0xA9, 0xFF, 0, 120, 34]

def awkwardWords : List Word :=
  [104, 34, 0xE9, 0xFFFD, 0, 120, 0, 0]

theorem literal_reads_back_awkward :
    encode awkwardLiteral = .ok awkwardWords ∧
    WellFormed (content awkwardLiteral).chars ∧
    ∃ text, StandsFor (content awkwardLiteral).chars text ∧
      Text.ofChars (text.takeWhile (· ≠ Char.ofNat 0)) =
        Text.ofString "h\"é\uFFFD" ∧
      decode (#[7] ++ awkwardWords.toArray ++ #[5]) 1 =
        (Text.ofChars (text.takeWhile (· ≠ Char.ofNat 0)), none) := by
  have encoded : encode awkwardLiteral = .ok awkwardWords := by rfl
  have holds : Holds (#[7] ++ awkwardWords.toArray ++ #[5]) 1 awkwardWords :=
    ⟨[7], [5], rfl, rfl⟩
  obtain ⟨accepted, readsBack⟩ := literal_reads_back awkwardLiteral
  obtain ⟨text, stands, -, -, read⟩ := readsBack awkwardWords encoded
  have same := read _ _ holds
  refine ⟨encoded, (accepted.mp ⟨_, encoded⟩).2.2.2, text, stands, ?_, same⟩
  have shown : (decode (#[7] ++ awkwardWords.toArray ++ #[5]) 1).1 =
      Text.ofString "h\"é\uFFFD" := by
    decide +kernel
  rw [← shown, same]

end StringLiteral

end WordMachine
