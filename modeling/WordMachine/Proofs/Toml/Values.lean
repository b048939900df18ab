import Mathlib.Data.List.TakeDrop
import Mathlib.Tactic.SplitIfs
import WordMachine.Proofs.Numeral
import WordMachine.Proofs.Text
import WordMachine.Toml.Reader

/-!
# Values read back

Strings, integers and truth values are read back as they were written, provided
that the line ends behind them.  A string is written without control characters,
and without stray bytes if it has none itself.
-/

namespace WordMachine.Toml

/-- A run of bytes ends before the first one of another kind. -/
theorem span_append {p : UInt8 → Bool} {run : Text} {b : UInt8}
    (all : ∀ x ∈ run, p x = true) (stop : p b = false) (rest : Text) :
    (run ++ b :: rest).span p = (run, b :: rest) := by
  rw [List.span_eq_takeWhile_dropWhile, List.takeWhile_append_of_pos all,
    List.dropWhile_append_of_pos all]
  simp [stop]

/-! ## Strings -/

/-- Control characters are written by their codes. -/
theorem hexValue?_hexByte (b : UInt8) :
    hexValue? (48 :: 48 :: Text.hexByte b) = some b.toNat := by
  revert b
  exact Text.byte_forall (by decide +kernel)

theorem encodeChar_ofNat_ascii {b : UInt8} (ascii : b < 0x80) :
    Text.encodeChar (Char.ofNat b.toNat) = [b] := by
  revert b
  apply Text.byte_forall
  decide +kernel

theorem readEscape_code {b : UInt8} (ascii : b < 0x80) (rest : Text) :
    readEscape (117 :: 48 :: 48 :: (Text.hexByte b ++ rest)) =
      some ([b], rest) := by
  have small : b.toNat < 0x80 := ascii
  have valid : b.toNat.isValidChar := .inl (by omega)
  change codePoint? 4 (48 :: 48 :: (Text.hexByte b ++ rest)) = _
  have digits : (48 :: 48 :: (Text.hexByte b ++ rest)).take 4 =
      48 :: 48 :: Text.hexByte b := rfl
  have behind : (48 :: 48 :: (Text.hexByte b ++ rest)).drop 4 = rest := rfl
  have long : ¬ (48 :: 48 :: (Text.hexByte b ++ rest)).length < 4 := by
    simp [Text.hexByte]
  rw [codePoint?, if_neg long, digits, hexValue?_hexByte, behind]
  simp only [Option.bind_eq_bind, Option.bind_some, if_pos valid,
    encodeChar_ofNat_ascii ascii]

/-- A byte in a string is either written as it is or as an escape that stands
for it. -/
theorem escapeByte_cases (b : UInt8) :
    (∃ escape, escapeByte b = Text.backslash :: escape ∧
      ∀ rest, readEscape (escape ++ rest) = some ([b], rest)) ∨
    escapeByte b = [b] ∧ b ≠ Text.quote ∧ b ≠ Text.backslash ∧
      isLineEnd b = false ∧ 32 ≤ b ∧ b ≠ 127 := by
  unfold escapeByte
  split_ifs with special backspace tab newline feed returns control
  · exact .inl ⟨[b], rfl, fun rest => by rcases special with rfl | rfl <;> rfl⟩
  · exact .inl ⟨[98], rfl, fun rest => by rw [backspace]; rfl⟩
  · exact .inl ⟨[116], rfl, fun rest => by rw [tab]; rfl⟩
  · exact .inl ⟨[110], rfl, fun rest => by rw [newline]; rfl⟩
  · exact .inl ⟨[102], rfl, fun rest => by rw [feed]; rfl⟩
  · exact .inl ⟨[114], rfl, fun rest => by rw [returns]; rfl⟩
  · have ascii : b < 0x80 := by
      rcases control with low | rfl
      · exact UInt8.lt_trans low (by decide)
      · decide
    exact .inl ⟨117 :: 48 :: 48 :: Text.hexByte b, rfl, readEscape_code ascii⟩
  · rw [not_or] at special control
    refine .inr ⟨rfl, special.1, special.2, ?_,
      UInt8.not_lt.mp control.1, control.2⟩
    simp [isLineEnd, newline, returns]

/-- An escaped byte is read back. -/
theorem readBasic_escapeByte (b : UInt8) (fuel : Nat) (rest done : Text) :
    readBasic (fuel + 1) (escapeByte b ++ rest) done =
      readBasic fuel rest (b :: done) := by
  rcases escapeByte_cases b with ⟨escape, written, read⟩ |
    ⟨written, quote, backslash, line, -⟩
  · rw [written, List.cons_append, readBasic, if_neg (by decide),
      if_pos rfl, read]
    rfl
  · rw [written, List.singleton_append, readBasic, if_neg quote,
      if_neg backslash, line]
    rfl

theorem readBasic_escaped {t : Text} {fuel : Nat} (enough : t.length < fuel)
    (rest done : Text) :
    readBasic fuel (t.flatMap escapeByte ++ Text.quote :: rest) done =
      some (done.reverse ++ t, rest) := by
  induction t generalizing fuel done with
  | nil =>
      obtain ⟨fuel, rfl⟩ := Nat.exists_eq_add_of_lt enough
      simp [readBasic]
  | cons b t ih =>
      cases fuel with
      | zero => exact absurd enough (Nat.not_lt_zero _)
      | succ fuel =>
          rw [List.flatMap_cons, List.append_assoc, readBasic_escapeByte,
            ih (Nat.lt_of_succ_lt_succ enough)]
          simp

theorem head?_escapeByte (b : UInt8) :
    ∃ first tail, escapeByte b = first :: tail ∧
    first ≠ Text.quote := by
  rcases escapeByte_cases b with ⟨escape, written, -⟩ | ⟨written, quote, -⟩
  · exact ⟨_, _, written, by decide⟩
  · exact ⟨_, _, written, quote⟩

theorem length_le_escaped (t : Text) :
    t.length ≤ (t.flatMap escapeByte).length := by
  induction t with
  | nil => exact Nat.le_refl 0
  | cons b t ih =>
      obtain ⟨first, tail, written, -⟩ := head?_escapeByte b
      rw [List.flatMap_cons, written, List.length_append, List.length_cons,
        List.length_cons]
      omega

/-- A string in quotes is read back, unless a third quote follows an empty
one. -/
theorem readString_quoted (t : Text) {rest : Text}
    (behind : rest.head? ≠ some Text.quote) :
    readString (quoted t ++ rest) = some (t, rest) := by
  have shape : quoted t ++ rest =
      Text.quote :: (t.flatMap escapeByte ++ Text.quote :: rest) := by
        simp [quoted]
  have enough : t.length <
      (t.flatMap escapeByte ++ Text.quote :: rest).length + 1 := by
    have least := length_le_escaped t
    rw [List.length_append]
    omega
  rw [shape, readString, readBasic_escaped enough, List.reverse_nil,
    List.nil_append]
  -- the string does not begin with three quotes
  intro more three
  cases t with
  | nil =>
      rw [List.flatMap_nil, List.nil_append] at three
      rw [(List.cons.inj three).2] at behind
      exact behind rfl
  | cons b t =>
      obtain ⟨first, tail, written, notQuote⟩ := head?_escapeByte b
      rw [List.flatMap_cons, written, List.cons_append,
        List.cons_append] at three
      exact notQuote (List.cons.inj three).1

/-- A byte that a text may have anywhere. -/
def isPrinted (b : UInt8) : Bool :=
  b == Text.newline || 32 ≤ b && b != 127

theorem printed_quoted (t : Text) : (quoted t).all isPrinted = true := by
  have bytes : ∀ b : UInt8, (escapeByte b).all isPrinted = true :=
    Text.byte_forall (by decide +kernel)
  have inside : (t.flatMap escapeByte).all isPrinted = true := by
    rw [List.all_flatMap, List.all_eq_true]
    exact fun b _ => bytes b
  rw [quoted, List.cons_append, List.all_cons, List.all_append, inside]
  rfl

theorem ascii_escapeByte {b : UInt8} (ascii : b < 0x80) :
    ∀ x ∈ escapeByte b, x < 0x80 := by
  have all : ∀ b : UInt8, b < 0x80 → (escapeByte b).all (· < 0x80) = true :=
    Text.byte_forall (by decide +kernel)
  intro x member
  exact of_decide_eq_true (List.all_eq_true.mp (all b ascii) x member)

theorem escapeByte_wide {b : UInt8} (wide : 0x80 ≤ b) : escapeByte b = [b] := by
  revert b
  apply Text.byte_forall
  decide +kernel

theorem escaped_wide {t : Text} (wide : ∀ b ∈ t, 0x80 ≤ b) :
    t.flatMap escapeByte = t := by
  induction t with
  | nil => rfl
  | cons b t ih =>
      rw [List.forall_mem_cons] at wide
      rw [List.flatMap_cons, escapeByte_wide wide.1, ih wide.2,
        List.singleton_append]

/-- Only characters of one byte are escaped, and their escapes are made of such
characters. -/
theorem isValid_escaped {t : Text} (valid : t.isValid = true) :
    Text.isValid (t.flatMap escapeByte) = true := by
  refine Text.valid_induction (motive := fun t =>
    Text.isValid (t.flatMap escapeByte) = true)
    rfl ?_ valid
  intro b c tail later spells ih
  have wide : tail.flatMap escapeByte = tail :=
    escaped_wide fun x member =>
      Text.le_of_isContinuation (spells.continuation x member)
  rw [List.flatMap_cons, List.flatMap_append, wide]
  by_cases ascii : b < 0x80
  · have alone : tail = [] := by
      have one := (Text.spells_one ascii).decoded (tail ++ [])
      rw [List.nil_append, spells.decoded, Option.some.injEq,
        Prod.mk.injEq] at one
      exact List.length_eq_zero_iff.mp one.2
    subst alone
    exact Text.isValid_append
      (Text.isValid_of_ascii (ascii_escapeByte ascii)) ih
  · rw [escapeByte_wide (UInt8.not_lt.mp ascii)]
    exact (spells.isValid _).trans ih

theorem isValid_quoted {t : Text} (valid : t.isValid = true) :
    (quoted t).isValid = true := by
  have front := Text.isValid_append (s := [Text.quote]) rfl
    (isValid_escaped valid)
  exact Text.isValid_append front rfl

/-! ## Integers -/

theorem underscoresFrom_digits {t : Text}
    (digits : ∀ b ∈ t, Text.isDigitByte b = true) {afterDigit : Bool}
    (start : t = [] → afterDigit = true) :
    underscoresFrom t afterDigit = true := by
  induction t generalizing afterDigit with
  | nil => exact start rfl
  | cons b t ih =>
      rw [List.forall_mem_cons] at digits
      have digit : (Text.hexDigit? b).isSome = true := by
        rw [Text.hexDigit?, if_pos digits.1]
        rfl
      have notUnderscore : b ≠ Text.underscore := by
        rintro rfl
        exact absurd digits.1 (by decide)
      rw [underscoresFrom, digit]
      simp [notUnderscore, ih digits.2]

/-- The sign and the digits of an integer. -/
theorem toText_cases (w : Word) : (∃ n, w.toText = Text.ofNat n) ∨
    ∃ n, 0 < n ∧ w.toText = Text.minus :: Text.ofNat n := by
  unfold Word.toText Text.ofInt
  split
  next n _ => exact .inl ⟨n, rfl⟩
  next n _ => exact .inr ⟨n + 1, Nat.succ_pos n, rfl⟩

section Digits

variable {n : Nat}

theorem exists_ofNat (n : Nat) : ∃ first tail, Text.ofNat n = first :: tail ∧
    Text.isDigitByte first = true := by
  cases digits : Text.ofNat n with
  | nil => exact absurd digits (Text.ofNat_ne_nil n)
  | cons first tail =>
      exact ⟨first, tail, rfl,
        Text.isDigitByte_of_mem_ofNat (digits ▸ List.mem_cons_self)⟩

theorem hasLeadingZero_cons {first : UInt8}
    (digit : Text.isDigitByte first = true) (notZero : first ≠ Text.zero)
    (tail : Text) : hasLeadingZero (first :: tail) = false := by
  unfold hasLeadingZero
  split
  next same => exact absurd (List.cons.inj same).1 notZero
  next same =>
    rw [(List.cons.inj same).1] at digit
    cases digit
  next same =>
    rw [(List.cons.inj same).1] at digit
    cases digit
  next => rfl

theorem hasLeadingZero_ofNat (n : Nat) :
    hasLeadingZero (Text.ofNat n) = false := by
  by_cases zero : n = 0
  · subst zero
    rfl
  · obtain ⟨first, tail, digits, digit⟩ := exists_ofNat n
    have notZero := Text.head?_ofNat (Nat.pos_of_ne_zero zero)
    rw [digits] at notZero ⊢
    exact hasLeadingZero_cons digit (fun same =>
      notZero (congrArg some same)) tail

theorem hasLeadingZero_minus (positive : 0 < n) :
    hasLeadingZero (Text.minus :: Text.ofNat n) = false := by
  obtain ⟨first, tail, digits, digit⟩ := exists_ofNat n
  have notZero := Text.head?_ofNat positive
  rw [digits] at notZero ⊢
  unfold hasLeadingZero
  split
  next same => cases (List.cons.inj same).1
  next same => cases (List.cons.inj same).1
  next same => exact absurd (congrArg List.head? (List.cons.inj same).2) notZero
  next => rfl

end Digits

theorem integerValue?_toText (w : Word) :
    integerValue? w.toText = some (.integer w) := by
  have allowed : underscoresAllowed w.toText = true := by
    have digits (n : Nat) : underscoresAllowed (Text.ofNat n) = true :=
      underscoresFrom_digits (fun b => Text.isDigitByte_of_mem_ofNat)
        (fun empty => absurd empty (Text.ofNat_ne_nil n))
    rcases toText_cases w with ⟨n, text⟩ | ⟨n, -, text⟩
    · rw [text, digits]
    · rw [text]
      exact digits n
  have plain : hasLeadingZero w.toText = false := by
    rcases toText_cases w with ⟨n, text⟩ | ⟨n, positive, text⟩
    · rw [text, hasLeadingZero_ofNat]
    · rw [text, hasLeadingZero_minus positive]
  rw [integerValue?, allowed, plain, Numeral.readInteger_toText]
  rfl

section Lines

variable {w : Word} {start : Text} {n : Nat}

/-- Digits up to the end of a line are those of an integer. -/
theorem readDecimal_toText (text : w.toText = start ++ Text.ofNat n)
    (rest : Text) :
    readDecimal start (Text.ofNat n ++ Text.newline :: rest) =
      some (.integer w, Text.newline :: rest) := by
  have digits : ∀ b ∈ Text.ofNat n, isIntegerByte b = true := by
    intro b member
    rw [isIntegerByte, Text.isDigitByte_of_mem_ofNat member]
    rfl
  have ends : (Text.newline :: rest).head?.any isPartMark = false := rfl
  rw [readDecimal, span_append digits rfl]
  simp only [ends, ← text, integerValue?_toText, Bool.false_eq_true, if_false,
    Option.map_some]

theorem startsMoment_ofNat (n : Nat) (rest : Text) :
    startsMoment (Text.ofNat n ++ Text.newline :: rest) = false := by
  have ends : ((Text.newline :: rest).head? == some Text.minus ||
      (Text.newline :: rest).head? == some Text.colon) = false := rfl
  rw [startsMoment, span_append (fun b => Text.isDigitByte_of_mem_ofNat) rfl]
  simp only [ends, Bool.and_false]

theorem readUnsigned_ofNat (text : w.toText = Text.ofNat n) (rest : Text) :
    readUnsigned (Text.ofNat n ++ Text.newline :: rest) =
      some (.integer w, Text.newline :: rest) := by
  have decimal : readDecimal [] (Text.ofNat n ++ Text.newline :: rest) =
      some (.integer w, Text.newline :: rest) := readDecimal_toText text rest
  unfold readUnsigned
  rw [startsMoment_ofNat]
  split
  next letter more zero =>
    -- no letter follows a zero, since then the zero is the only digit
    have noBase : isBaseLetter letter = false := by
      by_cases null : n = 0
      · subst null
        rw [← (List.cons.inj (List.cons.inj zero).2).1]
        rfl
      · obtain ⟨first, tail, digits, -⟩ := exists_ofNat n
        have notZero := Text.head?_ofNat (Nat.pos_of_ne_zero null)
        rw [digits] at zero notZero
        exact absurd (congrArg some (List.cons.inj zero).1) notZero
    rw [noBase]
    exact decimal
  next => exact decimal

theorem readSigned_ofNat (positive : 0 < n)
    (text : w.toText = Text.minus :: Text.ofNat n) (rest : Text) :
    readSigned Text.minus (Text.ofNat n ++ Text.newline :: rest) =
      some (.integer w, Text.newline :: rest) := by
  have decimal : readDecimal [Text.minus]
      (Text.ofNat n ++ Text.newline :: rest) =
      some (.integer w, Text.newline :: rest) := readDecimal_toText text rest
  obtain ⟨first, tail, digits, digit⟩ := exists_ofNat n
  have notZero := Text.head?_ofNat positive
  rw [digits] at decimal notZero ⊢
  rw [List.cons_append] at decimal ⊢
  unfold readSigned
  dsimp only
  rw [if_pos digit]
  split
  next same => exact absurd (congrArg some (List.cons.inj same).1) notZero
  next => exact decimal

end Lines

/-! ## Values -/

/-- The text is read as the value, behind a blank and up to the end of the
line. -/
def ReadsAs (text : Text) (value : Toml) : Prop :=
  ∀ (context : Key) (name : Text) (fuel : Nat) (d : Document) (rest : Text),
    readValue context name false (fuel + 1) d
      (Text.space :: (text ++ Text.newline :: rest)) =
      some ⟨value, d, Text.newline :: rest⟩

theorem skipBlanks_space {b : UInt8} (solid : isBlankByte b = false)
    (rest : Text) :
    skipBlanks (Text.space :: b :: rest) = b :: rest := by
  have blank : isBlankByte Text.space = true := rfl
  rw [skipBlanks, List.dropWhile_cons, if_pos blank, List.dropWhile_cons, solid]
  rfl

theorem ReadsAs.string (t : Text) : ReadsAs (quoted t) (.string t) := by
  intro context name fuel d rest
  have read : readString (quoted t ++ Text.newline :: rest) =
      some (t, Text.newline :: rest) :=
    readString_quoted t (by rw [List.head?_cons]; decide)
  have shape : quoted t ++ Text.newline :: rest =
      Text.quote :: (t.flatMap escapeByte ++ Text.quote ::
        Text.newline :: rest) := by
    simp [quoted]
  rw [shape] at read ⊢
  rw [readValue, skipBlanks_space rfl]
  simp only [read]
  rfl

theorem ReadsAs.integer (w : Word) : ReadsAs w.toText (.integer w) := by
  intro context name fuel d rest
  rcases toText_cases w with ⟨n, text⟩ | ⟨n, positive, text⟩
  · obtain ⟨first, tail, digits, digit⟩ := exists_ofNat n
    have read := readUnsigned_ofNat text rest
    rw [text, digits, List.cons_append]
    rw [digits, List.cons_append] at read
    have solid : isBlankByte first = false := by
      rw [isBlankByte, Bool.or_eq_false_iff, beq_eq_false_iff_ne,
        beq_eq_false_iff_ne]
      constructor <;> rintro rfl <;> cases digit
    have noQuote : ¬ (first = Text.quote ∨ first = apostrophe) := by
      rintro (rfl | rfl) <;> cases digit
    rw [readValue, skipBlanks_space solid]
    simp only [if_neg noQuote, if_pos digit, read]
    rfl
  · have read := readSigned_ofNat positive text rest
    rw [text, List.cons_append, readValue, skipBlanks_space rfl]
    simp only [read]
    rfl

theorem ReadsAs.boolean (b : Bool) :
    ReadsAs (Text.ofString (if b then "true" else "false")) (.boolean b) := by
  intro context name fuel d rest
  cases b <;> rfl

end WordMachine.Toml
