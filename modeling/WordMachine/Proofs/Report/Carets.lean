import Mathlib.Data.List.Forall2
import Mathlib.Data.List.TakeWhile
import WordMachine.Proofs.Assembly.TokenStarts
import WordMachine.Proofs.Numeral
import WordMachine.Report.Diagnostic

/-!
# Carets point at the reported column

A report on a problem shows the line of source it is about, split around the
token that the problem points at, and a row of carets below.  Columns are bytes
and rows are read by characters; the carets stand below the token nevertheless,
whatever the number of the line and whatever characters stand in front, since no
character goes across the beginning of a token.

`failureReport?` makes the same report by slices and lookups that fail out of
range.  They never do, not even for positions outside of the source.
-/

namespace WordMachine

/-! ## Texts -/

namespace Text

variable {x : UInt8} {front rest : Text}

/-- ASCII text in front is read byte by byte. -/
theorem chars_append_ascii {t : Text} (ascii : ∀ b ∈ t, b < 0x80)
    (rest : Text) :
    chars (t ++ rest) = t.map (fun b => Char.ofNat b.toNat) ++ rest.chars := by
  induction t with
  | nil => rfl
  | cons b t ih =>
      rw [List.forall_mem_cons] at ascii
      have first : decodeFirst b ([] ++ (t ++ rest)) =
          (Char.ofNat b.toNat, ([] : Text).length) :=
        decodeFirst_ascii ascii.1 _
      have read : chars (b :: (t ++ rest)) = Char.ofNat b.toNat ::
          chars (t ++ rest) :=
        chars_cons first
      rw [List.cons_append, read, ih ascii.2]
      rfl

/-- A character stays what it is if less follows. -/
theorem decodeFirst_of_isPrefix {b : UInt8} {c : Char} {tail later fewer : Text}
    (first : decodeFirst b (tail ++ later) = (c, tail.length))
    (readAs : ReadAs b tail c) (less : fewer <+: later) :
    decodeFirst b (tail ++ fewer) = (c, tail.length) := by
  obtain ⟨behind, rfl⟩ := less
  -- If a stray byte spelt a character with less behind it, it would with all of
  -- it.
  rcases readAs with ⟨rfl, rfl⟩ | spells
  · obtain ⟨other, begins, others, split, short, ⟨rfl, rfl⟩ | spells⟩ :=
      exists_first b fewer
    · exact short
    · rw [split, List.nil_append, List.append_assoc, spells.first] at first
      rw [List.nil_append, split, spells.first, first]
  · exact spells.first _

/-- The characters of a span pass. -/
theorem all_chars_take_spanLength (p : Char → Bool) (t : Text) :
    (chars (t.take (t.spanLength p))).all p = true := by
  induction t using char_induction with
  | nil => rfl
  | cons b c tail later first readAs ih =>
      rw [spanLength_cons p first]
      split
      next pass =>
        have front : (b :: (tail ++ later)).take
            (1 + tail.length + later.spanLength p) =
            b :: (tail ++ later.take (later.spanLength p)) := by
          rw [Nat.add_assoc, Nat.add_comm 1, List.take_succ_cons,
            List.take_length_add_append]
        rw [front, chars_cons
          (decodeFirst_of_isPrefix first readAs (List.take_prefix _ _)),
          List.all_cons, pass, ih]
        rfl
      next => rfl

theorem dropTrailing_prefix (x : UInt8) (t : Text) :
    dropTrailing x t <+: t := by
  rw [dropTrailing, ← List.reverse_suffix, List.reverse_reverse]
  exact List.dropWhile_suffix _

/-- What is dropped at the end does not reach across another byte. -/
theorem dropTrailing_append_cons {b : UInt8} (other : b ≠ x)
    (front rest : Text) :
    dropTrailing x (front ++ b :: rest) =
      front ++ b :: dropTrailing x rest := by
  have keeps : (b == x) = false := beq_eq_false_iff_ne.mpr other
  have split : (front ++ b :: rest).reverse = rest.reverse ++
      (b :: front.reverse) := by simp
  rw [dropTrailing, dropTrailing, split, List.dropWhile_append]
  split
  next empty => simp [keeps, List.isEmpty_iff.mp empty]
  next => simp

theorem dropTrailing_append_of_all (all : ∀ b ∈ rest, b = x) :
    dropTrailing x (front ++ rest) = dropTrailing x front := by
  have gone : rest.reverse.dropWhile (· == x) = [] := by
    rw [List.dropWhile_eq_nil_iff]
    intro b member
    exact beq_iff_eq.mpr (all b (List.mem_reverse.mp member))
  rw [dropTrailing, List.reverse_append, List.dropWhile_append, gone]
  rfl

end Text

namespace Report

open Assembly

/-! ## The token -/

/-- A quote closes a string where it stands. -/
theorem exists_of_closingQuoteFrom {escaped : Bool} {t : Text} {seen n : Nat}
    (found : closingQuoteFrom escaped t seen = some n) :
    ∃ front later, t = front ++ Text.quote :: later ∧
      n = seen + (front.length + 1) := by
  fun_induction closingQuoteFrom escaped t seen with
  | case1 => cases found
  | case2 b rest seen ih =>
      obtain ⟨front, later, rfl, rfl⟩ := ih found
      exact ⟨b :: front, later, rfl, by simp; omega⟩
  | case3 rest seen ih =>
      obtain ⟨front, later, rfl, rfl⟩ := ih found
      exact ⟨Text.backslash :: front, later, rfl, by simp; omega⟩
  | case4 rest seen =>
      cases found
      exact ⟨[], rest, rfl, rfl⟩
  | case5 b rest seen _ _ ih =>
      obtain ⟨front, later, rfl, rfl⟩ := ih found
      exact ⟨b :: front, later, rfl, by simp; omega⟩

/-- What a report marks: text without white space up to white space or the end,
or a string. -/
def IsToken (focus after : Text) : Prop :=
  (focus.chars.all (fun c => !Text.isBlank c) = true ∧ StartsBlank after) ∨
    (focus.head? = some Text.quote ∧
      (focus.getLast? = some Text.quote ∨ after = []))

/-- A token ends where no character goes across. -/
theorem IsToken.chars_append {focus after : Text}
    (token : IsToken focus after) :
    (focus ++ after).chars = focus.chars ++ after.chars := by
  have nothing : (focus ++ []).chars = focus.chars ++ Text.chars [] := by
    rw [List.append_nil]
    exact (List.append_nil _).symm
  rcases token with ⟨-, starts⟩ | ⟨-, last | rfl⟩
  · induction after using Text.char_induction with
    | nil => exact nothing
    | cons b c tail later first readAs _ =>
        rw [StartsBlank, Text.spanLength_cons _ first] at starts
        have blank : Text.isBlank c = true := by
          by_contra other
          rw [if_pos (by simpa using other)] at starts
          omega
        have spells := readAs.spells (by decide) blank
        exact Text.chars_append_of_starts spells.starts _ _
  · obtain ⟨front, rfl⟩ := List.getLast?_eq_some_iff.mp last
    exact Text.Closed.concat (by decide) front after
  · exact nothing

theorem isToken_of_quote (rest : Text) :
    let n := (closingQuoteFrom false rest 1).getD (rest.length + 1)
    n ≤ rest.length + 1 ∧
      IsToken ((Text.quote :: rest).take n) ((Text.quote :: rest).drop n) := by
  cases found : closingQuoteFrom false rest 1 with
  | none =>
      refine ⟨Nat.le_refl _, .inr ⟨rfl, .inr ?_⟩⟩
      exact List.drop_length
  | some n =>
      obtain ⟨front, later, rfl, rfl⟩ := exists_of_closingQuoteFrom found
      have split : Text.quote :: (front ++ Text.quote :: later) =
          (Text.quote :: front ++ [Text.quote]) ++ later := by
        simp
      have length : 1 + (front.length + 1) =
          (Text.quote :: front ++ [Text.quote]).length := by
        simp [Nat.add_comm 1]
      dsimp only
      rw [Option.getD_some, split, length, List.take_left]
      exact ⟨by simp, .inr ⟨rfl, .inl List.getLast?_concat⟩⟩

/-- The token at the front of a text is part of it. -/
theorem focusLength_spec (t : Text) : focusLength t ≤ t.length ∧
    IsToken (t.take (focusLength t)) (t.drop (focusLength t)) := by
  unfold focusLength
  split
  next rest => exact isToken_of_quote rest
  next =>
    have inside := Text.spanLength_le (fun c => !Text.isBlank c) t
    have span : (t.indexWhere? Text.isBlank).getD t.length =
        t.spanLength fun c => !Text.isBlank c := by
      unfold Text.indexWhere?
      grind
    rw [span]
    exact ⟨inside, .inl ⟨Text.all_chars_take_spanLength _ t,
      Text.spanLength_drop_spanLength _ t⟩⟩

theorem highlight_whole (line : Text) (offset : Nat) :
    (highlight line offset).before ++ (highlight line offset).focus ++
      (highlight line offset).after = line := by
  rw [highlight, List.append_assoc, List.take_append_drop,
    List.take_append_drop]

/-! ## Reports by checked slices -/

/-- Like `highlight`, by slices that fail outside of the line; columns count
from one. -/
def highlight? (line : Text) (column : Int) : Option Highlight := do
  let start := min (column - 1) line.length
  let rest ← line.sliceFrom? start
  let before ← line.sliceTo? start
  let focus ← rest.sliceTo? (focusLength rest)
  let after ← rest.sliceFrom? (focusLength rest)
  return ⟨before, focus, after⟩

theorem highlight?_eq (line : Text) (column : Int) :
    highlight? line (max column 1) =
      some (highlight line (column - 1).toNat) := by
  have start : min (max column 1 - 1) (line.length : Int) =
      (min (column - 1).toNat line.length : Nat) := by
    omega
  have inside : min (column - 1).toNat line.length ≤ line.length :=
    Nat.min_le_right _ _
  have fits (t : Text) := (focusLength_spec t).1
  rw [highlight?, start, Text.sliceFrom?_ofNat inside,
    Text.sliceTo?_ofNat inside]
  simp only [Option.bind_eq_bind, Option.bind_some,
    Text.sliceTo?_ofNat (fits _), Text.sliceFrom?_ofNat (fits _),
    Option.pure_def, highlight, Option.some.injEq]
  have inside' : (column - 1).toNat ≤ line.length ∨
      line.length ≤ (column - 1).toNat :=
    Nat.le_total _ _
  rcases inside' with within | beyond
  · rw [Nat.min_eq_left within]
  · rw [Nat.min_eq_right beyond, List.drop_of_length_le beyond,
      List.take_of_length_le beyond, List.drop_length, List.take_length]

/-- Spaces as wide as the number of the line, with one in front. -/
def margin (p : Problem) : Text :=
  Text.space :: List.replicate (Text.ofInt p.pos.line).length Text.space

def headRows (s : Style) (p : Problem) : List Text :=
  [s.header "error" p.cause.message,
    margin p ++ s.blue (Text.ofString "-->") ++ Text.space :: p.pos.text]

def excerptRows (s : Style) (p : Problem) (h : Highlight) : List Text :=
  let carets := List.replicate (max h.focus.chars.length 1) 94
  let indent := List.replicate h.before.chars.length Text.space
  [s.blue (margin p ++ Text.ofString " |"),
    Text.space :: s.blue (Text.ofInt p.pos.line) ++ Text.space ::
      s.blue (Text.ofString "|")
      ++ Text.space :: h.before ++ s.red h.focus ++ h.after,
    Text.dropTrailing Text.space (margin p ++ Text.space ::
      s.blue (Text.ofString "|")
      ++ Text.space :: indent ++ s.red carets ++ Text.space :: s.red p.detail)]

/-- The line that a problem is about, split around its token. -/
def shown (p : Problem) (line : Text) : Highlight :=
  highlight (Text.dropTrailing Text.carriageReturn line)
    (p.pos.column - 1).toNat

section Checked

variable {s : Style} {lines : List Text} {p : Problem}

theorem problemReport_of_line {line : Text} (positive : 1 ≤ p.pos.line)
    (isLine : lines[(p.pos.line - 1).toNat]? = some line) :
    problemReport s lines p =
      Text.join [Text.newline]
        (headRows s p ++ excerptRows s p (shown p line)) := by
  rw [problemReport, if_pos positive, isLine]
  rfl

theorem problemReport_of_outside
    (outside : p.pos.line < 1 ∨ lines.length < p.pos.line) :
    problemReport s lines p = problemReport s [] p := by
  have uncited :
      (if 1 ≤ p.pos.line then lines[(p.pos.line - 1).toNat]? else none) =
        none := by
    split
    next => exact List.getElem?_eq_none (by omega)
    next => rfl
  rw [problemReport, uncited, problemReport, List.getElem?_nil, ite_self]

/-- Like `problemReport`, by slices and a lookup that fail out of range. -/
def problemReport? (s : Style) (lines : List Text) (p : Problem) :
    Option Text :=
  if p.pos.line < 1 ∨ lines.length < p.pos.line then some (problemReport s [] p)
  else do
    let line ← lines[(p.pos.line - 1).toNat]?
    let h ← highlight? (Text.dropTrailing Text.carriageReturn line)
        (max p.pos.column 1)
    return Text.join [Text.newline] (headRows s p ++ excerptRows s p h)

theorem problemReport?_eq (s : Style) (lines : List Text) (p : Problem) :
    problemReport? s lines p = some (problemReport s lines p) := by
  unfold problemReport?
  split
  next outside => rw [problemReport_of_outside outside]
  next inside =>
    have within : (p.pos.line - 1).toNat < lines.length := by omega
    have isLine := List.getElem?_eq_getElem within
    rw [isLine, problemReport_of_line (by omega) isLine]
    simp only [Option.bind_eq_bind, Option.bind_some, highlight?_eq]
    rfl

/-- Like `failureReport`, by slices and lookups that fail out of range. -/
def failureReport? (s : Style) (source : Option Text) : Failure → Option Text
  | .problems found =>
    let lines := (source.map Text.lines).getD []
    (found.mapM (problemReport? s lines)).map
      (Text.join [Text.newline, Text.newline])
  | .unreadable fault => some (s.header "error" fault.message)

theorem failureReport?_eq (s : Style) (source : Option Text)
    (failure : Failure) :
    failureReport? s source failure =
      some (failureReport s source failure) := by
  cases failure with
  | problems found =>
      have each (lines : List Text) :
          problemReport? s lines = fun p => pure (problemReport s lines p) :=
        funext (problemReport?_eq s lines)
      rw [failureReport?, each, List.mapM_pure]
      rfl
  | unreadable fault => rfl

end Checked

/-! ## Blocks of a report -/

/-- The report on one problem, row by row. -/
structure Block where
  title : Text
  place : Text
  frame : Text
  /-- What stands in front of the source line. -/
  lead : Text
  line : Highlight
  carets : Text

namespace Block

def sourceRow (b : Block) : Text :=
  b.lead ++ b.line.before ++ b.line.focus ++ b.line.after

def text (b : Block) : Text :=
  Text.join [Text.newline] [b.title, b.place, b.frame, b.sourceRow, b.carets]

end Block

def caretOffset (row : Text) : Nat :=
  (row.chars.takeWhile (· != '^')).length

/-- The number of carets from the first one on; there may be others in what is
said behind. -/
def caretCount (row : Text) : Nat :=
  ((row.chars.dropWhile (· != '^')).takeWhile (· == '^')).length

/-- The block is about the problem, shows its line of the source, and its carets
stand below the token that begins at the column of the problem. -/
structure Block.PointsAt (source : Text) (p : Problem) (b : Block) : Prop where
  title : b.title = Text.ofString "error: " ++ p.cause.message
  place : b.place = margin p ++ Text.ofString "--> " ++ p.pos.text
  lead : b.lead = Text.space :: Text.ofInt p.pos.line ++ Text.ofString " | "
  line : 1 ≤ p.pos.line ∧ 1 ≤ p.pos.column ∧
    ∃ line, source.lines[(p.pos.line - 1).toNat]? = some line ∧
      b.line.before ++ b.line.focus ++ b.line.after =
        Text.dropTrailing Text.carriageReturn line ∧
      b.line.before.length =
        min (p.pos.column - 1).toNat
          (Text.dropTrailing Text.carriageReturn line).length
  token : IsToken b.line.focus b.line.after
  row : b.sourceRow.chars =
    (b.lead ++ b.line.before).chars ++ b.line.focus.chars ++ b.line.after.chars
  offset : caretOffset b.carets = (b.lead ++ b.line.before).chars.length
  count : caretCount b.carets = max 1 b.line.focus.chars.length

section CaretRow

variable {front rest : Text} {n : Nat}

theorem chars_replicate_caret (n : Nat) (rest : Text) :
    Text.chars (List.replicate n 94 ++ rest) = List.replicate n '^' ++
      rest.chars := by
  rw [Text.chars_append_ascii (by simp +contextual), List.map_replicate]
  rfl

/-- Carets are found behind spaces and bars. -/
theorem caretRow_spec (noCaret : ∀ b ∈ front, b = Text.space ∨ b = 124)
    (ends : ∀ c ∈ rest.chars.head?, c ≠ '^') (positive : 0 < n) :
    caretOffset (front ++ List.replicate n 94 ++ rest) = front.length ∧
      caretCount (front ++ List.replicate n 94 ++ rest) = n := by
  have ascii : ∀ b ∈ front, b < 0x80 := by
    intro b member
    rcases noCaret b member with rfl | rfl <;> decide
  have others : ∀ c ∈ front.map (fun b => Char.ofNat b.toNat),
      (c != '^') = true := by
    intro c member
    obtain ⟨b, inside, rfl⟩ := List.mem_map.mp member
    rcases noCaret b inside with rfl | rfl <;> decide
  obtain ⟨m, rfl⟩ := Nat.exists_eq_add_of_le' positive
  have chars : Text.chars (front ++ List.replicate (m + 1) 94 ++ rest) =
      front.map (fun b => Char.ofNat b.toNat) ++
        '^' :: (List.replicate m '^' ++ rest.chars) := by
    rw [List.append_assoc, Text.chars_append_ascii ascii, chars_replicate_caret]
    rfl
  have last : rest.chars.takeWhile (· == '^') = [] := by
    cases shape : rest.chars with
    | nil => rfl
    | cons c cs =>
        have other : c ≠ '^' := ends c (by rw [shape]; rfl)
        rw [List.takeWhile_cons_of_neg (by simpa using other)]
  rw [caretOffset, caretCount, chars, List.takeWhile_append_of_pos others,
    List.dropWhile_append_of_pos others]
  simp [last]

end CaretRow

/-- What is said behind the carets keeps its distance from them. -/
theorem dropTrailing_space_chars (detail : Text) :
    ∀ c ∈ (Text.dropTrailing Text.space (Text.space :: detail)).chars.head?,
      c ≠ '^' := by
  have front := Text.dropTrailing_prefix Text.space (Text.space :: detail)
  cases shape : Text.dropTrailing Text.space (Text.space :: detail) with
  | nil => nofun
  | cons b rest =>
      rw [shape, List.cons_prefix_cons] at front
      have ascii : ∀ b ∈ [Text.space], b < 0x80 :=
        List.forall_mem_singleton.mpr (by decide)
      have chars := Text.chars_append_ascii ascii rest
      rw [front.1, ← List.singleton_append, chars]
      intro c first
      cases first
      decide

theorem ofInt_ascii (i : Int) : ∀ b ∈ Text.ofInt i, b < 0x80 := by
  have digit : ∀ b, Text.isDigitByte b = true → b < 0x80 :=
    Text.byte_forall (by decide +kernel)
  intro b member
  cases i with
  | ofNat n => exact digit b (Text.isDigitByte_of_mem_ofNat member)
  | negSucc n =>
      rcases List.mem_cons.mp member with rfl | inside
      · decide
      · exact digit b (Text.isDigitByte_of_mem_ofNat inside)

/-- No character of the line goes across the column of a problem, carriage
returns at the end of the line left out. -/
theorem chars_split_of_pointsInto {place : Place} {line : Text} {pos : Position}
    (points : place.PointsInto line pos) :
    let t := Text.dropTrailing Text.carriageReturn line
    t.chars = Text.chars (t.take (pos.column - 1).toNat) ++
      Text.chars (t.drop (pos.column - 1).toNat) := by
  obtain ⟨front, rest, rfl, rfl, either⟩ := points
  have column : ((place.offset front.length).column - 1).toNat =
      front.length := by
    simp [Place.offset]
  rw [column]
  -- The column may be among the carriage returns that are not shown; nothing
  -- follows it then.
  by_cases returns : ∀ b ∈ rest, b = Text.carriageReturn
  · have short := (Text.dropTrailing_prefix Text.carriageReturn front).length_le
    dsimp only
    rw [Text.dropTrailing_append_of_all returns, List.take_of_length_le short,
      List.drop_of_length_le short]
    exact (List.append_nil _).symm
  · have closed := either.resolve_right returns
    push Not at returns
    obtain ⟨b, member, other⟩ := returns
    obtain ⟨inner, later, rfl⟩ := List.append_of_mem member
    dsimp only
    rw [← List.append_assoc, Text.dropTrailing_append_cons other,
      List.append_assoc, List.take_left, List.drop_left]
    exact closed _

/-- The rows of an excerpt without colours. -/
def plainBlock (p : Problem) (h : Highlight) : Block where
  title := Text.ofString "error: " ++ p.cause.message
  place := margin p ++ Text.ofString "--> " ++ p.pos.text
  frame := margin p ++ Text.ofString " |"
  lead := Text.space :: Text.ofInt p.pos.line ++ Text.ofString " | "
  line := h
  carets := margin p ++ Text.ofString " | " ++
    List.replicate h.before.chars.length Text.space ++
    List.replicate (max h.focus.chars.length 1) 94 ++
    Text.dropTrailing Text.space (Text.space :: p.detail)

theorem plainBlock_text (p : Problem) (h : Highlight) :
    (plainBlock p h).text =
      Text.join [Text.newline] (headRows ⟨false⟩ p ++
        excerptRows ⟨false⟩ p h) := by
  have plain (before after : String) (t : Text) :
      Style.wrap ⟨false⟩ before after t = t := rfl
  have arrow : Text.ofString "--> " = Text.ofString "-->" ++ [Text.space] := by
    decide
  have bar : Text.ofString " | " = Text.space :: Text.ofString "|" ++
      [Text.space] := by decide
  have title : Text.ofString "error: " = Text.ofString "error" ++
      Text.ofString ": " := by decide
  have last : List.replicate (max h.focus.chars.length 1) (94 : UInt8) =
      List.replicate (max h.focus.chars.length 1 - 1) 94 ++ [94] := by
    rw [← List.replicate_succ']
    congr 1
    omega
  have row : (plainBlock p h).carets = Text.dropTrailing Text.space
      (margin p ++ Text.ofString " | " ++
        List.replicate h.before.chars.length Text.space ++
        List.replicate (max h.focus.chars.length 1) 94 ++ Text.space ::
          p.detail) := by
    rw [plainBlock, last, ← List.append_assoc, List.append_assoc _ [94],
      List.append_assoc _ [94], List.singleton_append, List.singleton_append,
      Text.dropTrailing_append_cons (by decide)]
  rw [Block.text, row]
  simp [plainBlock, Block.sourceRow, headRows, excerptRows, margin,
    Style.blue, Style.red, Style.header, Style.boldRed, plain,
    arrow, bar, title]

theorem ofString_bar :
    Text.ofString " | " = [Text.space, 124, Text.space] := by decide

theorem plainBlock_lead_ascii (p : Problem) (h : Highlight) :
    ∀ b ∈ (plainBlock p h).lead, b < 0x80 := by
  rw [plainBlock, ofString_bar, List.forall_mem_append, List.forall_mem_cons]
  refine ⟨⟨by decide, ofInt_ascii _⟩, ?_⟩
  simp only [List.forall_mem_cons]
  exact ⟨by decide, by decide, by decide, List.forall_mem_nil _⟩

theorem plainBlock_carets (p : Problem) (h : Highlight) :
    caretOffset (plainBlock p h).carets =
      ((plainBlock p h).lead ++ h.before).chars.length ∧
      caretCount (plainBlock p h).carets = max 1 h.focus.chars.length := by
  have bars : ∀ b ∈ margin p ++ Text.ofString " | " ++
      List.replicate h.before.chars.length Text.space,
      b = Text.space ∨ b = 124 := by
    have bar : ∀ b ∈ Text.ofString " | ", b = Text.space ∨ b = 124 := by
      rw [ofString_bar]
      simp
    intro b member
    rw [margin, List.mem_append, List.mem_append,
      ← List.replicate_succ] at member
    rcases member with (left | inside) | right
    · exact .inl (List.eq_of_mem_replicate left)
    · exact bar b inside
    · exact .inl (List.eq_of_mem_replicate right)
  obtain ⟨offset, count⟩ :=
    caretRow_spec bars (dropTrailing_space_chars p.detail)
    (n := max h.focus.chars.length 1) (by omega)
  rw [Text.chars_append_ascii (plainBlock_lead_ascii p h)]
  refine ⟨offset.trans ?_, count.trans (Nat.max_comm _ _)⟩
  simp only [plainBlock, margin, List.length_append, List.length_replicate,
    List.length_map, List.length_cons]

/-- The characters of the source row are those of its parts. -/
theorem plainBlock_sourceRow_chars {p : Problem} {h : Highlight}
    (token : IsToken h.focus h.after)
    (seam : (h.before ++ (h.focus ++ h.after)).chars =
      h.before.chars ++ (h.focus ++ h.after).chars) :
    (plainBlock p h).sourceRow.chars =
      ((plainBlock p h).lead ++ h.before).chars ++ h.focus.chars ++
        h.after.chars := by
  have ascii := plainBlock_lead_ascii p h
  calc (plainBlock p h).sourceRow.chars
    _ = ((plainBlock p h).lead ++
      (h.before ++ (h.focus ++ h.after))).chars := by
        simp only [Block.sourceRow, List.append_assoc]
        rfl
    _ = ((plainBlock p h).lead ++ h.before).chars ++
      (h.focus.chars ++ h.after.chars) := by
        rw [Text.chars_append_ascii ascii, Text.chars_append_ascii ascii, seam,
          token.chars_append, List.append_assoc]
    _ = ((plainBlock p h).lead ++ h.before).chars ++ h.focus.chars ++
      h.after.chars :=
        (List.append_assoc ..).symm

/-- The block for a problem of a source. -/
def block (source : Text) (p : Problem) : Block :=
  plainBlock p (shown p (source.lines[(p.pos.line - 1).toNat]?.getD []))

/-- A problem that points into a line is reported by its block, with the carets
below its token. -/
theorem block_spec {name source line : Text} {k : Nat} {p : Problem}
    (isLine : source.lines[k]? = some line)
    (points : (Place.mk name (k + 1)).PointsInto line p.pos) :
    problemReport ⟨false⟩ source.lines p = (block source p).text ∧
      (block source p).PointsAt source p := by
  have seam : ((shown p line).before ++
      ((shown p line).focus ++ (shown p line).after)).chars =
      (shown p line).before.chars ++
        ((shown p line).focus ++ (shown p line).after).chars := by
    rw [← List.append_assoc, shown, highlight_whole]
    simp only [highlight, List.take_append_drop]
    exact chars_split_of_pointsInto points
  obtain ⟨front, rest, -, pos, -⟩ := points
  have number : p.pos.line = k + 1 := by rw [pos]; rfl
  have column : p.pos.column = front.length + 1 := by rw [pos]; rfl
  have index : (p.pos.line - 1).toNat = k := by omega
  have isShown : source.lines[(p.pos.line - 1).toNat]? = some line := by
    rw [index, isLine]
  have token : IsToken (shown p line).focus (shown p line).after :=
    (focusLength_spec _).2
  obtain ⟨offset, count⟩ := plainBlock_carets p (shown p line)
  rw [block, isShown, Option.getD_some, plainBlock_text]
  refine ⟨problemReport_of_line (by omega) isShown, ?_⟩
  exact {
    title := rfl
    place := rfl
    lead := rfl
    line := ⟨by omega, by omega, line, isShown, highlight_whole _ _,
      List.length_take⟩
    token := token
    row := plainBlock_sourceRow_chars token seam
    offset := offset
    count := count }

/-- The problems that keep a source from being assembled point into its
lines. -/
theorem assemble_problem_pointsInto {name source : Text} {natives : NameTable}
    {found : List Problem}
    (failed : assemble name source natives = .error (.problems found))
    {p : Problem} (member : p ∈ found) :
    ∃ k line, source.lines[k]? = some line ∧
      (Place.mk name (k + 1)).PointsInto line p.pos := by
  cases result : read name source with
  | error fault =>
      rw [assemble, result] at failed
      cases failed
  | ok reading =>
      rw [assemble_of_read result] at failed
      apply problem_pointsInto result reading.program.layout.labels natives
        (reading.program.link reading.program.layout.labels natives).table
      simp only [List.mem_append]
      split_ifs at failed <;> cases failed <;> tauto

/-- Carets point at the reported column.

For every source that is not assembled because of problems, the report without
colours is a block for each problem, in order and with blank lines between them,
that shows the line of the source and has carets below the token at the column
of the problem.  And whatever the source, the positions and the style are, no
slice or lookup on the way to a report is out of range. -/
theorem carets_point_at_column :
    (∀ (name source : Text) (natives : NameTable) (found : List Problem),
      assemble name source natives = .error (.problems found) →
        ∃ blocks, failureReport ⟨false⟩ (some source) (.problems found) =
            Text.join [Text.newline, Text.newline] (blocks.map Block.text) ∧
          List.Forall₂ (Block.PointsAt source) found blocks) ∧
      ∀ (s : Style) (source : Option Text) (failure : Failure),
        failureReport? s source failure =
          some (failureReport s source failure) := by
  refine ⟨fun name source natives found failed => ?_, failureReport?_eq⟩
  have each : ∀ p ∈ found, problemReport ⟨false⟩ source.lines p =
      (block source p).text ∧ (block source p).PointsAt source p := by
    intro p member
    obtain ⟨k, line, isLine, points⟩ :=
      assemble_problem_pointsInto failed member
    exact block_spec isLine points
  refine ⟨found.map (block source), ?_, ?_⟩
  · rw [List.map_map]
    exact congrArg (Text.join [Text.newline, Text.newline])
      (List.map_congr_left fun p member => (each p member).1)
  · rw [List.forall₂_map_right_iff, List.forall₂_same]
    exact fun p member => (each p member).2

-- The source below is assembled by evaluation.
set_option maxRecDepth 4000

/-- A jump to nowhere on the tenth line, behind letters of two bytes. -/
def jumpBehindUmlauts : Text :=
  Text.ofString "\n\n\n\n\n\n\n\n\ngröße: jump wohin\r\n"

theorem carets_point_at_column_umlauts :
    ∃ found, assemble [] jumpBehindUmlauts .empty = .error (.problems found) ∧
      failureReport ⟨false⟩ (some jumpBehindUmlauts) (.problems found) =
        Text.ofString "error: undefined label
   --> 10:15
    |
 10 | größe: jump wohin
    |             ^^^^^ wohin" ∧
      (∃ blocks, failureReport ⟨false⟩ (some jumpBehindUmlauts)
        (.problems found) =
          Text.join [Text.newline, Text.newline] (blocks.map Block.text) ∧
        List.Forall₂ (Block.PointsAt jumpBehindUmlauts) found blocks) ∧
      failureReport? ⟨true⟩ none (.problems found) =
        some (failureReport ⟨true⟩ none (.problems found)) := by
  obtain ⟨found, failed, report⟩ : ∃ found,
      assemble [] jumpBehindUmlauts .empty = .error (.problems found) ∧
      found = [⟨⟨[], 10, 15⟩, .undefinedLabel, Text.ofString "wohin"⟩] :=
    ⟨_, rfl, by decide +kernel⟩
  subst report
  exact ⟨_, failed, by decide +kernel, carets_point_at_column.1 _ _ _ _ failed,
    carets_point_at_column.2 _ _ _⟩

end Report

end WordMachine
