import WordMachine.Proofs.Assembly.Positions
import WordMachine.Proofs.Text.Parts

/-!
# Positions point at tokens

Every position that the passes give out, be it of an item, of an operand or of a
problem, is where a token of its line begins.  The one exception is a string
that is left open: its problem stands at the end of the line.  In front of a
token there is nothing, white space or the colon of a label, so that no
character of the line goes across a position.
-/

namespace WordMachine.Assembly

/-! ## Tokens of a line -/

theorem StartsBlank.spanLength_pos {t : Text} (starts : StartsBlank t)
    (nonempty : t ≠ []) :
    0 < t.spanLength Text.isBlank := by
  cases t with
  | nil => exact absurd rfl nonempty
  | cons b rest =>
      obtain ⟨c, tail, later, rfl, first, -⟩ := Text.exists_first b rest
      rw [StartsBlank, Text.spanLength_cons _ first] at starts
      rw [Text.spanLength_cons _ first]
      cases blank : Text.isBlank c with
      | true =>
          rw [if_pos rfl]
          omega
      | false =>
          rw [blank, Bool.not_false, if_pos rfl] at starts
          omega

namespace Slice

variable {s token : Slice} {line front rest : Text}

/-- The slice is a part of the line, and no character in front of it goes on in
it. -/
def Begins (s : Slice) (line : Text) : Prop :=
  ∃ front rest, line = front ++ (s.text ++ rest) ∧
    s.offset = front.length ∧ front.Closed

/-- What stands in front of a slice is closed together with white space behind
it. -/
theorem closed_append_blank (blank : Blank)
    (closed : blank.text = [] → front.Closed) :
    (front ++ blank.text).Closed := by
  by_cases empty : blank.text = []
  · rw [empty, List.append_nil]
    exact closed empty
  · exact .append_of_allChars Text.isBlank_replacement
      blank.allBlank empty front

theorem Begins.trimStart (begins : s.Begins line) :
    s.trimStart.Begins line := by
  obtain ⟨front, rest, isLine, offset, closed⟩ := begins
  obtain ⟨blank, text, behind, -⟩ := s.exists_trimStart
  refine ⟨front ++ blank.text, rest, ?_, ?_,
    closed_append_blank blank fun _ => closed⟩
  · rw [isLine, text]
    simp only [List.append_assoc]
  · rw [behind, offset, List.length_append]

/-- The tokens of a slice begin where no character goes across, if the slice
does or if it begins with white space. -/
theorem begins_of_mem_tokens {count : Nat}
    (isLine : line = front ++ (s.text ++ rest))
    (offset : s.offset = front.length)
    (safe : front.Closed ∨ StartsBlank s.text)
    (member : token ∈ s.tokens count) : token.Begins line := by
  induction count generalizing s front rest with
  | zero => cases member
  | succ count ih =>
      cases tokens : s.tokens (count + 1) with
      | nil =>
          rw [tokens] at member
          cases member
      | cons first others =>
          obtain ⟨blank, later, text, place, length, ends, behind⟩ :=
            exists_of_tokens_cons tokens
          rw [tokens, List.mem_cons] at member
          have split : line = (front ++ blank.text) ++
              (first.text ++ (later ++ rest)) := by
            rw [isLine, text]
            simp only [List.append_assoc]
          rcases member with rfl | among
          · refine ⟨front ++ blank.text, later ++ rest, split, ?_,
              closed_append_blank blank ?_⟩
            · rw [place, offset, List.length_append]
            · intro empty
              refine safe.resolve_right fun starts => ?_
              -- a slice that begins with white space would have lost it to the
              -- blank
              have nonempty := List.length_pos_iff.mp
                (of_tokens_cons tokens).2.1
              have positive := starts.spanLength_pos nonempty
              rw [← length, empty] at positive
              exact absurd positive (Nat.lt_irrefl 0)
          · rw [behind] at among
            have later : line = (front ++ blank.text ++ first.text) ++
                ((Slice.mk later (first.offset + first.text.length)).text ++
                  rest) := by
              rw [split]
              simp only [List.append_assoc]
            exact ih later (by simp only [place, offset, List.length_append])
              (.inr ends) among

end Slice

/-! ## Positions of a statement -/

/-- The positions of what reading a statement yields, an item or a problem, are
as told. -/
structure Positioned (holds : Position → Prop)
    (result : Except Problem Item) : Prop where
  item : ∀ it, result = .ok it → ∀ pos ∈ it.positions, holds pos
  problem : ∀ problem, result = .error problem → holds problem.pos

namespace Positioned

variable {holds : Position → Prop} {p : Place} {s token : Slice}
  {others : List Slice}

theorem ok {it : Item} (positions : ∀ pos ∈ it.positions, holds pos) :
    Positioned holds (.ok it) where
  item := by
    intro other same
    cases same
    exact positions
  problem := by
    intro problem same
    cases same

theorem error {problem : Problem} (pos : holds problem.pos) :
    Positioned holds (.error problem) where
  item := by
    intro it same
    cases same
  problem := by
    intro other same
    cases same
    exact pos

theorem string (own : holds (p.offset s.offset)) :
    Positioned holds (p.string s) := by
  unfold Place.string
  dsimp only
  split
  next => exact ok (by simpa [Item.positions, Item.operand?] using own)
  next => exact error own

theorem data (begins : ∀ t ∈ token :: others, holds (p.offset t.offset)) :
    Positioned holds (p.data token others) := by
  have own := begins token List.mem_cons_self
  cases others with
  | cons extra more => exact error (begins extra (by simp))
  | nil =>
      rw [Place.data]
      cases number : p.numeral token with
      | ok value =>
          exact ok (by simpa [Item.positions, Item.operand?] using own)
      | error problem => exact error (by rwa [Place.pos_of_numeral number])

theorem instruction
    (begins : ∀ t ∈ token :: others, holds (p.offset t.offset)) :
    Positioned holds (p.instruction token others) := by
  have own := begins token List.mem_cons_self
  simp only [Place.instruction]
  split
  next => exact error own
  next =>
    cases others with
    | nil => exact ok (by simpa [Item.positions, Item.operand?] using own)
    | cons second more =>
        cases more with
        | cons extra most => exact error (begins extra (by simp))
        | nil =>
            have behind := begins second (by simp)
            rcases p.operand_cases second with
              ⟨o, read, pos⟩ | ⟨problem, failed, pos⟩
            · simp only [read]
              refine ok ?_
              simp only [Item.positions, Item.operand?, Option.map_some,
                Option.toList_some, List.forall_mem_cons, pos]
              exact ⟨own, behind, List.forall_mem_nil _⟩
            · simp only [failed]
              exact error (by rwa [pos])

/-- A statement has the position of its beginning or of one of its tokens. -/
theorem statement (own : holds (p.offset s.offset))
    (begins : ∀ t ∈ s.tokens 3, holds (p.offset t.offset)) :
    Positioned holds (p.statement s) := by
  unfold Place.statement
  split
  next => exact string own
  next =>
    split
    next => exact error own
    next token others tokens =>
      rw [tokens] at begins
      split
      next => exact data begins
      next => exact instruction begins

end Positioned

/-! ## Positions of a line -/

/-- The position is where a token of the line begins, or where nothing but
carriage returns is left of it. -/
def Place.PointsInto (p : Place) (line : Text) (pos : Position) : Prop :=
  ∃ front rest, line = front ++ rest ∧ pos = p.offset front.length ∧
    (front.Closed ∨ ∀ b ∈ rest, b = Text.carriageReturn)

/-- The positions of a reading, of its items and of its problem, are as told. -/
structure LineReading.Positioned (holds : Position → Prop)
    (reading : LineReading) : Prop where
  items : ∀ it ∈ reading.items, ∀ pos ∈ it.positions, holds pos
  problem : ∀ problem, reading.problem? = some problem → holds problem.pos

namespace LineReading.Positioned

variable {holds : Position → Prop} {items : List Item}

theorem of_items (positions : ∀ it ∈ items, ∀ pos ∈ it.positions, holds pos) :
    LineReading.Positioned holds ⟨items, none⟩ where
  items := positions
  problem := by
    intro problem found
    cases found

theorem of_problem {problem : Problem}
    (positions : ∀ it ∈ items, ∀ pos ∈ it.positions, holds pos)
    (pos : holds problem.pos) :
    LineReading.Positioned holds ⟨items, some problem⟩ where
  items := positions
  problem := by
    intro other found
    cases found
    exact pos

theorem ofStatement {result : Except Problem Item}
    (positions : ∀ it ∈ items, ∀ pos ∈ it.positions, holds pos)
    (positioned : Assembly.Positioned holds result) :
    LineReading.Positioned holds (.ofStatement items result) := by
  cases result with
  | ok it =>
      refine of_items ?_
      rw [List.forall_mem_append, List.forall_mem_singleton]
      exact ⟨positions, positioned.item it rfl⟩
  | error problem => exact of_problem positions (positioned.problem problem rfl)

theorem imp {weaker : Position → Prop} {reading : LineReading}
    (positioned : reading.Positioned holds)
    (implies : ∀ pos, holds pos → weaker pos) :
    reading.Positioned weaker where
  items it member pos inside :=
    implies pos (positioned.items it member pos inside)
  problem problem found := implies _ (positioned.problem problem found)

end LineReading.Positioned

section Line

variable {p : Place} {line : Text} {pos : Position}

theorem Slice.Begins.pointsInto {s : Slice} (begins : s.Begins line) :
    p.PointsInto line (p.offset s.offset) := by
  obtain ⟨front, rest, isLine, offset, closed⟩ := begins
  exact ⟨front, s.text ++ rest, isLine, by rw [offset], .inl closed⟩

theorem Slice.Begins.positioned_statement {s : Slice} (begins : s.Begins line) :
    Positioned (p.PointsInto line) (p.statement s) := by
  obtain ⟨front, rest, isLine, offset, closed⟩ := begins
  refine .statement (Slice.Begins.pointsInto ⟨front, rest, isLine,
    offset, closed⟩) ?_
  intro token member
  exact (Slice.begins_of_mem_tokens isLine offset (.inl closed)
    member).pointsInto

/-- What follows the colon of a label begins there. -/
theorem Slice.Begins.behind_label {s : Slice} {n : Nat} (begins : s.Begins line)
    (label : labelLength? s.text = some n) : (s.drop (n + 1)).Begins line := by
  obtain ⟨front, rest, isLine, offset, -⟩ := begins
  obtain ⟨name, later, text, rfl⟩ := exists_of_labelLength? label
  have behind : s.text.drop (name.length + 1) = later := by
    rw [text, ← List.singleton_append, ← List.append_assoc]
    exact List.drop_left' (by simp)
  refine ⟨front ++ name ++ [Text.colon], rest, ?_, ?_, .concat (by decide) _⟩
  · rw [Slice.drop, behind, isLine, text]
    simp only [List.append_assoc, List.cons_append, List.nil_append]
  · simp only [Slice.drop, offset, List.length_append, List.length_singleton]
    omega

theorem Slice.Begins.positioned_code {s : Slice} (begins : s.Begins line) :
    (p.code s).Positioned (p.PointsInto line) := by
  have own : p.PointsInto line (p.offset s.offset) := begins.pointsInto
  unfold Place.code
  split
  next => exact .of_items (List.forall_mem_nil _)
  next =>
    split
    next =>
      exact .ofStatement (List.forall_mem_nil _) begins.positioned_statement
    next n label =>
      dsimp only
      split
      next =>
        have declared : ∀ it ∈ [p.label s n], ∀ pos ∈ it.positions,
            p.PointsInto line pos := by
          simpa [Place.label, Item.positions, Item.operand?] using own
        split
        next => exact .of_items declared
        next =>
          have behind := (begins.behind_label label).trimStart
          exact .ofStatement declared behind.positioned_statement
      next => exact .of_problem (List.forall_mem_nil _) own

/-- All positions that reading a line yields point into it. -/
theorem readLine_positioned (p : Place) (line : Text) :
    (readLine p line).Positioned (p.PointsInto line) := by
  unfold readLine
  split
  next =>
    refine .of_problem (List.forall_mem_nil _) ⟨line, [], ?_, rfl,
      .inr (List.forall_mem_nil _)⟩
    rw [List.append_nil]
  next n _ =>
    have begins : (Slice.mk (line.take n) 0).Begins line :=
      ⟨[], line.drop n, (List.take_append_drop n line).symm, rfl, .nil⟩
    exact begins.trimStart.positioned_code

theorem Place.PointsInto.append_returns {ending : Text}
    (points : p.PointsInto line pos)
    (returns : ∀ b ∈ ending, b = Text.carriageReturn) :
    p.PointsInto (line ++ ending) pos := by
  obtain ⟨front, rest, rfl, offset, either⟩ := points
  refine ⟨front, rest ++ ending, List.append_assoc .., offset,
    either.imp_right fun last => ?_⟩
  exact List.forall_mem_append.mpr ⟨last, returns⟩

/-- The carriage return that reading drops is behind all positions. -/
theorem readLine_withoutReturn_positioned (p : Place) (line : Text) :
    (readLine p (withoutReturn line)).Positioned (p.PointsInto line) := by
  refine (readLine_positioned p (withoutReturn line)).imp fun pos points => ?_
  unfold withoutReturn at points
  split at points
  next last =>
    obtain ⟨front, rfl⟩ := List.getLast?_eq_some_iff.mp last
    rw [List.dropLast_concat] at points
    exact points.append_returns (by simp)
  next => exact points

end Line

/-! ## Positions of a source -/

section Source

variable {name source : Text} {reading : Reading}

theorem exists_line_of_mem_lineReadings {own : LineReading}
    (member : own ∈ lineReadings name source) :
    ∃ k line, source.lines[k]? = some line ∧
      own.Positioned ((Place.mk name (k + 1)).PointsInto line) := by
  obtain ⟨k, line, found, rfl⟩ := exists_of_mem_readingsFrom member
  refine ⟨k, line, (getElem?_sourceLines found).1, ?_⟩
  rw [Nat.add_comm 1]
  exact readLine_withoutReturn_positioned _ line

/-- Every problem that a pass reports on a source points into one of its
lines. -/
theorem problem_pointsInto (result : read name source = .ok reading)
    (labels natives table : NameTable) {problem : Problem}
    (member : problem ∈ reading.problems ++ (reading.program.layout.problems ++
      (reading.program.link labels natives).problems ++
      (reading.program.emit table).problems)) :
    ∃ k line, source.lines[k]? = some line ∧
      (Place.mk name (k + 1)).PointsInto line problem.pos := by
  rcases List.mem_append.mp member with ofReading | ofPass
  · rw [read_problems result] at ofReading
    obtain ⟨own, isReading, found⟩ :=
      List.mem_filterMap.mp (List.mem_of_mem_take ofReading)
    obtain ⟨k, line, isLine, positioned⟩ :=
      exists_line_of_mem_lineReadings isReading
    exact ⟨k, line, isLine, positioned.problem problem found⟩
  · obtain ⟨it, inside, position⟩ :=
      exists_position_of_problem result labels natives table ofPass
    obtain ⟨own, isReading, inReading⟩ :=
      List.mem_flatMap.mp ((read_items result).subset inside)
    obtain ⟨k, line, isLine, positioned⟩ :=
      exists_line_of_mem_lineReadings isReading
    exact ⟨k, line, isLine, positioned.items it inReading _ position⟩

end Source

end WordMachine.Assembly
