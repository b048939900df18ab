import WordMachine.Proofs.Assembly.Positions

/-!
# How many problems a pass reports

Layout and linking report the first ten offences and no more.  Emission does so
too, with one exception: a malformed string does not end it, so if the tenth
offence is one, the pass goes on with a full report, and an instruction that
offends next is reported as an eleventh problem.  A program that was read from a
source has no malformed strings.
-/

namespace WordMachine.Assembly

/-- Whether an item is a string whose literal stands for no words. -/
def Item.isMalformed (it : Item) : Bool :=
  match it.form with
  | .string literal => (StringLiteral.encode literal).isOk == false
  | _ => false

/-- The problem that emission reports after its report is full: that of the
first item which is no malformed string, if it offends. -/
def sequel? (table : NameTable) (items : List Item) : Option Problem :=
  (items.find? fun it => !it.isMalformed).bind (emitOffence? table.contains)

/-- The item with the last of `left` offences is a malformed string, and the
given problem comes after it. -/
def Overflows (table : NameTable) (left : Nat) (items : List Item)
    (problem : Problem) : Prop :=
  ∃ front last rest, items = front ++ last :: rest ∧
    (front.filterMap (emitOffence? table.contains)).length + 1 = left ∧
    last.isMalformed = true ∧ sequel? table rest = some problem

variable {table : NameTable} {it : Item} {rest : List Item}
  {found : List Problem} {problem : Problem} {left : Nat}

/-! ## Malformed strings -/

theorem exists_of_isMalformed (malformed : it.isMalformed = true) :
    ∃ literal fault, it.form = .string literal ∧
      StringLiteral.encode literal = .error fault := by
  unfold Item.isMalformed at malformed
  split at malformed
  next literal form =>
    cases encoded : StringLiteral.encode literal with
    | ok words => simp [encoded, Except.isOk, Except.toBool] at malformed
    | error fault => exact ⟨literal, fault, form, encoded⟩
  next => cases malformed

theorem isMalformed_eq_false (literal : it.HasLiteral) :
    it.isMalformed = false := by
  apply Bool.eq_false_iff.mpr
  intro malformed
  obtain ⟨text, fault, form, failed⟩ := exists_of_isMalformed malformed
  obtain ⟨words, encoded⟩ := literal text form
  rw [failed] at encoded
  cases encoded

theorem offence_of_isMalformed (table : NameTable)
    (malformed : it.isMalformed = true) :
    ∃ problem, emitOffence? table.contains it = some problem := by
  obtain ⟨literal, fault, form, failed⟩ := exists_of_isMalformed malformed
  exact ⟨⟨it.pos, .malformedSource, fault.message⟩,
    by simp [emitOffence?, form, failed]⟩

/-- A malformed string is reported while there is room, and never ends the
pass. -/
theorem emitFrom_cons_of_malformed (malformed : it.isMalformed = true)
    (offence : emitOffence? table.contains it = some problem)
    (code : Array Word) :
    emitFrom table (it :: rest) code found =
      emitFrom table rest code
        (if isFull found then found else problem :: found) := by
  obtain ⟨literal, fault, form, -⟩ := exists_of_isMalformed malformed
  simp only [emitFrom, encode_of_offence offence, form]

/-- Any other offending item is reported, and ends the pass if it fills the
report. -/
theorem emitFrom_cons_of_offence (wellFormed : it.isMalformed = false)
    (offence : emitOffence? table.contains it = some problem)
    (code : Array Word) :
    emitFrom table (it :: rest) code found =
      if isFull (problem :: found) then ⟨code, (problem :: found).reverse⟩
      else emitFrom table rest code (problem :: found) := by
  have encoded := encode_of_offence offence
  cases form : it.form with
  | string literal =>
      cases result : StringLiteral.encode literal with
      | ok words => simp [emitOffence?, form, result] at offence
      | error fault =>
          simp [Item.isMalformed, form, result, Except.isOk,
            Except.toBool] at wellFormed
  | label | instruction | data | unknown => simp only [emitFrom, encoded, form]

/-! ## Full reports -/

/-- A pass with a full report adds at most one problem. -/
theorem emitFrom_full (full : isFull found = true) (items : List Item)
    (code : Array Word) :
    (emitFrom table items code found).problems = found.reverse ++
      (sequel? table items).toList := by
  induction items with
  | nil => simp [emitFrom, sequel?]
  | cons it rest ih =>
      cases malformed : it.isMalformed with
      | true =>
          obtain ⟨problem, offence⟩ := offence_of_isMalformed table malformed
          rw [emitFrom_cons_of_malformed malformed offence, if_pos full, ih]
          simp [sequel?, malformed]
      | false =>
          cases offence : emitOffence? table.contains it with
          | none =>
              simp [emitFrom, encode_of_clean offence, full, sequel?,
                malformed, offence]
          | some problem =>
              have fuller : isFull (problem :: found) = true := by
                rw [isFull_iff] at full ⊢
                exact Nat.le_succ_of_le full
              rw [emitFrom_cons_of_offence malformed offence, if_pos fuller]
              simp [sequel?, malformed, offence]

/-! ## Overflowing reports -/

theorem overflows_cons_of_clean
    (clean : emitOffence? table.contains it = none) :
    Overflows table left (it :: rest) problem ↔
      Overflows table left rest problem := by
  constructor
  · rintro ⟨front, last, others, split, count, malformed, sequel⟩
    cases front with
    | nil =>
        obtain ⟨rfl, rfl⟩ := List.cons.inj split
        obtain ⟨own, offence⟩ := offence_of_isMalformed table malformed
        rw [clean] at offence
        cases offence
    | cons first front =>
        obtain ⟨rfl, rfl⟩ := List.cons.inj split
        rw [List.filterMap_cons_none clean] at count
        exact ⟨front, last, others, rfl, count, malformed, sequel⟩
  · rintro ⟨front, last, others, rfl, count, malformed, sequel⟩
    refine ⟨it :: front, last, others, rfl, ?_, malformed, sequel⟩
    rw [List.filterMap_cons_none clean]
    exact count

theorem overflows_cons_of_offence {own : Problem}
    (offence : emitOffence? table.contains it = some own) :
    Overflows table (left + 1) (it :: rest) problem ↔
      left = 0 ∧ it.isMalformed = true ∧ sequel? table rest = some problem ∨
        Overflows table left rest problem := by
  constructor
  · rintro ⟨front, last, others, split, count, malformed, sequel⟩
    cases front with
    | nil =>
        obtain ⟨rfl, rfl⟩ := List.cons.inj split
        exact .inl ⟨(Nat.succ.inj count).symm, malformed, sequel⟩
    | cons first front =>
        obtain ⟨rfl, rfl⟩ := List.cons.inj split
        rw [List.filterMap_cons_some offence, List.length_cons] at count
        exact .inr ⟨front, last, others, rfl, Nat.succ.inj count,
          malformed, sequel⟩
  · rintro (⟨rfl, malformed, sequel⟩ |
      ⟨front, last, others, rfl, count, malformed, sequel⟩)
    · exact ⟨[], it, rest, rfl, rfl, malformed, sequel⟩
    · refine ⟨it :: front, last, others, rfl, ?_, malformed, sequel⟩
      rw [List.filterMap_cons_some offence, List.length_cons, count]

theorem not_overflows_zero (items : List Item) :
    ¬ Overflows table 0 items problem := by
  rintro ⟨front, last, others, -, count, -⟩
  cases count

/-- Emission reports the first offences up to its limit, and behind them a
problem with which it overflows, if there is one. -/
theorem emitFrom_overflows (items : List Item) (code : Array Word)
    (positive : 0 < left) (room : found.length + left = maxProblems) :
    ∃ more : Option Problem,
      (emitFrom table items code found).problems =
        (found.reverse ++ items.filterMap (emitOffence? table.contains)).take
          maxProblems ++ more.toList ∧
      ∀ problem, more = some problem ↔ Overflows table left items problem := by
  induction items generalizing code found left with
  | nil =>
      refine ⟨none, ?_, ?_⟩
      · rw [List.filterMap_nil, take_found (by omega), Option.toList_none,
          List.append_nil]
        rfl
      · intro problem
        constructor
        · intro more
          cases more
        · rintro ⟨front, last, others, split, -⟩
          cases front <;> cases split
  | cons it rest ih =>
      cases offence : emitOffence? table.contains it with
      | none =>
          obtain ⟨more, reported, overflows⟩ :=
            ih (code ++ it.words table) positive room
          refine ⟨more, ?_, ?_⟩
          · rw [emitFrom_cons_of_clean offence (by omega), reported,
              List.filterMap_cons_none offence]
          · intro problem
            rw [overflows, overflows_cons_of_clean offence]
      | some own =>
          have notFull : isFull found = false := by
            rw [← Bool.not_eq_true, isFull_iff]
            omega
          have shifted : found.reverse ++ own ::
              rest.filterMap (emitOffence? table.contains) =
              (own :: found).reverse ++
                rest.filterMap (emitOffence? table.contains) := by
            simp
          obtain ⟨left, rfl⟩ :=
            Nat.exists_eq_add_one_of_ne_zero (Nat.ne_of_gt positive)
          rw [List.filterMap_cons_some offence, shifted]
          simp only [overflows_cons_of_offence offence]
          rcases Nat.eq_zero_or_pos left with rfl | more
          · -- the offence fills the report
            have length : (own :: found).reverse.length = maxProblems := by
              rw [List.length_reverse, List.length_cons, room]
            have full : isFull (own :: found) = true :=
              isFull_iff.mpr (by rw [List.length_cons]; omega)
            rw [← length, List.take_left]
            simp only [not_overflows_zero, or_false, true_and]
            cases malformed : it.isMalformed with
            | true =>
                refine ⟨sequel? table rest, ?_,
                  fun problem => by rw [eq_self, true_and]⟩
                rw [emitFrom_cons_of_malformed malformed offence, notFull,
                  if_neg Bool.false_ne_true, emitFrom_full full]
            | false =>
                refine ⟨none, ?_, fun problem => by simp⟩
                rw [emitFrom_cons_of_offence malformed offence, if_pos full,
                  Option.toList_none, List.append_nil]
          · -- there is room for more
            have notFuller : isFull (own :: found) = false := by
              rw [← Bool.not_eq_true, isFull_iff, List.length_cons]
              omega
            have goesOn : emitFrom table (it :: rest) code found =
                emitFrom table rest code (own :: found) := by
              cases malformed : it.isMalformed with
              | true =>
                  rw [emitFrom_cons_of_malformed malformed offence, notFull,
                    if_neg Bool.false_ne_true]
              | false =>
                  rw [emitFrom_cons_of_offence malformed offence, notFuller,
                    if_neg Bool.false_ne_true]
            rw [goesOn]
            simp only [Nat.ne_of_gt more, false_and, false_or]
            exact ih code more (by rw [List.length_cons]; omega)

theorem emit_overflows (p : Program) (table : NameTable) :
    ∃ more : Option Problem,
      (p.emit table).problems =
        (p.items.filterMap (emitOffence? table.contains)).take maxProblems ++
          more.toList ∧
      ∀ problem, more = some problem ↔
        Overflows table maxProblems p.items problem :=
  emitFrom_overflows p.items #[] (by decide) rfl

/-! ## Programs -/

/-- A report that overflows is full. -/
theorem Overflows.le_offences {items : List Item}
    (overflows : Overflows table left items problem) :
    left ≤ (items.filterMap (emitOffence? table.contains)).length := by
  obtain ⟨front, last, others, rfl, count, malformed, -⟩ := overflows
  obtain ⟨own, offence⟩ := offence_of_isMalformed table malformed
  rw [List.filterMap_append, List.filterMap_cons_some offence,
    List.length_append, List.length_cons]
  omega

theorem length_emit_le_iff (p : Program) (table : NameTable) :
    (p.emit table).problems.length ≤ maxProblems ↔
      ∀ problem, ¬ Overflows table maxProblems p.items problem := by
  obtain ⟨more, reported, overflows⟩ := emit_overflows p table
  rw [reported, List.length_append, List.length_take]
  cases more with
  | none =>
      have never : ∀ problem,
          ¬ Overflows table maxProblems p.items problem := by
        intro problem overflow
        cases (overflows problem).mpr overflow
      exact iff_of_true (Nat.min_le_left _ _) never
  | some problem =>
      have overflow := (overflows problem).mp rfl
      have full := overflow.le_offences
      rw [Nat.min_eq_left full]
      constructor
      · intro short
        exact absurd short (Nat.not_succ_le_self maxProblems)
      · intro never
        exact absurd overflow (never problem)

/-- Without malformed strings nothing overflows. -/
theorem not_overflows {items : List Item}
    (literals : ∀ it ∈ items, it.HasLiteral) :
    ¬ Overflows table left items problem := by
  rintro ⟨front, last, others, rfl, -, malformed, -⟩
  have wellFormed := isMalformed_eq_false (literals last (by simp))
  rw [malformed] at wellFormed
  cases wellFormed

theorem hasLiteral_of_read {name source : Text} {reading : Reading}
    (result : read name source = .ok reading) :
    ∀ it ∈ reading.program.items, it.HasLiteral := by
  intro it member
  obtain ⟨n, onLine⟩ := sourceItems_onLine ((read_items result).subset member)
  exact onLine.literal

/-- A list of problems makes a pass fail exactly if there is one. -/
theorem checkProblems_error {problems : List Problem} {failure : Failure}
    (failed : checkProblems problems = .error failure) :
    failure = .problems problems ∧ 1 ≤ problems.length := by
  cases problems with
  | nil => cases failed
  | cons first rest =>
      cases failed
      exact ⟨rfl, Nat.succ_pos _⟩

/-- The failures of the passes over any program hold at least one problem.
Layout and linking report no more than ten of them, and so does emission, unless
it overflows: then it reports the first ten offences and the problem that comes
after them.  Emission of a program that was read from a source does not
overflow. -/
theorem report_lengths (p : Program) (labels natives table : NameTable) :
    (∀ problems ∈ [p.layout.problems, (p.link labels natives).problems,
        (p.emit table).problems],
      ∀ failure, checkProblems problems = .error failure →
        ∃ found, failure = .problems found ∧ 1 ≤ found.length) ∧
    p.layout.problems.length ≤ maxProblems ∧
    (p.link labels natives).problems.length ≤ maxProblems ∧
    ((p.emit table).problems.length ≤ maxProblems ↔
      ∀ problem, ¬ Overflows table maxProblems p.items problem) ∧
    (∀ problem, Overflows table maxProblems p.items problem →
      (p.emit table).problems =
        (p.items.filterMap (emitOffence? table.contains)).take maxProblems ++
          [problem] ∧
      (p.emit table).problems.length = maxProblems + 1) ∧
    ∀ name source reading, read name source = .ok reading →
      reading.program = p → (p.emit table).problems.length ≤ maxProblems := by
  refine ⟨?_, ?_, ?_, length_emit_le_iff p table, ?_, ?_⟩
  · intro problems _ failure failed
    exact ⟨problems, checkProblems_error failed⟩
  · rw [layout_problems]
    exact List.length_take_le _ _
  · rw [link_problems]
    exact List.length_take_le _ _
  · intro problem overflow
    obtain ⟨more, reported, overflows⟩ := emit_overflows p table
    rw [(overflows problem).mpr overflow] at reported
    refine ⟨reported, ?_⟩
    rw [reported, List.length_append, List.length_take,
      Nat.min_eq_left overflow.le_offences]
    rfl
  · rintro name source reading result rfl
    rw [length_emit_le_iff]
    intro problem
    exact not_overflows (hasLiteral_of_read result)

/-- A string without quotes, as the item with the given number. -/
def unquoted (number : Nat) : Item :=
  { pos := ⟨Text.ofString "items", number, 1⟩,
    form := .string (Text.ofString "a") }

/-- Ten malformed strings and an instruction that does not exist. -/
def elevenOffences : Program where
  name := []
  items := (List.range' 1 10).map unquoted ++
    [{ pos := ⟨Text.ofString "items", 11, 1⟩, name := Text.ofString "frob",
       form := .instruction none }]

theorem report_lengths_elevenOffences :
    Overflows .empty maxProblems elevenOffences.items
        ⟨⟨Text.ofString "items", 11, 1⟩, .unknownMnemonic,
          Text.ofString "frob"⟩ ∧
      (elevenOffences.emit .empty).problems.length = 11 ∧
      elevenOffences.layout.problems.length ≤ 10 ∧
      ∃ reading, read [] (Text.ofString "frob\n\"a\"") = .ok reading ∧
        (reading.program.emit .empty).problems.length ≤ 10 := by
  have overflows : Overflows .empty maxProblems elevenOffences.items
      ⟨⟨Text.ofString "items", 11, 1⟩, .unknownMnemonic,
        Text.ofString "frob"⟩ := by
    refine ⟨(List.range' 1 9).map unquoted, unquoted 10,
      elevenOffences.items.drop 10, ?_, ?_, ?_, ?_⟩
    all_goals decide +kernel
  obtain ⟨-, laidOut, -, -, overflow, -⟩ :=
    report_lengths elevenOffences .empty .empty .empty
  have readable : ∃ reading, read [] (Text.ofString "frob\n\"a\"") =
      .ok reading := ⟨_, rfl⟩
  obtain ⟨reading, result⟩ := readable
  obtain ⟨-, -, -, -, -, short⟩ :=
    report_lengths reading.program .empty .empty .empty
  exact ⟨overflows, (overflow _ overflows).2, laidOut, reading, result,
    short _ _ _ result rfl⟩

/-- Emission can report an eleventh problem. -/
theorem eleventh_problem_reported :
    ¬ ∀ (p : Program) (table : NameTable),
      (p.emit table).problems.length ≤ 10 := by
  intro atMost
  have eleven : (elevenOffences.emit .empty).problems.length = 11 := by
    decide +kernel
  have ten := atMost elevenOffences .empty
  omega

end WordMachine.Assembly
