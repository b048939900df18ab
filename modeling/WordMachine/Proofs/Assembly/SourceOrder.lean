import WordMachine.Proofs.Assembly.Lines
import WordMachine.Proofs.Assembly.Passes

/-!
# Items and problems stand in source order

Lines are read one after the other, and a line yields a label at most and a
statement behind it.  So the positions of the items of a source strictly
increase, and only a label can have another item on its line.  The problems that
a pass reports inherit the order from the items.
-/

namespace WordMachine.Assembly

/-- Source order: by line, then by column. -/
def Position.Before (a b : Position) : Prop :=
  a.line < b.line ∨ a.line = b.line ∧ a.column < b.column

/-- One item stands before another; on the same line it is the label. -/
def Item.Precedes (a b : Item) : Prop :=
  a.pos.line < b.pos.line ∨
    a.pos.line = b.pos.line ∧ a.form = .label ∧ a.pos.column < b.pos.column

theorem Item.Precedes.before {a b : Item} (precedes : a.Precedes b) :
    a.pos.Before b.pos := by
  rcases precedes with earlier | ⟨same, -, left⟩
  · exact Or.inl earlier
  · exact Or.inr ⟨same, left⟩

/-- What holds of every item on the line with a number: it stands there with its
operand, and it is of a form that lines have. -/
structure Item.OnLine (line : Nat) (it : Item) : Prop where
  pos : it.pos.line = line
  operand : ∀ o, it.operand? = some o → o.pos.line = line
  literal : it.HasLiteral
  known : it.form ≠ .unknown

section Line

variable {p : Place} {s : Slice} {it : Item} {items : List Item}

theorem Place.Statement.onLine (statement : p.Statement s it) :
    it.OnLine p.line := by
  cases statement with
  | string encoded =>
      refine ⟨rfl, by simp [Item.operand?], ?_, by simp⟩
      intro literal form
      cases form
      exact ⟨_, encoded⟩
  | data value tokens =>
      exact ⟨rfl, by simp [Item.operand?], by simp [Item.HasLiteral], by simp⟩
  | instruction tokens operands =>
      refine ⟨rfl, ?_, by simp [Item.HasLiteral], by simp⟩
      intro o operand
      obtain ⟨offset, pos⟩ := operands o operand
      rw [pos]
      rfl

theorem Place.Statement.column_ge (statement : p.Statement s it) :
    (s.offset : Int) + 1 ≤ it.pos.column := by
  cases statement with
  | string encoded => exact Int.le_refl _
  | data value tokens | instruction tokens operands =>
      have later := (Slice.of_tokens_cons tokens).1
      simp only [Place.offset]
      omega

theorem Place.onLine_label (p : Place) (s : Slice) (n : Nat) :
    (p.label s n).OnLine p.line :=
  ⟨rfl, by simp [Place.label, Item.operand?],
    by simp [Place.label, Item.HasLiteral], by simp [Place.label]⟩

theorem Place.CodeItems.onLine (code : p.CodeItems s items) :
    ∀ it ∈ items, it.OnLine p.line := by
  intro it member
  cases code with
  | nothing => cases member
  | label n =>
      rw [List.mem_singleton.mp member]
      exact p.onLine_label s n
  | statement statement =>
      rw [List.mem_singleton.mp member]
      exact statement.onLine
  | labelled n statement =>
      rcases List.mem_cons.mp member with equal | later
      · exact equal ▸ p.onLine_label s n
      · rw [List.mem_singleton.mp later]
        exact statement.onLine

theorem Place.CodeItems.precedes (code : p.CodeItems s items) :
    items.Pairwise Item.Precedes := by
  cases code with
  | nothing => exact .nil
  | label n => exact List.pairwise_singleton _ _
  | statement statement => exact List.pairwise_singleton _ _
  | labelled n statement =>
      rw [List.pairwise_pair]
      right
      refine ⟨statement.onLine.pos.symm, rfl, ?_⟩
      have behind := statement.column_ge
      have trimmed := (s.drop (n + 1)).offset_le_trimStart
      simp only [Place.label, Place.offset, Slice.offset_drop]
        at behind trimmed ⊢
      omega

end Line

/-! ## Sources -/

/-- The items of lines numbered from `line` on are on those lines. -/
theorem readingsFrom_onLine {name : Text} {lines : List Text}
    {line : Nat} {it : Item}
    (member : it ∈ (readingsFrom name lines line).flatMap LineReading.items) :
    ∃ n, line ≤ n ∧ it.OnLine n := by
  induction lines generalizing line with
  | nil => simp [readingsFrom] at member
  | cons text rest ih =>
      rw [readingsFrom, List.flatMap_cons, List.mem_append] at member
      rcases member with own | later
      · obtain ⟨s, -, yields⟩ :=
          readLine_yields ⟨name, line⟩ (withoutReturn text)
        exact ⟨line, Nat.le_refl _, yields.items.onLine it own⟩
      · obtain ⟨n, le, onLine⟩ := ih later
        exact ⟨n, by omega, onLine⟩

theorem readingsFrom_precedes (name : Text) (lines : List Text) (line : Nat) :
    ((readingsFrom name lines line).flatMap LineReading.items).Pairwise
      Item.Precedes := by
  induction lines generalizing line with
  | nil => exact .nil
  | cons text rest ih =>
      obtain ⟨s, -, yields⟩ := readLine_yields ⟨name, line⟩ (withoutReturn text)
      rw [readingsFrom, List.flatMap_cons, List.pairwise_append]
      refine ⟨yields.items.precedes, ih (line + 1), ?_⟩
      intro first own second later
      have here : first.pos.line = line := (yields.items.onLine first own).pos
      obtain ⟨n, below, onLine⟩ := readingsFrom_onLine later
      have there := onLine.pos
      left
      omega

theorem sourceItems_precedes (name source : Text) :
    (sourceItems name source).Pairwise Item.Precedes :=
  readingsFrom_precedes name _ 1

theorem sourceItems_onLine {name source : Text} {it : Item}
    (member : it ∈ sourceItems name source) : ∃ n, it.OnLine n := by
  obtain ⟨n, -, onLine⟩ := readingsFrom_onLine member
  exact ⟨n, onLine⟩

/-! ## Problems -/

theorem readingsFrom_problem {name : Text} {lines : List Text} {line : Nat}
    {problem : Problem} (member : problem ∈
      (readingsFrom name lines line).filterMap LineReading.problem?) :
    (line : Int) ≤ problem.pos.line := by
  induction lines generalizing line with
  | nil => simp [readingsFrom] at member
  | cons text rest ih =>
      obtain ⟨s, -, yields⟩ := readLine_yields ⟨name, line⟩ (withoutReturn text)
      cases found : (readLine ⟨name, line⟩ (withoutReturn text)).problem? with
      | none =>
          rw [readingsFrom, List.filterMap_cons_none found] at member
          have later := ih member
          omega
      | some own =>
          rw [readingsFrom, List.filterMap_cons_some found,
            List.mem_cons] at member
          rcases member with equal | rest
          · obtain ⟨offset, pos⟩ := yields.problem own found
            rw [equal, pos]
            exact Int.le_refl _
          · have later := ih rest
            omega

/-- The problems of lines stand in source order. -/
theorem readingsFrom_problems_before (name : Text) (lines : List Text)
    (line : Nat) :
    ((readingsFrom name lines line).filterMap LineReading.problem?).Pairwise
      fun a b => a.pos.Before b.pos := by
  induction lines generalizing line with
  | nil => exact .nil
  | cons text rest ih =>
      obtain ⟨s, -, yields⟩ := readLine_yields ⟨name, line⟩ (withoutReturn text)
      cases found : (readLine ⟨name, line⟩ (withoutReturn text)).problem? with
      | none =>
          rw [readingsFrom, List.filterMap_cons_none found]
          exact ih (line + 1)
      | some own =>
          rw [readingsFrom, List.filterMap_cons_some found, List.pairwise_cons]
          refine ⟨?_, ih (line + 1)⟩
          intro other member
          obtain ⟨offset, pos⟩ := yields.problem own found
          have later := readingsFrom_problem member
          left
          rw [pos]
          simp only [Place.offset]
          omega

theorem pos_of_layoutOffence? {taken : List Text} {it : Item}
    {problem : Problem} (offence : layoutOffence? taken it = some problem) :
    problem.pos = it.pos := by
  cases form : it.form with
  | label | instruction | string =>
      simp only [layoutOffence?, form] at offence
      split at offence <;> cases offence
      rfl
  | data => simp [layoutOffence?, form] at offence
  | unknown =>
      simp only [layoutOffence?, form] at offence
      cases offence
      rfl

theorem exists_of_mem_layoutOffences {taken : List Text} {items : List Item}
    {problem : Problem} (member : problem ∈ layoutOffences taken items) :
    ∃ it ∈ items, problem.pos = it.pos := by
  induction items generalizing taken with
  | nil => cases member
  | cons it rest ih =>
      rw [layoutOffences, List.mem_append, Option.mem_toList] at member
      rcases member with own | later
      · exact ⟨it, by simp, pos_of_layoutOffence? own⟩
      · obtain ⟨other, inside, pos⟩ := ih later
        exact ⟨other, by simp [inside], pos⟩

theorem layoutOffences_before {items : List Item} (taken : List Text)
    (precedes : items.Pairwise Item.Precedes) :
    (layoutOffences taken items).Pairwise fun a b => a.pos.Before b.pos := by
  induction items generalizing taken with
  | nil => exact .nil
  | cons it rest ih =>
      rw [List.pairwise_cons] at precedes
      rw [layoutOffences, List.pairwise_append]
      refine ⟨?_, ih _ precedes.2, ?_⟩
      · cases layoutOffence? taken it <;> simp
      · intro first own second later
        rw [Option.mem_toList] at own
        obtain ⟨other, inside, pos⟩ := exists_of_mem_layoutOffences later
        rw [pos_of_layoutOffence? own, pos]
        exact (precedes.1 other inside).before

theorem pos_of_linkOffence? {natives : NameTable} {it : Item}
    {problem : Problem} (offence : linkOffence? natives it = some problem) :
    problem.pos = it.pos := by
  unfold linkOffence? at offence
  split at offence
  · split at offence <;> cases offence
    rfl
  · cases offence

theorem linkOffences_before {items : List Item} (natives : NameTable)
    (precedes : items.Pairwise Item.Precedes) :
    (items.filterMap (linkOffence? natives)).Pairwise fun a b =>
      a.pos.Before b.pos := by
  rw [List.pairwise_filterMap]
  refine precedes.imp ?_
  intro first second before problem own other later
  rw [pos_of_linkOffence? own, pos_of_linkOffence? later]
  exact before.before

/-- A problem of emission is on the line of an item that is no label. -/
theorem line_of_emitOffence? {defined : Text → Bool} {it : Item} {n : Nat}
    {problem : Problem} (onLine : it.OnLine n)
    (offence : emitOffence? defined it = some problem) :
    it.form ≠ .label ∧ problem.pos.line = n := by
  cases form : it.form with
  | label | data | unknown => simp [emitOffence?, form] at offence
  | string literal =>
      obtain ⟨words, encoded⟩ := onLine.literal literal form
      simp [emitOffence?, form, encoded] at offence
  | instruction operand =>
      refine ⟨by simp, ?_⟩
      have operandLine : ∀ o, operand = some o → o.pos.line = n := by
        intro o equal
        exact onLine.operand o (by simp [Item.operand?, form, equal])
      simp only [emitOffence?, form] at offence
      split at offence
      next =>
          cases offence
          exact onLine.pos
      next op found =>
          split at offence
          next => cases offence
          next o _ =>
              cases offence
              exact operandLine o rfl
          next =>
              cases offence
              exact onLine.pos
          next o _ =>
              split at offence
              next => cases offence
              next target named =>
                  split at offence
                  · cases offence
                  · cases offence
                    exact operandLine o rfl

theorem emitOffences_before {items : List Item} (defined : Text → Bool)
    (precedes : items.Pairwise Item.Precedes)
    (onLine : ∀ it ∈ items, ∃ n, it.OnLine n) :
    (items.filterMap (emitOffence? defined)).Pairwise fun a b =>
      a.pos.Before b.pos := by
  rw [List.pairwise_filterMap]
  refine precedes.imp_of_mem ?_
  intro first second firstMember secondMember before problem own other later
  obtain ⟨n, firstLine⟩ := onLine first firstMember
  obtain ⟨k, secondLine⟩ := onLine second secondMember
  obtain ⟨notLabel, here⟩ := line_of_emitOffence? firstLine own
  obtain ⟨-, there⟩ := line_of_emitOffence? secondLine later
  left
  rw [here, there, ← firstLine.pos, ← secondLine.pos]
  rcases before with earlier | ⟨-, label, -⟩
  · exact earlier
  · exact absurd label notLabel

end WordMachine.Assembly
