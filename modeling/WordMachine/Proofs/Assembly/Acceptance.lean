import WordMachine.Proofs.Assembly.Addresses
import WordMachine.Proofs.Assembly.SourceOrder

/-!
# Which sources are assembled

A source is assembled exactly if it is well formed, which is said here without
the passes.  A source that is not well formed has an offence in some pass, and
the assembler reports the first ten offences of the first such pass, in source
order.
-/

namespace WordMachine.Assembly

/-- A source that has to be assembled. -/
structure WellFormed (name source : Text) (natives : NameTable) : Prop where
  /-- Every line can be read. -/
  lines : ∀ reading ∈ lineReadings name source, reading.problem? = none
  /-- No label is declared twice. -/
  distinct : (declared (sourceItems name source)).Nodup
  /-- No label has the name of a native function. -/
  unshadowed : ∀ label ∈ declared (sourceItems name source),
  natives.contains label = false
  /-- Every mnemonic is one of the instruction set. -/
  mnemonics : ∀ it ∈ sourceItems name source, ∀ operand,
  it.form = .instruction operand →
    ∃ op, Opcode.ofName? it.name = some op
  /-- An instruction has an operand if and only if its opcode takes one. -/
  operands : ∀ it ∈ sourceItems name source, ∀ operand op,
  it.form = .instruction operand →
    Opcode.ofName? it.name = some op → (operand.isSome ↔ op.info.immediate)
  /-- An operand that is a name is a label of the program or a native
  function. -/
  names : ∀ it ∈ sourceItems name source, ∀ o target, it.operand? = some o →
    o.value = .name target →
    target ∈ declared (sourceItems name source) ∨ natives.contains target

/-- The passes of the assembler, in order. -/
inductive Pass where
  | reading | layout | linking | emission
  deriving DecidableEq, Repr

/-- Whether operands of a source may use a name. -/
def isDefined (name source : Text) (natives : NameTable)
    (target : Text) : Bool :=
  (declared (sourceItems name source)).contains target ||
    natives.contains target

/-- All problems of a source in a pass, one for each offending line or item. -/
def offences (name source : Text) (natives : NameTable) : Pass → List Problem
  | .reading => (lineReadings name source).filterMap LineReading.problem?
  | .layout => layoutOffences [] (sourceItems name source)
  | .linking => (sourceItems name source).filterMap (linkOffence? natives)
  | .emission =>
    (sourceItems name source).filterMap
      (emitOffence? (isDefined name source natives))

/-! ## Well-formedness, pass by pass -/

theorem linkOffence?_eq_none {natives : NameTable} {it : Item} :
    linkOffence? natives it = none ↔
      ∀ name, it.label? = some name → natives.contains name = false := by
  cases form : it.form with
  | label =>
      simp only [linkOffence?, form, Item.label?, Option.some.injEq, forall_eq']
      cases natives.contains it.name <;> simp
  | instruction | data | string | unknown =>
      simp [linkOffence?, form, Item.label?]

theorem layoutOffence?_eq_none {taken : List Text} {it : Item} {n : Nat}
    (onLine : it.OnLine n) :
    layoutOffence? taken it = none ↔
      (∀ name, it.label? = some name → name ∉ taken) ∧
        ∀ operand, it.form = .instruction operand → ∃ op,
          Opcode.ofName? it.name = some op := by
  cases form : it.form with
  | label => simp [layoutOffence?, form, Item.label?]
  | instruction operand =>
      cases opcode : Opcode.ofName? it.name <;>
        simp [layoutOffence?, form, opcode, Item.label?]
  | data value => simp [layoutOffence?, form, Item.label?]
  | string literal =>
      obtain ⟨words, encoded⟩ := onLine.literal literal form
      simp [layoutOffence?, form, encoded, Item.label?]
  | unknown => exact absurd form onLine.known

theorem layoutOffences_eq_nil {items : List Item} (taken : List Text)
    (onLine : ∀ it ∈ items, ∃ n, it.OnLine n) :
    layoutOffences taken items = [] ↔
      ((∀ name ∈ declared items, name ∉ taken) ∧ (declared items).Nodup) ∧
        ∀ it ∈ items, ∀ operand, it.form = .instruction operand →
          ∃ op, Opcode.ofName? it.name = some op := by
  induction items generalizing taken with
  | nil => simp [layoutOffences]
  | cons it rest ih =>
      obtain ⟨n, head⟩ := onLine it (by simp)
      rw [layoutOffences, List.append_eq_nil_iff, Option.toList_eq_nil_iff,
        layoutOffence?_eq_none head,
        ih _ fun other member => onLine other (by simp [member])]
      rw [declared_cons, List.forall_mem_cons]
      cases label : it.label? with
      | none =>
          simp only [Option.toList_none, List.nil_append]
          grind
      | some name =>
          simp only [Option.toList_some, List.singleton_append, List.nodup_cons,
            List.mem_cons, not_or]
          grind

theorem emitOffence?_eq_none {defined : Text → Bool} {it : Item} {n : Nat}
    (onLine : it.OnLine n) :
    emitOffence? defined it = none ↔
      ∀ operand, it.form = .instruction operand →
        ∃ op, Opcode.ofName? it.name = some op ∧
          (operand.isSome ↔ op.info.immediate) ∧
          ∀ o, operand = some o → ∀ target, o.value = .name target →
            defined target = true := by
  cases form : it.form with
  | label | data | unknown => simp [emitOffence?, form]
  | string literal =>
      obtain ⟨words, encoded⟩ := onLine.literal literal form
      simp [emitOffence?, form, encoded]
  | instruction operand =>
      simp only [emitOffence?, form, Item.Form.instruction.injEq, forall_eq']
      cases opcode : Opcode.ofName? it.name with
      | none => simp
      | some op =>
          simp only [Option.some.injEq, exists_eq_left']
          cases operand with
          | none => cases op.info.immediate <;> simp
          | some o =>
              cases op.info.immediate with
              | false => simp
              | true => cases value : o.value <;> simp [value]

/-- A source is well formed if no pass has an offence. -/
theorem wellFormed_iff_offences (name source : Text) (natives : NameTable) :
    WellFormed name source natives ↔
      ∀ pass, offences name source natives pass = [] := by
  have onLine : ∀ it ∈ sourceItems name source, ∃ n, it.OnLine n :=
    fun it member => sourceItems_onLine member
  constructor
  · intro wellFormed pass
    cases pass with
    | reading => exact List.filterMap_eq_nil_iff.mpr wellFormed.lines
    | layout =>
        refine (layoutOffences_eq_nil [] onLine).mpr
          ⟨⟨by simp, wellFormed.distinct⟩, ?_⟩
        exact wellFormed.mnemonics
    | linking =>
        refine List.filterMap_eq_nil_iff.mpr ?_
        intro it member
        rw [linkOffence?_eq_none]
        intro label declares
        exact wellFormed.unshadowed label
          (List.mem_filterMap.mpr ⟨it, member, declares⟩)
    | emission =>
        refine List.filterMap_eq_nil_iff.mpr ?_
        intro it member
        obtain ⟨n, line⟩ := onLine it member
        rw [emitOffence?_eq_none line]
        intro operand form
        obtain ⟨op, opcode⟩ := wellFormed.mnemonics it member operand form
        refine ⟨op, opcode,
          wellFormed.operands it member operand op form opcode, ?_⟩
        intro o equal target named
        have written : it.operand? = some o := by
          simp [Item.operand?, form, equal]
        simpa [isDefined] using wellFormed.names it member o
          target written named
  · intro offenceless
    have layout := (layoutOffences_eq_nil [] onLine).mp (offenceless .layout)
    have emission : ∀ it ∈ sourceItems name source, ∀ operand,
        it.form = .instruction operand →
        ∃ op, Opcode.ofName? it.name = some op ∧
          (operand.isSome ↔ op.info.immediate) ∧
          ∀ o, operand = some o → ∀ target, o.value = .name target →
            isDefined name source natives target = true := by
      intro it member
      obtain ⟨n, line⟩ := onLine it member
      exact (emitOffence?_eq_none line).mp
        (List.filterMap_eq_nil_iff.mp (offenceless .emission) it member)
    refine ⟨List.filterMap_eq_nil_iff.mp (offenceless .reading), layout.1.2, ?_,
      layout.2, ?_, ?_⟩
    · intro label declares
      obtain ⟨it, member, own⟩ := List.mem_filterMap.mp declares
      have clean := List.filterMap_eq_nil_iff.mp
        (offenceless .linking) it member
      exact linkOffence?_eq_none.mp clean label own
    · intro it member operand op form opcode
      obtain ⟨own, found, agree, -⟩ := emission it member operand form
      rw [opcode, Option.some.injEq] at found
      exact found ▸ agree
    · intro it member o target written named
      cases form : it.form with
      | label | data | string | unknown => simp [Item.operand?, form] at written
      | instruction operand =>
          obtain ⟨op, -, -, defined⟩ := emission it member operand form
          simp only [Item.operand?, form] at written
          simpa [isDefined] using defined o written target named

/-! ## What is reported -/

/-- The program that a source without problems is read as. -/
def sourceProgram (name source : Text) : Program :=
  ⟨name, sourceItems name source⟩

section Reports

variable {name source : Text} {natives labels : NameTable}

theorem take_maxProblems_eq_nil {problems : List Problem} :
    problems.take maxProblems = [] ↔ problems = [] := by
  simp [List.take_eq_nil_iff, maxProblems]

/-- Linking without problems leaves a table of the names that are defined. -/
theorem link_contains
    (linked : ((sourceProgram name source).link labels natives).problems = []) :
    ((sourceProgram name source).link labels natives).table.contains =
      isDefined name source natives := by
  funext target
  obtain ⟨-, table⟩ := link_get? linked target
  rw [NameTable.contains, table]
  by_cases label : target ∈ declared (sourceItems name source) <;>
    simp [isDefined, label, NameTable.contains, sourceProgram]

theorem emit_problems
    (linked : ((sourceProgram name source).link labels natives).problems = []) :
    ((sourceProgram name source).emit
      ((sourceProgram name source).link labels natives).table).problems =
        (offences name source natives .emission).take maxProblems := by
  have literals : ∀ it ∈ (sourceProgram name source).items, it.HasLiteral := by
    intro it member
    obtain ⟨n, onLine⟩ := sourceItems_onLine member
    exact onLine.literal
  rw [Program.emit, emitFrom_problems #[] literals (by decide),
    link_contains linked]
  rfl

/-- The assembler reports the first ten offences of the first pass that has
one. -/
theorem assemble_of_offences (natives : NameTable)
    (short : ∀ line ∈ sourceLines source, line.length < maxLineLength) :
    (∃ pass, (∀ earlier : Pass, earlier.ctorIdx < pass.ctorIdx →
        offences name source natives earlier = []) ∧
      offences name source natives pass ≠ [] ∧
      assemble name source natives =
        .error (.problems ((offences name source natives pass).take
          maxProblems))) ∨
    (∀ pass, offences name source natives pass = []) ∧
      ∃ assembled, assemble name source natives = .ok assembled := by
  obtain ⟨reading, result⟩ := readLines_of_short name 1 [] [] short
  have equation := assemble_of_read result natives
  dsimp only at equation
  have readProblems : reading.problems =
      (offences name source natives .reading).take maxProblems :=
    readLines_problems result (by decide)
  by_cases readable : reading.problems = []
  case neg =>
      rw [if_neg readable, readProblems] at equation
      rw [readProblems, take_maxProblems_eq_nil] at readable
      refine Or.inl ⟨.reading, ?_, readable, equation⟩
      intro earlier before
      simp [Pass.ctorIdx] at before
  have program : reading.program = sourceProgram name source :=
    readLines_program result readable
  rw [if_pos readable, program] at equation
  rw [readProblems, take_maxProblems_eq_nil] at readable
  have layoutProblems : (sourceProgram name source).layout.problems =
      (offences name source natives .layout).take maxProblems :=
    layout_problems _
  by_cases laid : (sourceProgram name source).layout.problems = []
  case neg =>
      rw [if_neg laid, layoutProblems] at equation
      rw [layoutProblems, take_maxProblems_eq_nil] at laid
      refine Or.inl ⟨.layout, ?_, laid, equation⟩
      intro earlier before
      cases earlier with
      | reading => exact readable
      | layout | linking | emission => simp [Pass.ctorIdx] at before
  rw [if_pos laid] at equation
  rw [layoutProblems, take_maxProblems_eq_nil] at laid
  have linkProblems : ((sourceProgram name source).link
      (sourceProgram name source).layout.labels natives).problems =
        (offences name source natives .linking).take maxProblems :=
    link_problems _ _ _
  by_cases linked : ((sourceProgram name source).link
      (sourceProgram name source).layout.labels natives).problems = []
  case neg =>
      rw [if_neg linked, linkProblems] at equation
      rw [linkProblems, take_maxProblems_eq_nil] at linked
      refine Or.inl ⟨.linking, ?_, linked, equation⟩
      intro earlier before
      cases earlier with
      | reading => exact readable
      | layout => exact laid
      | linking | emission => simp [Pass.ctorIdx] at before
  rw [if_pos linked, emit_problems linked] at equation
  rw [linkProblems, take_maxProblems_eq_nil] at linked
  by_cases emitted : offences name source natives .emission = []
  case neg =>
      rw [if_neg (mt take_maxProblems_eq_nil.mp emitted)] at equation
      refine Or.inl ⟨.emission, ?_, emitted, equation⟩
      intro earlier before
      cases earlier with
      | reading => exact readable
      | layout => exact laid
      | linking => exact linked
      | emission => simp [Pass.ctorIdx] at before
  rw [if_pos (take_maxProblems_eq_nil.mpr emitted)] at equation
  refine Or.inr ⟨?_, _, equation⟩
  intro pass
  cases pass with
  | reading => exact readable
  | layout => exact laid
  | linking => exact linked
  | emission => exact emitted

end Reports

theorem offences_before (name source : Text) (natives : NameTable)
    (pass : Pass) :
    (offences name source natives pass).Pairwise fun a b =>
      a.pos.Before b.pos := by
  have precedes := sourceItems_precedes name source
  cases pass with
  | reading => exact readingsFrom_problems_before name _ 1
  | layout => exact layoutOffences_before [] precedes
  | linking => exact linkOffences_before natives precedes
  | emission =>
      exact emitOffences_before _ precedes fun it member =>
        sourceItems_onLine member

/-- The assembler accepts exactly the well-formed sources.  For any other source
with lines of a readable length it reports, of the first pass that has offences,
the first ten of them; their positions strictly increase. -/
theorem assemble_iff_wellFormed (name source : Text) (natives : NameTable)
    (short : ∀ line ∈ sourceLines source, line.length < maxLineLength) :
    ((∃ assembled, assemble name source natives = .ok assembled) ↔
      WellFormed name source natives) ∧
    (¬ WellFormed name source natives →
      ∃ pass, (∀ earlier : Pass, earlier.ctorIdx < pass.ctorIdx →
          offences name source natives earlier = []) ∧
        offences name source natives pass ≠ [] ∧
        assemble name source natives =
          .error (.problems ((offences name source natives pass).take
            maxProblems)) ∧
        ((offences name source natives pass).take maxProblems).Pairwise
          fun a b => a.pos.Before b.pos) := by
  rw [wellFormed_iff_offences]
  rcases assemble_of_offences natives short with
    ⟨pass, earlier, offended, failed⟩ | ⟨offenceless, assembled, accepted⟩
  · refine ⟨?_, ?_⟩
    · constructor
      · rintro ⟨assembled, accepted⟩
        rw [failed] at accepted
        cases accepted
      · intro offenceless
        exact absurd (offenceless pass) offended
    · intro _
      have ordered := offences_before name source natives pass
      exact ⟨pass, earlier, offended, failed,
        ordered.sublist (List.take_sublist _ _)⟩
  · exact ⟨⟨fun _ => offenceless, fun _ => ⟨assembled, accepted⟩⟩,
      fun offended => absurd offenceless offended⟩

/-- Two lines that offend in the last pass: an unknown name and an operand too
many. -/
theorem assemble_iff_wellFormed_two_offences :
    ¬ WellFormed [] (Text.ofString "jump nowhere\nnoop 5\n") .empty ∧
      ∃ pass, assemble [] (Text.ofString "jump nowhere\nnoop 5\n") .empty =
          .error (.problems
            ((offences [] (Text.ofString "jump nowhere\nnoop 5\n")
              .empty pass).take maxProblems)) ∧
        (offences [] (Text.ofString "jump nowhere\nnoop 5\n") .empty
          .emission).map Problem.pos = [⟨[], 1, 6⟩, ⟨[], 2, 6⟩] := by
  have short : ∀ line ∈ sourceLines (Text.ofString "jump nowhere\nnoop 5\n"),
      line.length < maxLineLength := by
    decide
  obtain ⟨accepts, reports⟩ := assemble_iff_wellFormed [] _ .empty short
  have offending : ¬ WellFormed []
      (Text.ofString "jump nowhere\nnoop 5\n") .empty := by
    rw [← accepts]
    rintro ⟨assembled, accepted⟩
    cases accepted
  obtain ⟨pass, -, -, failed, -⟩ := reports offending
  exact ⟨offending, pass, failed, rfl⟩

end WordMachine.Assembly
